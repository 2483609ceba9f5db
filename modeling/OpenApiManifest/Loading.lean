import OpenApiManifest.Json.Reader
import OpenApiManifest.PathName
import OpenApiManifest.Settings
import OpenApiManifest.Yaml.Reader

/-!
# Loading documents

The format of a document and the version that it describes are told by its path: the format by the
extension, and the version by the name of the directory in which the document stands.
-/

namespace OpenApiManifest

/-- The formats in which a document may be written. -/
inductive DocumentFormat where
  | json | yaml
  deriving DecidableEq, Repr

namespace DocumentFormat

def name : DocumentFormat → String
  | .json => "JSON"
  | .yaml => "YAML"

/-- The format that an extension stands for, in upper or lower case. -/
def ofExtension (extension : String) : DocumentFormat :=
  if extension.toLower ∈ ["yaml", "yml"] then .yaml else .json

/-- The format of the document at a path. -/
def ofPath (path : String) : DocumentFormat :=
  match (PathName.fileName? (PathName.parts path)).bind PathName.extension? with
  | some extension => ofExtension extension
  | none => .json

end DocumentFormat

/-- The version that the document at a path describes. -/
def apiVersion? (path : String) : Option String :=
  (PathName.parent? (PathName.parts path)).bind PathName.fileName?

/-- Why a file cannot be used. -/
inductive FileFault where
  | notFound
  | exists
  | notDirectory
  | isDirectory
  | noDevice
  | denied
  | other (text : String)
  deriving DecidableEq, Repr

namespace FileFault

def message : FileFault → String
  | .notFound => "No such file or directory (os error 2)"
  | .exists => "File exists (os error 17)"
  | .notDirectory => "Not a directory (os error 20)"
  | .isDirectory => "Is a directory (os error 21)"
  | .noDevice => "No such device (os error 19)"
  | .denied => "Permission denied (os error 13)"
  | .other text => text

end FileFault

/-- Why a document or the settings cannot be loaded. -/
inductive LoadFault where
  /-- The path does not tell a version. -/
  | noVersion (path : String)
  | notOpened (path : String) (fault : FileFault)
  | malformed (path : String) (format : DocumentFormat) (text : String)
  | settingsNotRead (path : String) (fault : FileFault)
  | settingsInvalid (path : String) (text : String)
  deriving DecidableEq, Repr

namespace LoadFault

/-- The messages of a fault, from the outermost to its first cause. -/
def chain : LoadFault → List String
  | .noVersion path =>
    ["cannot derive an API version from " ++ path ++ ": no parent directory"]
  | .notOpened path fault =>
    ["failed to open " ++ path,
      path ++ ": unable to open file: " ++ fault.message ++ ": IO error",
      fault.message ++ ": IO error",
      fault.message]
  | .malformed path _ text => ["failed to parse " ++ path, text]
  | .settingsNotRead path fault => ["failed to read config " ++ path, fault.message]
  | .settingsInvalid path text => ["invalid config " ++ path, text]

end LoadFault

/-- The version that the document at a path describes, or else a fault. -/
def apiVersion (path : String) : Except LoadFault String :=
  match apiVersion? path with
  | some version => .ok version
  | none => .error (.noVersion path)

/-- Reads the document at a path from its bytes. -/
def readDocument (path : String) (bytes : List UInt8) : Except LoadFault Json :=
  match DocumentFormat.ofPath path with
  | .json =>
    (Json.read bytes).mapError fun fault => .malformed path .json (fault.message bytes)
  | .yaml => (Yaml.read bytes).mapError fun problem => .malformed path .yaml problem.message

/-- Reads the settings at a path from their bytes. -/
def readSettings (path : String) (bytes : List UInt8) : Except LoadFault Settings :=
  (Settings.read bytes).mapError fun fault => .settingsInvalid path (fault.message bytes)

end OpenApiManifest
