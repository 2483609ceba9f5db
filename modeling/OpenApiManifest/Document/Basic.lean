import OpenApiManifest.Document.Operation
import OpenApiManifest.Document.SecurityScheme

/-!
# Documents

A document read into a model.  It owns every schema, parameter and response in it, and it is what
references are looked up in.
-/

namespace OpenApiManifest

/-- The methods of operations. -/
inductive Method where
  | get | put | post | delete | options | head | patch | trace
  deriving DecidableEq, Repr

namespace Method

/-- The methods in the order in which the operations of a path are listed. -/
def all : List Method :=
  [.get, .put, .post, .delete, .options, .head, .patch, .trace]

def name : Method → String
  | .get => "GET"
  | .put => "PUT"
  | .post => "POST"
  | .delete => "DELETE"
  | .options => "OPTIONS"
  | .head => "HEAD"
  | .patch => "PATCH"
  | .trace => "TRACE"

/-- The key under which the operation with a method stands in its path. -/
def key : Method → String
  | .get => "get"
  | .put => "put"
  | .post => "post"
  | .delete => "delete"
  | .options => "options"
  | .head => "head"
  | .patch => "patch"
  | .trace => "trace"

/-- The method that is written in some way. -/
def ofName? (name : String) : Option Method :=
  all.find? fun m => decide (m.name = name)

end Method

/-- A path with its operations. -/
structure PathItem where
  summary : Option String
  description : Option String
  servers : List Server
  /-- The parameters that all operations of the path share. -/
  parameters : List (Slot Parameter)
  operations : List (Method × Operation)

namespace PathItem

/-- Reads those of some methods that a path has an operation for. -/
def readOperations (document : DocumentId) (fields : Fields) :
    List Method → Except ModelError (List (Method × Operation))
  | [] => .ok []
  | method :: rest =>
    match fields.get? method.key with
    | none => readOperations document fields rest
    | some value => do
      let operation ← Operation.read document value (fields.childPointer method.key)
      let others ← readOperations document fields rest
      return (method, operation) :: others

/-- Reads a path, which cannot be a reference. -/
def read (document : DocumentId) (value : Json) (pointer : String) :
    Except ModelError PathItem := do
  let fields ← Fields.ofJson value pointer
  if fields.has "$ref" then
    throw (.malformed pointer .pathItemReference)
  let operations ← readOperations document fields Method.all
  return {
    summary := ← fields.string? "summary"
    description := ← fields.string? "description"
    servers := ← Server.readAll fields
    parameters := ← Parameter.readAll document fields
    operations }

end PathItem

/-- The components of a document, by section. -/
structure Components where
  schemas : Entries SchemaSlot
  parameters : Entries (Slot Parameter)
  responses : Entries (Slot Response)
  securitySchemes : Entries (Slot SecurityScheme)

namespace Components

def empty : Components := ⟨[], [], [], []⟩

def read (document : DocumentId) (value : Json) (pointer : String) :
    Except ModelError Components := do
  let fields ← Fields.ofJson value pointer
  return {
    schemas := ← fields.table "schemas" fun name => Schema.read document (some name)
    parameters := ← fields.table "parameters" fun _ => Parameter.read document
    responses := ← fields.table "responses" fun _ => Response.read document
    securitySchemes := ← fields.table "securitySchemes" fun _ => SecurityScheme.read document }

end Components

/-- A document read into a model. -/
structure Document where
  id : DocumentId
  openapi : String
  info : Info
  servers : List Server
  paths : Entries PathItem
  components : Components
  tags : List Tag
  externalDocs : Option ExternalDocs
  security : Option (List SecurityRequirement)
  extensions : Entries Json

namespace Document

/-- Whether a version of the description format is understood. -/
def isSupported (version : String) : Bool :=
  ['3', '.'].isPrefixOf version.toList

/-- Reads the paths of a document; keys of extensions are no paths. -/
def readPaths (document : DocumentId) (fields : Fields) :
    Except ModelError (Entries PathItem) := do
  match ← fields.object? "paths" with
  | none => return []
  | some entries =>
    Fields.eachEntry (fun _ => PathItem.read document) (fields.childPointer "paths")
      (entries.filter fun entry => !Fields.isExtension entry.1)

def read (id : DocumentId) (value : Json) : Except ModelError Document := do
  let fields ← Fields.ofJson value "#"
  let openapi ← fields.string "openapi"
  if !isSupported openapi then
    throw (.malformed (fields.childPointer "openapi") (.unsupportedVersion openapi))
  let info ← match fields.get? "info" with
    | some value => Info.read value (fields.childPointer "info")
    | none => .error (.malformed "#" (.missingField "info"))
  let paths ← readPaths id fields
  let components ← fields.optional "components" (Components.read id)
  let tags ← fields.items "tags" Tag.read
  return {
    id
    openapi
    info
    servers := ← Server.readAll fields
    paths
    components := components.getD .empty
    tags
    externalDocs := ← ExternalDocs.readField fields
    security := ← SecurityRequirement.readAll fields
    extensions := fields.extensions }

/-- The schema that the components hold under a name. -/
def schema? (document : Document) (name : String) : Option SchemaSlot :=
  Entries.get? name document.components.schemas

end Document

end OpenApiManifest
