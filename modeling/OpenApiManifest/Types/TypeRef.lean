import OpenApiManifest.Schema.Basic

/-!
# Types

A type names a scalar, a container or a model, without the spelling of any target language.
-/

namespace OpenApiManifest

/-- A type of a generated client. -/
inductive TypeRef where
  | model (name : String)
  | int
  | float
  | text
  | dateTime
  | file
  | uuid
  | bool
  | list (items : TypeRef)
  | map (values : TypeRef)
  /-- An object of which neither properties nor values are known. -/
  | anyMap
  /-- Any value at all. -/
  | any
  | union (members : List TypeRef)
  | nullable (type : TypeRef)
  deriving Repr, Inhabited

namespace TypeRef

/-- The name of the model that a type is. -/
def model? : TypeRef → Option String
  | .model name => some name
  | _ => none

/-- Whether a type is the map of which nothing is known. -/
def isAnyMap : TypeRef → Bool
  | .anyMap => true
  | _ => false

/-- A type that admits null if the flag says so. -/
def nullableIf (nullable : Bool) (type : TypeRef) : TypeRef :=
  if nullable then .nullable type else type

mutual
def write : TypeRef → String
  | .model name => name
  | .int => "int"
  | .float => "float"
  | .text => "text"
  | .dateTime => "datetime"
  | .file => "file"
  | .uuid => "uuid"
  | .bool => "bool"
  | .list items => "list<" ++ write items ++ ">"
  | .map values => "map<string, " ++ write values ++ ">"
  | .anyMap => "map<string, any>"
  | .any => "any"
  | .union members => "union<" ++ String.intercalate ", " (writeAll members) ++ ">"
  | .nullable type => "nullable<" ++ write type ++ ">"

def writeAll : List TypeRef → List String
  | [] => []
  | type :: rest => write type :: writeAll rest
end

mutual
/-- The models named in a type, from the left, with repetitions. -/
def models : TypeRef → List String
  | .model name => [name]
  | .list items => models items
  | .map values => models values
  | .nullable type => models type
  | .union members => modelsOfAll members
  | .int => []
  | .float => []
  | .text => []
  | .dateTime => []
  | .file => []
  | .uuid => []
  | .bool => []
  | .anyMap => []
  | .any => []

def modelsOfAll : List TypeRef → List String
  | [] => []
  | type :: rest => models type ++ modelsOfAll rest
end

/-- The distinct models named in a type, in the order in which they are first named. -/
def distinctModels (type : TypeRef) : List String :=
  OrderedSet.ofList type.models

/-- The type of a scalar, by its declared type and format. -/
def ofScalar (type : Option SchemaType) (format : Option String) : TypeRef :=
  match type with
  | none => .any
  | some .integer => .int
  | some .number => .float
  | some .boolean => .bool
  | some .string =>
    match format with
    | some "date" | some "date-time" => .dateTime
    | some "binary" => .file
    | some "uuid" => .uuid
    | _ => .text
  | some .array => .list .any
  | some .object => .anyMap

end TypeRef

end OpenApiManifest
