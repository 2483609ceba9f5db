import OpenApiManifest.Document.Basic
import OpenApiManifest.Registry.Basic
import OpenApiManifest.Types.TypeRef

/-!
# The manifest

Everything that a generator needs to know to emit a client for each version of an interface.
-/

namespace OpenApiManifest

/-- A parameter of an operation in the manifest. -/
structure ParameterEntry where
  name : String
  attributeName : String
  location : ParameterLocation
  required : Bool
  type : TypeRef
  collectionFormat : Option CollectionFormat
  description : Option String
  default : Option Json

/-- An operation in the manifest. -/
structure MethodEntry where
  operationId : String
  methodName : String
  method : Method
  path : String
  summary : Option String
  description : Option String
  deprecated : Bool
  parameters : List ParameterEntry
  accept : List String
  returnType : Option TypeRef

/-- A group of operations in the manifest. -/
structure ApiEntry where
  /-- The tag of the group; the operations without tags have none. -/
  tag : Option String
  description : Option String
  moduleName : String
  className : String
  operations : List MethodEntry

/-- A property of a model in the manifest. -/
structure PropertyEntry where
  attributeName : String
  type : TypeRef
  required : Bool
  description : Option String
  default : Option Json

/-- A model in the manifest. -/
structure ModelEntry where
  kind : SchemaTag
  moduleName : String
  origin : Origin
  type : TypeRef
  description : Option String
  properties : Entries PropertyEntry
  additionalProperties : Option TypeRef
  enumValues : List EnumValue
  oneOf : List TypeRef
  unionParameters : Entries TypeRef
  references : List String
  choiceMembers : List String
  default : Option Json

/-- One version in the manifest. -/
structure VersionManifest where
  info : Info
  servers : List Server
  apis : List ApiEntry
  models : Entries ModelEntry
  cycles : List (List String)

/-- The versions in the order in which they were given. -/
structure Manifest where
  versions : Entries VersionManifest

end OpenApiManifest
