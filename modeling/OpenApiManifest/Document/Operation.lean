import OpenApiManifest.Document.Metadata
import OpenApiManifest.Document.Parameter

/-!
# Operations

An operation of a path: its parameters, the body of its request, and its responses.
-/

namespace OpenApiManifest

/-- What a body or a response looks like under one media type. -/
structure MediaType where
  schema : Option SchemaSlot
  sample : Option Json

namespace MediaType

def read (document : DocumentId) (value : Json) (pointer : String) :
    Except ModelError MediaType := do
  let fields ← Fields.ofJson value pointer
  let schema ← fields.optional "schema" (Schema.read document none)
  return { schema, sample := fields.get? "example" }

/-- Reads the content of an object, keyed by media types. -/
def readContent (document : DocumentId) (fields : Fields) :
    Except ModelError (Entries MediaType) :=
  fields.table "content" fun _ => read document

def schemas (content : Entries MediaType) : List SchemaSlot :=
  content.values.filterMap MediaType.schema

/-- The schema of the first media type that declares one. -/
def firstSchema? (content : Entries MediaType) : Option SchemaSlot :=
  (schemas content).head?

end MediaType

/-- The body of a request. -/
structure RequestBody where
  content : Entries MediaType
  description : Option String
  required : Bool

namespace RequestBody

/-- Reads a body, which cannot be a reference. -/
def read (document : DocumentId) (value : Json) (pointer : String) :
    Except ModelError RequestBody := do
  let fields ← Fields.ofJson value pointer
  if fields.has "$ref" then
    throw (.malformed pointer .requestBodyReference)
  return {
    content := ← MediaType.readContent document fields
    description := ← fields.string? "description"
    required := ← fields.flag "required" }

end RequestBody

/-- A response of an operation. -/
structure Response where
  description : Option String
  content : Entries MediaType

namespace Response

/-- Reads a response from the fields of its object. -/
def readFields (document : DocumentId) (fields : Fields) : Except ModelError Response := do
  return {
    description := ← fields.string? "description"
    content := ← MediaType.readContent document fields }

/-- Reads a response or a reference to one. -/
def read (document : DocumentId) (value : Json) (pointer : String) :
    Except ModelError (Slot Response) :=
  Slot.read document value pointer (readFields document)

end Response

/-- An operation of a path. -/
structure Operation where
  tags : List String
  summary : Option String
  description : Option String
  operationId : Option String
  parameters : List (Slot Parameter)
  requestBody : Option RequestBody
  /-- Keyed by status code or `default`, in the order of the document. -/
  responses : Entries (Slot Response)
  deprecated : Bool
  servers : List Server
  security : Option (List SecurityRequirement)
  externalDocs : Option ExternalDocs
  extensions : Entries Json

namespace Operation

def read (document : DocumentId) (value : Json) (pointer : String) :
    Except ModelError Operation := do
  let fields ← Fields.ofJson value pointer
  let parameters ← Parameter.readAll document fields
  let requestBody ← fields.optional "requestBody" (RequestBody.read document)
  let responses ← fields.table "responses" fun _ => Response.read document
  return {
    tags := ← fields.strings "tags"
    summary := ← fields.string? "summary"
    description := ← fields.string? "description"
    operationId := ← fields.string? "operationId"
    parameters
    requestBody
    responses
    deprecated := ← fields.flag "deprecated"
    servers := ← Server.readAll fields
    security := ← SecurityRequirement.readAll fields
    externalDocs := ← ExternalDocs.readField fields
    extensions := fields.extensions }

end Operation

end OpenApiManifest
