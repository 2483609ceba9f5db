import OpenApiManifest.Schema.Flatten

/-!
# Effective parameters

The parameters that a call of an operation takes: those declared for its path and for itself, and
those made from the body of its request.
-/

namespace OpenApiManifest

/-- A parameter that a call takes. -/
structure EffectiveParameter where
  name : String
  location : ParameterLocation
  schema : SchemaSlot
  required : Bool
  description : Option String
  deprecated : Bool
  style : Option ParameterStyle
  explode : Option Bool
  sample : Option Json
  /-- Whether the parameter is made from the body of the request. -/
  synthesized : Bool

/-- The format of a parameter that is an array; parameters of other types have none. -/
def CollectionFormat.ofSlot (document : Document) (schema : SchemaSlot)
    (location : ParameterLocation) (style : Option ParameterStyle) (explode : Option Bool) :
    Run (Option CollectionFormat) := do
  let resolved ← schema.resolve document
  if resolved.items?.isSome then return some (.ofStyle location style explode) else return none

namespace Parameter

def collectionFormat (document : Document) (parameter : Parameter) :
    Run (Option CollectionFormat) :=
  match parameter.schema with
  | some schema =>
    CollectionFormat.ofSlot document schema parameter.location parameter.style parameter.explode
  | none => return none

/-- A declared parameter as one that a call takes. -/
def effective (parameter : Parameter) (schema : SchemaSlot) : EffectiveParameter :=
  { parameter with schema, synthesized := false }

end Parameter

namespace EffectiveParameter

def collectionFormat (document : Document) (parameter : EffectiveParameter) :
    Run (Option CollectionFormat) :=
  CollectionFormat.ofSlot document parameter.schema parameter.location parameter.style parameter.explode

def declared (document : Document) (slots : List (Slot Parameter)) :
    Run (List EffectiveParameter) :=
  slots.foldlM (fun parameters slot => do
    let parameter ← slot.resolve document
    match parameter.schema with
    | some schema => return parameters ++ [parameter.effective schema]
    | none => return parameters) []

/-- Puts a parameter in the place of the first one of its location and name, or at the end. -/
def override (parameter : EffectiveParameter) : List EffectiveParameter → List EffectiveParameter
  | [] => [parameter]
  | first :: rest =>
    if first.location = parameter.location ∧ first.name = parameter.name then parameter :: rest
    else first :: override parameter rest

/-- The media type of bodies that are forms with a part for each property. -/
def formMediaType : String := "multipart/form-data"

/-- The parameter that stands for a property of a form. -/
def ofFormProperty (document : Document) (body : RequestBody) (form : Flattened)
    (property : String × SchemaSlot) : Run EffectiveParameter := do
  let schema ← property.2.resolve document
  return {
    name := property.1
    location := .form
    schema := property.2
    required := form.requires property.1
    description := body.description.or schema.info.description
    deprecated := schema.info.deprecated
    style := none
    explode := none
    sample := none
    synthesized := true }

/-- The parameter that stands for a whole body. -/
def ofBody (body : RequestBody) (schema : SchemaSlot) : EffectiveParameter :=
  { name := "body"
    location := .body
    schema
    required := body.required
    description := body.description
    deprecated := false
    style := none
    explode := none
    sample := none
    synthesized := true }

/-- The parameters made from a body: one for each property of a form, and otherwise one for the first
schema. -/
def ofRequestBody (document : Document) (body : RequestBody) : Run (List EffectiveParameter) := do
  match Entries.get? formMediaType body.content with
  | some form =>
    match form.schema with
    | none => return []
    | some slot =>
      let flattened ← (← slot.resolve document).flatten document
      flattened.properties.mapM (ofFormProperty document body flattened)
  | none => return ((MediaType.firstSchema? body.content).map (ofBody body)).toList

end EffectiveParameter

namespace Operation

/-- The parameters made from the body of an operation, if it has one. -/
def bodyParameters (document : Document) (operation : Operation) :
    Run (List EffectiveParameter) :=
  match operation.requestBody with
  | some body => EffectiveParameter.ofRequestBody document body
  | none => return []

/-- The parameters of an operation by itself, without those of its path. -/
def effectiveParameters (document : Document) (operation : Operation) :
    Run (List EffectiveParameter) := do
  let declared ← EffectiveParameter.declared document operation.parameters
  return declared ++ (← operation.bodyParameters document)

/-- The media types that a call accepts: those of all responses in order, or anything at all if one
response has no content. -/
def accepted (document : Document) (operation : Operation) : Run (List String) :=
  go operation.responses.values []
where
  /-- The media types of some responses after those seen before. -/
  go : List (Slot Response) → List String → Run (List String)
    | [], seen => return seen
    | slot :: rest, seen => do
      let response ← slot.resolve document
      if response.content.isEmpty then return ["*/*"]
      else go rest (OrderedSet.addAll response.content.keys seen)

/-- The schema of what a call returns: the first one of the first response. -/
def returned (document : Document) (operation : Operation) : Run (Option SchemaSlot) := do
  match operation.responses.values with
  | [] => return none
  | slot :: _ => return MediaType.firstSchema? (← slot.resolve document).content

end Operation

/-- An operation together with where it is declared. -/
structure OperationEntry where
  path : String
  method : Method
  item : PathItem
  operation : Operation

namespace OperationEntry

/-- The parameters of the path, overridden by those of the operation, and then those made from the
body. -/
def effectiveParameters (document : Document) (entry : OperationEntry) :
    Run (List EffectiveParameter) := do
  let ofPath ← EffectiveParameter.declared document entry.item.parameters
  let ofOperation ← EffectiveParameter.declared document entry.operation.parameters
  let merged := ofOperation.foldl (fun parameters p => p.override parameters) ofPath
  return merged ++ (← entry.operation.bodyParameters document)

/-- The tag that groups an operation: its first one. -/
def group (entry : OperationEntry) : Option String :=
  entry.operation.tags.head?

end OperationEntry

/-- How the group of operations with a tag, or of those without any, is called. -/
def groupName (group : Option String) : String :=
  group.getD "<untagged>"

namespace Document

/-- The operations in the order of the document, those of one path in the order of the methods. -/
def operations (document : Document) : List OperationEntry :=
  document.paths.flatMap fun (path, item) =>
    item.operations.map fun (method, operation) => { path, method, item, operation }

/-- Adds an operation to the group of its tag, which is put at the end if it is new. -/
def addToGroup (entry : OperationEntry) :
    List (Option String × List OperationEntry) → List (Option String × List OperationEntry)
  | [] => [(entry.group, [entry])]
  | (group, entries) :: rest =>
    if group = entry.group then (group, entries ++ [entry]) :: rest
    else (group, entries) :: addToGroup entry rest

/-- The operations by their first tag; groups stand in the order in which they are first met. -/
def operationGroups (document : Document) : List (Option String × List OperationEntry) :=
  document.operations.foldl (fun groups entry => addToGroup entry groups) []

/-- The tags by name; of several tags with one name the last one counts. -/
def tagsByName (document : Document) : Entries Tag :=
  .ofList (document.tags.map fun tag => (tag.name, tag))

end Document

end OpenApiManifest
