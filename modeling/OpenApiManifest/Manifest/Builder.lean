import OpenApiManifest.Document.EffectiveParameter
import OpenApiManifest.Manifest.Basic
import OpenApiManifest.Manifest.Statistics
import OpenApiManifest.Registry.Polymorphic
import OpenApiManifest.Text.Lowercase
import OpenApiManifest.Types.Mapper

/-!
# Building the manifest of a version

The operations of a document by group, and the models of a registry, each described for a generator.
-/

namespace OpenApiManifest

/-- Whether a segment of a path stands for a value: it is in braces. -/
def isPlaceholder (segment : List Char) : Bool :=
  segment.head? = some '\x7b' && segment.getLast? = some '\x7d'

/-- The id of an operation that is given none: its method and the segments of its path. -/
def fallbackOperationId (method path : String) : String :=
  let segments := (path.toList.splitOn '/').filter fun segment => !segment.isEmpty
  let words := segments.map fun segment =>
    if isPlaceholder segment then "by_id" else String.ofList segment
  String.intercalate "_" (Lowercase.text method :: words)

def OperationEntry.operationId (entry : OperationEntry) : String :=
  entry.operation.operationId.getD (fallbackOperationId entry.method.name entry.path)

/-- The name of the class of a group of operations. -/
def apiClassName [Spelling] (group : Option String) : String :=
  match group with
  | some tag => Naming.pascalCase tag ++ "Api"
  | none => "DefaultApi"

/-- What the entries of a manifest depend on. -/
structure Builder where
  version : String
  mapper : Mapper
  reserved : ReservedWords

namespace Builder

def document (builder : Builder) : Document :=
  builder.mapper.document

/-- The warnings about parameters of an operation that have no schema. -/
def parameterWarnings (builder : Builder) (operationId : String) (slots : List (Slot Parameter)) :
    Run (List Warning) :=
  slots.foldlM (fun warnings slot => do
    let parameter ← slot.resolve builder.document
    if parameter.schema.isNone then
      return warnings
        ++ [.parameterWithoutSchema builder.version operationId parameter.name]
    else return warnings) []

variable [Spelling]

def parameter (builder : Builder) (p : EffectiveParameter) : Run ParameterEntry := do
  let schema ← p.schema.resolve builder.document
  return {
    name := p.name
    attributeName := builder.reserved.attributeName p.name
    location := p.location
    required := p.required
    type := ← builder.mapper.slotType p.schema none
    collectionFormat := ← p.collectionFormat builder.document
    description := p.description
    default := schema.default? }

/-- Describes an operation, with the warnings about it. -/
def operation (builder : Builder) (entry : OperationEntry) :
    Run (MethodEntry × List Warning) := do
  let operationId := entry.operationId
  let warnings ← builder.parameterWarnings operationId
    (entry.item.parameters ++ entry.operation.parameters)
  let parameters ← (← entry.effectiveParameters builder.document).mapM builder.parameter
  let accept ← entry.operation.accepted builder.document
  let acceptWarnings :=
    if accept = ["*/*"] then [Warning.acceptsAnything builder.version operationId] else []
  let returnType ← match ← entry.operation.returned builder.document with
    | some slot => some <$> builder.mapper.slotType slot none
    | none => pure none
  return ({
    operationId
    methodName := builder.reserved.attributeName operationId
    method := entry.method
    path := entry.path
    summary := entry.operation.summary
    description := entry.operation.description
    deprecated := entry.operation.deprecated
    parameters
    accept
    returnType }, warnings ++ acceptWarnings)

/-- Describes a group of operations, with the warnings about them. -/
def api (builder : Builder) (group : Option String) (entries : List OperationEntry) :
    Run (ApiEntry × List Warning) := do
  let described ← entries.mapM builder.operation
  let tag := group.bind fun name => Entries.get? name builder.document.tagsByName
  return ({
    tag := group
    description := tag.bind Tag.description
    moduleName := Naming.moduleName (groupName group)
    className := apiClassName group
    operations := described.map Prod.fst }, described.flatMap Prod.snd)

def apis (builder : Builder) (statistics : Statistics) : Run (List ApiEntry × Statistics) :=
  builder.document.operationGroups.foldlM (fun (apis, statistics) (group, entries) => do
    let (api, warnings) ← builder.api group entries
    return (apis ++ [api], (statistics.warn warnings).countGroup api.operations.length))
    ([], statistics)

/-- Describes a property of a model, with the warning about it. -/
def property (builder : Builder) (model : String) (flattened : Flattened)
    (property : String × SchemaSlot) : Run ((String × PropertyEntry) × List Warning) := do
  let parent := (flattened.declaring? property.1).getD model
  let type ← builder.mapper.propertyType parent property.1 property.2
  let warnings :=
    if type.isAnyMap then [Warning.opaqueProperty builder.version model property.1] else []
  let schema ← property.2.resolve builder.document
  return ((property.1, {
    attributeName := builder.reserved.attributeName property.1
    type
    required := flattened.requires property.1
    description := schema.info.description
    default := schema.default? }), warnings)

/-- The properties of a model. -/
structure Properties where
  properties : Entries PropertyEntry
  additional : Option TypeRef
  warnings : List Warning

/-- Describes the properties of a model, which objects and compositions have. -/
def properties (builder : Builder) (model : String) (schema : Schema) : Run Properties := do
  if schema.tag = .object ∨ schema.tag = .allOf then
    let flattened ← schema.flatten builder.document
    let described ← flattened.properties.mapM (builder.property model flattened)
    let additional ← match flattened.additional.bind AdditionalProperties.slot? with
      | some slot => some <$> builder.mapper.slotType slot none
      | none => pure none
    return ⟨described.map Prod.fst, additional, described.flatMap Prod.snd⟩
  else return ⟨[], none, []⟩

/-- Describes a model, with the warnings about it. -/
def model (builder : Builder) (name : String) (registered : Registered) :
    Run (ModelEntry × List Warning) := do
  let schema := registered.schema
  let described ← builder.properties name schema
  let isUnion := decide (schema.tag = .oneOf)
  let oneOf ← if isUnion then builder.mapper.unionMembers schema else pure []
  let unionParameters ← if isUnion then builder.mapper.unionParameters schema else pure []
  return ({
    kind := schema.tag
    moduleName := Naming.moduleName name
    origin := registered.origin
    type := ← builder.mapper.modelType name schema
    description := schema.info.description
    properties := described.properties
    additionalProperties := described.additional
    enumValues := schema.enumValues?.getD []
    oneOf := oneOf.map UnionMember.type
    unionParameters
    references := ← builder.mapper.references name schema
    choiceMembers := ← schema.choiceMembers builder.document builder.mapper.listModels name
    default := schema.default? }, described.warnings)

def models (builder : Builder) (registry : Registry) (statistics : Statistics) :
    Run (Entries ModelEntry × Statistics) :=
  registry.models.foldlM (fun (models, statistics) (name, registered) => do
    let (model, warnings) ← builder.model name registered
    return (models ++ [(name, model)], (statistics.countModel model.kind).warn warnings))
    ([], statistics)

/-- Describes a version, and counts what is in it. -/
def build (builder : Builder) (registry : Registry) (cycles : List (List String)) :
    Run (VersionManifest × Statistics) := do
  let (apis, statistics) ← builder.apis Statistics.none.countVersion
  let (models, statistics) ← builder.models registry statistics
  return ({
    info := builder.document.info
    servers := builder.document.servers
    apis
    models
    cycles }, statistics.addCycles cycles)

end Builder

end OpenApiManifest
