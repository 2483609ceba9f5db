import OpenApiManifest.Naming
import OpenApiManifest.Registry.Basic
import OpenApiManifest.Schema.Flatten
import OpenApiManifest.Types.TypeRef

/-!
# Types of schemas

The type of a schema in one document, given which named arrays are models of their own.  A schema
that is emitted as a model has that model for its type; a nameless one that becomes a model takes the
name that its position gives it; anything else is spelled out.
-/

namespace OpenApiManifest

/-- What types of schemas depend on: the document, and the named arrays that are models. -/
structure Mapper where
  document : Document
  listModels : List String

/-- A member of a choice: its type, and its model if it has one. -/
structure UnionMember where
  type : TypeRef
  model : Option String

namespace Mapper

def isListModel (mapper : Mapper) (name : String) : Bool :=
  name ∈ mapper.listModels

/-- Whether a schema is emitted as a model under its own name. -/
def emits (mapper : Mapper) (schema : Schema) : Bool :=
  match schema.name? with
  | some name => schema.isEmitted mapper.listModels name
  | none => false

variable [Spelling]

mutual
/-- The type of a schema; `candidate` is the name of its model, should it be nameless and become
one. -/
def schemaType (mapper : Mapper) : Nat → Schema → Option String → Run TypeRef
  | 0, _, _ => .outOfSteps
  | steps + 1, schema, candidate =>
    if mapper.emits schema then return .model (schema.name?.getD "")
    else
      match schema.onlyMember? with
      | some member => do
        schemaType mapper steps (← member.resolve mapper.document) candidate
      | none =>
        match schema.name?, candidate, schema.wantsName with
        | none, some name, true => return .model name
        | _, _, _ =>
          match schema.kind with
          | .primitive type _ =>
            return .ofScalar (type.map PrimitiveType.type) schema.info.format
          | .enum _ | .anyOf _ => return .ofScalar schema.type? schema.info.format
          | .array items _ _ =>
            return .list (← valueType mapper steps items
              ((schema.name?.map Naming.itemName).or candidate))
          | .object _ _ (.schema value) => return .map (← valueType mapper steps value none)
          | .object .. => return .anyMap
          | .oneOf members =>
            return .union ((← members.mapM (unionMember mapper steps)).map UnionMember.type)
          | .allOf _ => return .anyMap

/-- The type of the items or values at a position, which admits null if the schema there does. -/
def valueType (mapper : Mapper) : Nat → SchemaSlot → Option String → Run TypeRef
  | 0, _, _ => .outOfSteps
  | steps + 1, slot, candidate => do
    let schema ← slot.resolve mapper.document
    return (← schemaType mapper steps schema candidate).nullableIf schema.info.nullable

/-- A member of a choice.  Named objects and listed arrays are models, anything else is spelled
out. -/
def unionMember (mapper : Mapper) : Nat → SchemaSlot → Run UnionMember
  | 0, _ => .outOfSteps
  | steps + 1, slot => do
    let member ← slot.resolve mapper.document
    match member.name? with
    | some name =>
      if member.type?.getD .object = .object ∨ name ∈ mapper.listModels then
        return ⟨.model name, some name⟩
      else return ⟨← schemaType mapper steps member none, none⟩
    | none => return ⟨← schemaType mapper steps member none, none⟩
end

/-- The number of steps for a root of some size. -/
def steps (mapper : Mapper) (rootSize : Nat) : Nat :=
  mapper.document.steps rootSize

/-- The type at a position; `candidate` is the name of the model of a nameless schema there. -/
def slotType (mapper : Mapper) (slot : SchemaSlot) (candidate : Option String) : Run TypeRef := do
  let schema ← slot.resolve mapper.document
  mapper.schemaType (mapper.steps schema.size) schema candidate

/-- The type of a property of a model, in which nameless schemas are named after the property. -/
def propertyType (mapper : Mapper) (parent property : String) (slot : SchemaSlot) : Run TypeRef :=
  mapper.slotType slot (some (Naming.syntheticName parent property))

/-- The type of a schema as the body of its own model: that of a named array is its list, also where
the array is a model. -/
def modelType (mapper : Mapper) (name : String) (schema : Schema) : Run TypeRef := do
  match schema.kind with
  | .array items _ _ =>
    return .list (← mapper.valueType (mapper.steps schema.size) items (some (Naming.itemName name)))
  | _ => mapper.schemaType (mapper.steps schema.size) schema (some name)

def unionMembers (mapper : Mapper) (schema : Schema) : Run (List UnionMember) :=
  schema.members.mapM (mapper.unionMember (mapper.steps schema.size))

/-- The types of some properties of a member, without those that an earlier member has. -/
def addUnionParameters (mapper : Mapper) (parent : Option String) (properties : Entries SchemaSlot)
    (parameters : Entries TypeRef) : Run (Entries TypeRef) :=
  properties.foldlM (fun parameters (name, slot) => do
    if Entries.has name parameters then return parameters
    else
      let candidate := parent.map (Naming.syntheticName · name)
      return parameters ++ [(name, ← mapper.slotType slot candidate)]) parameters

/-- The properties of all object members of a choice, each with the type that it has in the first
member with it. -/
def unionParameters (mapper : Mapper) (schema : Schema) : Run (Entries TypeRef) :=
  schema.members.foldlM (fun parameters slot => do
    let member ← slot.resolve mapper.document
    match member.properties? with
    | some properties => mapper.addUnionParameters member.name? properties parameters
    | none => return parameters) []

/-- The types that the body of a model is made of. -/
def bodyTypes (mapper : Mapper) (name : String) (schema : Schema) : Run (List TypeRef) := do
  match schema.kind with
  | .object properties _ additional =>
    let types ← properties.mapM fun (property, slot) => mapper.propertyType name property slot
    match additional.slot? with
    | some value => return types ++ [← mapper.slotType value none]
    | none => return types
  | .allOf _ =>
    let flattened ← schema.flatten mapper.document
    flattened.properties.mapM fun (property, slot) =>
      mapper.propertyType ((flattened.declaring? property).getD name) property slot
  | .oneOf _ => return (← mapper.unionMembers schema).map UnionMember.type
  | .array .. => return [← mapper.modelType name schema]
  | .enum _ | .anyOf _ | .primitive .. => return []

/-- The other models that the body of a model names, in the order in which they are first named. -/
def references (mapper : Mapper) (name : String) (schema : Schema) : Run (List String) := do
  let types ← mapper.bodyTypes name schema
  return OrderedSet.erase name (OrderedSet.ofList (TypeRef.modelsOfAll types))

end Mapper

end OpenApiManifest
