import OpenApiManifest.Schema.Basic

/-!
# Reading schemas

A schema slot is read from a value of a document.  The kind of a schema follows from the first of
these that holds: it has `oneOf`, `allOf`, `anyOf` or `enum`, it is declared an array, it is declared
an object or has `properties`; otherwise it is primitive.
-/

namespace OpenApiManifest.Schema

/-- The type written in some way at a pointer. -/
def readTypeName (text pointer : String) : Except ModelError SchemaType :=
  match SchemaType.ofKey? text with
  | some type => .ok type
  | none => .error (.malformed pointer (.unknownType text))

/-- One entry of a list of types: a type, or `null`, which stands for no type. -/
def readListedType (value : Json) (pointer : String) : Except ModelError (Option SchemaType) :=
  match value with
  | .str "null" => .ok none
  | .str text => (readTypeName text pointer).map some
  | other => .error (.malformed pointer (.unexpected .typeName other.kind))

/-- The keyword `type`: the declared type, and whether `null` is listed beside it. -/
def readType (fields : Fields) : Except ModelError (Option SchemaType × Bool) :=
  let pointer := fields.childPointer "type"
  match fields.get? "type" with
  | none | some .null => .ok (none, false)
  | some (.str text) => (readTypeName text pointer).map fun type => (some type, false)
  | some (.arr entries) => do
    let listed ← Fields.eachItem readListedType pointer 0 entries
    let nullable := listed.contains none
    match listed.filterMap id with
    | [] => return (none, nullable)
    | [single] => return (some single, nullable)
    | _ => throw (.malformed pointer .severalTypes)
  | some other => .error (.malformed pointer (.unexpected .stringOrArray other.kind))

def readInfo (document : DocumentId) (name : Option String) (fields : Fields) :
    Except ModelError SchemaInfo := do
  let (declaredType, nullType) ← readType fields
  return {
    name
    place := ⟨document, fields.pointer⟩
    title := ← fields.string? "title"
    description := ← fields.string? "description"
    declaredType
    format := ← fields.string? "format"
    nullable := ← if nullType then .ok true else fields.flag "nullable"
    deprecated := ← fields.flag "deprecated"
    readOnly := ← fields.flag "readOnly"
    writeOnly := ← fields.flag "writeOnly"
    default := fields.get? "default"
    sample := fields.get? "example"
    extensions := fields.extensions }

/-- A bound and its exclusive form, which is either a flag beside the bound or a bound itself. -/
def readExclusive (fields : Fields) (key : String) (bound : Option Number) :
    Except ModelError (Option Number × Bool) := do
  match fields.get? key with
  | some (.num exclusive) => return (some exclusive, true)
  | _ => return (bound, ← fields.flag key)

def readConstraints (fields : Fields) : Except ModelError Constraints := do
  let minimum ← fields.number? "minimum"
  let maximum ← fields.number? "maximum"
  let minLength ← fields.nat? "minLength"
  let maxLength ← fields.nat? "maxLength"
  let pattern ← fields.string? "pattern"
  let (minimum, exclusiveMinimum) ← readExclusive fields "exclusiveMinimum" minimum
  let (maximum, exclusiveMaximum) ← readExclusive fields "exclusiveMaximum" maximum
  return {
    minimum, maximum, exclusiveMinimum, exclusiveMaximum, minLength, maxLength, pattern }

/-- One value of an enumeration; null stands for no value. -/
def readEnumValue (value : Json) (pointer : String) : Except ModelError (Option EnumValue) :=
  match value with
  | .str text => .ok (some (.string text))
  | .num number => .ok (some (.number number))
  | .null => .ok none
  | other => .error (.malformed pointer (.enumMember other.kind))

/-- The values of an enumeration, and whether null is among them. -/
def readEnum (fields : Fields) : Except ModelError (List EnumValue × Bool) := do
  match ← fields.array? "enum" with
  | none => throw (.malformed (fields.childPointer "enum") .enumNotArray)
  | some entries =>
    let listed ← Fields.eachItem readEnumValue (fields.childPointer "enum") 0 entries
    return (listed.filterMap id, listed.contains none)

section Positions

variable {σ : Type} (readSlot : Json → String → Except ModelError σ)

def readMembers (fields : Fields) (key : String) : Except ModelError (List σ) := do
  match ← fields.array? key with
  | none => throw (.malformed (fields.childPointer key) (.membersNotArray key))
  | some entries => Fields.eachItem readSlot (fields.childPointer key) 0 entries

def readArray (fields : Fields) : Except ModelError (SchemaKind σ) := do
  match fields.get? "items" with
  | none => throw (.malformed fields.pointer .arrayWithoutItems)
  | some items =>
    return .array (← readSlot items (fields.childPointer "items"))
      (← fields.nat? "minItems") (← fields.nat? "maxItems")

/-- What a schema says about properties that it does not declare. -/
def readAdditional (fields : Fields) : Except ModelError (AdditionalProperties σ) := do
  let pointer := fields.childPointer "additionalProperties"
  match fields.get? "additionalProperties" with
  | none | some .null => return .absent
  | some (.bool value) => return .allowed value
  | some (.obj entries) => return .schema (← readSlot (.obj entries) pointer)
  | some other => throw (.malformed pointer (.unexpected .booleanOrSchema other.kind))

def readObject (fields : Fields) : Except ModelError (SchemaKind σ) := do
  let properties ← fields.table "properties" fun _ => readSlot
  let required ← fields.strings "required"
  let additional ← readAdditional readSlot fields
  return .object properties (OrderedSet.ofList required) additional

/-- What is proper to the kind of a schema, and whether null is among its values. -/
def readKind (declared : Option SchemaType) (fields : Fields) :
    Except ModelError (SchemaKind σ × Bool) := do
  if fields.has "oneOf" then
    return (.oneOf (← readMembers readSlot fields "oneOf"), false)
  else if fields.has "allOf" then
    return (.allOf (← readMembers readSlot fields "allOf"), false)
  else if fields.has "anyOf" then
    return (.anyOf (← readMembers readSlot fields "anyOf"), false)
  else if fields.has "enum" then
    let (values, nullable) ← readEnum fields
    return (.enum values, nullable)
  else if declared = some .array then
    return (← readArray readSlot fields, false)
  else if declared = some .object ∨ fields.has "properties" then
    return (← readObject readSlot fields, false)
  else
    return (.primitive (declared.bind PrimitiveType.ofType?) (← readConstraints fields), false)

end Positions

/-- A schema from the fields of its object. -/
def readFields (readSlot : Json → String → Except ModelError SchemaSlot) (document : DocumentId)
    (name : Option String) (fields : Fields) : Except ModelError Schema := do
  let info ← readInfo document name fields
  let (kind, nullable) ← readKind readSlot info.declaredType fields
  return ⟨{ info with nullable := info.nullable || nullable }, kind⟩

/-- Reads a slot from a value of at most so many levels.  A value of no levels is a scalar. -/
def readWithin (document : DocumentId) :
    Nat → Option String → Json → String → Except ModelError SchemaSlot
  | 0, _, value, pointer => .error (.malformed pointer (.unexpected .object value.kind))
  | levels + 1, name, value, pointer =>
    Slot.read document value pointer
      (readFields (readWithin document levels none) document name)

/-- Reads a slot from the value at a pointer; the schemas under the components have names. -/
def read (document : DocumentId) (name : Option String) (value : Json) (pointer : String) :
    Except ModelError SchemaSlot :=
  readWithin document value.depth name value pointer

end OpenApiManifest.Schema
