import OpenApiManifest.Reference

/-!
# Schemas

A schema holds the information common to all schemas and what is proper to its kind.  Every position
inside it is a slot, which holds a schema of its own or a reference, so a schema is a finite tree and
circles pass through references only.
-/

namespace OpenApiManifest

/-- The values of the keyword `type`. -/
inductive SchemaType where
  | string | number | integer | boolean | array | object
  deriving DecidableEq, Repr

namespace SchemaType

def key : SchemaType → String
  | .string => "string"
  | .number => "number"
  | .integer => "integer"
  | .boolean => "boolean"
  | .array => "array"
  | .object => "object"

/-- The type that is written in some way. -/
def ofKey? (key : String) : Option SchemaType :=
  [string, number, integer, boolean, array, object].find? fun t => decide (t.key = key)

end SchemaType

/-- The types of primitive schemas. -/
inductive PrimitiveType where
  | string | number | integer | boolean
  deriving DecidableEq, Repr

namespace PrimitiveType

def type : PrimitiveType → SchemaType
  | .string => .string
  | .number => .number
  | .integer => .integer
  | .boolean => .boolean

def ofType? : SchemaType → Option PrimitiveType
  | .string => some .string
  | .number => some .number
  | .integer => some .integer
  | .boolean => some .boolean
  | .array | .object => none

end PrimitiveType

/-- Bounds on the values of a primitive schema, carried along and never enforced. -/
structure Constraints where
  minimum : Option Number
  maximum : Option Number
  exclusiveMinimum : Bool
  exclusiveMaximum : Bool
  minLength : Option Nat
  maxLength : Option Nat
  pattern : Option String
  deriving DecidableEq, Repr

/-- A value of an enumeration. -/
inductive EnumValue where
  | string (text : String)
  | number (value : Number)
  deriving DecidableEq, Repr

namespace EnumValue

/-- A value of an enumeration as a value of a document. -/
def toJson : EnumValue → Json
  | .string text => .str text
  | .number value => .num value

end EnumValue

/-- What every schema carries, whatever its kind. -/
structure SchemaInfo where
  /-- The name, which the schemas under the components have and no others. -/
  name : Option String
  place : Place
  title : Option String
  description : Option String
  declaredType : Option SchemaType
  format : Option String
  nullable : Bool
  deprecated : Bool
  readOnly : Bool
  writeOnly : Bool
  default : Option Json
  sample : Option Json
  extensions : Entries Json

/-- What a schema says about properties that it does not declare; `σ` stands for positions. -/
inductive AdditionalProperties (σ : Type) where
  | absent
  | allowed (value : Bool)
  | schema (slot : σ)

namespace AdditionalProperties

/-- The schema of the values, where there is one. -/
def slot? {σ : Type} : AdditionalProperties σ → Option σ
  | .schema slot => some slot
  | .absent | .allowed _ => none

end AdditionalProperties

/-- What is proper to each kind of schema; `σ` stands for positions. -/
inductive SchemaKind (σ : Type) where
  /-- A value of one primitive type, or any value at all where the type is absent. -/
  | primitive (type : Option PrimitiveType) (constraints : Constraints)
  | array (items : σ) (minItems maxItems : Option Nat)
  | object (properties : List (String × σ)) (required : List String)
      (additional : AdditionalProperties σ)
  | enum (values : List EnumValue)
  | oneOf (members : List σ)
  | allOf (members : List σ)
  | anyOf (members : List σ)

/-- The names of the kinds of schemas. -/
inductive SchemaTag where
  | primitive | array | object | enum | oneOf | allOf | anyOf
  deriving DecidableEq, Repr

namespace SchemaTag

def key : SchemaTag → String
  | .primitive => "primitive"
  | .array => "array"
  | .object => "object"
  | .enum => "enum"
  | .oneOf => "oneOf"
  | .allOf => "allOf"
  | .anyOf => "anyOf"

end SchemaTag

/-- A schema that stands in a document. -/
structure Schema where
  info : SchemaInfo
  kind : SchemaKind (Slot Schema)

/-- A position that holds a schema or a reference to one. -/
abbrev SchemaSlot := Slot Schema

namespace Schema

def name? (schema : Schema) : Option String :=
  schema.info.name

/-- Where a schema stands, which is its identity. -/
def place (schema : Schema) : Place :=
  schema.info.place

def pointer (schema : Schema) : String :=
  schema.info.place.pointer

def tag (schema : Schema) : SchemaTag :=
  match schema.kind with
  | .primitive .. => .primitive
  | .array .. => .array
  | .object .. => .object
  | .enum _ => .enum
  | .oneOf _ => .oneOf
  | .allOf _ => .allOf
  | .anyOf _ => .anyOf

/-- The type that a schema stands for: the declared one, or the one that its shape implies. -/
def type? (schema : Schema) : Option SchemaType :=
  match schema.info.declaredType with
  | some declared => some declared
  | none =>
    match schema.kind with
    | .primitive type _ => type.map PrimitiveType.type
    | .array .. => some .array
    | .object .. => some .object
    | .enum (.string _ :: _) => some .string
    | .enum (.number value :: _) => if value.isFloat then some .number else some .integer
    | .enum [] => none
    | .oneOf _ | .allOf _ | .anyOf _ => none

/-- Whether a nameless schema of this shape becomes a model of its own and needs a name for it: an
object with properties, an enumeration, a choice, or a composition of several members. -/
def wantsName (schema : Schema) : Bool :=
  match schema.kind with
  | .object properties _ _ => !properties.isEmpty
  | .enum _ | .oneOf _ => true
  | .allOf members => 1 < members.length
  | .primitive .. | .array .. | .anyOf _ => false

/-- The member of a composition that has only one. -/
def onlyMember? (schema : Schema) : Option SchemaSlot :=
  match schema.kind with
  | .allOf [member] => some member
  | _ => none

def properties? (schema : Schema) : Option (Entries SchemaSlot) :=
  match schema.kind with
  | .object properties _ _ => some properties
  | _ => none

def requires (schema : Schema) (property : String) : Bool :=
  match schema.kind with
  | .object _ required _ => property ∈ required
  | _ => false

/-- The schema of the values that an object has beside its properties. -/
def additional? (schema : Schema) : Option SchemaSlot :=
  match schema.kind with
  | .object _ _ additional => additional.slot?
  | _ => none

def items? (schema : Schema) : Option SchemaSlot :=
  match schema.kind with
  | .array items _ _ => some items
  | _ => none

def enumValues? (schema : Schema) : Option (List EnumValue) :=
  match schema.kind with
  | .enum values => some values
  | _ => none

/-- The members of a choice or composition; no members for other kinds. -/
def members (schema : Schema) : List SchemaSlot :=
  match schema.kind with
  | .oneOf members | .allOf members | .anyOf members => members
  | _ => []

/-- The default of a schema: the only value of an enumeration that has one, and otherwise the
declared default. -/
def default? (schema : Schema) : Option Json :=
  match schema.enumValues? with
  | some [only] => some only.toJson
  | _ => schema.info.default

mutual
/-- The number of schemas and references in a schema, itself included. -/
def size : Schema → Nat
  | ⟨_, .primitive _ _⟩ => 1
  | ⟨_, .array items _ _⟩ => slotSize items + 1
  | ⟨_, .object properties _ additional⟩ =>
    propertiesSize properties + additionalSize additional + 1
  | ⟨_, .enum _⟩ => 1
  | ⟨_, .oneOf members⟩ => membersSize members + 1
  | ⟨_, .allOf members⟩ => membersSize members + 1
  | ⟨_, .anyOf members⟩ => membersSize members + 1

/-- The number of schemas and references at a position. -/
def slotSize : Slot Schema → Nat
  | .owned schema => size schema
  | .ref _ => 1

/-- The number of schemas and references at some positions. -/
def membersSize : List (Slot Schema) → Nat
  | [] => 0
  | slot :: rest => slotSize slot + membersSize rest

/-- The number of schemas and references in some properties. -/
def propertiesSize : List (String × Slot Schema) → Nat
  | [] => 0
  | (_, slot) :: rest => slotSize slot + propertiesSize rest

/-- The number of schemas and references in the schema of additional properties. -/
def additionalSize : AdditionalProperties (Slot Schema) → Nat
  | .absent => 0
  | .allowed _ => 0
  | .schema slot => slotSize slot
end

end Schema

end OpenApiManifest
