import OpenApiManifest.Schema.Basic

/-!
# Writing schemas

A schema is written as an object of a document, from which it can be read again.  The order of
properties, of required names and of the values of an enumeration is kept, and keywords that say
nothing are left out.
-/

namespace OpenApiManifest

namespace Json

/-- A field that is there only if it has a value. -/
def field? {α : Type} (key : String) (write : α → Json) : Option α → List (String × Json)
  | some value => [(key, write value)]
  | none => []

/-- A field that is there only if it is true. -/
def flagField (key : String) (value : Bool) : List (String × Json) :=
  if value then [(key, .bool true)] else []

end Json

namespace Constraints

def write (c : Constraints) : List (String × Json) :=
  Json.field? "minimum" .num c.minimum
    ++ Json.flagField "exclusiveMinimum" c.exclusiveMinimum
    ++ Json.field? "maximum" .num c.maximum
    ++ Json.flagField "exclusiveMaximum" c.exclusiveMaximum
    ++ Json.field? "minLength" Json.ofNat c.minLength
    ++ Json.field? "maxLength" Json.ofNat c.maxLength
    ++ Json.field? "pattern" .str c.pattern

end Constraints

namespace SchemaInfo

/-- The fields that stand before those of the kind. -/
def writeBefore (info : SchemaInfo) : List (String × Json) :=
  Json.field? "type" (fun t => .str t.key) info.declaredType
    ++ Json.field? "format" .str info.format
    ++ Json.field? "title" .str info.title
    ++ Json.field? "description" .str info.description

/-- The fields that stand after those of the kind. -/
def writeAfter (info : SchemaInfo) : List (String × Json) :=
  Json.flagField "nullable" info.nullable
    ++ Json.flagField "deprecated" info.deprecated
    ++ Json.flagField "readOnly" info.readOnly
    ++ Json.flagField "writeOnly" info.writeOnly
    ++ Json.field? "default" id info.default
    ++ Json.field? "example" id info.sample
    ++ info.extensions

end SchemaInfo

namespace Schema

mutual
/-- A schema as an object of a document. -/
def toJson : Schema → Json
  | ⟨info, .primitive _ constraints⟩ =>
    .obj (info.writeBefore ++ constraints.write ++ info.writeAfter)
  | ⟨info, .array items minItems maxItems⟩ =>
    .obj (info.writeBefore
      ++ ("items", slotToJson items)
        :: (Json.field? "minItems" Json.ofNat minItems ++ Json.field? "maxItems" Json.ofNat maxItems)
      ++ info.writeAfter)
  | ⟨info, .object properties required additional⟩ =>
    .obj (info.writeBefore
      ++ (if properties.isEmpty then [] else [("properties", .obj (propertiesToJson properties))])
      ++ (if required.isEmpty then [] else [("required", Json.ofTexts required)])
      ++ additionalToJson additional
      ++ info.writeAfter)
  | ⟨info, .enum values⟩ =>
    .obj (info.writeBefore ++ ("enum", .arr (values.map EnumValue.toJson)) :: info.writeAfter)
  | ⟨info, .oneOf members⟩ =>
    .obj (info.writeBefore ++ ("oneOf", .arr (membersToJson members)) :: info.writeAfter)
  | ⟨info, .allOf members⟩ =>
    .obj (info.writeBefore ++ ("allOf", .arr (membersToJson members)) :: info.writeAfter)
  | ⟨info, .anyOf members⟩ =>
    .obj (info.writeBefore ++ ("anyOf", .arr (membersToJson members)) :: info.writeAfter)

/-- A slot as an object of a document. -/
def slotToJson : Slot Schema → Json
  | .owned schema => toJson schema
  | .ref reference => .obj [("$ref", .str reference.text)]

def membersToJson : List (Slot Schema) → List Json
  | [] => []
  | slot :: rest => slotToJson slot :: membersToJson rest

def propertiesToJson : List (String × Slot Schema) → List (String × Json)
  | [] => []
  | (name, slot) :: rest => (name, slotToJson slot) :: propertiesToJson rest

def additionalToJson : AdditionalProperties (Slot Schema) → List (String × Json)
  | .absent => []
  | .allowed value => [("additionalProperties", .bool value)]
  | .schema slot => [("additionalProperties", slotToJson slot)]
end

/-- What a schema says about additional properties, as a value of its own; null where it says
nothing. -/
def additionalValue : AdditionalProperties SchemaSlot → Json
  | .absent => .null
  | .allowed value => .bool value
  | .schema slot => slotToJson slot

end Schema

end OpenApiManifest
