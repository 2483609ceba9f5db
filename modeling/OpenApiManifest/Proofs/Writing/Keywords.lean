import OpenApiManifest.Proofs.Reading.Slots
import OpenApiManifest.Schema.Printer

/-!
# What a written schema says

The fields of a written schema are those of its information around those of its kind
(`Schema.toJson_eq`).  As these have keywords of their own, and extensions have none, each keyword is
found with what was written for it (`SchemaInfo.writtenIn`, `SchemaKind.writtenIn`).
-/

namespace OpenApiManifest

namespace Entries

variable {α : Type} {keys : List String} {entries more : Entries α}

/-- The entries of a table have only some keys. -/
def KeysIn (keys : List String) (entries : Entries α) : Prop :=
  ∀ entry ∈ entries, entry.1 ∈ keys

/-- No entries have no key outside of some keys. -/
@[simp] lemma keysIn_nil : KeysIn keys ([] : Entries α) := nofun

/-- Entries have only some keys if the first one has such a key and the others have. -/
@[simp] lemma keysIn_cons {entry : String × α} :
    KeysIn keys (entry :: entries) ↔ entry.1 ∈ keys ∧ KeysIn keys entries :=
  List.forall_mem_cons

/-- Entries and more have only some keys if both have. -/
@[simp] lemma keysIn_append :
    KeysIn keys (entries ++ more) ↔ KeysIn keys entries ∧ KeysIn keys more :=
  List.forall_mem_append

/-- Nothing is found under a key outside of those that the entries have. -/
lemma KeysIn.get?_eq_none (h : KeysIn keys entries) {key : String} (absent : key ∉ keys) :
    get? key entries = none := by
  rw [get?_eq_none_iff]
  intro mem
  obtain ⟨entry, he, rfl⟩ := List.mem_map.1 mem
  exact absent (h entry he)

end Entries

namespace Json

variable {α : Type} {key : String} {keys : List String}

/-- Under the key of a field that may be written stands its value, if there is one. -/
@[simp] lemma get?_field? (other : String) (write : α → Json) (value : Option α) :
    Entries.get? key (field? other write value) = if other = key then value.map write else none := by
  cases value with
  | none => simp [field?]
  | some value => simp [field?]

/-- Under the key of a flag stands that it is set, if it is. -/
@[simp] lemma get?_flagField (other : String) (value : Bool) :
    Entries.get? key (flagField other value) =
      if other = key ∧ value = true then some (.bool true) else none := by
  cases value with
  | false => simp [flagField]
  | true => simp [flagField]

/-- A field that may be written has its key, if there is a value. -/
@[simp] lemma keysIn_field? {write : α → Json} {value : Option α} :
    Entries.KeysIn keys (field? key write value) ↔ value.isSome = true → key ∈ keys := by
  cases value with
  | none => simp [field?]
  | some value => simp [field?]

/-- A flag has its key, if it is set. -/
@[simp] lemma keysIn_flagField {value : Bool} :
    Entries.KeysIn keys (flagField key value) ↔ value = true → key ∈ keys := by
  cases value with
  | false => simp [flagField]
  | true => simp [flagField]

end Json

namespace AdditionalProperties

variable {σ : Type}

/-- What is written about properties that are not declared, if positions are written in some way. -/
def write (write : σ → Json) : AdditionalProperties σ → List (String × Json)
  | .absent => []
  | .allowed value => [("additionalProperties", .bool value)]
  | .schema slot => [("additionalProperties", write slot)]

end AdditionalProperties

/-- The keywords of constraints. -/
def Constraints.keywords : List String :=
  ["minimum", "maximum", "exclusiveMinimum", "exclusiveMaximum", "minLength", "maxLength", "pattern"]

namespace SchemaKind

variable {σ : Type}

/-- The fields of what is proper to a kind, if positions are written in some way. -/
def write (write : σ → Json) : SchemaKind σ → List (String × Json)
  | .primitive _ constraints => constraints.write
  | .array items minItems maxItems =>
    ("items", write items)
      :: (Json.field? "minItems" Json.ofNat minItems ++ Json.field? "maxItems" Json.ofNat maxItems)
  | .object properties required additional =>
    (if properties.isEmpty then []
      else [("properties", .obj (properties.map fun entry => (entry.1, write entry.2)))])
      ++ (if required.isEmpty then [] else [("required", Json.ofTexts required)])
      ++ additional.write write
  | .enum values => [("enum", .arr (values.map EnumValue.toJson))]
  | .oneOf members => [("oneOf", .arr (members.map write))]
  | .allOf members => [("allOf", .arr (members.map write))]
  | .anyOf members => [("anyOf", .arr (members.map write))]

/-- The keywords of a kind. -/
def own : SchemaKind σ → List String
  | .primitive .. => Constraints.keywords
  | .array .. => ["items", "minItems", "maxItems"]
  | .object .. => ["properties", "required", "additionalProperties"]
  | .enum _ => ["enum"]
  | .oneOf _ => ["oneOf"]
  | .allOf _ => ["allOf"]
  | .anyOf _ => ["anyOf"]

/-- The keywords of all kinds. -/
def keywords : List String :=
  ["oneOf", "allOf", "anyOf", "enum", "items", "minItems", "maxItems", "properties", "required",
    "additionalProperties"] ++ Constraints.keywords

/-- The keywords of a kind are keywords of schemas. -/
lemma own_subset (kind : SchemaKind σ) : kind.own ⊆ keywords := by
  cases kind <;> simp [own, keywords, Constraints.keywords]

/-- A kind is written with its own keywords. -/
lemma keysIn_own (writeSlot : σ → Json) (kind : SchemaKind σ) :
    Entries.KeysIn kind.own (kind.write writeSlot) := by
  cases kind with
  | primitive type constraints =>
    simp [SchemaKind.write, own, Constraints.write, Constraints.keywords]
  | array items minItems maxItems => simp [SchemaKind.write, own]
  | object properties required additional =>
    cases properties <;> cases required <;> cases additional <;>
      simp [SchemaKind.write, own, AdditionalProperties.write]
  | enum values => simp [SchemaKind.write, own]
  | oneOf members => simp [SchemaKind.write, own]
  | allOf members => simp [SchemaKind.write, own]
  | anyOf members => simp [SchemaKind.write, own]

/-- A kind is written with keywords of schemas. -/
lemma keysIn_write (writeSlot : σ → Json) (kind : SchemaKind σ) :
    Entries.KeysIn keywords (kind.write writeSlot) :=
  fun entry mem => kind.own_subset (kind.keysIn_own writeSlot entry mem)

/-- Fields in which what is proper to a kind is found as it was written. -/
def WrittenIn (kind : SchemaKind σ) (writeSlot : σ → Json) (fields : Fields) : Prop :=
  ∀ key ∈ keywords, fields.get? key = Entries.get? key (kind.write writeSlot)

namespace WrittenIn

variable {kind : SchemaKind σ} {writeSlot : σ → Json} {fields : Fields} {key : String}

/-- A keyword is there if it was written for the kind. -/
lemma has (h : kind.WrittenIn writeSlot fields) (hk : key ∈ keywords)
    (there : (Entries.get? key (kind.write writeSlot)).isSome = true) : fields.has key = true := by
  rw [Fields.has, Entries.has, ← Fields.get?, h key hk, there]

/-- A keyword of another kind is not there. -/
lemma not_has (h : kind.WrittenIn writeSlot fields) (hk : key ∈ keywords) (other : key ∉ kind.own) :
    ¬ fields.has key = true := by
  rw [Fields.has, Entries.has, ← Fields.get?, h key hk,
    (kind.keysIn_own writeSlot).get?_eq_none other]
  exact Bool.false_ne_true

end WrittenIn

section Object

variable {writeSlot : σ → Json} {properties : Entries σ} {required : List String}
  {additional : AdditionalProperties σ}

/-- An object is written with its properties, unless there are none. -/
lemma get?_properties :
    Entries.get? "properties" ((object properties required additional).write writeSlot) =
      if properties.isEmpty then none
      else some (.obj (properties.map fun entry => (entry.1, writeSlot entry.2))) := by
  cases properties <;> cases required <;> cases additional <;>
    simp [SchemaKind.write, AdditionalProperties.write]

/-- An object is written with its required names, unless there are none. -/
lemma get?_required :
    Entries.get? "required" ((object properties required additional).write writeSlot) =
      if required.isEmpty then none else some (Json.ofTexts required) := by
  cases properties <;> cases required <;> cases additional <;>
    simp [SchemaKind.write, AdditionalProperties.write]

/-- An object is written with its additional properties as these are written. -/
lemma get?_additional :
    Entries.get? "additionalProperties" ((object properties required additional).write writeSlot) =
      Entries.get? "additionalProperties" (additional.write writeSlot) := by
  cases properties <;> cases required <;> simp [SchemaKind.write]

end Object

end SchemaKind

namespace SchemaInfo

/-- The keywords that schemas of all kinds have. -/
def keywords : List String :=
  ["type", "format", "title", "description", "nullable", "deprecated", "readOnly", "writeOnly",
    "default", "example"]

/-- Extensions are told from keywords by their keys. -/
def Extended (info : SchemaInfo) : Prop :=
  ∀ entry ∈ info.extensions, Fields.isExtension entry.1 = true

variable {info : SchemaInfo} {key : String}

/-- The fields of a schema that stand after those of its kind, without the extensions. -/
def writeFlags (info : SchemaInfo) : List (String × Json) :=
  Json.flagField "nullable" info.nullable
    ++ Json.flagField "deprecated" info.deprecated
    ++ Json.flagField "readOnly" info.readOnly
    ++ Json.flagField "writeOnly" info.writeOnly
    ++ Json.field? "default" id info.default
    ++ Json.field? "example" id info.sample

/-- After the kind of a schema its flags are written, and then its extensions. -/
lemma writeAfter_eq (info : SchemaInfo) : info.writeAfter = info.writeFlags ++ info.extensions := rfl

/-- What is written before the kind of a schema has keywords of schemas. -/
lemma keysIn_writeBefore (info : SchemaInfo) : Entries.KeysIn keywords info.writeBefore := by
  simp [writeBefore, keywords]

/-- The flags of a schema are written with keywords of schemas. -/
lemma keysIn_writeFlags (info : SchemaInfo) : Entries.KeysIn keywords info.writeFlags := by
  simp [writeFlags, keywords]

/-- What is no extension is not found among the extensions. -/
lemma Extended.get?_eq_none (extended : info.Extended) (plain : Fields.isExtension key = false) :
    Entries.get? key info.extensions = none := by
  rw [Entries.get?_eq_none_iff]
  intro mem
  obtain ⟨entry, he, rfl⟩ := List.mem_map.1 mem
  rw [extended entry he] at plain
  cases plain

/-- Fields in which the information of a schema is found as it was written. -/
structure WrittenIn (info : SchemaInfo) (fields : Fields) : Prop where
  type : fields.get? "type" = info.declaredType.map fun type => .str type.key
  format : fields.get? "format" = info.format.map .str
  title : fields.get? "title" = info.title.map .str
  description : fields.get? "description" = info.description.map .str
  nullable : fields.get? "nullable" = if info.nullable = true then some (.bool true) else none
  deprecated : fields.get? "deprecated" = if info.deprecated = true then some (.bool true) else none
  readOnly : fields.get? "readOnly" = if info.readOnly = true then some (.bool true) else none
  writeOnly : fields.get? "writeOnly" = if info.writeOnly = true then some (.bool true) else none
  default : fields.get? "default" = info.default
  sample : fields.get? "example" = info.sample
  extensions : fields.extensions = info.extensions

end SchemaInfo

/-- The fields that are written for a schema of some information and kind. -/
def Schema.writtenFields {σ : Type} (writeSlot : σ → Json) (info : SchemaInfo) (kind : SchemaKind σ) :
    List (String × Json) :=
  info.writeBefore ++ kind.write writeSlot ++ info.writeAfter

section Written

variable {σ : Type} {writeSlot : σ → Json} {info : SchemaInfo} {kind : SchemaKind σ}
  {pointer key : String}

/-- What is found under a key in the fields of a schema is found in one part of them. -/
lemma Schema.get?_writtenFields (extended : info.Extended) (plain : Fields.isExtension key = false) :
    Entries.get? key (writtenFields writeSlot info kind) =
      ((Entries.get? key info.writeBefore).or (Entries.get? key (kind.write writeSlot))).or
        (Entries.get? key info.writeFlags) := by
  rw [writtenFields, SchemaInfo.writeAfter_eq, Entries.get?_append, Entries.get?_append,
    Entries.get?_append, extended.get?_eq_none plain, Option.or_none]

/-- What is proper to a kind is found in the fields that are written for a schema of the kind. -/
lemma SchemaKind.writtenIn (extended : info.Extended) :
    kind.WrittenIn writeSlot ⟨pointer, Schema.writtenFields writeSlot info kind⟩ := by
  have apart : ∀ key ∈ keywords, Fields.isExtension key = false ∧ key ∉ SchemaInfo.keywords := by
    decide
  intro key h
  obtain ⟨plain, other⟩ := apart key h
  rw [Fields.get?, Schema.get?_writtenFields extended plain,
    info.keysIn_writeBefore.get?_eq_none other, info.keysIn_writeFlags.get?_eq_none other,
    Option.none_or, Option.or_none]

/-- What is no keyword is not found in the fields of a schema, unless it is an extension. -/
lemma Schema.get?_of_not_mem_keywords (extended : info.Extended)
    (plain : Fields.isExtension key = false) (common : key ∉ SchemaInfo.keywords)
    (proper : key ∉ SchemaKind.keywords) :
    Entries.get? key (writtenFields writeSlot info kind) = none := by
  rw [get?_writtenFields extended plain, info.keysIn_writeBefore.get?_eq_none common,
    (kind.keysIn_write writeSlot).get?_eq_none proper, info.keysIn_writeFlags.get?_eq_none common]
  rfl

/-- The extensions among the fields of a schema are its own. -/
lemma Schema.extensions_writtenFields (extended : info.Extended) :
    Fields.extensions ⟨pointer, writtenFields writeSlot info kind⟩ = info.extensions := by
  have none_in : ∀ {keys : List String} {entries : List (String × Json)},
      (∀ key ∈ keys, Fields.isExtension key = false) → Entries.KeysIn keys entries →
      entries.filter (fun entry => Fields.isExtension entry.1) = [] := by
    intro keys entries plain within
    rw [List.filter_eq_nil_iff]
    intro entry mem extension
    rw [plain _ (within entry mem)] at extension
    cases extension
  have common : ∀ key ∈ SchemaInfo.keywords, Fields.isExtension key = false := by decide
  have proper : ∀ key ∈ SchemaKind.keywords, Fields.isExtension key = false := by decide
  rw [Fields.extensions, writtenFields, SchemaInfo.writeAfter_eq, List.filter_append,
    List.filter_append, List.filter_append, none_in common info.keysIn_writeBefore,
    none_in proper (kind.keysIn_write writeSlot), none_in common info.keysIn_writeFlags,
    List.filter_eq_self.2 extended]
  rfl

/-- The information of a schema is found in the fields that are written for it. -/
lemma SchemaInfo.writtenIn (extended : info.Extended) :
    info.WrittenIn ⟨pointer, Schema.writtenFields writeSlot info kind⟩ := by
  have found : ∀ key ∈ keywords, Fields.get? ⟨pointer, Schema.writtenFields writeSlot info kind⟩ key =
      (Entries.get? key info.writeBefore).or (Entries.get? key info.writeFlags) := by
    have apart : ∀ key ∈ keywords, Fields.isExtension key = false ∧ key ∉ SchemaKind.keywords := by
      decide
    intro key h
    obtain ⟨plain, other⟩ := apart key h
    rw [Fields.get?, Schema.get?_writtenFields extended plain,
      (kind.keysIn_write writeSlot).get?_eq_none other, Option.or_none]
  exact
    { type := (found "type" (by decide)).trans (by simp [writeBefore, writeFlags, Entries.get?_append])
      format := (found "format" (by decide)).trans
        (by simp [writeBefore, writeFlags, Entries.get?_append])
      title := (found "title" (by decide)).trans
        (by simp [writeBefore, writeFlags, Entries.get?_append])
      description := (found "description" (by decide)).trans
        (by simp [writeBefore, writeFlags, Entries.get?_append])
      nullable := (found "nullable" (by decide)).trans
        (by simp [writeBefore, writeFlags, Entries.get?_append])
      deprecated := (found "deprecated" (by decide)).trans
        (by simp [writeBefore, writeFlags, Entries.get?_append])
      readOnly := (found "readOnly" (by decide)).trans
        (by simp [writeBefore, writeFlags, Entries.get?_append])
      writeOnly := (found "writeOnly" (by decide)).trans
        (by simp [writeBefore, writeFlags, Entries.get?_append])
      default := (found "default" (by decide)).trans
        (by simp [writeBefore, writeFlags, Entries.get?_append])
      sample := (found "example" (by decide)).trans
        (by simp [writeBefore, writeFlags, Entries.get?_append])
      extensions := Schema.extensions_writtenFields extended }

end Written

/-- Members are written one by one. -/
lemma Schema.membersToJson_eq (members : List SchemaSlot) :
    membersToJson members = members.map slotToJson := by
  induction members with
  | nil => rfl
  | cons slot rest ih => rw [membersToJson, List.map_cons, ih]

/-- Properties are written one by one, each under its key. -/
lemma Schema.propertiesToJson_eq (properties : Entries SchemaSlot) :
    propertiesToJson properties = properties.map fun entry => (entry.1, slotToJson entry.2) := by
  induction properties with
  | nil => rfl
  | cons entry rest ih => rw [propertiesToJson, List.map_cons, ih]

/-- Additional properties are written with the slot of their schema, if they have one. -/
lemma Schema.additionalToJson_eq (additional : AdditionalProperties SchemaSlot) :
    additionalToJson additional = additional.write slotToJson := by
  cases additional with
  | absent => rw [additionalToJson, AdditionalProperties.write]
  | allowed value => rw [additionalToJson, AdditionalProperties.write]
  | schema slot => rw [additionalToJson, AdditionalProperties.write]

/-- A schema is written as an object with the fields for its information and its kind. -/
theorem Schema.toJson_eq (schema : Schema) :
    schema.toJson = .obj (writtenFields slotToJson schema.info schema.kind) := by
  obtain ⟨info, kind⟩ := schema
  unfold writtenFields
  cases kind with
  | primitive type constraints => rw [toJson, SchemaKind.write]
  | array items minItems maxItems => rw [toJson, SchemaKind.write]
  | object properties required additional =>
    rw [toJson, SchemaKind.write, propertiesToJson_eq, additionalToJson_eq]
    simp only [List.append_assoc]
  | enum values => simp [toJson, SchemaKind.write]
  | oneOf members => simp [toJson, SchemaKind.write, membersToJson_eq]
  | allOf members => simp [toJson, SchemaKind.write, membersToJson_eq]
  | anyOf members => simp [toJson, SchemaKind.write, membersToJson_eq]

end OpenApiManifest
