import OpenApiManifest.Proofs.Writing.Keywords

/-!
# Reading what was written

Each reader of the fields of a schema reads back what was read with it and then written
(`ReadsBack`), if it is so of the positions inside.  Only the kind of a schema may change: an object
that has no properties and is not declared one is hollow (`SchemaKind.isHollow`), as it is written
without the keyword that told its kind, and is read as a primitive (`SchemaKind.reread`).
-/

namespace OpenApiManifest

namespace Fields

variable {fields : Fields} {key : String}

/-- A text that stands under a key is read, and so is its absence. -/
lemma string?_of_get? {text : Option String} (h : fields.get? key = text.map .str) :
    fields.string? key = .ok text := by
  unfold string?
  rw [h]
  cases text <;> rfl

/-- A number that stands under a key is read, and so is its absence. -/
lemma number?_of_get? {value : Option Number} (h : fields.get? key = value.map .num) :
    fields.number? key = .ok value := by
  unfold number?
  rw [h]
  cases value <;> rfl

/-- A count that stands under a key is read, and so is its absence. -/
lemma nat?_of_get? {value : Option Nat} (h : fields.get? key = value.map Json.ofNat) :
    fields.nat? key = .ok value := by
  unfold nat?
  rw [h]
  cases value <;> rfl

/-- A flag that stands under a key is read, and it is not set where it is absent. -/
lemma flag_of_get? {value : Bool}
    (h : fields.get? key = if value = true then some (.bool true) else none) :
    fields.flag key = .ok value := by
  unfold flag bool?
  rw [h]
  cases value <;> rfl

/-- An array that stands under a key is read. -/
lemma array?_of_get? {values : List Json} (h : fields.get? key = some (.arr values)) :
    fields.array? key = .ok (some values) := by
  unfold array?
  rw [h]

/-- An object that stands under a key is read. -/
lemma object?_of_get? {entries : List (String × Json)} (h : fields.get? key = some (.obj entries)) :
    fields.object? key = .ok (some entries) := by
  unfold object?
  rw [h]

/-- Where nothing stands under a key, no texts are read there. -/
lemma strings_of_get?_eq_none (h : fields.get? key = none) : fields.strings key = .ok [] := by
  unfold strings items array?
  rw [h]
  rfl

/-- Texts are read one by one, whatever their indexes are. -/
lemma eachItem_readString (pointer : String) (index : Nat) (texts : List String) :
    eachItem readString pointer index (texts.map .str) = .ok texts := by
  induction texts generalizing index with
  | nil => rfl
  | cons text rest ih => exact bind_eq_ok.2 ⟨text, rfl, bind_eq_ok.2 ⟨rest, ih _, rfl⟩⟩

/-- Texts that stand under a key are read. -/
lemma strings_of_get? {texts : List String} (h : fields.get? key = some (Json.ofTexts texts)) :
    fields.strings key = .ok texts :=
  bind_eq_ok.2 ⟨_, array?_of_get? h, eachItem_readString _ 0 texts⟩

end Fields

namespace AdditionalProperties

variable {σ τ : Type}

def map (f : σ → τ) : AdditionalProperties σ → AdditionalProperties τ
  | .absent => .absent
  | .allowed value => .allowed value
  | .schema slot => .schema (f slot)

end AdditionalProperties

/-- The constraints that allow everything. -/
def Constraints.unbounded : Constraints where
  minimum := none
  maximum := none
  exclusiveMinimum := false
  exclusiveMaximum := false
  minLength := none
  maxLength := none
  pattern := none

namespace SchemaKind

variable {σ τ : Type}

def map (f : σ → τ) : SchemaKind σ → SchemaKind τ
  | .primitive type constraints => .primitive type constraints
  | .array items minItems maxItems => .array (f items) minItems maxItems
  | .object properties required additional =>
    .object (properties.map fun entry => (entry.1, f entry.2)) required (additional.map f)
  | .enum values => .enum values
  | .oneOf members => .oneOf (members.map f)
  | .allOf members => .allOf (members.map f)
  | .anyOf members => .anyOf (members.map f)

/-- Whether a kind is an object of which nothing is written that tells so: it has no properties, and
the type that is declared is another one. -/
def isHollow (declared : Option SchemaType) : SchemaKind σ → Bool
  | .object [] _ _ => declared ≠ some .object
  | _ => false

/-- The kind that is read where a kind was written. -/
def reread (declared : Option SchemaType) (f : σ → τ) (kind : SchemaKind σ) : SchemaKind τ :=
  if kind.isHollow declared then .primitive (declared.bind PrimitiveType.ofType?) .unbounded
  else kind.map f

end SchemaKind

section Scalars

variable {fields : Fields}

/-- A bound that is exclusive is written as a flag beside it, never as a bound of its own. -/
lemma Schema.readExclusive_of_written {key : String} {flag : Bool} (bound : Option Number)
    (h : fields.get? key = if flag = true then some (.bool true) else none) :
    readExclusive fields key bound = .ok (bound, flag) := by
  have read := Fields.flag_of_get? h
  unfold readExclusive
  rw [h, read]
  cases flag <;> rfl

/-- Constraints are read from what is written for them. -/
lemma Schema.readConstraints_of_written {constraints : Constraints}
    (written : ∀ key ∈ Constraints.keywords, fields.get? key = Entries.get? key constraints.write) :
    readConstraints fields = .ok constraints := by
  have minimum : fields.get? "minimum" = constraints.minimum.map .num :=
    (written "minimum" (by decide)).trans (by simp [Constraints.write, Entries.get?_append])
  have maximum : fields.get? "maximum" = constraints.maximum.map .num :=
    (written "maximum" (by decide)).trans (by simp [Constraints.write, Entries.get?_append])
  have low : fields.get? "exclusiveMinimum" =
      if constraints.exclusiveMinimum = true then some (.bool true) else none :=
    (written "exclusiveMinimum" (by decide)).trans (by simp [Constraints.write, Entries.get?_append])
  have high : fields.get? "exclusiveMaximum" =
      if constraints.exclusiveMaximum = true then some (.bool true) else none :=
    (written "exclusiveMaximum" (by decide)).trans (by simp [Constraints.write, Entries.get?_append])
  have minLength : fields.get? "minLength" = constraints.minLength.map Json.ofNat :=
    (written "minLength" (by decide)).trans (by simp [Constraints.write, Entries.get?_append])
  have maxLength : fields.get? "maxLength" = constraints.maxLength.map Json.ofNat :=
    (written "maxLength" (by decide)).trans (by simp [Constraints.write, Entries.get?_append])
  have pattern : fields.get? "pattern" = constraints.pattern.map .str :=
    (written "pattern" (by decide)).trans (by simp [Constraints.write, Entries.get?_append])
  unfold readConstraints
  rw [Fields.number?_of_get? minimum, Fields.number?_of_get? maximum, Fields.nat?_of_get? minLength,
    Fields.nat?_of_get? maxLength, Fields.string?_of_get? pattern]
  simp only [bind, Except.bind, readExclusive_of_written constraints.minimum low,
    readExclusive_of_written constraints.maximum high]
  rfl

/-- The values of an enumeration are read from what is written for them, and null is none of them. -/
lemma Schema.readEnum_of_written {values : List EnumValue}
    (h : fields.get? "enum" = some (.arr (values.map EnumValue.toJson))) :
    readEnum fields = .ok (values, false) := by
  have each : ∀ index, Fields.eachItem readEnumValue (fields.childPointer "enum") index
      (values.map EnumValue.toJson) = .ok (values.map some) := by
    clear h
    induction values with
    | nil => exact fun _ => rfl
    | cons value rest ih =>
      intro index
      refine bind_eq_ok.2 ⟨some value, ?_, bind_eq_ok.2 ⟨_, ih _, rfl⟩⟩
      cases value <;> rfl
  unfold readEnum
  rw [Fields.array?_of_get? h]
  simp only [bind, Except.bind, each]
  simp [pure, Except.pure]

/-- The information of a schema is read from what is written for it. -/
lemma Schema.readInfo_of_written {info : SchemaInfo} {document : DocumentId}
    (place : info.place = ⟨document, fields.pointer⟩) (written : info.WrittenIn fields) :
    readInfo document info.name fields = .ok info := by
  have type : readType fields = .ok (info.declaredType, false) := by
    unfold readType
    rw [written.type]
    cases info.declaredType with
    | none => rfl
    | some type => cases type <;> rfl
  unfold readInfo
  rw [type, Fields.string?_of_get? written.title, Fields.string?_of_get? written.description,
    Fields.string?_of_get? written.format, Fields.flag_of_get? written.nullable,
    Fields.flag_of_get? written.deprecated, Fields.flag_of_get? written.readOnly,
    Fields.flag_of_get? written.writeOnly, written.default, written.sample, written.extensions,
    ← place]
  rfl

/-- What is read as an array is an array. -/
lemma Schema.exists_of_readArray {σ : Type} {read : Json → String → Except ModelError σ}
    {kind : SchemaKind σ} (h : readArray read fields = .ok kind) :
    ∃ items minItems maxItems, kind = .array items minItems maxItems := by
  unfold readArray at h
  split at h
  · cases h
  · simp only [bind_eq_ok, pure_eq_ok] at h
    obtain ⟨items, -, minItems, -, maxItems, -, rfl⟩ := h
    exact ⟨items, minItems, maxItems, rfl⟩

/-- What is read as an object is an object. -/
lemma Schema.exists_of_readObject {σ : Type} {read : Json → String → Except ModelError σ}
    {kind : SchemaKind σ} (h : readObject read fields = .ok kind) :
    ∃ properties required additional, kind = .object properties required additional := by
  simp only [readObject, bind_eq_ok, pure_eq_ok] at h
  obtain ⟨properties, -, texts, -, additional, -, rfl⟩ := h
  exact ⟨properties, _, additional, rfl⟩

/-- Where no keyword tells the kind before them, the declared type and the properties do. -/
lemma Schema.readKind_of_absent {σ : Type} (read : Json → String → Except ModelError σ)
    (declared : Option SchemaType)
    (absent : ∀ key ∈ ["oneOf", "allOf", "anyOf", "enum"], ¬ fields.has key = true) :
    readKind read declared fields =
      if declared = some .array then do return (← readArray read fields, false)
      else if declared = some .object ∨ fields.has "properties" = true then do
        return (← readObject read fields, false)
      else do
        return (.primitive (declared.bind PrimitiveType.ofType?) (← readConstraints fields), false) := by
  rw [readKind, if_neg (absent "oneOf" (by decide)), if_neg (absent "allOf" (by decide)),
    if_neg (absent "anyOf" (by decide)), if_neg (absent "enum" (by decide))]

end Scalars

/-- Reading some positions again once they are written.  Only positions that were read before are
asked for, as only these are known to be read alike. -/
structure ReadsBack {σ : Type} (read back : Json → String → Except ModelError σ)
    (writeSlot : σ → Json) (again : σ → σ) (slots : List σ) : Prop where
  object : ∀ slot, ∃ entries, writeSlot slot = .obj entries
  slot : ∀ value pointer slot, slot ∈ slots → read value pointer = .ok slot →
    back (writeSlot slot) pointer = .ok (again slot)

namespace ReadsBack

variable {σ : Type} {read back : Json → String → Except ModelError σ} {writeSlot : σ → Json}
  {again : σ → σ} {slots fewer : List σ} {fields written : Fields}

/-- Fewer positions are read again if all are. -/
lemma mono (reads : ReadsBack read back writeSlot again slots) (le : fewer ⊆ slots) :
    ReadsBack read back writeSlot again fewer where
  object := reads.object
  slot value pointer slot h := reads.slot value pointer slot (le h)

/-- Items are read back. -/
lemma eachItem {pointer : String} {index : Nat} {values : List Json} {all : List σ}
    (reads : ReadsBack read back writeSlot again all)
    (h : Fields.eachItem read pointer index values = .ok all) :
    Fields.eachItem back pointer index (all.map writeSlot) = .ok (all.map again) := by
  induction values generalizing index all with
  | nil =>
    cases h
    rfl
  | cons value rest ih =>
    obtain ⟨first, hf, h⟩ := bind_eq_ok.1 h
    obtain ⟨others, ho, h⟩ := bind_eq_ok.1 h
    cases h
    have here := reads.slot _ _ _ List.mem_cons_self hf
    have later := ih (reads.mono (List.subset_cons_self first others)) ho
    exact bind_eq_ok.2 ⟨_, here, bind_eq_ok.2 ⟨_, later, rfl⟩⟩

/-- Entries are read back. -/
lemma eachEntry {pointer : String} {entries : List (String × Json)} {all : Entries σ}
    (reads : ReadsBack read back writeSlot again all.values)
    (h : Fields.eachEntry (fun _ => read) pointer entries = .ok all) :
    Fields.eachEntry (fun _ => back) pointer (all.map fun entry => (entry.1, writeSlot entry.2)) =
      .ok (all.map fun entry => (entry.1, again entry.2)) := by
  induction entries generalizing all with
  | nil =>
    cases h
    rfl
  | cons entry rest ih =>
    obtain ⟨key, value⟩ := entry
    obtain ⟨first, hf, h⟩ := bind_eq_ok.1 h
    obtain ⟨others, ho, h⟩ := bind_eq_ok.1 h
    cases h
    have here := reads.slot _ _ _ List.mem_cons_self hf
    have later := ih (reads.mono (List.subset_cons_self first (Entries.values others))) ho
    exact bind_eq_ok.2 ⟨_, here, bind_eq_ok.2 ⟨_, later, rfl⟩⟩

variable (same : written.pointer = fields.pointer)
include same

/-- Members are read back. -/
lemma readMembers {key : String} {members : List σ}
    (reads : ReadsBack read back writeSlot again members)
    (h : Schema.readMembers read fields key = .ok members)
    (held : written.get? key = some (.arr (members.map writeSlot))) :
    Schema.readMembers back written key = .ok (members.map again) := by
  obtain ⟨values?, hv, h⟩ := bind_eq_ok.1 h
  refine bind_eq_ok.2 ⟨_, Fields.array?_of_get? held, ?_⟩
  cases values? with
  | none => cases h
  | some values =>
    rw [Fields.childPointer] at h
    rw [Fields.childPointer, same]
    exact reads.eachItem h

/-- Arrays are read back. -/
lemma readArray {items : σ} {minItems maxItems : Option Nat}
    (reads : ReadsBack read back writeSlot again [items])
    (h : Schema.readArray read fields = .ok (.array items minItems maxItems))
    (held : written.get? "items" = some (writeSlot items))
    (least : written.get? "minItems" = minItems.map Json.ofNat)
    (most : written.get? "maxItems" = maxItems.map Json.ofNat) :
    Schema.readArray back written = .ok (.array (again items) minItems maxItems) := by
  unfold Schema.readArray at h ⊢
  split at h
  · cases h
  · simp only [bind_eq_ok, pure_eq_ok] at h
    obtain ⟨found, hf, _, -, _, -, e⟩ := h
    cases e
    have here := reads.slot _ _ _ List.mem_cons_self hf
    rw [Fields.childPointer, ← same] at here
    rw [held]
    refine bind_eq_ok.2 ⟨_, here, bind_eq_ok.2 ⟨_, Fields.nat?_of_get? least, ?_⟩⟩
    exact bind_eq_ok.2 ⟨_, Fields.nat?_of_get? most, rfl⟩

/-- What is said about additional properties is read back. -/
lemma readAdditional {additional : AdditionalProperties σ}
    (reads : ReadsBack read back writeSlot again additional.slot?.toList)
    (h : Schema.readAdditional read fields = .ok additional)
    (held : written.get? "additionalProperties" =
      Entries.get? "additionalProperties" (additional.write writeSlot)) :
    Schema.readAdditional back written = .ok (additional.map again) := by
  unfold Schema.readAdditional at h ⊢
  rw [held]
  cases additional with
  | absent => rfl
  | allowed value => rfl
  | schema slot =>
    obtain ⟨entries, e⟩ := reads.object slot
    have first : ∃ value, read value (fields.childPointer "additionalProperties") = .ok slot := by
      split at h
      case h_4 entries _ =>
        obtain ⟨found, hf, e⟩ := bind_eq_ok.1 h
        cases e
        exact ⟨_, hf⟩
      all_goals cases h
    obtain ⟨value, first⟩ := first
    have here := reads.slot _ _ _ (List.mem_singleton_self slot) first
    rw [Fields.childPointer, ← same, e] at here
    rw [AdditionalProperties.write, Entries.get?_cons, if_pos rfl, e]
    exact bind_eq_ok.2 ⟨_, here, rfl⟩

/-- Properties are read back, and none where there are none. -/
lemma readProperties {properties : Entries σ}
    (reads : ReadsBack read back writeSlot again properties.values)
    (h : fields.table "properties" (fun _ => read) = .ok properties)
    (held : written.get? "properties" = if properties.isEmpty then none
      else some (.obj (properties.map fun entry => (entry.1, writeSlot entry.2)))) :
    written.table "properties" (fun _ => back) =
      .ok (properties.map fun entry => (entry.1, again entry.2)) := by
  obtain ⟨entries?, -, h⟩ := bind_eq_ok.1 h
  cases properties with
  | nil =>
    have absent : written.object? "properties" = .ok none := by
      unfold Fields.object?
      rw [held]
      rfl
    exact bind_eq_ok.2 ⟨none, absent, rfl⟩
  | cons entry rest =>
    refine bind_eq_ok.2 ⟨_, Fields.object?_of_get? held, ?_⟩
    cases entries? with
    | none => cases h
    | some entries =>
      rw [Fields.childPointer] at h
      rw [Fields.childPointer, same]
      exact reads.eachEntry h

/-- Objects are read back. -/
lemma readObject {properties : Entries σ} {required : List String}
    {additional : AdditionalProperties σ}
    (reads : ReadsBack read back writeSlot again
      (Entries.values properties ++ additional.slot?.toList))
    (h : Schema.readObject read fields = .ok (.object properties required additional))
    (held : (SchemaKind.object properties required additional).WrittenIn writeSlot written) :
    Schema.readObject back written =
      .ok ((SchemaKind.object properties required additional).map again) := by
  obtain ⟨own, hp, h⟩ := bind_eq_ok.1 h
  obtain ⟨texts, -, h⟩ := bind_eq_ok.1 h
  obtain ⟨others, ha, h⟩ := bind_eq_ok.1 h
  cases h
  have table : written.table "properties" (fun _ => back) =
      .ok (properties.map fun entry => (entry.1, again entry.2)) := by
    refine readProperties same (reads.mono (List.subset_append_left _ _)) hp ?_
    exact (held "properties" (by decide)).trans SchemaKind.get?_properties
  have strings : written.strings "required" = .ok (OrderedSet.ofList texts) := by
    have held := (held "required" (by decide)).trans SchemaKind.get?_required
    cases hr : OrderedSet.ofList texts with
    | nil => exact Fields.strings_of_get?_eq_none (by rw [held, hr]; rfl)
    | cons text rest => exact Fields.strings_of_get? (by rw [held, hr]; rfl)
  have additional : Schema.readAdditional back written = .ok (additional.map again) :=
    readAdditional same (reads.mono (List.subset_append_right _ _)) ha
      ((held "additionalProperties" (by decide)).trans SchemaKind.get?_additional)
  refine bind_eq_ok.2 ⟨_, table, bind_eq_ok.2 ⟨_, strings, bind_eq_ok.2 ⟨_, additional, ?_⟩⟩⟩
  rw [OrderedSet.ofList_of_nodup (OrderedSet.nodup_ofList texts)]
  rfl

/-- Where an object was read and written, a hollow one is read as a primitive, as nothing tells that it
is an object, and any other one is read back. -/
lemma readKind_object {declared : Option SchemaType} {properties : Entries σ} {required : List String}
    {additional : AdditionalProperties σ}
    (reads : ReadsBack read back writeSlot again
      (Entries.values properties ++ additional.slot?.toList))
    (h : Schema.readObject read fields = .ok (.object properties required additional))
    (held : (SchemaKind.object properties required additional).WrittenIn writeSlot written)
    (array : ¬ declared = some .array)
    (unled : ∀ key ∈ ["oneOf", "allOf", "anyOf", "enum"], ¬ written.has key = true) :
    Schema.readKind back declared written =
      .ok ((SchemaKind.object properties required additional).reread declared again, false) := by
  rw [Schema.readKind_of_absent back declared unled, if_neg array]
  have there : written.has "properties" = !properties.isEmpty := by
    rw [Fields.has, Entries.has, ← Fields.get?, held "properties" (by decide),
      SchemaKind.get?_properties]
    cases properties <;> rfl
  have hollow_iff : (SchemaKind.object properties required additional).isHollow declared = true ↔
      ¬ (declared = some .object ∨ written.has "properties" = true) := by
    rw [there]
    cases properties <;> simp [SchemaKind.isHollow]
  rw [SchemaKind.reread]
  split_ifs with told hollow hollow
  · exact absurd told (hollow_iff.1 hollow)
  · have object := readObject same reads h held
    exact bind_eq_ok.2 ⟨_, object, rfl⟩
  -- Nothing that is written for an object is a constraint.
  · have apart : ∀ key ∈ Constraints.keywords,
        key ∉ ["properties", "required", "additionalProperties"] := by
      decide
    have constraints : Schema.readConstraints written = .ok .unbounded := by
      refine Schema.readConstraints_of_written fun key hk => ?_
      rw [held key (List.mem_append_right _ hk),
        (SchemaKind.keysIn_own writeSlot _).get?_eq_none (apart key hk)]
      rfl
    exact bind_eq_ok.2 ⟨_, constraints, rfl⟩
  · exact absurd (hollow_iff.2 told) hollow

/-- What is proper to a kind is read back, but a hollow object is read as a primitive. -/
lemma readKind {declared : Option SchemaType} {kind : SchemaKind σ} {nullable : Bool}
    (reads : ReadsBack read back writeSlot again kind.slots)
    (h : Schema.readKind read declared fields = .ok (kind, nullable))
    (held : kind.WrittenIn writeSlot written) :
    Schema.readKind back declared written = .ok (kind.reread declared again, false) := by
  have unled : (∀ key ∈ ["oneOf", "allOf", "anyOf", "enum"], key ∉ kind.own) →
      ∀ key ∈ ["oneOf", "allOf", "anyOf", "enum"], ¬ written.has key = true := by
    have within : ["oneOf", "allOf", "anyOf", "enum"] ⊆ SchemaKind.keywords := by decide
    exact fun others key hk => held.not_has (within hk) (others key hk)
  unfold Schema.readKind at h
  -- By the branch that was taken: it fixes the kind, and so the keywords that are written.
  split_ifs at h with _ _ _ _ array object
  · obtain ⟨members, hm, h⟩ := bind_eq_ok.1 h
    cases h
    have members := readMembers same reads hm (held "oneOf" (by decide))
    rw [Schema.readKind, if_pos (held.has (by decide) rfl)]
    exact bind_eq_ok.2 ⟨_, members, rfl⟩
  · obtain ⟨members, hm, h⟩ := bind_eq_ok.1 h
    cases h
    have members := readMembers same reads hm (held "allOf" (by decide))
    rw [Schema.readKind, if_neg (held.not_has (by decide) (by simp [SchemaKind.own])),
      if_pos (held.has (by decide) rfl)]
    exact bind_eq_ok.2 ⟨_, members, rfl⟩
  · obtain ⟨members, hm, h⟩ := bind_eq_ok.1 h
    cases h
    have members := readMembers same reads hm (held "anyOf" (by decide))
    rw [Schema.readKind, if_neg (held.not_has (by decide) (by simp [SchemaKind.own])),
      if_neg (held.not_has (by decide) (by simp [SchemaKind.own])),
      if_pos (held.has (by decide) rfl)]
    exact bind_eq_ok.2 ⟨_, members, rfl⟩
  · obtain ⟨⟨values, found⟩, -, h⟩ := bind_eq_ok.1 h
    cases h
    have values := Schema.readEnum_of_written (held "enum" (by decide))
    rw [Schema.readKind, if_neg (held.not_has (by decide) (by simp [SchemaKind.own])),
      if_neg (held.not_has (by decide) (by simp [SchemaKind.own])),
      if_neg (held.not_has (by decide) (by simp [SchemaKind.own])),
      if_pos (held.has (by decide) rfl)]
    exact bind_eq_ok.2 ⟨_, values, rfl⟩
  · obtain ⟨found, ha, h⟩ := bind_eq_ok.1 h
    cases h
    obtain ⟨items, minItems, maxItems, rfl⟩ := Schema.exists_of_readArray ha
    have items := readArray same reads ha
      ((held "items" (by decide)).trans (by simp [SchemaKind.write]))
      ((held "minItems" (by decide)).trans (by simp [SchemaKind.write, Entries.get?_append]))
      ((held "maxItems" (by decide)).trans (by simp [SchemaKind.write, Entries.get?_append]))
    rw [Schema.readKind_of_absent back declared (unled (by simp [SchemaKind.own])), if_pos array]
    exact bind_eq_ok.2 ⟨_, items, rfl⟩
  · obtain ⟨found, ho, h⟩ := bind_eq_ok.1 h
    cases h
    obtain ⟨properties, required, additional, rfl⟩ := Schema.exists_of_readObject ho
    exact readKind_object same reads ho held array (unled (by simp [SchemaKind.own]))
  · obtain ⟨found, -, h⟩ := bind_eq_ok.1 h
    cases h
    have constraints := Schema.readConstraints_of_written fun key hk =>
      held key (List.mem_append_right _ hk)
    have untold : ¬ (declared = some .object ∨ written.has "properties" = true) := by
      rintro (e | properties)
      · exact object (.inl e)
      · exact held.not_has (by decide) (by simp [SchemaKind.own, Constraints.keywords]) properties
    rw [Schema.readKind_of_absent back declared
      (unled (by simp [SchemaKind.own, Constraints.keywords])), if_neg array, if_neg untold]
    exact bind_eq_ok.2 ⟨_, constraints, rfl⟩

end ReadsBack

end OpenApiManifest
