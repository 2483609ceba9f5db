import OpenApiManifest.Proofs.Writing.ReadingBack

/-!
# Reading a written schema again

A schema that was read, written and read again at the same pointer is the same schema, unless
something inside it is a hollow object (`Schema.read_toJson`).  What is read again in any case is known
(`Schema.reread`): only the kinds of the hollow objects change.
-/

namespace OpenApiManifest

namespace SchemaKind

variable {σ : Type}

/-- A kind is mapped to itself if and only if its positions are. -/
lemma map_eq_self_iff {f : σ → σ} {kind : SchemaKind σ} :
    kind.map f = kind ↔ ∀ slot ∈ kind.slots, f slot = slot := by
  have each : ∀ {α : Type} {g : α → α} {all : List α}, all.map g = all ↔ ∀ a ∈ all, g a = a := by
    intro α g all
    rw [← List.map_inj_left, List.map_id']
  cases kind with
  | primitive type constraints => exact ⟨fun _ => nofun, fun _ => rfl⟩
  | enum values => exact ⟨fun _ => nofun, fun _ => rfl⟩
  | array items minItems maxItems => simp [map, slots]
  | object properties required additional =>
    have entries : properties.map (fun entry => (entry.1, f entry.2)) = properties ↔
        ∀ slot ∈ Entries.values properties, f slot = slot := by
      have pair : ∀ entry : String × σ, (entry.1, f entry.2) = entry ↔ f entry.2 = entry.2 :=
        fun entry => ⟨congrArg Prod.snd, congrArg (Prod.mk entry.1)⟩
      rw [Entries.values, List.forall_mem_map, each]
      simp only [pair]
    have others : additional.map f = additional ↔
        ∀ slot ∈ additional.slot?.toList, f slot = slot := by
      cases additional <;> simp [AdditionalProperties.map, AdditionalProperties.slot?]
    rw [map, object.injEq, slots, List.forall_mem_append, entries, others]
    exact ⟨fun same => ⟨same.1, same.2.2⟩, fun same => ⟨same.1, rfl, same.2⟩⟩
  | oneOf members => rw [map, oneOf.injEq, each, slots]
  | allOf members => rw [map, allOf.injEq, each, slots]
  | anyOf members => rw [map, anyOf.injEq, each, slots]

/-- A kind is read as it was if and only if it is not hollow and its positions are read as they
were. -/
lemma reread_eq_self_iff {declared : Option SchemaType} {f : σ → σ} {kind : SchemaKind σ} :
    kind.reread declared f = kind ↔
      ¬ kind.isHollow declared = true ∧ ∀ slot ∈ kind.slots, f slot = slot := by
  unfold reread
  split_ifs with hollow
  · refine ⟨fun e => ?_, fun h => absurd hollow h.1⟩
    rw [← e] at hollow
    cases hollow
  · rw [map_eq_self_iff]
    exact ⟨fun same => ⟨hollow, same⟩, And.right⟩

end SchemaKind

namespace Schema

mutual
/-- The schema that is read where a schema was written. -/
def reread : Schema → Schema
  | ⟨info, .primitive type constraints⟩ => ⟨info, .primitive type constraints⟩
  | ⟨info, .array items minItems maxItems⟩ => ⟨info, .array (rereadSlot items) minItems maxItems⟩
  | ⟨info, .object properties required additional⟩ =>
    if (SchemaKind.object properties required additional).isHollow info.declaredType then
      ⟨info, .primitive (info.declaredType.bind PrimitiveType.ofType?) .unbounded⟩
    else
      ⟨info, .object (rereadProperties properties) required (rereadAdditional additional)⟩
  | ⟨info, .enum values⟩ => ⟨info, .enum values⟩
  | ⟨info, .oneOf members⟩ => ⟨info, .oneOf (rereadMembers members)⟩
  | ⟨info, .allOf members⟩ => ⟨info, .allOf (rereadMembers members)⟩
  | ⟨info, .anyOf members⟩ => ⟨info, .anyOf (rereadMembers members)⟩

/-- The slot that is read where a slot was written. -/
def rereadSlot : Slot Schema → Slot Schema
  | .owned schema => .owned (reread schema)
  | .ref reference => .ref reference

/-- The members that are read where members were written. -/
def rereadMembers : List (Slot Schema) → List (Slot Schema)
  | [] => []
  | slot :: rest => rereadSlot slot :: rereadMembers rest

/-- The properties that are read where properties were written. -/
def rereadProperties : List (String × Slot Schema) → List (String × Slot Schema)
  | [] => []
  | (name, slot) :: rest => (name, rereadSlot slot) :: rereadProperties rest

/-- The additional properties that are read where additional properties were written. -/
def rereadAdditional : AdditionalProperties (Slot Schema) → AdditionalProperties (Slot Schema)
  | .absent => .absent
  | .allowed value => .allowed value
  | .schema slot => .schema (rereadSlot slot)
end

/-- Members are read again one by one. -/
lemma rereadMembers_eq (members : List SchemaSlot) : rereadMembers members = members.map rereadSlot := by
  induction members with
  | nil => rfl
  | cons slot rest ih => rw [rereadMembers, List.map_cons, ih]

/-- Properties are read again one by one, each under its key. -/
lemma rereadProperties_eq (properties : Entries SchemaSlot) :
    rereadProperties properties = properties.map fun entry => (entry.1, rereadSlot entry.2) := by
  induction properties with
  | nil => rfl
  | cons entry rest ih => rw [rereadProperties, List.map_cons, ih]

/-- Additional properties are read again with the slot of their schema, if they have one. -/
lemma rereadAdditional_eq (additional : AdditionalProperties SchemaSlot) :
    rereadAdditional additional = additional.map rereadSlot := by
  cases additional with
  | absent => rw [rereadAdditional, AdditionalProperties.map]
  | allowed value => rw [rereadAdditional, AdditionalProperties.map]
  | schema slot => rw [rereadAdditional, AdditionalProperties.map]

/-- Of a schema that was written, the information stays and the kind is read again. -/
lemma reread_eq (schema : Schema) :
    schema.reread =
      ⟨schema.info, schema.kind.reread schema.info.declaredType rereadSlot⟩ := by
  obtain ⟨info, kind⟩ := schema
  cases kind with
  | primitive type constraints => simp [reread, SchemaKind.reread, SchemaKind.isHollow, SchemaKind.map]
  | array items minItems maxItems =>
    simp [reread, SchemaKind.reread, SchemaKind.isHollow, SchemaKind.map]
  | object properties required additional =>
    rw [reread, SchemaKind.reread]
    split_ifs
    · rfl
    · rw [rereadProperties_eq, rereadAdditional_eq, SchemaKind.map]
  | enum values => simp [reread, SchemaKind.reread, SchemaKind.isHollow, SchemaKind.map]
  | oneOf members =>
    simp [reread, SchemaKind.reread, SchemaKind.isHollow, SchemaKind.map, rereadMembers_eq]
  | allOf members =>
    simp [reread, SchemaKind.reread, SchemaKind.isHollow, SchemaKind.map, rereadMembers_eq]
  | anyOf members =>
    simp [reread, SchemaKind.reread, SchemaKind.isHollow, SchemaKind.map, rereadMembers_eq]

section Depth

variable {writeSlot : SchemaSlot → Json} {info : SchemaInfo} {kind : SchemaKind SchemaSlot}
  {slot : SchemaSlot}

/-- What is written for a position stands in one of the fields that are written for the kind. -/
lemma exists_field_of_mem_slots (writeSlot : SchemaSlot → Json) (h : slot ∈ kind.slots) :
    ∃ entry ∈ kind.write writeSlot, (writeSlot slot).depth ≤ entry.2.depth := by
  have member : ∀ {members : List SchemaSlot}, slot ∈ members →
      (writeSlot slot).depth ≤ (Json.arr (members.map writeSlot)).depth := by
    intro members hs
    have mem : writeSlot slot ∈ members.map writeSlot := List.mem_map_of_mem hs
    exact Nat.le_succ_of_le (Json.depth_le_depthItems mem)
  cases kind with
  | primitive type constraints => cases h
  | enum values => cases h
  | array items minItems maxItems =>
    obtain rfl := List.mem_singleton.1 h
    exact ⟨_, List.mem_cons_self, Nat.le_refl _⟩
  | object properties required additional =>
    rcases List.mem_append.1 h with h | h
    · obtain ⟨entry, he, rfl⟩ := List.mem_map.1 h
      have mem : (entry.1, writeSlot entry.2) ∈
          properties.map fun entry => (entry.1, writeSlot entry.2) :=
        List.mem_map_of_mem he
      have filled : ¬ properties.isEmpty = true := by
        rw [List.isEmpty_iff]
        exact List.ne_nil_of_mem he
      rw [SchemaKind.write, if_neg filled, List.append_assoc]
      exact ⟨_, List.mem_cons_self, Nat.le_succ_of_le (Json.depth_le_depthFields mem)⟩
    · obtain rfl : additional = .schema slot := by
        cases additional with
        | schema value => rw [List.mem_singleton.1 h]
        | absent => cases h
        | allowed value => cases h
      exact ⟨_, List.mem_append_right _ (List.mem_singleton_self _), Nat.le_refl _⟩
  | oneOf members => exact ⟨_, List.mem_cons_self, member h⟩
  | allOf members => exact ⟨_, List.mem_cons_self, member h⟩
  | anyOf members => exact ⟨_, List.mem_cons_self, member h⟩

/-- What is written for a position is not as deep as the fields of its schema. -/
lemma depth_le_depthFields_writtenFields (h : slot ∈ kind.slots) :
    (writeSlot slot).depth ≤ Json.depthFields (writtenFields writeSlot info kind) := by
  obtain ⟨⟨key, value⟩, mem, le⟩ := exists_field_of_mem_slots writeSlot h
  have among : (key, value) ∈ writtenFields writeSlot info kind :=
    List.mem_append_left _ (List.mem_append_right _ mem)
  exact Nat.le_trans le (Json.depth_le_depthFields among)

end Depth

section Again

variable {document : DocumentId} {name : Option String} {value : Json} {pointer : String}
  {slot : SchemaSlot} {schema : Schema}

/-- A reference keeps the text that it was read from. -/
lemma text_of_ofText {text : String} {place : Place} {reference : Reference}
    (h : Reference.ofText text place = .ok reference) : reference.text = text := by
  unfold Reference.ofText at h
  split at h
  · split at h
    · cases h
    · cases h
      rfl
  · cases h

/-- A slot is written as an object. -/
lemma exists_obj_slotToJson (slot : SchemaSlot) : ∃ entries, slotToJson slot = .obj entries := by
  cases slot with
  | owned schema => exact ⟨_, by rw [slotToJson, toJson_eq]⟩
  | ref reference => exact ⟨_, by rw [slotToJson]⟩

/-- The extensions of a schema that was read are extensions. -/
lemma extended_of_readFields {readSlot : Json → String → Except ModelError SchemaSlot}
    {fields : Fields} (h : readFields readSlot document name fields = .ok schema) :
    schema.info.Extended := by
  obtain ⟨-, -, extensions, -⟩ := readFields_eq_ok h
  intro entry he
  rw [extensions, Fields.extensions] at he
  exact (List.mem_filter.1 he).2

/-- The fields that are written for a schema, at the pointer where it stands. -/
def written (schema : Schema) : Fields :=
  ⟨schema.pointer, writtenFields slotToJson schema.info schema.kind⟩

/-- A schema is read again from the fields that are written for it, if the positions inside are. -/
lemma readFields_written {read back : Json → String → Except ModelError SchemaSlot}
    {fields : Fields} (reads : ReadsBack read back slotToJson rereadSlot schema.slots)
    (h : readFields read document name fields = .ok schema) :
    readFields back document name schema.written = .ok schema.reread := by
  have extended := extended_of_readFields h
  obtain ⟨named, place, -, nullable, hk⟩ := readFields_eq_ok h
  have same : schema.written.pointer = fields.pointer := congrArg Place.pointer place
  have info : readInfo document name schema.written = .ok schema.info := by
    rw [← named]
    rw [← same] at place
    exact readInfo_of_written place (SchemaInfo.writtenIn extended)
  have kind : readKind back schema.info.declaredType schema.written =
      .ok (schema.kind.reread schema.info.declaredType rereadSlot, false) :=
    ReadsBack.readKind same reads hk (SchemaKind.writtenIn extended)
  refine bind_eq_ok.2 ⟨_, info, bind_eq_ok.2 ⟨_, kind, ?_⟩⟩
  simp only [Bool.or_false]
  rw [reread_eq]
  rfl

/-- What was read with any number of levels is read again from what is written for it. -/
lemma read_slotToJson {levels : Nat}
    (h : readWithin document levels name value pointer = .ok slot) :
    Schema.read document name (slotToJson slot) pointer = .ok (rereadSlot slot) := by
  induction levels generalizing name value pointer slot with
  | zero => cases h
  | succ levels ih =>
    obtain ⟨fields, hf, h⟩ := bind_eq_ok.1 h
    obtain ⟨text?, ht, h⟩ := bind_eq_ok.1 h
    cases text? with
    | some text =>
      obtain ⟨reference, hr, h⟩ := bind_eq_ok.1 h
      cases h
      rw [slotToJson, rereadSlot, text_of_ofText hr]
      refine bind_eq_ok.2 ⟨_, rfl, bind_eq_ok.2 ⟨some text, rfl, ?_⟩⟩
      exact bind_eq_ok.2 ⟨reference, hr, rfl⟩
    | none =>
      obtain ⟨schema, hs, h⟩ := bind_eq_ok.1 h
      cases h
      -- The positions inside are read with as many levels as all the fields have.
      have reads : ReadsBack (readWithin document levels none)
          (readWithin document (Json.depthFields schema.written.entries) none)
          slotToJson rereadSlot schema.slots := by
        refine ⟨exists_obj_slotToJson, ?_⟩
        intro value pointer slot mem hv
        exact readWithin_alike _ _ _ (depth_le_depthFields_writtenFields mem) (ih hv)
      have again := readFields_written reads hs
      have unlinked : schema.written.string? "$ref" = .ok none := by
        have absent : schema.written.get? "$ref" = none :=
          get?_of_not_mem_keywords (extended_of_readFields hs) (by decide) (by decide) (by decide)
        unfold Fields.string?
        rw [absent]
      have here : Fields.ofJson (.obj schema.written.entries) pointer = .ok schema.written := by
        have stands : schema.pointer = fields.pointer :=
          congrArg Place.pointer (readFields_eq_ok hs).2.1
        rw [← (Fields.ofJson_eq_ok hf).2, ← stands]
        rfl
      rw [slotToJson, toJson_eq, rereadSlot]
      exact bind_eq_ok.2 ⟨_, here, bind_eq_ok.2 ⟨none, unlinked, bind_eq_ok.2 ⟨_, again, rfl⟩⟩⟩

end Again

/-- A schema that stands in another one, at any depth, or is that schema. -/
inductive Inside : Schema → Schema → Prop
  | itself {schema : Schema} : Inside schema schema
  | deeper {outer inner innermost : Schema} :
    .owned inner ∈ outer.slots → Inside inner innermost → Inside outer innermost

/-- An object that has no properties and is not declared an object. -/
def Hollow (schema : Schema) : Prop :=
  schema.kind.isHollow schema.info.declaredType = true

/-- A schema without hollow objects. -/
def Solid (schema : Schema) : Prop :=
  ∀ inner, schema.Inside inner → ¬ inner.Hollow

/-- A schema is solid if it is not hollow itself and what stands directly inside it is solid. -/
lemma solid_iff {schema : Schema} :
    schema.Solid ↔ ¬ schema.Hollow ∧ ∀ inner, .owned inner ∈ schema.slots → inner.Solid := by
  constructor
  · intro solid
    refine ⟨solid schema .itself, ?_⟩
    exact fun inner mem innermost inside => solid innermost (.deeper mem inside)
  · rintro ⟨here, below⟩ inner inside
    cases inside with
    | itself => exact here
    | deeper mem inside => exact below _ mem _ inside

/-- A schema is read as it was if and only if it is solid. -/
lemma reread_eq_self_iff {schema : Schema} : schema.reread = schema ↔ schema.Solid := by
  induction hn : schema.size using Nat.strongRecOn generalizing schema with
  | ind n ih =>
    subst hn
    have slot : ∀ slot ∈ schema.slots,
        (rereadSlot slot = slot ↔ ∀ inner, slot = .owned inner → inner.Solid) := by
      intro slot mem
      cases slot with
      | owned inner =>
        have smaller : inner.size < schema.size := by
          have lt := slotSize_lt_size mem
          rwa [slotSize] at lt
        rw [rereadSlot, Slot.owned.injEq, ih _ smaller rfl]
        exact ⟨fun solid _ e => Slot.owned.inj e ▸ solid, fun solid => solid inner rfl⟩
      | ref reference =>
        rw [rereadSlot]
        exact ⟨fun _ => nofun, fun _ => rfl⟩
    have kind : schema.reread = schema ↔
        schema.kind.reread schema.info.declaredType rereadSlot = schema.kind := by
      obtain ⟨info, own⟩ := schema
      rw [reread_eq]
      exact ⟨congrArg Schema.kind, congrArg (Schema.mk info)⟩
    rw [kind, SchemaKind.reread_eq_self_iff, solid_iff]
    refine and_congr_right fun _ => ?_
    constructor
    · exact fun same inner mem => (slot _ mem).1 (same _ mem) inner rfl
    · exact fun solid other mem => (slot other mem).2 fun inner e => solid inner (e ▸ mem)

/-- A schema that was read, written and read again at the same pointer with the same name is known, and
is the schema that was read first if and only if that has no hollow objects inside. -/
theorem read_toJson {document : DocumentId} {name : Option String} {value : Json} {pointer : String}
    {schema : Schema} (h : read document name value pointer = .ok (.owned schema)) :
    read document name schema.toJson pointer = .ok (.owned schema.reread) ∧
      (read document name schema.toJson pointer = .ok (.owned schema) ↔ schema.Solid) := by
  have again : read document name schema.toJson pointer = .ok (.owned schema.reread) := by
    have again := read_slotToJson h
    rwa [slotToJson, rereadSlot] at again
  refine ⟨again, ?_⟩
  rw [again, Except.ok.injEq, Slot.owned.injEq, reread_eq_self_iff]

/-- A description of albums, which is written in another way than it is read. -/
def albumValue : Json :=
  .obj [
    ("properties", .obj [
      ("year", .obj [
        ("type", .arr [.str "integer", .str "null"]),
        ("exclusiveMinimum", Json.ofNat 1887)]),
      ("tracks", .obj [
        ("type", .str "array"),
        ("items", .obj [("$ref", .str "#/components/schemas/Track")])]),
      ("notes", .obj [("type", .str "object"), ("properties", .obj [])])]),
    ("required", .arr [.str "tracks", .str "tracks"])]

/-- What is read from the description of albums. -/
def album : Schema :=
  let info (name : Option String) (pointer : String) (type : Option SchemaType) (nullable : Bool) :
      SchemaInfo :=
    ⟨name, ⟨⟨0⟩, pointer⟩, none, none, type, none, nullable, false, false, false, none, none, []⟩
  let track : Reference :=
    ⟨"#/components/schemas/Track", "schemas", "Track",
      ⟨⟨0⟩, "#/components/schemas/Album/properties/tracks/items"⟩⟩
  ⟨info (some "Album") "#/components/schemas/Album" none false,
    .object
      [("year", .owned
        ⟨info none "#/components/schemas/Album/properties/year" (some .integer) true,
          .primitive (some .integer)
            { Constraints.unbounded with minimum := some (.int 1887), exclusiveMinimum := true }⟩),
        ("tracks", .owned
          ⟨info none "#/components/schemas/Album/properties/tracks" (some .array) false,
            .array (.ref track) none none⟩),
        ("notes", .owned
          ⟨info none "#/components/schemas/Album/properties/notes" (some .object) false,
            .object [] [] .absent⟩)]
      ["tracks"] .absent⟩

/-- A schema for albums that has no hollow objects, although the notes are an object without
properties, is the same after it was written. -/
theorem read_toJson_album :
    read ⟨0⟩ (some "Album") albumValue "#/components/schemas/Album" = .ok (.owned album) ∧
      album.Solid ∧
      read ⟨0⟩ (some "Album") album.toJson "#/components/schemas/Album" = .ok (.owned album) := by
  have first : read ⟨0⟩ (some "Album") albumValue "#/components/schemas/Album" = .ok (.owned album) :=
    rfl
  have solid : album.Solid := by
    refine solid_iff.2 ⟨Bool.false_ne_true, fun inner mem => ?_⟩
    simp only [album, slots, SchemaKind.slots, Entries.values, List.map_cons, List.map_nil,
      AdditionalProperties.slot?, Option.toList_none, List.append_nil, List.mem_cons,
      List.not_mem_nil, or_false, Slot.owned.injEq] at mem
    -- Nothing stands inside the year and the notes, and a reference inside the tracks.
    rcases mem with rfl | rfl | rfl
    · exact solid_iff.2 ⟨Bool.false_ne_true, fun inner mem => absurd mem List.not_mem_nil⟩
    · refine solid_iff.2 ⟨Bool.false_ne_true, fun inner mem => ?_⟩
      cases List.mem_singleton.1 mem
    · exact solid_iff.2 ⟨Bool.false_ne_true, fun inner mem => absurd mem List.not_mem_nil⟩
  exact ⟨first, solid, (read_toJson first).2.2 solid⟩

/-- An object of which only `properties` tells that it is one is written without that keyword if it has
none, and what is read then is a primitive of any type. -/
theorem read_toJson_hollow :
    ∃ schema again,
      read ⟨0⟩ (some "Empty") (.obj [("properties", .obj [])]) "#/components/schemas/Empty" =
        .ok (.owned schema) ∧
      schema.toJson = .obj [] ∧
      read ⟨0⟩ (some "Empty") schema.toJson "#/components/schemas/Empty" = .ok (.owned again) ∧
      schema.tag = .object ∧ again.tag = .primitive ∧ again ≠ schema := by
  refine ⟨_, _, rfl, rfl, rfl, rfl, rfl, ?_⟩
  intro same
  have tags := congrArg tag same
  cases tags

end Schema

end OpenApiManifest
