import OpenApiManifest.Proofs.Reading.Fields
import OpenApiManifest.Schema.Reader

/-!
# Where schemas are read from

A slot stands at a path of a tree (`SlotAt`) if it was read from the value there.  The positions inside
a schema have sites, the keywords that lead to them from it (`Schema.sites`), and stand at the path of
the schema with those added (`SlotAt.inside`).  One slot at most stands at each path (`SlotAt.unique`):
the path settles the value, its pointer and its name, and a value is read alike with any number of
levels that is enough for it (`Schema.readWithin_alike`).
-/

namespace OpenApiManifest

/-- Positions, each with the keys and indexes on the way to it. -/
abbrev Sites (σ : Type) := List (List String × σ)

namespace Sites

variable {α σ : Type}

/-- A position to which there is no way to go. -/
def here (slot : σ) : Sites σ :=
  [([], slot)]

/-- Positions at the end of some steps. -/
def under (steps : List String) (sites : Sites σ) : Sites σ :=
  sites.map fun site => (steps ++ site.1, site.2)

/-- The positions in what may stand under a key. -/
def ofField (key : String) (sites : α → Sites σ) : Option α → Sites σ
  | none => []
  | some value => under [key] (sites value)

/-- The positions in the items of an array that stands under a key. -/
def ofItems (key : String) (sites : α → Sites σ) (items : List α) : Sites σ :=
  items.zipIdx.flatMap fun item => under [key, Nat.repr item.2] (sites item.1)

/-- The positions in the entries of a table that stands under a key. -/
def ofEntries (key : String) (sites : α → Sites σ) (entries : Entries α) : Sites σ :=
  entries.flatMap fun entry => under [key, entry.1] (sites entry.2)

/-- The positions without the steps to them. -/
def slots (sites : Sites σ) : List σ :=
  sites.map Prod.snd

variable {steps : List String} {slot : σ}

/-- A position is among some positions exactly if there are steps to it. -/
lemma mem_slots {sites : Sites σ} : slot ∈ sites.slots ↔ ∃ steps, (steps, slot) ∈ sites := by
  simp [slots]

/-- Here there is one position only, and no step to it. -/
lemma mem_here {own : σ} : (steps, slot) ∈ here own ↔ steps = [] ∧ slot = own := by
  simp [here]

/-- To the positions at the end of some steps one goes by these steps first. -/
lemma mem_under {first : List String} {sites : Sites σ} :
    (steps, slot) ∈ under first sites ↔ ∃ rest, (rest, slot) ∈ sites ∧ steps = first ++ rest := by
  simp [under, eq_comm]

/-- The positions under a key are those of the value there, if there is one, after the key. -/
lemma mem_ofField {key : String} {sites : α → Sites σ} {value? : Option α} :
    (steps, slot) ∈ ofField key sites value? ↔ ∃ value rest, value? = some value ∧
      (rest, slot) ∈ sites value ∧ steps = [key] ++ rest := by
  cases value? with
  | none => exact ⟨nofun, nofun⟩
  | some value =>
    rw [ofField, mem_under]
    constructor
    · rintro ⟨rest, hs, e⟩
      exact ⟨value, rest, rfl, hs, e⟩
    · rintro ⟨own, rest, h, hs, e⟩
      cases h
      exact ⟨rest, hs, e⟩

/-- The positions in the items of an array are those of each item, after the key and the index. -/
lemma mem_ofItems {key : String} {sites : α → Sites σ} {items : List α} :
    (steps, slot) ∈ ofItems key sites items ↔ ∃ i item rest, items[i]? = some item ∧
      (rest, slot) ∈ sites item ∧ steps = [key, Nat.repr i] ++ rest := by
  simp only [ofItems, List.mem_flatMap, Prod.exists, List.mem_zipIdx_iff_getElem?, mem_under]
  constructor
  · rintro ⟨item, i, hi, rest, hs, e⟩
    exact ⟨i, item, rest, hi, hs, e⟩
  · rintro ⟨i, item, rest, hi, hs, e⟩
    exact ⟨item, i, hi, rest, hs, e⟩

/-- The positions in a table are those of each value, after the key of the table and its own. -/
lemma mem_ofEntries {key : String} {sites : α → Sites σ} {entries : Entries α} :
    (steps, slot) ∈ ofEntries key sites entries ↔ ∃ name value rest, (name, value) ∈ entries ∧
      (rest, slot) ∈ sites value ∧ steps = [key, name] ++ rest := by
  simp only [ofEntries, List.mem_flatMap, Prod.exists, mem_under]
  constructor
  · rintro ⟨name, value, hm, rest, hs, e⟩
    exact ⟨name, value, rest, hm, hs, e⟩
  · rintro ⟨name, value, rest, hm, hs, e⟩
    exact ⟨name, value, hm, rest, hs, e⟩

/-- Without the steps, there is one position here. -/
@[simp] lemma slots_here : (here slot).slots = [slot] := rfl

/-- Without the steps, some positions and more are both without theirs. -/
@[simp] lemma slots_append (sites more : Sites σ) :
    slots (sites ++ more) = sites.slots ++ more.slots :=
  List.map_append

/-- Without the steps, it does not matter which ones stand in front. -/
@[simp] lemma slots_under (first : List String) (sites : Sites σ) :
    (under first sites).slots = sites.slots := by
  simp [slots, under]

/-- Without the steps, the positions under a key are those of the value there, if there is one. -/
@[simp] lemma slots_ofField (key : String) (sites : α → Sites σ) (value? : Option α) :
    (ofField key sites value?).slots = value?.toList.flatMap fun value => (sites value).slots := by
  cases value? with
  | none => rfl
  | some value => simp [ofField]

/-- Without the steps, the positions in an array are those of its items. -/
@[simp] lemma slots_ofItems (key : String) (sites : α → Sites σ) (items : List α) :
    (ofItems key sites items).slots = items.flatMap fun item => (sites item).slots := by
  have fst := List.zipIdx_map_fst 0 items
  calc (ofItems key sites items).slots
      = items.zipIdx.flatMap fun item => (sites item.1).slots := by
        rw [slots, ofItems, List.map_flatMap]
        exact congrArg (items.zipIdx.flatMap ·) (funext fun item => slots_under _ _)
    _ = (items.zipIdx.map Prod.fst).flatMap fun item => (sites item).slots := by
        rw [List.flatMap_map]
    _ = items.flatMap fun item => (sites item).slots := by rw [fst]

/-- Without the steps, the positions in a table are those of its values. -/
@[simp] lemma slots_ofEntries (key : String) (sites : α → Sites σ) (entries : Entries α) :
    (ofEntries key sites entries).slots = entries.values.flatMap fun value => (sites value).slots := by
  rw [slots, ofEntries, List.map_flatMap, Entries.values, List.flatMap_map]
  exact congrArg (entries.flatMap ·) (funext fun entry => slots_under _ _)

end Sites

/-- The positions in what is proper to a kind of schema. -/
def SchemaKind.slots {σ : Type} : SchemaKind σ → List σ
  | .primitive .. | .enum _ => []
  | .array items _ _ => [items]
  | .object properties _ additional => Entries.values properties ++ additional.slot?.toList
  | .oneOf members | .allOf members | .anyOf members => members

/-- The positions in what is proper to a kind of schema, with the keywords that lead to them. -/
def SchemaKind.sites {σ : Type} : SchemaKind σ → Sites σ
  | .primitive .. | .enum _ => []
  | .array items _ _ => Sites.under ["items"] (Sites.here items)
  | .object properties _ additional =>
    Sites.ofEntries "properties" Sites.here properties
      ++ Sites.ofField "additionalProperties" Sites.here additional.slot?
  | .oneOf members => Sites.ofItems "oneOf" Sites.here members
  | .allOf members => Sites.ofItems "allOf" Sites.here members
  | .anyOf members => Sites.ofItems "anyOf" Sites.here members

namespace SchemaKind

variable {σ : Type} {kind : SchemaKind σ} {steps : List String} {slot : σ}

/-- The sites of a kind of schema are those of its positions. -/
lemma slots_sites : kind.sites.slots = kind.slots := by
  cases kind with
  | primitive type constraints => rfl
  | enum values => rfl
  | array items minItems maxItems => rfl
  | object properties required additional => simp [slots, sites]
  | oneOf members => simp [slots, sites]
  | allOf members => simp [slots, sites]
  | anyOf members => simp [slots, sites]

/-- Some step leads to every position in a kind of schema. -/
lemma ne_nil_of_mem_sites (h : (steps, slot) ∈ kind.sites) : steps ≠ [] := by
  have members : ∀ {key members},
      (steps, slot) ∈ Sites.ofItems key (Sites.here (σ := σ)) members → steps ≠ [] := by
    intro key members h
    obtain ⟨i, own, rest, -, -, rfl⟩ := Sites.mem_ofItems.1 h
    exact List.cons_ne_nil _ _
  cases kind with
  | primitive type constraints => cases h
  | enum values => cases h
  | array items minItems maxItems =>
    obtain ⟨rest, -, rfl⟩ := Sites.mem_under.1 h
    exact List.cons_ne_nil _ _
  | object properties required additional =>
    rcases List.mem_append.1 h with h | h
    · obtain ⟨key, own, rest, -, -, rfl⟩ := Sites.mem_ofEntries.1 h
      exact List.cons_ne_nil _ _
    · obtain ⟨own, rest, -, -, rfl⟩ := Sites.mem_ofField.1 h
      exact List.cons_ne_nil _ _
  | oneOf own => exact members h
  | allOf own => exact members h
  | anyOf own => exact members h

end SchemaKind

/-- The positions directly inside a schema. -/
def Schema.slots (schema : Schema) : List SchemaSlot :=
  schema.kind.slots

/-- The positions directly inside a schema, with the keywords that lead to them. -/
def Schema.sites (schema : Schema) : Sites SchemaSlot :=
  schema.kind.sites

namespace Schema

variable {schema : Schema} {slot : SchemaSlot}

/-- The items of an array stand directly inside it. -/
lemma mem_slots_of_items? (h : schema.items? = some slot) : slot ∈ schema.slots := by
  unfold items? at h
  split at h
  · rename_i hk
    cases h
    rw [slots, hk]
    exact List.mem_singleton_self slot
  · cases h

/-- The properties of an object stand directly inside it. -/
lemma mem_slots_of_properties? {properties : Entries SchemaSlot}
    (h : schema.properties? = some properties) (hs : slot ∈ properties.values) :
    slot ∈ schema.slots := by
  unfold properties? at h
  split at h
  · rename_i hk
    cases h
    rw [slots, hk]
    exact List.mem_append_left _ hs
  · cases h

/-- The additional properties of an object stand directly inside it. -/
lemma mem_slots_of_additional? (h : schema.additional? = some slot) : slot ∈ schema.slots := by
  unfold additional? at h
  split at h
  · rename_i hk
    rw [slots, hk]
    exact List.mem_append_right _ (Option.mem_toList.2 h)
  · cases h

/-- The members of a composition or a choice stand directly inside it. -/
lemma mem_slots_of_members (h : slot ∈ schema.members) : slot ∈ schema.slots := by
  unfold members at h
  split at h
  · rename_i hk
    rw [slots, hk]
    exact h
  · rename_i hk
    rw [slots, hk]
    exact h
  · rename_i hk
    rw [slots, hk]
    exact h
  · cases h

/-- A schema with the tag of a choice is the choice of its members. -/
lemma kind_of_tag_oneOf (h : schema.tag = .oneOf) : schema.kind = .oneOf schema.members := by
  unfold tag at h
  split at h
  all_goals cases h
  rename_i own hk
  rw [members, hk]

/-- A member is no larger than all members together. -/
lemma slotSize_le_membersSize {slot : SchemaSlot} {members : List SchemaSlot} (h : slot ∈ members) :
    slotSize slot ≤ membersSize members := by
  induction members with
  | nil => cases h
  | cons first rest ih =>
    rw [membersSize]
    cases h with
    | head => exact Nat.le_add_right _ _
    | tail _ h => exact Nat.le_trans (ih h) (Nat.le_add_left _ _)

/-- A property is no larger than all properties together. -/
lemma slotSize_le_propertiesSize {slot : SchemaSlot} {properties : Entries SchemaSlot}
    (h : slot ∈ properties.values) : slotSize slot ≤ propertiesSize properties := by
  induction properties with
  | nil => cases h
  | cons first rest ih =>
    obtain ⟨name, own⟩ := first
    rw [propertiesSize]
    cases h with
    | head => exact Nat.le_add_right _ _
    | tail _ h => exact Nat.le_trans (ih h) (Nat.le_add_left _ _)

/-- What stands inside a schema is smaller than it. -/
lemma slotSize_lt_size {schema : Schema} {slot : SchemaSlot} (h : slot ∈ schema.slots) :
    slotSize slot < schema.size := by
  obtain ⟨info, kind⟩ := schema
  cases kind with
  | primitive type constraints => cases h
  | enum values => cases h
  | array items _ _ =>
    obtain rfl := List.mem_singleton.1 h
    rw [size]
    exact Nat.lt_succ_self _
  | object properties required additional =>
    rw [size]
    rcases List.mem_append.1 h with h | h
    · have := slotSize_le_propertiesSize h
      omega
    · cases additional with
      | schema value =>
        obtain rfl := List.mem_singleton.1 h
        rw [additionalSize]
        omega
      | absent => cases h
      | allowed value => cases h
  | oneOf members =>
    rw [size]
    exact Nat.lt_succ_of_le (slotSize_le_membersSize h)
  | allOf members =>
    rw [size]
    exact Nat.lt_succ_of_le (slotSize_le_membersSize h)
  | anyOf members =>
    rw [size]
    exact Nat.lt_succ_of_le (slotSize_le_membersSize h)

end Schema

/-- A reader that reads the values of at most some levels as another one does, if that reads them. -/
def ReadsAlike {α : Type} (levels : Nat) (less more : Json → String → Except ModelError α) : Prop :=
  ∀ value pointer a, value.depth ≤ levels → less value pointer = .ok a → more value pointer = .ok a

/-- The value of a field has no more levels than the fields. -/
lemma Fields.depth_le_of_get? {fields : Fields} {key : String} {value : Json}
    (h : fields.get? key = some value) : value.depth ≤ Json.depthFields fields.entries :=
  Json.depth_le_depthFields (Entries.mem_of_get? h)

namespace ReadsAlike

variable {σ : Type} {levels : Nat} {less more : Json → String → Except ModelError σ} {fields : Fields}

/-- Items are read alike. -/
lemma eachItem (alike : ReadsAlike levels less more) {pointer : String} {index : Nat}
    {values : List Json} {all : List σ} (shallow : Json.depthItems values ≤ levels)
    (h : Fields.eachItem less pointer index values = .ok all) :
    Fields.eachItem more pointer index values = .ok all := by
  induction values generalizing index all with
  | nil => exact h
  | cons value rest ih =>
    rw [Json.depthItems] at shallow
    obtain ⟨here, there⟩ := Nat.max_le.1 shallow
    obtain ⟨first, hf, h⟩ := bind_eq_ok.1 h
    obtain ⟨others, ho, h⟩ := bind_eq_ok.1 h
    exact bind_eq_ok.2 ⟨first, alike _ _ _ here hf, bind_eq_ok.2 ⟨others, ih there ho, h⟩⟩

/-- Entries are read alike. -/
lemma eachEntry (alike : ReadsAlike levels less more) {pointer : String}
    {entries : List (String × Json)} {all : Entries σ} (shallow : Json.depthFields entries ≤ levels)
    (h : Fields.eachEntry (fun _ => less) pointer entries = .ok all) :
    Fields.eachEntry (fun _ => more) pointer entries = .ok all := by
  induction entries generalizing all with
  | nil => exact h
  | cons entry rest ih =>
    obtain ⟨key, value⟩ := entry
    rw [Json.depthFields] at shallow
    obtain ⟨here, there⟩ := Nat.max_le.1 shallow
    obtain ⟨first, hf, h⟩ := bind_eq_ok.1 h
    obtain ⟨others, ho, h⟩ := bind_eq_ok.1 h
    exact bind_eq_ok.2 ⟨first, alike _ _ _ here hf, bind_eq_ok.2 ⟨others, ih there ho, h⟩⟩

variable (shallow : Json.depthFields fields.entries ≤ levels)
include shallow

/-- Tables are read alike. -/
lemma table (alike : ReadsAlike levels less more) {key : String} {all : Entries σ}
    (h : fields.table key (fun _ => less) = .ok all) :
    fields.table key (fun _ => more) = .ok all := by
  obtain ⟨entries?, hv, h⟩ := bind_eq_ok.1 h
  refine bind_eq_ok.2 ⟨entries?, hv, ?_⟩
  cases entries? with
  | none => exact h
  | some entries =>
    have deep := Fields.depth_le_of_get? (Fields.object?_eq_some hv)
    rw [Json.depth] at deep
    exact alike.eachEntry (by omega) h

/-- Members are read alike. -/
lemma readMembers (alike : ReadsAlike levels less more) {key : String} {all : List σ}
    (h : Schema.readMembers less fields key = .ok all) :
    Schema.readMembers more fields key = .ok all := by
  obtain ⟨values?, hv, h⟩ := bind_eq_ok.1 h
  refine bind_eq_ok.2 ⟨values?, hv, ?_⟩
  cases values? with
  | none => cases h
  | some values =>
    have deep := Fields.depth_le_of_get? (Fields.array?_eq_some hv)
    rw [Json.depth] at deep
    exact alike.eachItem (by omega) h

/-- Arrays are read alike. -/
lemma readArray (alike : ReadsAlike levels less more) {kind : SchemaKind σ}
    (h : Schema.readArray less fields = .ok kind) : Schema.readArray more fields = .ok kind := by
  unfold Schema.readArray at h ⊢
  cases hv : fields.get? "items" with
  | none =>
    rw [hv] at h
    cases h
  | some value =>
    rw [hv] at h
    obtain ⟨items, hi, h⟩ := bind_eq_ok.1 h
    have deep := Nat.le_trans (Fields.depth_le_of_get? hv) shallow
    exact bind_eq_ok.2 ⟨items, alike _ _ _ deep hi, h⟩

/-- Additional properties are read alike. -/
lemma readAdditional (alike : ReadsAlike levels less more) {additional : AdditionalProperties σ}
    (h : Schema.readAdditional less fields = .ok additional) :
    Schema.readAdditional more fields = .ok additional := by
  unfold Schema.readAdditional at h ⊢
  cases hv : fields.get? "additionalProperties" with
  | none =>
    rw [hv] at h
    exact h
  | some value =>
    rw [hv] at h
    cases value with
    | obj entries =>
      obtain ⟨slot, hs, h⟩ := bind_eq_ok.1 h
      have deep := Nat.le_trans (Fields.depth_le_of_get? hv) shallow
      exact bind_eq_ok.2 ⟨slot, alike _ _ _ deep hs, h⟩
    | _ => exact h

/-- Objects are read alike. -/
lemma readObject (alike : ReadsAlike levels less more) {kind : SchemaKind σ}
    (h : Schema.readObject less fields = .ok kind) :
    Schema.readObject more fields = .ok kind := by
  obtain ⟨properties, hp, h⟩ := bind_eq_ok.1 h
  obtain ⟨required, hr, h⟩ := bind_eq_ok.1 h
  obtain ⟨additional, ha, h⟩ := bind_eq_ok.1 h
  exact bind_eq_ok.2 ⟨properties, table shallow alike hp,
    bind_eq_ok.2 ⟨required, hr, bind_eq_ok.2 ⟨additional, readAdditional shallow alike ha, h⟩⟩⟩

/-- What is proper to a kind is read alike. -/
lemma readKind (alike : ReadsAlike levels less more) {declared : Option SchemaType}
    {kind : SchemaKind σ × Bool} (h : Schema.readKind less declared fields = .ok kind) :
    Schema.readKind more declared fields = .ok kind := by
  unfold Schema.readKind at h ⊢
  split_ifs at h ⊢
  case pos | pos | pos =>
    obtain ⟨members, hm, h⟩ := bind_eq_ok.1 h
    exact bind_eq_ok.2 ⟨members, readMembers shallow alike hm, h⟩
  case pos => exact h
  case pos =>
    obtain ⟨array, ha, h⟩ := bind_eq_ok.1 h
    exact bind_eq_ok.2 ⟨array, readArray shallow alike ha, h⟩
  case pos =>
    obtain ⟨object, ho, h⟩ := bind_eq_ok.1 h
    exact bind_eq_ok.2 ⟨object, readObject shallow alike ho, h⟩
  case neg => exact h

end ReadsAlike

namespace Schema

/-- What is read from the fields of an object is a schema at their pointer with the name that was
given and their extensions, of a kind that is read from them. -/
lemma readFields_eq_ok {readSlot : Json → String → Except ModelError SchemaSlot}
    {document : DocumentId} {name : Option String} {fields : Fields} {schema : Schema}
    (h : readFields readSlot document name fields = .ok schema) :
    schema.name? = name ∧ schema.place = ⟨document, fields.pointer⟩ ∧
      schema.info.extensions = fields.extensions ∧
      ∃ nullable, readKind readSlot schema.info.declaredType fields = .ok (schema.kind, nullable) := by
  obtain ⟨info, hi, h⟩ := bind_eq_ok.1 h
  obtain ⟨⟨kind, nullable⟩, hk, h⟩ := bind_eq_ok.1 h
  obtain rfl := pure_eq_ok.1 h
  have common : info.name = name ∧ info.place = ⟨document, fields.pointer⟩ ∧
      info.extensions = fields.extensions := by
    simp only [readInfo, bind_eq_ok] at hi
    obtain ⟨_, -, _, -, _, -, _, -, hi⟩ := hi
    split at hi <;> simp only [bind_eq_ok, pure_eq_ok] at hi <;>
      obtain ⟨_, -, _, -, _, -, _, -, rfl⟩ := hi <;>
      exact ⟨rfl, rfl, rfl⟩
  exact ⟨common.1, common.2.1, common.2.2, nullable, hk⟩

/-- Only what is declared an array is read with items. -/
lemma declaredType_of_readKind {readSlot : Json → String → Except ModelError SchemaSlot}
    {fields : Fields} {schema : Schema} {items : SchemaSlot} {nullable : Bool}
    (h : readKind readSlot schema.info.declaredType fields = .ok (schema.kind, nullable))
    (hi : schema.items? = some items) : schema.info.declaredType = some .array := by
  by_contra other
  unfold items? at hi
  split at hi
  case h_2 => cases hi
  case h_1 own least most hk =>
    rw [hk] at h
    unfold readKind at h
    split_ifs at h
    case pos | pos | pos | pos | neg =>
      obtain ⟨_, -, h⟩ := bind_eq_ok.1 h
      cases h
    case pos =>
      obtain ⟨object, ho, h⟩ := bind_eq_ok.1 h
      cases h
      simp only [readObject, bind_eq_ok, pure_eq_ok] at ho
      obtain ⟨_, -, _, -, _, -, ho⟩ := ho
      cases ho

/-- The properties that are read from fields that stand in a tree have distinct names. -/
lemma nodup_keys_of_readKind {readSlot : Json → String → Except ModelError SchemaSlot} {tree : Json}
    {path : List String} {fields : Fields} {schema : Schema} {properties : Entries SchemaSlot}
    {nullable : Bool} (distinct : tree.keysDistinct = true) (at_ : fields.StandAt tree path)
    (h : readKind readSlot schema.info.declaredType fields = .ok (schema.kind, nullable))
    (hp : schema.properties? = some properties) : properties.keys.Nodup := by
  unfold properties? at hp
  split at hp
  case h_2 => cases hp
  case h_1 own required additional hk =>
    cases hp
    rw [hk] at h
    unfold readKind at h
    split_ifs at h
    case pos | pos | pos | pos | neg =>
      obtain ⟨_, -, h⟩ := bind_eq_ok.1 h
      cases h
    case pos =>
      obtain ⟨array, ha, h⟩ := bind_eq_ok.1 h
      cases h
      unfold readArray at ha
      split at ha
      · cases ha
      · simp only [bind_eq_ok, pure_eq_ok] at ha
        obtain ⟨_, -, _, -, _, -, ha⟩ := ha
        cases ha
    case pos =>
      obtain ⟨object, ho, h⟩ := bind_eq_ok.1 h
      cases h
      simp only [readObject, bind_eq_ok, pure_eq_ok] at ho
      obtain ⟨table, ht, _, -, _, -, e⟩ := ho
      cases e
      exact Fields.nodup_keys_table at_ distinct ht

/-- What is read with any number of levels is read alike with as many as the value has. -/
lemma readWithin_alike {document : DocumentId} {levels enough : Nat} {name : Option String} :
    ReadsAlike enough (readWithin document levels name) (readWithin document enough name) := by
  -- By induction on the levels: the fields of an object have one level less than the object.
  induction levels generalizing enough name with
  | zero => exact fun _ _ _ _ h => by cases h
  | succ levels ih =>
    intro value pointer slot shallow h
    obtain ⟨fields, hf, h⟩ := bind_eq_ok.1 h
    obtain ⟨text?, ht, h⟩ := bind_eq_ok.1 h
    rw [(Fields.ofJson_eq_ok hf).1, Json.depth] at shallow
    have pos : 0 < enough := Nat.lt_of_lt_of_le (Nat.succ_pos _) shallow
    obtain ⟨enough, rfl⟩ := Nat.exists_eq_succ_of_ne_zero (Nat.ne_of_gt pos)
    refine bind_eq_ok.2 ⟨fields, hf, bind_eq_ok.2 ⟨text?, ht, ?_⟩⟩
    cases text? with
    | some text => exact h
    | none =>
      obtain ⟨schema, hs, h⟩ := bind_eq_ok.1 h
      obtain ⟨info, hi, hs⟩ := bind_eq_ok.1 hs
      obtain ⟨kind, hk, hs⟩ := bind_eq_ok.1 hs
      have hk := ReadsAlike.readKind (Nat.le_of_succ_le_succ shallow) ih hk
      exact bind_eq_ok.2 ⟨schema, bind_eq_ok.2 ⟨info, hi, bind_eq_ok.2 ⟨kind, hk, hs⟩⟩, h⟩

/-- What is read with any number of levels is read. -/
lemma read_of_readWithin {document : DocumentId} {levels : Nat} {name : Option String} {value : Json}
    {pointer : String} {slot : SchemaSlot}
    (h : readWithin document levels name value pointer = .ok slot) :
    read document name value pointer = .ok slot :=
  readWithin_alike _ _ _ (Nat.le_refl _) h

end Schema

/-- The name of the schema that stands at a path, which the schemas of the components have. -/
def nameAt : List String → Option String
  | ["components", "schemas", name] => some name
  | _ => none

/-- Names stand at paths of three steps only. -/
lemma nameAt_of_length_ne {path : List String} (h : path.length ≠ 3) : nameAt path = none := by
  unfold nameAt
  split
  · exact absurd rfl h
  · rfl

/-- Below the place of a schema of the components there are no names. -/
lemma nameAt_append {path steps : List String} (deep : 3 ≤ path.length) (ne : steps ≠ []) :
    nameAt (path ++ steps) = none := by
  apply nameAt_of_length_ne
  have := List.length_pos_iff.2 ne
  rw [List.length_append]
  omega

/-- A slot that was read from the value at a path of a tree. -/
structure SlotAt (document : DocumentId) (tree : Json) (path : List String) (slot : SchemaSlot) :
    Prop where
  deep : 3 ≤ path.length
  read : ReadAt tree (Schema.read document (nameAt path)) path slot

/-- The positions that are read from the fields of an object stand at their sites below it. -/
lemma readAt_of_readKind {σ : Type} {readSlot : Json → String → Except ModelError σ}
    {tree : Json} {path steps : List String} {fields : Fields} {declared : Option SchemaType}
    {kind : SchemaKind σ} {nullable : Bool} {slot : σ}
    (distinct : tree.keysDistinct = true) (at_ : fields.StandAt tree path)
    (h : Schema.readKind readSlot declared fields = .ok (kind, nullable))
    (hs : (steps, slot) ∈ kind.sites) : ReadAt tree readSlot (path ++ steps) slot := by
  -- Choices and compositions keep their members in the same way, under a key of their own.
  have member : ∀ {key members}, Schema.readMembers readSlot fields key = .ok members →
      (steps, slot) ∈ Sites.ofItems key Sites.here members →
        ReadAt tree readSlot (path ++ steps) slot := by
    intro key members hm hs
    obtain ⟨i, own, rest, hi, he, rfl⟩ := Sites.mem_ofItems.1 hs
    obtain ⟨rfl, rfl⟩ := Sites.mem_here.1 he
    obtain ⟨values?, hv, hm⟩ := bind_eq_ok.1 hm
    cases values? with
    | none => cases hm
    | some values =>
      simpa using Fields.readAt_eachItem at_ (Fields.array?_eq_some hv) hm hi
  -- One case for each kind that is read.  A kind without positions has none to follow.
  unfold Schema.readKind at h
  split_ifs at h
  case pos | pos | pos =>
    obtain ⟨members, hm, h⟩ := bind_eq_ok.1 h
    cases h
    exact member hm hs
  case pos =>
    obtain ⟨values, -, h⟩ := bind_eq_ok.1 h
    cases h
    cases hs
  case pos =>
    obtain ⟨array, ha, h⟩ := bind_eq_ok.1 h
    cases h
    unfold Schema.readArray at ha
    split at ha
    · cases ha
    · rename_i value hv
      simp only [bind_eq_ok, pure_eq_ok] at ha
      obtain ⟨items, hi, _, _, _, _, rfl⟩ := ha
      obtain ⟨rest, he, rfl⟩ := Sites.mem_under.1 hs
      obtain ⟨rfl, rfl⟩ := Sites.mem_here.1 he
      rw [at_.childPointer] at hi
      exact ⟨value, at_.follow_get? hv, hi⟩
  case pos =>
    obtain ⟨object, ho, h⟩ := bind_eq_ok.1 h
    cases h
    obtain ⟨properties, hp, ho⟩ := bind_eq_ok.1 ho
    obtain ⟨required, -, ho⟩ := bind_eq_ok.1 ho
    obtain ⟨additional, ha, ho⟩ := bind_eq_ok.1 ho
    cases ho
    cases List.mem_append.1 hs with
    | inl hs =>
      obtain ⟨key, own, rest, hm, he, rfl⟩ := Sites.mem_ofEntries.1 hs
      obtain ⟨rfl, rfl⟩ := Sites.mem_here.1 he
      simpa using Fields.readAt_table at_ distinct hp hm
    | inr hs =>
      obtain ⟨own, rest, hv, he, rfl⟩ := Sites.mem_ofField.1 hs
      obtain ⟨rfl, rfl⟩ := Sites.mem_here.1 he
      unfold Schema.readAdditional at ha
      split at ha
      case h_4 entries hg =>
        obtain ⟨value, hr, ha⟩ := bind_eq_ok.1 ha
        cases ha
        cases hv
        rw [at_.childPointer] at hr
        exact ⟨_, at_.follow_get? hg, hr⟩
      all_goals
        cases ha
        try cases hv
  case neg =>
    obtain ⟨constraints, -, h⟩ := bind_eq_ok.1 h
    cases h
    cases hs

namespace SlotAt

variable {document : DocumentId} {tree : Json} {path steps : List String} {slot : SchemaSlot}
  {schema : Schema}

/-- One slot at most stands at a path. -/
lemma unique {other : SchemaSlot} (h : SlotAt document tree path slot)
    (h' : SlotAt document tree path other) : slot = other := by
  obtain ⟨value, hv, hr⟩ := h.read
  obtain ⟨value', hv', hr'⟩ := h'.read
  obtain rfl : value = value' := Option.some.inj (hv ▸ hv')
  exact Except.ok.inj (hr.symm.trans hr')

/-- How a schema that stands at a path was read. -/
lemma owned_inv (h : SlotAt document tree path (.owned schema)) :
    ∃ levels fields, fields.StandAt tree path ∧
      Schema.readFields (Schema.readWithin document levels none) document (nameAt path) fields =
        .ok schema := by
  obtain ⟨value, hv, hr⟩ := h.read
  rw [Schema.read] at hr
  cases hd : value.depth with
  | zero =>
    rw [hd] at hr
    cases hr
  | succ levels =>
    rw [hd] at hr
    obtain ⟨fields, hf, hr⟩ := bind_eq_ok.1 hr
    obtain ⟨text?, -, hr⟩ := bind_eq_ok.1 hr
    cases text? with
    | some text =>
      obtain ⟨_, -, hr⟩ := bind_eq_ok.1 hr
      cases hr
    | none =>
      obtain ⟨schema, hs, hr⟩ := bind_eq_ok.1 hr
      cases hr
      exact ⟨levels, fields, Fields.standAt_of_ofJson hv hf, hs⟩

/-- A schema that stands at a path has the name for it. -/
lemma name? (h : SlotAt document tree path (.owned schema)) : schema.name? = nameAt path := by
  obtain ⟨_, _, -, hr⟩ := h.owned_inv
  exact (Schema.readFields_eq_ok hr).1

/-- The place of a schema that stands at a path is the pointer of the path. -/
lemma place (h : SlotAt document tree path (.owned schema)) :
    schema.place = ⟨document, Pointer.ofSteps path⟩ := by
  obtain ⟨_, fields, at_, hr⟩ := h.owned_inv
  rw [(Schema.readFields_eq_ok hr).2.1, at_.pointer]

/-- A schema with items that stands at a path is declared an array. -/
lemma type?_of_items? {items : SchemaSlot} (h : SlotAt document tree path (.owned schema))
    (hi : schema.items? = some items) : schema.type? = some .array := by
  obtain ⟨levels, fields, -, hr⟩ := h.owned_inv
  obtain ⟨-, -, -, nullable, hk⟩ := Schema.readFields_eq_ok hr
  have declared := Schema.declaredType_of_readKind hk hi
  rw [Schema.type?, declared]

/-- The properties of an object that stands at a path have distinct names. -/
lemma nodup_keys {properties : Entries SchemaSlot} (distinct : tree.keysDistinct = true)
    (h : SlotAt document tree path (.owned schema)) (hp : schema.properties? = some properties) :
    properties.keys.Nodup := by
  obtain ⟨levels, fields, at_, hr⟩ := h.owned_inv
  obtain ⟨-, -, -, nullable, hk⟩ := Schema.readFields_eq_ok hr
  exact Schema.nodup_keys_of_readKind distinct at_ hk hp

/-- The positions inside a schema that stands at a path stand at their sites below it. -/
lemma inside (distinct : tree.keysDistinct = true) (h : SlotAt document tree path (.owned schema))
    (hs : (steps, slot) ∈ schema.sites) : SlotAt document tree (path ++ steps) slot := by
  obtain ⟨levels, fields, at_, hr⟩ := h.owned_inv
  obtain ⟨-, -, -, nullable, hk⟩ := Schema.readFields_eq_ok hr
  obtain ⟨value, hv, hr⟩ := readAt_of_readKind distinct at_ hk hs
  refine ⟨?_, value, hv, ?_⟩
  · have := h.deep
    rw [List.length_append]
    omega
  · rw [nameAt_append h.deep (SchemaKind.ne_nil_of_mem_sites hs)]
    exact Schema.read_of_readWithin hr

end SlotAt

end OpenApiManifest
