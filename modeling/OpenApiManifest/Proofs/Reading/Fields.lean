import Mathlib.Data.List.Forall2
import OpenApiManifest.Json.Fields
import OpenApiManifest.Proofs.Reading.Tree

/-!
# What the fields of an object are read from

Whatever is read from a field of an object, from an item of one of its arrays or from an entry of one
of its tables was read from the value at its path, with the pointer of that path (`ReadAt`).
-/

namespace OpenApiManifest

/-- Two steps one after the other succeed exactly if the first does, and the second does with what it gives.
-/
lemma bind_eq_ok {ε α β : Type} {first : Except ε α} {next : α → Except ε β} {b : β} :
    (first >>= next) = .ok b ↔ ∃ a, first = .ok a ∧ next a = .ok b := by
  cases first with
  | error e => exact ⟨nofun, nofun⟩
  | ok a =>
    refine ⟨fun h => ⟨a, rfl, h⟩, ?_⟩
    rintro ⟨_, e, h⟩
    cases e
    exact h

/-- A step that only gives a value succeeds with that value. -/
lemma pure_eq_ok {ε α : Type} {a b : α} : (pure a : Except ε α) = .ok b ↔ a = b :=
  ⟨fun h => by cases h; rfl, fun h => by cases h; rfl⟩

/-- There is a value where the error is forgotten exactly if the result is that value. -/
lemma toOption_eq_some {ε α : Type} {result : Except ε α} {a : α} :
    result.toOption = some a ↔ result = .ok a := by
  cases result with
  | error e => exact ⟨nofun, nofun⟩
  | ok b => exact ⟨fun h => congrArg _ (Option.some.inj h), fun h => congrArg _ (Except.ok.inj h)⟩

/-- Each member of a list has one that is related to it. -/
lemma exists_of_forall₂_left {α β : Type} {relates : α → β → Prop} {values : List α} {others : List β}
    (h : List.Forall₂ relates values others) {value : α} (hv : value ∈ values) :
    ∃ other ∈ others, relates value other := by
  induction h with
  | nil => cases hv
  | cons related _ ih =>
    rcases List.mem_cons.1 hv with rfl | hv
    · exact ⟨_, List.mem_cons_self, related⟩
    · obtain ⟨other, ho, related⟩ := ih hv
      exact ⟨other, List.mem_cons_of_mem _ ho, related⟩

/-- In two lists that are related one by one, each entry of the second is related to one of the first. -/
lemma exists_of_forall₂_right {α β : Type} {relates : α → β → Prop} {values : List α} {others : List β}
    (h : List.Forall₂ relates values others) {other : β} (ho : other ∈ others) :
    ∃ value ∈ values, relates value other :=
  exists_of_forall₂_left h.flip ho

/-- There are members related to those of a list if there is one for each. -/
lemma exists_forall₂_iff {α β : Type} {relates : α → β → Prop} {values : List α} :
    (∃ others, List.Forall₂ relates values others) ↔ ∀ value ∈ values, ∃ other, relates value other := by
  induction values with
  | nil => simp
  | cons value rest ih =>
    rw [List.forall_mem_cons, ← ih]
    constructor
    · rintro ⟨_, h⟩
      cases h with
      | cons hf h => exact ⟨⟨_, hf⟩, _, h⟩
    · rintro ⟨⟨other, hf⟩, others, h⟩
      exact ⟨other :: others, .cons hf h⟩

/-- What two lists have in common member by member. -/
lemma map_eq_of_forall₂ {α β γ : Type} {relates : α → β → Prop} {values : List α} {others : List β}
    (f : α → γ) (g : β → γ) (same : ∀ value other, relates value other → f value = g other)
    (h : List.Forall₂ relates values others) : values.map f = others.map g := by
  induction h with
  | nil => rfl
  | cons hf _ ih => rw [List.map_cons, List.map_cons, same _ _ hf, ih]

/-- What was read from the value at a path of a tree, with the pointer of that path. -/
def ReadAt {α : Type} (tree : Json) (read : Json → String → Except ModelError α)
    (path : List String) (a : α) : Prop :=
  ∃ value, Json.follow? tree path = some value ∧ read value (Pointer.ofSteps path) = .ok a

/-- The fields of the object at a path of a tree. -/
structure Fields.StandAt (fields : Fields) (tree : Json) (path : List String) : Prop where
  follow : Json.follow? tree path = some (.obj fields.entries)
  pointer : fields.pointer = Pointer.ofSteps path

namespace Fields

variable {α : Type} {tree : Json} {path : List String} {fields : Fields} {key : String}

/-- Fields are read from an object only, and keep the pointer. -/
lemma ofJson_eq_ok {value : Json} {pointer : String} (h : ofJson value pointer = .ok fields) :
    value = .obj fields.entries ∧ fields.pointer = pointer := by
  cases value with
  | obj entries =>
    cases h
    exact ⟨rfl, rfl⟩
  | _ => cases h

/-- The fields of a value that stands at a path stand at this path. -/
lemma standAt_of_ofJson {value : Json} (hv : Json.follow? tree path = some value)
    (h : ofJson value (Pointer.ofSteps path) = .ok fields) : fields.StandAt tree path := by
  obtain ⟨rfl, hp⟩ := ofJson_eq_ok h
  exact ⟨hv, hp⟩

namespace StandAt

/-- The pointer to a field is that of the longer path. -/
lemma childPointer (at_ : fields.StandAt tree path) (key : String) :
    fields.childPointer key = Pointer.ofSteps (path ++ [key]) := by
  rw [Fields.childPointer, at_.pointer, Pointer.ofSteps_append_singleton]

/-- The value of a field is what the longer path leads to. -/
lemma follow_child (at_ : fields.StandAt tree path) (key : String) :
    Json.follow? tree (path ++ [key]) = fields.get? key := by
  simp [Json.follow?_append, at_.follow, Json.follow?, get?]

/-- The value of a field stands one step below the fields. -/
lemma follow_get? (at_ : fields.StandAt tree path) {value : Json}
    (h : fields.get? key = some value) : Json.follow? tree (path ++ [key]) = some value :=
  (at_.follow_child key).trans h

end StandAt

/-- A field that holds an array. -/
lemma array?_eq_some {values : List Json} (h : fields.array? key = .ok (some values)) :
    fields.get? key = some (.arr values) := by
  unfold array? at h
  split at h <;> cases h
  assumption

/-- A field that holds no array is absent or null, if it may hold one. -/
lemma array?_eq_none (h : fields.array? key = .ok none) :
    fields.get? key = none ∨ fields.get? key = some .null := by
  unfold array? at h
  split at h <;> cases h
  · exact .inl ‹_›
  · exact .inr ‹_›

/-- A field that holds an object. -/
lemma object?_eq_some {entries : List (String × Json)}
    (h : fields.object? key = .ok (some entries)) : fields.get? key = some (.obj entries) := by
  unfold object? at h
  split at h <;> cases h
  assumption

/-- A field that holds no object is absent or null, if it may hold one. -/
lemma object?_eq_none (h : fields.object? key = .ok none) :
    fields.get? key = none ∨ fields.get? key = some .null := by
  unfold object? at h
  split at h <;> cases h
  · exact .inl ‹_›
  · exact .inr ‹_›

/-- Every item that was read was read from the item of the list at its index, with the pointer of the
index. -/
lemma exists_of_eachItem {read : Json → String → Except ModelError α} {pointer : String}
    {index i : Nat} {values : List Json} {all : List α} {a : α}
    (h : eachItem read pointer index values = .ok all) (ha : all[i]? = some a) :
    ∃ value, values[i]? = some value ∧ read value (Pointer.item pointer (index + i)) = .ok a := by
  induction values generalizing index i all with
  | nil =>
    cases h
    cases ha
  | cons value rest ih =>
    obtain ⟨first, hf, h⟩ := bind_eq_ok.1 h
    obtain ⟨others, ho, h⟩ := bind_eq_ok.1 h
    obtain rfl := pure_eq_ok.1 h
    cases i with
    | zero =>
      cases ha
      exact ⟨value, rfl, hf⟩
    | succ i =>
      obtain ⟨other, hi, hr⟩ := ih ho ha
      refine ⟨other, hi, ?_⟩
      rwa [Nat.add_assoc, Nat.add_comm 1 i] at hr

/-- Entries are read one after the other, under the same keys. -/
lemma forall₂_of_eachEntry {read : String → Json → String → Except ModelError α} {pointer : String}
    {entries : List (String × Json)} {all : Entries α} (h : eachEntry read pointer entries = .ok all) :
    List.Forall₂ (fun entry own => own.1 = entry.1 ∧
      read entry.1 entry.2 (Pointer.child pointer entry.1) = .ok own.2) entries all := by
  induction entries generalizing all with
  | nil =>
    cases h
    exact .nil
  | cons entry rest ih =>
    obtain ⟨k, value⟩ := entry
    obtain ⟨first, hf, h⟩ := bind_eq_ok.1 h
    obtain ⟨others, ho, h⟩ := bind_eq_ok.1 h
    obtain rfl := pure_eq_ok.1 h
    exact .cons ⟨rfl, hf⟩ (ih ho)

/-- Every entry that was read was read from an entry of the list, with the pointer of its key. -/
lemma exists_of_eachEntry {read : String → Json → String → Except ModelError α} {pointer : String}
    {entries : List (String × Json)} {all : Entries α} {k : String} {a : α}
    (h : eachEntry read pointer entries = .ok all) (ha : (k, a) ∈ all) :
    ∃ value, (k, value) ∈ entries ∧ read k value (Pointer.child pointer k) = .ok a := by
  obtain ⟨⟨_, value⟩, hv, rfl, hr⟩ := exists_of_forall₂_right (forall₂_of_eachEntry h) ha
  exact ⟨value, hv, hr⟩

/-- The entries that were read have the keys of the list. -/
lemma keys_eachEntry {read : String → Json → String → Except ModelError α} {pointer : String}
    {entries : List (String × Json)} {all : Entries α}
    (h : eachEntry read pointer entries = .ok all) : all.keys = Entries.keys entries :=
  (map_eq_of_forall₂ _ _ (fun _ _ same => same.1.symm) (forall₂_of_eachEntry h)).symm

section Paths

variable (at_ : fields.StandAt tree path)
include at_

/-- What is read from a field that may be there stands at the path of the field. -/
lemma readAt_optional {read : Json → String → Except ModelError α} {a : α}
    (h : fields.optional key read = .ok (some a)) : ReadAt tree read (path ++ [key]) a := by
  unfold optional at h
  split at h
  · cases h
  · rename_i value hv
    obtain ⟨b, hb, h⟩ := bind_eq_ok.1 h
    cases h
    rw [at_.childPointer] at hb
    exact ⟨value, at_.follow_get? hv, hb⟩

/-- What is read from an item of a field stands at the path of the field and its index. -/
lemma readAt_eachItem {read : Json → String → Except ModelError α} {values : List Json}
    {all : List α} {i : Nat} {a : α} (hv : fields.get? key = some (.arr values))
    (h : eachItem read (fields.childPointer key) 0 values = .ok all) (ha : all[i]? = some a) :
    ReadAt tree read (path ++ [key] ++ [Nat.repr i]) a := by
  obtain ⟨value, hi, hr⟩ := exists_of_eachItem h ha
  refine ⟨value, Json.follow?_item (at_.follow_get? hv) hi, ?_⟩
  rwa [Pointer.ofSteps_append_singleton, ← at_.childPointer, ← Nat.zero_add i]

/-- What is read from an item of a field that may hold an array stands at the path of the field and
its index. -/
lemma readAt_items {read : Json → String → Except ModelError α} {all : List α} {i : Nat} {a : α}
    (h : fields.items key read = .ok all) (ha : all[i]? = some a) :
    ReadAt tree read (path ++ [key] ++ [Nat.repr i]) a := by
  obtain ⟨values?, hv, h⟩ := bind_eq_ok.1 h
  cases values? with
  | none =>
    cases h
    cases ha
  | some values => exact readAt_eachItem at_ (array?_eq_some hv) h ha

/-- What is read from an entry of a field stands at the path of the field and its key. -/
lemma readAt_eachEntry {read : String → Json → String → Except ModelError α}
    {entries kept : List (String × Json)} {all : Entries α} {k : String} {a : α}
    (distinct : tree.keysDistinct = true) (hv : fields.get? key = some (.obj entries))
    (hk : ∀ entry ∈ kept, entry ∈ entries)
    (h : eachEntry read (fields.childPointer key) kept = .ok all) (ha : (k, a) ∈ all) :
    ReadAt tree (read k) (path ++ [key] ++ [k]) a := by
  obtain ⟨value, hm, hr⟩ := exists_of_eachEntry h ha
  have followed := at_.follow_get? hv
  have nodup := (Json.keysDistinct_obj.1 (Json.keysDistinct_follow? distinct followed)).1
  refine ⟨value, Json.follow?_field followed (Entries.get?_of_mem nodup (hk _ hm)), ?_⟩
  rwa [Pointer.ofSteps_append_singleton, ← at_.childPointer]

/-- What is read from an entry of a field that may hold an object stands at the path of the field and
its key. -/
lemma readAt_table {read : String → Json → String → Except ModelError α} {all : Entries α}
    {k : String} {a : α} (distinct : tree.keysDistinct = true)
    (h : fields.table key read = .ok all) (ha : (k, a) ∈ all) :
    ReadAt tree (read k) (path ++ [key] ++ [k]) a := by
  obtain ⟨entries?, hv, h⟩ := bind_eq_ok.1 h
  cases entries? with
  | none =>
    cases h
    cases ha
  | some entries =>
    exact readAt_eachEntry at_ distinct (object?_eq_some hv) (fun _ hm => hm) h ha

/-- The entries of a field that may hold an object have distinct keys. -/
lemma nodup_keys_table {read : String → Json → String → Except ModelError α} {all : Entries α}
    (distinct : tree.keysDistinct = true) (h : fields.table key read = .ok all) :
    all.keys.Nodup := by
  obtain ⟨entries?, hv, h⟩ := bind_eq_ok.1 h
  cases entries? with
  | none =>
    cases h
    exact List.nodup_nil
  | some entries =>
    have followed := at_.follow_get? (object?_eq_some hv)
    rw [keys_eachEntry h]
    exact (Json.keysDistinct_obj.1 (Json.keysDistinct_follow? distinct followed)).1

end Paths

end Fields

end OpenApiManifest
