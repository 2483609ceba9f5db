import Mathlib.Data.List.Induction
import Std.Data.String.ToNat
import OpenApiManifest.Json.Pointer

/-!
# Paths into a tree

A path is the list of keys and indexes that lead to a value of a tree.  In a tree whose objects do not
repeat a key (`Json.keysDistinct`) the value that stands somewhere is the value that its path leads to,
and a path is given back by its pointer (`Pointer.steps_ofSteps`).
-/

namespace OpenApiManifest

/-- With distinct keys, each entry is found under its key. -/
lemma Entries.get?_of_mem {α : Type} {key : String} {value : α} {entries : Entries α}
    (distinct : (keys entries).Nodup) (h : (key, value) ∈ entries) :
    get? key entries = some value := by
  induction entries with
  | nil => cases h
  | cons entry rest ih =>
    obtain ⟨k, v⟩ := entry
    obtain ⟨absent, distinct⟩ := List.nodup_cons.1 distinct
    cases h with
    | head => simp
    | tail _ h =>
      have ne : k ≠ key := by
        rintro rfl
        exact absent (List.mem_map.2 ⟨_, h, rfl⟩)
      rw [get?_cons, if_neg ne]
      exact ih distinct h

/-- A key is looked up in some entries first, and then in those after them. -/
lemma Entries.get?_append {α : Type} (key : String) (entries more : Entries α) :
    get? key (entries ++ more) = (get? key entries).or (get? key more) := by
  induction entries with
  | nil => rfl
  | cons entry rest ih =>
    obtain ⟨k, value⟩ := entry
    rw [List.cons_append, get?_cons, get?_cons]
    split
    · rfl
    · exact ih

/-- Nothing is found under a key exactly if it is none of the keys. -/
lemma Entries.get?_eq_none_iff {α : Type} {key : String} {entries : Entries α} :
    get? key entries = none ↔ key ∉ keys entries := by
  rw [← has_iff_mem_keys, has, Option.not_isSome_iff_eq_none]

/-- Putting a value under a new key adds it at the end. -/
lemma Entries.put_of_not_mem {α : Type} {key : String} {value : α} {entries : Entries α}
    (h : key ∉ keys entries) : put key value entries = entries ++ [(key, value)] := by
  induction entries with
  | nil => rfl
  | cons entry rest ih =>
    obtain ⟨k, v⟩ := entry
    obtain ⟨ne, absent⟩ := List.ne_and_not_mem_of_not_mem_cons h
    rw [put, if_neg (Ne.symm ne), ih absent]
    rfl

namespace Json

mutual
/-- Whether no object of a value repeats a key. -/
def keysDistinct : Json → Bool
  | .arr items => itemsDistinct items
  | .obj fields => decide (Entries.keys fields).Nodup && fieldsDistinct fields
  | _ => true

/-- Whether no object of some items repeats a key. -/
def itemsDistinct : List Json → Bool
  | [] => true
  | item :: rest => keysDistinct item && itemsDistinct rest

/-- Whether no object among the values of some fields repeats a key. -/
def fieldsDistinct : List (String × Json) → Bool
  | [] => true
  | (_, value) :: rest => keysDistinct value && fieldsDistinct rest
end

/-- Items have distinct keys if each of them does. -/
lemma itemsDistinct_iff {items : List Json} :
    itemsDistinct items = true ↔ ∀ item ∈ items, keysDistinct item = true := by
  induction items with
  | nil => simp [itemsDistinct]
  | cons item rest ih => simp [itemsDistinct, ih]

/-- The values of fields have distinct keys if each of them does. -/
lemma fieldsDistinct_iff {fields : List (String × Json)} :
    fieldsDistinct fields = true ↔ ∀ field ∈ fields, keysDistinct field.2 = true := by
  induction fields with
  | nil => simp [fieldsDistinct]
  | cons field rest ih =>
    obtain ⟨key, value⟩ := field
    simp only [fieldsDistinct, Bool.and_eq_true, ih, List.forall_mem_cons]

/-- The items of an array with distinct keys have distinct keys. -/
lemma keysDistinct_item {items : List Json} {item : Json}
    (distinct : keysDistinct (.arr items) = true) (h : item ∈ items) : keysDistinct item = true := by
  rw [keysDistinct] at distinct
  exact itemsDistinct_iff.1 distinct item h

/-- An object has distinct keys all through exactly if its own are distinct and those of its values are. -/
lemma keysDistinct_obj {fields : List (String × Json)} :
    keysDistinct (.obj fields) = true ↔
      (Entries.keys fields).Nodup ∧ ∀ field ∈ fields, keysDistinct field.2 = true := by
  rw [keysDistinct, Bool.and_eq_true, decide_eq_true_iff, fieldsDistinct_iff]

/-- The item of some items whose index is written in some way. -/
def item? (items : List Json) (step : String) : Option Json :=
  match step.toNat? with
  | some index => if Nat.repr index = step then items[index]? else none
  | none => none

/-- The value that a path leads to. -/
def follow? : Json → List String → Option Json
  | value, [] => some value
  | .obj fields, key :: rest => (Entries.get? key fields).bind fun value => follow? value rest
  | .arr items, step :: rest => (item? items step).bind fun value => follow? value rest
  | _, _ :: _ => none

/-- A path in two parts leads through the value of its first part. -/
lemma follow?_append (value : Json) (path rest : List String) :
    follow? value (path ++ rest) = (follow? value path).bind fun middle => follow? middle rest := by
  induction path generalizing value with
  | nil => simp [follow?]
  | cons step path ih =>
    cases value with
    | obj fields =>
      rw [List.cons_append, follow?, follow?, Option.bind_assoc]
      exact congrArg _ (funext ih)
    | arr items =>
      rw [List.cons_append, follow?, follow?, Option.bind_assoc]
      exact congrArg _ (funext ih)
    | _ => rfl

/-- A path leads on from an object to the value of each of its fields. -/
lemma follow?_field {tree : Json} {path : List String} {fields : List (String × Json)}
    {key : String} {value : Json} (h : follow? tree path = some (.obj fields))
    (hv : Entries.get? key fields = some value) : follow? tree (path ++ [key]) = some value := by
  rw [follow?_append, h, Option.bind_some, follow?, hv]
  rfl

/-- The index of an item is read as it is written. -/
@[simp] lemma item?_repr (items : List Json) (i : Nat) : item? items (Nat.repr i) = items[i]? := by
  simp [item?]

/-- An item that is found by its number is one of the items. -/
lemma mem_of_item? {items : List Json} {step : String} {value : Json}
    (h : item? items step = some value) : value ∈ items := by
  unfold item? at h
  split at h
  · split at h
    · exact List.mem_of_getElem? h
    · cases h
  · cases h

/-- A path leads on from an array to each of its items. -/
lemma follow?_item {tree : Json} {path : List String} {items : List Json} {i : Nat} {value : Json}
    (h : follow? tree path = some (.arr items)) (hv : items[i]? = some value) :
    follow? tree (path ++ [Nat.repr i]) = some value := by
  rw [follow?_append, h, Option.bind_some, follow?, item?_repr, hv]
  rfl

/-- What a path leads to in a tree without repeated keys is without repeated keys. -/
lemma keysDistinct_follow? {tree value : Json} {path : List String}
    (distinct : keysDistinct tree = true) (h : follow? tree path = some value) :
    keysDistinct value = true := by
  induction path generalizing tree with
  | nil =>
    cases h
    exact distinct
  | cons step path ih =>
    cases tree with
    | obj fields =>
      rw [follow?] at h
      obtain ⟨next, hn, h⟩ := Option.bind_eq_some_iff.1 h
      exact ih ((keysDistinct_obj.1 distinct).2 _ (Entries.mem_of_get? hn)) h
    | arr items =>
      rw [follow?] at h
      obtain ⟨next, hn, h⟩ := Option.bind_eq_some_iff.1 h
      exact ih (keysDistinct_item distinct (mem_of_item? hn)) h
    | _ => simp [follow?] at h

end Json

namespace Pointer

/-- The pointer of a path. -/
def ofSteps (path : List String) : String :=
  path.foldl child "#"

/-- The path of a pointer. -/
def steps (pointer : String) : List String :=
  ((pointer.toList.splitOn '/').drop 1).map fun step => String.ofList (unescapeChars step)

/-- The pointer of a longer path is that of a child. -/
@[simp] lemma ofSteps_append_singleton (path : List String) (step : String) :
    ofSteps (path ++ [step]) = child (ofSteps path) step := by
  simp [ofSteps]

/-- A slash is never part of a written step. -/
lemma slash_not_mem_escapeChars (cs : List Char) : '/' ∉ escapeChars cs := by
  intro h
  obtain ⟨c, -, hc⟩ := List.mem_flatMap.1 h
  revert hc
  unfold escapeChar
  split
  · decide
  · decide
  · rename_i slash
    intro hc
    exact slash (List.mem_singleton.1 hc).symm

/-- The steps of a child are those of the parent and its key. -/
lemma steps_child (pointer key : String) : steps (child pointer key) = steps pointer ++ [key] := by
  have chars : (child pointer key).toList = pointer.toList ++ '/' :: escapeChars key.toList := by
    simp [child, escape]
  obtain ⟨first, rest, hs⟩ := List.exists_cons_of_ne_nil (List.splitOn_ne_nil '/' pointer.toList)
  rw [steps, steps, chars, List.splitOn_append_cons_self,
    List.splitOn_eq_singleton (slash_not_mem_escapeChars _), hs]
  simp [unescapeChars_escapeChars]

/-- The path of a pointer is the one that it was made of. -/
theorem steps_ofSteps (path : List String) : steps (ofSteps path) = path := by
  induction path using List.reverseRec with
  | nil => decide +kernel
  | append_singleton path step ih =>
    rw [ofSteps_append_singleton, steps_child, ih]

/-- Different paths have different pointers. -/
lemma ofSteps_injective {a b : List String} (h : ofSteps a = ofSteps b) : a = b := by
  rw [← steps_ofSteps a, h, steps_ofSteps]

/-- A pointer leads to a value of a tree: it is the pointer of a path to the value, and reads as that path. -/
def LeadsIn (tree : Json) (pointer : String) : Prop :=
  ∃ path value, pointer = ofSteps path ∧ steps pointer = path ∧ Json.follow? tree path = some value

/-- The pointer of a path to a value leads there. -/
lemma leadsIn_ofSteps {tree value : Json} {path : List String} (h : Json.follow? tree path = some value) :
    LeadsIn tree (ofSteps path) :=
  ⟨path, value, rfl, steps_ofSteps path, h⟩

end Pointer

end OpenApiManifest
