/-!
# Ordered tables

A table is a list of keyed entries in the order in which the keys were first added, and an ordered
set is a list in which each text stands once.  Putting an entry under a key that is there already
replaces the value and keeps the position.
-/

namespace OpenApiManifest

/-- A table that keeps the order in which its keys were first added. -/
abbrev Entries (α : Type) := List (String × α)

namespace Entries

variable {α : Type}

/-- The value of the first entry under a key. -/
def get? (key : String) : Entries α → Option α
  | [] => none
  | (k, value) :: rest => if k = key then some value else get? key rest

def has (key : String) (entries : Entries α) : Bool :=
  (get? key entries).isSome

/-- The position and the value of the first entry under a key. -/
def locate? (key : String) : Entries α → Option (Nat × α)
  | [] => none
  | (k, value) :: rest =>
    if k = key then some (0, value)
    else (locate? key rest).map fun found => (found.1 + 1, found.2)

/-- Puts a value under a key: in the place of the entry that has the key, or at the end. -/
def put (key : String) (value : α) : Entries α → Entries α
  | [] => [(key, value)]
  | (k, v) :: rest => if k = key then (k, value) :: rest else (k, v) :: put key value rest

/-- Removes the entries under a key and keeps the order of the others. -/
def erase (key : String) (entries : Entries α) : Entries α :=
  entries.filter fun entry => decide (entry.1 ≠ key)

def keys (entries : Entries α) : List String :=
  entries.map Prod.fst

def values (entries : Entries α) : List α :=
  entries.map Prod.snd

/-- The table of a list of entries, in which a repeated key keeps its first position and takes its
last value. -/
def ofList (entries : List (String × α)) : Entries α :=
  entries.foldl (fun table entry => put entry.1 entry.2 table) []

/-- Nothing is found in a table without entries. -/
@[simp] theorem get?_nil (key : String) : get? key ([] : Entries α) = none := rfl

/-- A key is found at the first entry, or in the rest. -/
@[simp] theorem get?_cons (key k : String) (value : α) (rest : Entries α) :
    get? key ((k, value) :: rest) = if k = key then some value else get? key rest := rfl

/-- A table has a key exactly when the key is among its keys. -/
theorem has_iff_mem_keys {key : String} {entries : Entries α} :
    has key entries = true ↔ key ∈ keys entries := by
  induction entries with
  | nil => simp [has, keys]
  | cons entry rest ih =>
    obtain ⟨k, v⟩ := entry
    by_cases h : k = key
    · simp [has, keys, h]
    · have h' : key ≠ k := fun e => h e.symm
      simpa [has, keys, h, h'] using ih

/-- What is found under a key is one of the entries. -/
theorem mem_of_get? {key : String} {value : α} {entries : Entries α}
    (h : get? key entries = some value) : (key, value) ∈ entries := by
  induction entries with
  | nil => simp at h
  | cons entry rest ih =>
    obtain ⟨k, v⟩ := entry
    by_cases hk : k = key
    · simp [hk] at h
      simp [hk, h]
    · simp [hk] at h
      exact List.mem_cons_of_mem _ (ih h)

/-- After putting a value under a key, that value is found there and all else is as it was. -/
theorem get?_put (key other : String) (value : α) (entries : Entries α) :
    get? other (put key value entries) =
      if key = other then some value else get? other entries := by
  induction entries with
  | nil => simp [put]
  | cons entry rest ih =>
    obtain ⟨k, v⟩ := entry
    by_cases hk : k = key
    · subst hk
      by_cases ho : k = other <;> simp [put, ho]
    · by_cases ho : k = other
      · subst ho
        have : key ≠ k := fun e => hk e.symm
        simp [put, hk, this]
      · simp [put, hk, ho, ih]

end Entries

namespace OrderedSet

/-- Adds a text at the end, unless it is there already. -/
def add (text : String) (texts : List String) : List String :=
  if text ∈ texts then texts else texts ++ [text]

def addAll (added : List String) (texts : List String) : List String :=
  added.foldl (fun acc text => add text acc) texts

/-- The distinct texts of a list in the order of their first occurrence. -/
def ofList (texts : List String) : List String :=
  addAll texts []

def erase (text : String) (texts : List String) : List String :=
  texts.filter fun other => decide (other ≠ text)

/-- Adding a text adds that text as a member and no other. -/
theorem mem_add {other text : String} {texts : List String} :
    other ∈ add text texts ↔ other ∈ texts ∨ other = text := by
  unfold add
  split <;> rename_i h
  · constructor
    · exact Or.inl
    · rintro (h' | rfl)
      · exact h'
      · exact h
  · simp

/-- Adding several texts adds those texts as members and no other. -/
theorem mem_addAll {other : String} {added texts : List String} :
    other ∈ addAll added texts ↔ other ∈ texts ∨ other ∈ added := by
  induction added generalizing texts with
  | nil => simp [addAll]
  | cons text rest ih =>
    have h : addAll (text :: rest) texts = addAll rest (add text texts) := rfl
    rw [h, ih, mem_add, List.mem_cons, or_assoc]

/-- An ordered set has the members of the list that it is made of. -/
@[simp] theorem mem_ofList {other : String} {texts : List String} :
    other ∈ ofList texts ↔ other ∈ texts := by
  simp [ofList, mem_addAll]

/-- Adding a text keeps texts distinct. -/
theorem nodup_add {text : String} {texts : List String} (h : texts.Nodup) :
    (add text texts).Nodup := by
  unfold add
  split
  · exact h
  · rename_i hn
    rw [List.nodup_append]
    refine ⟨h, by simp, ?_⟩
    intro a ha b hb
    simp at hb
    subst hb
    rintro rfl
    exact hn ha

/-- Adding several texts keeps texts distinct. -/
theorem nodup_addAll {added texts : List String} (h : texts.Nodup) :
    (addAll added texts).Nodup := by
  induction added generalizing texts with
  | nil => exact h
  | cons text rest ih => exact ih (nodup_add h)

/-- The texts of an ordered set are distinct. -/
theorem nodup_ofList (texts : List String) : (ofList texts).Nodup :=
  nodup_addAll List.nodup_nil

/-- The distinct ones of some texts and more are those of the first, and what the others add. -/
theorem ofList_append (texts more : List String) :
    ofList (texts ++ more) = addAll more (ofList texts) :=
  List.foldl_append ..

/-- Adding distinct texts that are not there puts them at the end. -/
theorem addAll_of_nodup {added texts : List String} (h : (texts ++ added).Nodup) :
    addAll added texts = texts ++ added := by
  induction added generalizing texts with
  | nil => exact (List.append_nil texts).symm
  | cons text rest ih =>
    have absent : text ∉ texts := by
      intro mem
      exact (List.nodup_append.1 h).2.2 text mem text List.mem_cons_self rfl
    have moved : texts ++ text :: rest = texts ++ [text] ++ rest := List.append_cons texts text rest
    change addAll rest (add text texts) = texts ++ text :: rest
    rw [add, if_neg absent, moved]
    exact ih (moved ▸ h)

/-- Distinct texts are their own ordered set. -/
theorem ofList_of_nodup {texts : List String} (h : texts.Nodup) : ofList texts = texts :=
  addAll_of_nodup h

end OrderedSet

/-- The keys of a table are an ordered set: putting a value under a key adds the key. -/
theorem Entries.keys_put {α : Type} (key : String) (value : α) (entries : Entries α) :
    keys (put key value entries) = OrderedSet.add key (keys entries) := by
  induction entries with
  | nil => rfl
  | cons entry rest ih =>
    obtain ⟨k, v⟩ := entry
    by_cases h : k = key
    · simp [put, keys, OrderedSet.add, h]
    · have h' : key ≠ k := fun e => h e.symm
      simp only [keys, OrderedSet.add] at ih
      simp only [put, h, if_false, keys, List.map_cons, OrderedSet.add, List.mem_cons, h',
        false_or, ih]
      split <;> simp [*]

end OpenApiManifest
