import OpenApiManifest.Loading
import OpenApiManifest.Proofs.Reading.Fields

/-!
# Trees that are loaded

The tree of a document that is loaded repeats no key (`keysDistinct_of_readDocument`), be it written in
one format or the other: both readers keep of a repeated key the last value only.
-/

namespace OpenApiManifest

/-- Changing what is given succeeds only if something is given. -/
lemma exists_of_map_eq_ok {ε α β : Type} {result : Except ε α} {change : α → β} {b : β}
    (h : result.map change = .ok b) : ∃ a, result = .ok a ∧ change a = b := by
  cases result with
  | error e => cases h
  | ok a => exact ⟨a, rfl, Except.ok.inj h⟩

namespace Entries

variable {α : Type} {entries : Entries α}

/-- After an entry is put, each entry is one of those before or the one that is put. -/
lemma mem_or_eq_of_mem_put {key : String} {value : α} {entry : String × α}
    (h : entry ∈ put key value entries) : entry ∈ entries ∨ entry = (key, value) := by
  induction entries with
  | nil => exact .inr (List.mem_singleton.1 h)
  | cons first rest ih =>
    obtain ⟨k, v⟩ := first
    unfold put at h
    split at h
    · rename_i same
      rcases List.mem_cons.1 h with rfl | h
      · exact .inr (by rw [same])
      · exact .inl (List.mem_cons_of_mem _ h)
    · rcases List.mem_cons.1 h with rfl | h
      · exact .inl List.mem_cons_self
      · exact (ih h).imp_left (List.mem_cons_of_mem _)

/-- Entries that are put one after the other have distinct keys. -/
lemma nodup_keys_ofList (entries : List (String × α)) : (ofList entries).keys.Nodup := by
  refine List.foldlRecOn (motive := fun table : Entries α => table.keys.Nodup) entries _
    List.nodup_nil fun table distinct entry _ => ?_
  rw [keys_put]
  exact OrderedSet.nodup_add distinct

/-- Entries that are put one after the other are among those that were given. -/
lemma mem_of_mem_ofList {entries : List (String × α)} :
    ∀ entry ∈ ofList entries, entry ∈ entries := by
  refine List.foldlRecOn (motive := fun table : Entries α => ∀ entry ∈ table, entry ∈ entries)
    entries _ (fun _ h => absurd h List.not_mem_nil) fun table among added ha entry he => ?_
  rcases mem_or_eq_of_mem_put he with he | rfl
  · exact among entry he
  · exact ha

end Entries

namespace Json

/-- The object of a table repeats no key if the values in the table repeat none. -/
lemma keysDistinct_ofList {fields : List (String × Json)}
    (h : ∀ field ∈ fields, keysDistinct field.2 = true) :
    keysDistinct (.obj (Entries.ofList fields)) = true :=
  keysDistinct_obj.2 ⟨Entries.nodup_keys_ofList fields, fun field hf =>
    h field (Entries.mem_of_mem_ofList field hf)⟩

/-- An array has distinct keys in all its objects if each of its items does. -/
lemma keysDistinct_arr {items : List Json} (h : ∀ item ∈ items, keysDistinct item = true) :
    keysDistinct (.arr items) = true := by
  rw [keysDistinct]
  exact itemsDistinct_iff.2 h

namespace Reader

/-- A value that is read as a scalar has no keys to repeat. -/
lemma keysDistinct_of_scalar {bytes rest : List UInt8} {tree : Json}
    (h : scalar bytes = .ok (tree, rest)) : tree.keysDistinct = true := by
  unfold scalar at h
  split at h
  case h_6 =>
    split at h
    · obtain ⟨_, -, e⟩ := exists_of_map_eq_ok h
      cases e
      rfl
    · cases h
  case h_7 => cases h
  all_goals
    obtain ⟨_, -, e⟩ := exists_of_map_eq_ok h
    cases e
    rfl

/-- What is read with some fuel repeats no key: a value, the items of an array, and the fields of an
object. -/
lemma keysDistinct_of_fuel (fuel : Nat) :
    (∀ levels bytes rest tree, value levels fuel bytes = .ok (tree, rest) →
      tree.keysDistinct = true) ∧
    (∀ levels more bytes rest all, items levels fuel more bytes = .ok (all, rest) →
      ∀ item ∈ all, item.keysDistinct = true) ∧
    ∀ levels more bytes rest all, fields levels fuel more bytes = .ok (all, rest) →
      ∀ field ∈ all, field.2.keysDistinct = true := by
  -- The three call each other with less fuel, so they are shown together.
  induction fuel with
  | zero =>
    refine ⟨fun levels bytes rest tree h => ?_, fun levels more bytes rest all h => ?_,
      fun levels more bytes rest all h => ?_⟩
    · cases h
    · cases more with
      | false => cases h; exact fun _ hm => absurd hm List.not_mem_nil
      | true => cases h
    · cases more with
      | false => cases h; exact fun _ hm => absurd hm List.not_mem_nil
      | true => cases h
  | succ fuel ih =>
    obtain ⟨ofValue, ofItems, ofFields⟩ := ih
    refine ⟨fun levels bytes rest tree h => ?_, fun levels more bytes rest all h => ?_,
      fun levels more bytes rest all h => ?_⟩
    · unfold value at h
      split at h
      · cases levels with
        | zero => cases h
        | succ levels =>
          obtain ⟨⟨more, _⟩, -, h⟩ := bind_eq_ok.1 h
          obtain ⟨⟨all, _⟩, hi, h⟩ := bind_eq_ok.1 h
          cases h
          exact keysDistinct_arr (ofItems _ _ _ _ _ hi)
      · cases levels with
        | zero => cases h
        | succ levels =>
          obtain ⟨⟨more, _⟩, -, h⟩ := bind_eq_ok.1 h
          obtain ⟨⟨all, _⟩, hf, h⟩ := bind_eq_ok.1 h
          cases h
          exact keysDistinct_ofList (ofFields _ _ _ _ _ hf)
      · exact keysDistinct_of_scalar h
    · cases more with
      | false => cases h; exact fun _ hm => absurd hm List.not_mem_nil
      | true =>
        obtain ⟨⟨item, _⟩, hv, h⟩ := bind_eq_ok.1 h
        obtain ⟨⟨more, _⟩, -, h⟩ := bind_eq_ok.1 h
        obtain ⟨⟨others, _⟩, hi, h⟩ := bind_eq_ok.1 h
        cases h
        exact List.forall_mem_cons.2 ⟨ofValue _ _ _ _ hv, ofItems _ _ _ _ _ hi⟩
    · cases more with
      | false => cases h; exact fun _ hm => absurd hm List.not_mem_nil
      | true =>
        obtain ⟨⟨key, _⟩, -, h⟩ := bind_eq_ok.1 h
        obtain ⟨_, -, h⟩ := bind_eq_ok.1 h
        obtain ⟨⟨item, _⟩, hv, h⟩ := bind_eq_ok.1 h
        obtain ⟨⟨more, _⟩, -, h⟩ := bind_eq_ok.1 h
        obtain ⟨⟨others, _⟩, hf, h⟩ := bind_eq_ok.1 h
        cases h
        exact List.forall_mem_cons.2 ⟨ofValue _ _ _ _ hv, ofFields _ _ _ _ _ hf⟩

end Reader

/-- A value that is read from a text repeats no key. -/
theorem keysDistinct_of_read {source : List UInt8} {tree : Json} (h : read source = .ok tree) :
    tree.keysDistinct = true := by
  obtain ⟨⟨value, rest⟩, hv, h⟩ := bind_eq_ok.1 h
  dsimp only at h
  split at h
  · cases h
    exact (Reader.keysDistinct_of_fuel _).1 _ _ _ _ hv
  · cases h

end Json

namespace Yaml

/-- A number with a fraction has no keys to repeat. -/
lemma keysDistinct_of_float? {chars : List Char} {tree : Json} (h : float? chars = some tree) :
    tree.keysDistinct = true := by
  unfold float? at h
  extract_lets text finite unmarked at h
  have ofFinite : ∀ negative chars, finite negative chars = some tree → tree.keysDistinct = true := by
    intro negative chars h
    obtain ⟨_, -, h⟩ := Option.bind_eq_some_iff.1 h
    obtain ⟨_, -, h⟩ := Option.bind_eq_some_iff.1 h
    cases h
    rfl
  split at h
  · cases h
    rfl
  · split at h
    · cases h
      rfl
    · split at h
      · exact ofFinite _ _ h
      · exact ofFinite _ _ h
      · exact ofFinite _ _ h

/-- An integer has no keys to repeat. -/
lemma keysDistinct_of_integer {chars : List Char} {found : Except Cause Json} {tree : Json}
    (h : (integer? chars).bind integerValue? = some found) (e : found = .ok tree) :
    tree.keysDistinct = true := by
  obtain ⟨value, -, h⟩ := Option.bind_eq_some_iff.1 h
  subst e
  unfold integerValue? at h
  split at h
  · cases h
    rfl
  · split at h
    · cases h
    · cases h

/-- The value of a plain scalar has no keys to repeat. -/
lemma keysDistinct_of_plainValue {text : String} {tree : Json} (h : plainValue text = .ok tree) :
    tree.keysDistinct = true := by
  unfold plainValue at h
  dsimp only at h
  split at h
  · cases h
    rfl
  · split at h
    · cases h
      rfl
    · split at h
      · rename_i found hi
        exact keysDistinct_of_integer hi h
      · split at h
        · rename_i value hf
          cases h
          split at hf
          · cases hf
          · exact keysDistinct_of_float? hf
        · cases h
          rfl

/-- A value that has to be there has distinct keys if every value that may be there does. -/
lemma keysDistinct_of_demand {value? : Option Json} {tree : Json} (h : demand value? = .ok tree)
    (distinct : ∀ value, value? = some value → value.keysDistinct = true) :
    tree.keysDistinct = true := by
  cases value? with
  | none => cases h
  | some value =>
    cases h
    exact distinct tree rfl

/-- The value of a scalar repeats no key, as it is no object. -/
lemma keysDistinct_of_scalar {scalar : Scalar} {tree : Json} (h : scalar.value = .ok tree) :
    tree.keysDistinct = true := by
  unfold Scalar.value at h
  dsimp only at h
  split at h
  · cases h
  · split at h
    · refine keysDistinct_of_demand h fun value hv => ?_
      obtain ⟨truth, -, rfl⟩ := Option.map_eq_some_iff.1 hv
      rfl
    · cases hi : (integer? scalar.text.toList).bind integerValue? with
      | none =>
        rw [hi] at h
        cases h
      | some found =>
        rw [hi] at h
        exact keysDistinct_of_integer hi h
    · exact keysDistinct_of_demand h fun value hv => keysDistinct_of_float? hv
    · refine keysDistinct_of_demand h fun value hv => ?_
      split at hv
      · cases hv
        rfl
      · cases hv
    · split at h
      · exact keysDistinct_of_plainValue h
      · cases h
        rfl
    · cases h
      rfl
    · split at h
      · exact keysDistinct_of_plainValue h
      · cases h
        rfl

namespace ValueM

variable {α β : Type} {jumps after : Nat}

/-- Two steps one after the other succeed only if both do, the second with what the first leaves. -/
lemma bind_eq_ok {first : ValueM α} {next : α → ValueM β} {b : β}
    (h : (first >>= next) jumps = .ok (b, after)) :
    ∃ a middle, first jumps = .ok (a, middle) ∧ next a middle = .ok (b, after) := by
  obtain ⟨⟨a, middle⟩, ha, h⟩ := OpenApiManifest.bind_eq_ok.1 h
  exact ⟨a, middle, ha, h⟩

/-- Each result of a step for all values is that of the step for one of them. -/
lemma exists_of_mem_mapM {next : α → ValueM β} {values : List α} {results : List β} {result : β}
    (h : (values.mapM next) jumps = .ok (results, after)) (hr : result ∈ results) :
    ∃ value ∈ values, ∃ before later, next value before = .ok (result, later) := by
  induction values generalizing jumps results with
  | nil =>
    rw [List.mapM_nil] at h
    cases h
    cases hr
  | cons value rest ih =>
    rw [List.mapM_cons] at h
    obtain ⟨first, middle, hf, h⟩ := bind_eq_ok h
    obtain ⟨others, last, ho, h⟩ := bind_eq_ok h
    cases h
    rcases List.mem_cons.1 hr with rfl | hr
    · exact ⟨value, List.mem_cons_self, jumps, middle, hf⟩
    · obtain ⟨other, hm, found⟩ := ih ho hr
      exact ⟨other, List.mem_cons_of_mem _ hm, found⟩

end ValueM

/-- The value of a node repeats no key. -/
lemma keysDistinct_of_nodeValue {document : Document} {levels : Nat} {node : Node} {tree : Json}
    {jumps after : Nat} (h : document.nodeValue levels node jumps = .ok (tree, after)) :
    tree.keysDistinct = true := by
  -- By induction on the levels: an alias may lead anywhere, but a collection takes a level.
  induction levels generalizing node tree jumps after with
  | zero =>
    obtain ⟨found, _, -, h⟩ := ValueM.bind_eq_ok h
    split at h
    · obtain ⟨value, hv, h⟩ := bind_eq_ok.1 h
      cases h
      exact keysDistinct_of_scalar hv
    · cases h
  | succ levels ih =>
    obtain ⟨found, _, -, h⟩ := ValueM.bind_eq_ok h
    split at h
    · obtain ⟨value, hv, h⟩ := bind_eq_ok.1 h
      cases h
      exact keysDistinct_of_scalar hv
    · dsimp only at h
      split at h
      · cases h
      · obtain ⟨items, _, hi, h⟩ := ValueM.bind_eq_ok h
        cases h
        refine Json.keysDistinct_arr fun item hm => ?_
        obtain ⟨inner, -, before, later, hv⟩ := ValueM.exists_of_mem_mapM hi hm
        exact ih hv
    · dsimp only at h
      split at h
      · cases h
      · obtain ⟨entries, _, he, h⟩ := ValueM.bind_eq_ok h
        cases h
        refine Json.keysDistinct_ofList fun field hm => ?_
        obtain ⟨inner, -, before, later, hv⟩ := ValueM.exists_of_mem_mapM he hm
        obtain ⟨key, _, -, hv⟩ := ValueM.bind_eq_ok hv
        obtain ⟨value, _, hn, hv⟩ := ValueM.bind_eq_ok hv
        cases hv
        exact ih hn
    · cases h

/-- The value of a text repeats no key. -/
theorem keysDistinct_of_read {bytes : List UInt8} {tree : Json} (h : read bytes = .ok tree) :
    tree.keysDistinct = true := by
  unfold read at h
  split at h
  · cases h
  · dsimp only at h
    split at h
    · cases h
    · obtain ⟨_, -, h⟩ := bind_eq_ok.1 h
      obtain ⟨document, -, h⟩ := bind_eq_ok.1 h
      split at h
      · rename_i value hv
        cases h
        obtain ⟨⟨found, _⟩, hn, e⟩ := bind_eq_ok.1 hv
        cases e
        exact keysDistinct_of_nodeValue hn
      · cases h

end Yaml

/-- A document that is loaded repeats no key. -/
theorem keysDistinct_of_readDocument {path : String} {bytes : List UInt8} {tree : Json}
    (h : readDocument path bytes = .ok tree) : tree.keysDistinct = true := by
  unfold readDocument at h
  split at h
  · cases hr : Json.read bytes with
    | error fault =>
      rw [hr] at h
      cases h
    | ok value =>
      rw [hr] at h
      cases h
      exact Json.keysDistinct_of_read hr
  · cases hr : Yaml.read bytes with
    | error problem =>
      rw [hr] at h
      cases h
    | ok value =>
      rw [hr] at h
      cases h
      exact Yaml.keysDistinct_of_read hr

end OpenApiManifest
