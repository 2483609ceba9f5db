import Mathlib.Data.List.Sort
import Mathlib.Data.String.Basic

/-!
# Texts in the order of their bytes

Texts are ordered as their bytes in UTF-8 are (`utf8Bytes_lt`): the first byte of a character tells how
many follow it, and grows with their number, and the bytes that follow are digits to the base 64.  Sorting
distinct values puts them into strict order (`pairwise_lt_mergeSort`).
-/

namespace OpenApiManifest

/-- The bytes of a text in UTF-8. -/
def utf8Bytes (text : String) : List UInt8 :=
  text.toUTF8.data.toList

/-- The bytes of a text are those of its characters, one after the other. -/
lemma utf8Bytes_eq (text : String) : utf8Bytes text = text.toList.flatMap String.utf8EncodeChar := by
  rw [utf8Bytes, String.toUTF8, ← String.utf8Encode_toList, List.utf8Encode,
    List.toList_data_toByteArray]

/-- Bytes are ordered by the first number, and by the rest where the first numbers are the same. -/
lemma ofNat_cons_lt {a b : Nat} {rest others : List UInt8} (ha : a < 256) (hb : b < 256) (le : a ≤ b)
    (h : a = b → rest < others) : UInt8.ofNat a :: rest < UInt8.ofNat b :: others := by
  rw [List.cons_lt_cons_iff]
  rcases Nat.lt_or_eq_of_le le with lt | rfl
  · exact .inl ((UInt8.ofNat_lt_iff_lt ha hb).2 lt)
  · exact .inr ⟨rfl, h rfl⟩

/-- So many last digits of a code to the base 64, as the bytes that they are in a character. -/
def lastDigits (code : Nat) : Nat → List UInt8
  | 0 => []
  | count + 1 => UInt8.ofNat (code / 64 ^ count % 64 + 128) :: lastDigits code count

/-- The last digits of a code come before those of a greater one, if the digits before them are the same. -/
lemma lastDigits_append_lt {code more count : Nat} (less : code < more)
    (same : code / 64 ^ count = more / 64 ^ count) (rest others : List UInt8) :
    lastDigits code count ++ rest < lastDigits more count ++ others := by
  induction count with
  | zero =>
    rw [Nat.pow_zero, Nat.div_one, Nat.div_one] at same
    omega
  | succ count ih =>
    have le : code / 64 ^ count ≤ more / 64 ^ count := Nat.div_le_div_right less.le
    rw [Nat.pow_succ, ← Nat.div_div_eq_div_mul, ← Nat.div_div_eq_div_mul] at same
    refine ofNat_cons_lt (by omega) (by omega) (by omega) fun digit => ih ?_
    omega

/-- The first byte of a character for a code, and how many digits follow it. -/
inductive Encodes : Nat → Nat → Nat → Prop
  | one {code : Nat} : code < 0x80 → Encodes code code 0
  | two {code : Nat} : 0x80 ≤ code → code < 0x800 → Encodes code (code / 64 + 192) 1
  | three {code : Nat} : 0x800 ≤ code → code < 0x10000 → Encodes code (code / 64 ^ 2 + 224) 2
  | four {code : Nat} : 0x10000 ≤ code → code < 0x110000 → Encodes code (code / 64 ^ 3 + 240) 3

/-- Every character is encoded by a first byte and some last digits of its code. -/
lemma exists_encodes (c : Char) : ∃ first count, Encodes c.val.toNat first count ∧
    String.utf8EncodeChar c = UInt8.ofNat first :: lastDigits c.val.toNat count := by
  have bound : c.val.toNat < 0x110000 := by
    have valid : c.val.toNat < 0xd800 ∨ 0xdfff < c.val.toNat ∧ c.val.toNat < 0x110000 := c.valid
    omega
  simp only [String.utf8EncodeChar]
  generalize c.val.toNat = code at *
  split_ifs
  · exact ⟨_, 0, .one (by omega), rfl⟩
  · have lead : code / 64 % 32 = code / 64 := Nat.mod_eq_of_lt (by omega)
    exact ⟨_, 1, .two (by omega) (by omega), by simp [lastDigits, lead]⟩
  · have lead : code / 4096 % 16 = code / 4096 := Nat.mod_eq_of_lt (by omega)
    exact ⟨_, 2, .three (by omega) (by omega), by simp [lastDigits, lead]⟩
  · have lead : code / 262144 % 8 = code / 262144 := Nat.mod_eq_of_lt (by omega)
    exact ⟨_, 3, .four (by omega) (by omega), by simp [lastDigits, lead]⟩

/-- The first byte of a greater code is not smaller, and if it is the same then as many digits follow it,
and the digits before those are the same. -/
lemma Encodes.le {code more first first' count count' : Nat} (h : Encodes code first count)
    (h' : Encodes more first' count') (less : code < more) : first < 256 ∧ first' < 256 ∧ first ≤ first' ∧
      (first = first' → count = count' ∧ code / 64 ^ count = more / 64 ^ count') := by
  cases h <;> cases h' <;> omega

/-- The bytes of a character come before those of a greater one, whatever follows them. -/
lemma utf8EncodeChar_append_lt {c d : Char} (h : c < d) (rest others : List UInt8) :
    String.utf8EncodeChar c ++ rest < String.utf8EncodeChar d ++ others := by
  obtain ⟨first, count, encodes, e⟩ := exists_encodes c
  obtain ⟨first', count', encodes', e'⟩ := exists_encodes d
  obtain ⟨hf, hf', le, follow⟩ := encodes.le encodes' h
  rw [e, e']
  refine ofNat_cons_lt hf hf' le fun same => ?_
  obtain ⟨rfl, same⟩ := follow same
  exact lastDigits_append_lt h same rest others

/-- Texts are ordered as their bytes are. -/
lemma utf8Bytes_lt {a b : String} (h : a < b) : utf8Bytes a < utf8Bytes b := by
  rw [String.lt_iff_toList_lt] at h
  rw [utf8Bytes_eq, utf8Bytes_eq]
  generalize a.toList = a at h
  generalize b.toList = b at h
  induction a generalizing b with
  | nil =>
    cases b with
    | nil => cases h
    | cons d b =>
      rw [List.flatMap_nil, List.flatMap_cons]
      cases hd : String.utf8EncodeChar d with
      | nil => exact absurd hd String.utf8EncodeChar_ne_nil
      | cons first rest => exact List.nil_lt_cons _ _
  | cons c a ih =>
    cases b with
    | nil => cases h
    | cons d b =>
      rw [List.flatMap_cons, List.flatMap_cons]
      rcases List.cons_lt_cons_iff.1 h with lt | ⟨rfl, rest⟩
      · exact utf8EncodeChar_append_lt lt _ _
      · exact List.append_left_lt (ih b rest)

/-- Sorting distinct values puts them into strict order. -/
lemma pairwise_lt_mergeSort {α : Type} [LinearOrder α] [DecidableLT α] {values : List α}
    (distinct : values.Nodup) :
    (values.mergeSort fun a b => !decide (b < a)).Pairwise (· < ·) := by
  have le_iff : ∀ a b : α, (!decide (b < a)) = true ↔ a ≤ b := fun a b => by
    rw [Bool.not_eq_true', decide_eq_false_iff_not, not_lt]
  have ascending : (values.mergeSort fun a b => !decide (b < a)).Pairwise
      fun a b => (!decide (b < a)) = true := by
    refine List.pairwise_mergeSort (fun a b c hab hbc => ?_) (fun a b => ?_) values
    · exact (le_iff a c).2 (((le_iff a b).1 hab).trans ((le_iff b c).1 hbc))
    · rw [Bool.or_eq_true, le_iff, le_iff]
      exact le_total a b
  have apart := (List.mergeSort_perm values fun a b => !decide (b < a)).nodup_iff.2 distinct
  exact ascending.imp₂ (fun a b hab ne => lt_of_le_of_ne ((le_iff a b).1 hab) ne) apart

/-- A list in strict order is what sorting a permutation of it gives. -/
lemma mergeSort_eq_of_perm {α : Type} [LinearOrder α] [DecidableLT α] {values sorted : List α}
    (perm : values.Perm sorted) (increasing : sorted.Pairwise (· < ·)) :
    (values.mergeSort fun a b => !decide (b < a)) = sorted := by
  have distinct := perm.nodup_iff.2 increasing.sortedLT.nodup
  refine (pairwise_lt_mergeSort distinct).sortedLT.eq_of_mem_iff increasing.sortedLT fun a => ?_
  exact ((List.mergeSort_perm values _).trans perm).mem_iff

end OpenApiManifest
