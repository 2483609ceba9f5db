import Mathlib
import OpenApiManifest.Naming

/-!
# Normal forms of names

A name is tidy if it has no two underscores in a row and none at its ends.  Whatever a text is spelled like,
what is left of it once it is cleaned is tidy (`Naming.tidy_cleanChars`), and a tidy name stays as it is
(`Naming.cleanChars_of_tidy`).  Setting words apart and making letters small keep names tidy, and so the snake
form of a text is tidy, has small letters only, and is its own snake form (`Naming.snakeChars_of_isSnake`).

None of this depends on how characters outside ASCII are spelled.  What is already in ASCII has to be spelled as it
is, so that a form can be its own form (`Spelling.Keeps`).
-/

namespace OpenApiManifest

/-- German spells texts in ASCII as they are. -/
lemma Spelling.keeps_german : @Keeps german := by
  intro cs ascii
  change cs.flatMap germanLetter = cs
  refine (List.flatMap_congr fun c hc => ?_).trans (List.flatMap_singleton' cs)
  have small : c.toNat < 128 := ascii c hc
  unfold germanLetter
  split
  case h_8 => exact if_pos small
  all_goals exact absurd small (by decide)

namespace Naming

/-- Whether at most one of two characters is an underscore. -/
def Apart (a b : Char) : Prop :=
  ¬ (a = '_' ∧ b = '_')

/-- A name of characters that may stand in one, with no two underscores in a row and none at the ends. -/
structure Tidy (cs : List Char) : Prop where
  chars : ∀ c ∈ cs, isNameChar c = true
  apart : cs.IsChain Apart
  first : cs.head? ≠ some '_'
  last : cs.getLast? ≠ some '_'

/-- A tidy name without capitals. -/
structure IsSnake (cs : List Char) : Prop extends Tidy cs where
  small : ∀ c ∈ cs, c.isUpper = false

/-- What is left of a text in ASCII: every run of characters that may not stand in a name is an underscore, and
there is none at the ends. -/
def cleanChars (cs : List Char) : List Char :=
  trim (collapse (cs.map fun c => if isNameChar c then c else '_'))

variable {c : Char} {cs : List Char}

/-- The characters of names are in ASCII. -/
lemma toNat_lt_of_isNameChar (h : isNameChar c = true) : c.toNat < 128 := by
  rw [isNameChar, Bool.or_eq_true, decide_eq_true_eq] at h
  rcases h with h | rfl
  · simp only [Char.isAlphanum, Char.isAlpha, Char.isUpper, Char.isLower, Char.isDigit, Bool.or_eq_true,
      Bool.and_eq_true, decide_eq_true_eq, UInt32.le_iff_toNat_le, ge_iff_le] at h
    change ((65 ≤ c.toNat ∧ c.toNat ≤ 90) ∨ 97 ≤ c.toNat ∧ c.toNat ≤ 122) ∨
      48 ≤ c.toNat ∧ c.toNat ≤ 57 at h
    omega
  · decide

section Collapse

/-- Of several underscores in a row one is left. -/
lemma isChain_collapse (cs : List Char) : (collapse cs).IsChain Apart := by
  induction cs with
  | nil => exact .nil
  | cons c rest ih =>
    change (squeeze c (collapse rest)).IsChain Apart
    unfold squeeze
    split
    case isTrue => exact ih
    case isFalse other =>
      refine List.isChain_cons.2 ⟨?_, ih⟩
      rintro next hn ⟨rfl, rfl⟩
      exact other ⟨rfl, hn⟩

/-- Collapsing underscores adds no character. -/
lemma mem_of_mem_collapse (h : c ∈ collapse cs) : c ∈ cs := by
  induction cs with
  | nil => exact h
  | cons first rest ih =>
    change c ∈ squeeze first (collapse rest) at h
    unfold squeeze at h
    split at h
    case isTrue => exact List.mem_cons_of_mem _ (ih h)
    case isFalse =>
      rcases List.mem_cons.1 h with rfl | h
      · exact List.mem_cons_self
      · exact List.mem_cons_of_mem _ (ih h)

/-- Where no two underscores stand side by side, there is nothing to collapse. -/
lemma collapse_of_isChain (h : cs.IsChain Apart) : collapse cs = cs := by
  induction cs with
  | nil => rfl
  | cons c rest ih =>
    obtain ⟨next, h⟩ := List.isChain_cons.1 h
    change squeeze c (collapse rest) = c :: rest
    rw [ih h, squeeze, if_neg]
    rintro ⟨rfl, hn⟩
    exact next '_' hn ⟨rfl, rfl⟩

end Collapse

section Trim

/-- Without the underscores in front, a text does not begin with one. -/
lemma head?_dropWhile (cs : List Char) : (cs.dropWhile (· = '_')).head? ≠ some '_' := by
  intro h
  have other := List.head?_dropWhile_not (· = '_') cs
  rw [h] at other
  simp at other

/-- A text that does not begin with an underscore has none to drop. -/
lemma dropWhile_of_head? (first : cs.head? ≠ some '_') : cs.dropWhile (· = '_') = cs := by
  cases cs with
  | nil => rfl
  | cons c rest =>
    have other : c ≠ '_' := fun e => first (congrArg some e)
    simp [other]

/-- What is trimmed at both ends begins what is trimmed in front only. -/
lemma trim_starts (cs : List Char) : trim cs <+: cs.dropWhile (· = '_') :=
  List.rdropWhile_prefix (· = '_') _

/-- What is left after trimming stands inside the text. -/
lemma trim_within (cs : List Char) : trim cs <:+: cs :=
  (trim_starts cs).isInfix.trans (List.dropWhile_suffix _).isInfix

/-- A trimmed text does not begin with an underscore. -/
lemma head?_trim (cs : List Char) : (trim cs).head? ≠ some '_' := by
  intro h
  obtain ⟨rest, e⟩ := trim_starts cs
  refine head?_dropWhile cs ?_
  rw [← e, List.head?_append, h]
  rfl

/-- A trimmed text does not end with an underscore. -/
lemma getLast?_trim (cs : List Char) : (trim cs).getLast? ≠ some '_' := by
  rw [trim, List.getLast?_reverse]
  exact head?_dropWhile _

/-- A text with no underscore at its ends is trimmed already. -/
lemma trim_of_ends (first : cs.head? ≠ some '_') (last : cs.getLast? ≠ some '_') : trim cs = cs := by
  rw [← List.head?_reverse] at last
  rw [trim, dropWhile_of_head? first, dropWhile_of_head? last, List.reverse_reverse]

end Trim

/-- What is left of a text is tidy. -/
theorem tidy_cleanChars (cs : List Char) : Tidy (cleanChars cs) where
  chars := by
    intro c hc
    obtain ⟨own, -, rfl⟩ := List.mem_map.1 (mem_of_mem_collapse ((trim_within _).subset hc))
    split
    case isTrue h => exact h
    case isFalse => decide
  apart := List.IsChain.infix (isChain_collapse _) (trim_within _)
  first := head?_trim _
  last := getLast?_trim _

/-- All characters of a tidy name may stand in it, so that none is replaced. -/
lemma Tidy.map_clean (h : Tidy cs) : (cs.map fun c => if isNameChar c then c else '_') = cs := by
  refine (List.map_congr_left fun c hc => ?_).trans (List.map_id cs)
  rw [if_pos (h.chars c hc)]
  rfl

/-- Nothing of a tidy name is dropped. -/
theorem cleanChars_of_tidy (h : Tidy cs) : cleanChars cs = cs := by
  rw [cleanChars, h.map_clean, collapse_of_isChain h.apart, trim_of_ends h.first h.last]

/-- An underscore in front of a tidy name is dropped. -/
theorem cleanChars_underscore (h : Tidy cs) : cleanChars ('_' :: cs) = cs := by
  have squeezed : collapse ('_' :: cs) = '_' :: cs := by
    refine collapse_of_isChain (List.isChain_cons.2 ⟨?_, h.apart⟩)
    rintro next hn ⟨-, rfl⟩
    exact h.first hn
  have mapped : (('_' :: cs).map fun c => if isNameChar c then c else '_') = '_' :: cs := by
    rw [List.map_cons, h.map_clean]
    rfl
  have dropped : trim ('_' :: cs) = trim cs := by
    rw [trim, trim, List.dropWhile_cons_of_pos (by decide)]
  rw [cleanChars, mapped, squeezed, dropped, trim_of_ends h.first h.last]

section Words

/-- A small letter is no underscore. -/
lemma ne_underscore_of_isLower (h : c.isLower = true) : c ≠ '_' := by
  rintro rfl
  revert h
  decide

/-- A capital is no underscore. -/
lemma ne_underscore_of_isUpper (h : c.isUpper = true) : c ≠ '_' := by
  rintro rfl
  revert h
  decide

/-- Setting words apart adds underscores only. -/
lemma mem_of_mem_separate (h : c ∈ separate cs) : c ∈ cs ∨ c = '_' := by
  fun_induction Naming.separate cs with
  | case1 => exact .inl h
  | case2 first next rest between ih =>
    rcases List.mem_cons.1 h with rfl | h
    · exact .inl List.mem_cons_self
    · rcases List.mem_cons.1 h with rfl | h
      · exact .inr rfl
      · exact (ih h).imp_left (List.mem_cons_of_mem _)
  | case3 first next rest between ih =>
    rcases List.mem_cons.1 h with rfl | h
    · exact .inl List.mem_cons_self
    · exact (ih h).imp_left (List.mem_cons_of_mem _)
  | case4 first => exact .inl h

/-- Words that are put apart begin as before. -/
lemma head?_separate (cs : List Char) : (separate cs).head? = cs.head? := by
  fun_cases Naming.separate cs with
  | _ => rfl

/-- Words that are put apart end as before. -/
lemma getLast?_separate (cs : List Char) : (separate cs).getLast? = cs.getLast? := by
  fun_induction Naming.separate cs with
  | case1 => rfl
  | case2 first next rest between ih =>
    obtain ⟨others, e⟩ := List.head?_eq_some_iff.1 (head?_separate (next :: rest))
    rw [e] at ih ⊢
    rw [List.getLast?_cons_cons, List.getLast?_cons_cons, ih, List.getLast?_cons_cons]
  | case3 first next rest between ih =>
    obtain ⟨others, e⟩ := List.head?_eq_some_iff.1 (head?_separate (next :: rest))
    rw [e] at ih ⊢
    rw [List.getLast?_cons_cons, ih, List.getLast?_cons_cons]
  | case4 first => rfl

/-- No underscore is put next to another one. -/
lemma isChain_separate (h : cs.IsChain Apart) : (separate cs).IsChain Apart := by
  fun_induction Naming.separate cs with
  | case1 => exact h
  | case2 first next rest between ih =>
    obtain ⟨lower, upper⟩ := Bool.and_eq_true_iff.1 between
    refine List.isChain_cons.2 ⟨?_, List.isChain_cons.2 ⟨?_, ih (List.isChain_cons.1 h).2⟩⟩
    · rintro _ - ⟨e, -⟩
      exact ne_underscore_of_isLower lower e
    · rw [head?_separate]
      rintro _ ⟨⟩ ⟨-, e⟩
      exact ne_underscore_of_isUpper upper e
  | case3 first next rest between ih =>
    obtain ⟨apart, h⟩ := List.isChain_cons.1 h
    refine List.isChain_cons.2 ⟨?_, ih h⟩
    rw [head?_separate]
    exact apart
  | case4 first => exact h

/-- There are no words to set apart without capitals. -/
lemma separate_of_small (small : ∀ c ∈ cs, c.isUpper = false) : separate cs = cs := by
  fun_induction Naming.separate cs with
  | case1 => rfl
  | case2 first next rest between ih =>
    have capital := (Bool.and_eq_true_iff.1 between).2
    rw [small next (List.mem_cons_of_mem _ List.mem_cons_self)] at capital
    cases capital
  | case3 first next rest between ih =>
    rw [ih fun c hc => small c (List.mem_cons_of_mem _ hc)]
  | case4 first => rfl

/-- Setting words apart keeps a name tidy. -/
theorem tidy_separate (h : Tidy cs) : Tidy (separate cs) where
  chars := by
    intro c hc
    rcases mem_of_mem_separate hc with hc | rfl
    · exact h.chars c hc
    · decide
  apart := isChain_separate h.apart
  first := by
    rw [head?_separate]
    exact h.first
  last := by
    rw [getLast?_separate]
    exact h.last

end Words

section Small

/-- Only an underscore becomes one when letters are made small. -/
lemma toLower_eq_underscore_iff : c.toLower = '_' ↔ c = '_' := by
  by_cases capital : c.isUpper = true
  · have letter : c.toLower.isLower = true := by simp [Char.isAlpha, capital]
    exact iff_of_false (ne_underscore_of_isLower letter) (ne_underscore_of_isUpper capital)
  · rw [Char.toLower_eq_of_not_isUpper capital]

/-- A character of names stays one when it is made small. -/
lemma isNameChar_toLower (h : isNameChar c = true) : isNameChar c.toLower = true := by
  by_cases capital : c.isUpper = true
  · simp [isNameChar, Char.isAlphanum, Char.isAlpha, capital]
  · rwa [Char.toLower_eq_of_not_isUpper capital]

/-- A text without capitals is made small already. -/
lemma map_toLower_of_small (small : ∀ c ∈ cs, c.isUpper = false) : cs.map Char.toLower = cs := by
  refine (List.map_congr_left fun c hc => ?_).trans (List.map_id cs)
  exact Char.toLower_eq_of_not_isUpper (by simp [small c hc])

/-- Making letters small keeps a name tidy. -/
theorem tidy_toLower (h : Tidy cs) : Tidy (cs.map Char.toLower) where
  chars := by
    intro c hc
    obtain ⟨own, ho, rfl⟩ := List.mem_map.1 hc
    exact isNameChar_toLower (h.chars own ho)
  apart := by
    refine (List.isChain_map _).2 (h.apart.imp fun a b apart => ?_)
    rwa [Apart, toLower_eq_underscore_iff, toLower_eq_underscore_iff]
  first := by
    rw [List.head?_map]
    intro first
    obtain ⟨c, hc, e⟩ := Option.map_eq_some_iff.1 first
    exact h.first (toLower_eq_underscore_iff.1 e ▸ hc)
  last := by
    rw [List.getLast?_map]
    intro last
    obtain ⟨c, hc, e⟩ := Option.map_eq_some_iff.1 last
    exact h.last (toLower_eq_underscore_iff.1 e ▸ hc)

end Small

section Forms

variable [Spelling]

/-- The characters of a name are what is left of a text once it is spelled. -/
lemma sanitizeChars_eq (cs : List Char) : sanitizeChars cs = cleanChars (Spelling.chars cs) := rfl

/-- However a text is spelled, the characters of its name are tidy. -/
theorem tidy_sanitizeChars (cs : List Char) : Tidy (sanitizeChars cs) :=
  tidy_cleanChars _

/-- The snake form of a text is a tidy name without capitals. -/
theorem isSnake_snakeChars (cs : List Char) : IsSnake (snakeChars cs) where
  toTidy := tidy_toLower (tidy_separate (tidy_sanitizeChars cs))
  small := by
    intro c hc
    obtain ⟨own, -, rfl⟩ := List.mem_map.1 hc
    exact Char.isUpper_toLower_eq_false own

/-- The snake form of what is cleaned to a tidy name with small letters is that name. -/
lemma snakeChars_of_clean {name : List Char} (small : ∀ c ∈ name, c.isUpper = false)
    (clean : sanitizeChars cs = name) : snakeChars cs = name := by
  rw [snakeChars, clean, separate_of_small small, map_toLower_of_small small]

variable (keeps : Spelling.Keeps)
include keeps

/-- A text in ASCII is cleaned as it is. -/
lemma sanitizeChars_of_ascii (ascii : ∀ c ∈ cs, c.toNat < 128) : sanitizeChars cs = cleanChars cs := by
  rw [sanitizeChars_eq, keeps cs ascii]

/-- Names that are tidy stay as they are. -/
theorem sanitizeChars_of_tidy (h : Tidy cs) : sanitizeChars cs = cs := by
  rw [sanitizeChars_of_ascii keeps fun c hc => toNat_lt_of_isNameChar (h.chars c hc), cleanChars_of_tidy h]

/-- Tidy names without capitals are their own snake form. -/
theorem snakeChars_of_isSnake (h : IsSnake cs) : snakeChars cs = cs :=
  snakeChars_of_clean h.small (sanitizeChars_of_tidy keeps h.toTidy)

/-- An underscore in front of a tidy name without capitals is not part of its snake form. -/
theorem snakeChars_underscore (h : IsSnake cs) : snakeChars ('_' :: cs) = cs := by
  have ascii : ∀ c ∈ '_' :: cs, c.toNat < 128 :=
    List.forall_mem_cons.2 ⟨by decide, fun c hc => toNat_lt_of_isNameChar (h.chars c hc)⟩
  refine snakeChars_of_clean h.small ?_
  rw [sanitizeChars_of_ascii keeps ascii, cleanChars_underscore h.toTidy]

end Forms

end Naming

end OpenApiManifest
