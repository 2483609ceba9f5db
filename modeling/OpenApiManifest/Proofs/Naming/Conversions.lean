import OpenApiManifest.Proofs.Naming.Forms

/-!
# Conversions of names

What a conversion makes, it leaves alone.  A text is its own clean form if and only if it is tidy
(`Naming.sanitize_eq_self_iff`).  It is its own snake form if and only if it is tidy and has no capitals
(`Naming.snakeCase_eq_self_iff`), and then it is its own module name as well
(`Naming.moduleName_eq_self_iff`), as there is a capital in every acronym that is spelled otherwise.

The pascal form joins the words of the snake form, each with a capital (`Naming.pascalChars_eq`).  A text and
its snake form therefore give the same synthetic names (`Naming.conversions_settle`).
-/

namespace OpenApiManifest

namespace Naming

section Acronyms

variable {token replacement cs : List Char}

/-- In a text without the token nothing is replaced. -/
lemma replaceToken_of_not_isInfix (absent : ¬ token <:+: cs) : replaceToken token replacement 0 cs = cs := by
  induction cs with
  | nil => rfl
  | cons c rest ih =>
    have other : token.isPrefixOf (c :: rest) = false := by
      refine Bool.eq_false_iff.2 fun found => ?_
      exact absent (List.isPrefixOf_iff_prefix.1 found).isInfix
    have later : ¬ token <:+: rest := fun inside => absent (inside.trans (List.suffix_cons c rest).isInfix)
    rw [replaceToken_cons_of_not other, ih later]

/-- There is a capital in every acronym. -/
lemma exists_isUpper_of_mem_acronyms :
    ∀ acronym ∈ acronyms, ∃ c ∈ acronym.1.toList, c.isUpper = true := by
  have capitals : ∀ acronym ∈ acronyms, acronym.1.toList.any Char.isUpper = true := by decide +kernel
  exact fun acronym known => List.any_eq_true.1 (capitals acronym known)

/-- There are no acronyms to spell otherwise without capitals. -/
lemma joinAcronyms_of_small (small : ∀ c ∈ cs, c.isUpper = false) : joinAcronyms cs = cs := by
  refine List.foldlRecOn (motive := (· = cs)) acronyms _ rfl ?_
  rintro _ rfl acronym known
  obtain ⟨c, hc, capital⟩ := exists_isUpper_of_mem_acronyms acronym known
  refine replaceToken_of_not_isInfix fun inside => ?_
  rw [small c (inside.subset hc)] at capital
  cases capital

end Acronyms

/-- A text with no two underscores in a row and none at its ends. -/
structure Neat (text : String) : Prop where
  single : ¬ "__".toList <:+: text.toList
  first : text.toList.head? ≠ some '_'
  last : text.toList.getLast? ≠ some '_'

/-- A tidy name is neat. -/
lemma Tidy.neat {text : String} (h : Tidy text.toList) : Neat text where
  single := by
    intro double
    have pair : List.IsChain Apart "__".toList := List.IsChain.infix h.apart double
    obtain ⟨apart, -⟩ := List.isChain_cons.1 pair
    exact apart '_' rfl ⟨rfl, rfl⟩
  first := h.first
  last := h.last

section Words

/-- A word with a capital in front. -/
def capitalized (word : List Char) : List Char :=
  word.modifyHead Char.toUpper

/-- The words of a name without capitals are joined, each with a capital, the first one only where a word
starts. -/
lemma capitalize_eq {start : Bool} {last : Char} {cs word : List Char} {words : List (List Char)}
    (small : ∀ c ∈ cs, c.isUpper = false) (apart : cs.IsChain Apart)
    (first : start = true → cs.head? ≠ some '_') (split : cs.splitOn '_' = word :: words) :
    capitalize start last cs =
      (if start then capitalized word else word) ++ words.flatMap capitalized := by
  -- By induction on the name, both where a word starts and inside of one: an underscore leads from one to the
  -- other.
  induction cs generalizing start last word words with
  | nil =>
    cases split
    cases start <;> rfl
  | cons c rest ih =>
    obtain ⟨-, smallRest⟩ := List.forall_mem_cons.1 small
    obtain ⟨next, apartRest⟩ := List.isChain_cons.1 apart
    obtain ⟨after, others, splitRest⟩ := List.exists_cons_of_ne_nil (List.splitOn_ne_nil '_' rest)
    rw [List.splitOn_cons_eq_if_modifyHead, splitRest] at split
    by_cases underscore : c = '_'
    · subst underscore
      obtain ⟨rfl, rfl⟩ := List.cons.inj split
      have inside : start = false := Bool.eq_false_iff.2 fun starts => first starts rfl
      subst inside
      have starts : rest.head? ≠ some '_' := fun e => next '_' e ⟨rfl, rfl⟩
      exact ih smallRest apartRest (fun _ => starts) splitRest
    · rw [if_neg (by simpa using underscore)] at split
      obtain ⟨rfl, rfl⟩ := List.cons.inj split
      have within : capitalize false c rest = after ++ others.flatMap capitalized :=
        ih smallRest apartRest nofun splitRest
      have kept : c.toLower = c := Char.toLower_eq_of_not_isUpper (by simp [small c List.mem_cons_self])
      cases start with
      | true => exact congrArg (c.toUpper :: ·) within
      | false =>
        rw [capitalize, if_neg nofun, if_neg underscore, kept, ite_self, within]
        rfl

end Words

section Conversions

variable [Spelling] {name : String}

/-- The pascal form is the words of the snake form, each with a capital. -/
theorem pascalChars_eq (cs : List Char) :
    pascalChars cs = ((snakeChars cs).splitOn '_').flatMap capitalized := by
  have snake : IsSnake (snakeChars cs) := isSnake_snakeChars cs
  obtain ⟨word, words, split⟩ := List.exists_cons_of_ne_nil (List.splitOn_ne_nil '_' (snakeChars cs))
  rw [pascalChars, capitalize_eq snake.small snake.apart (fun _ => snake.first) split, split]
  rfl

/-- What a text is cleaned to is tidy. -/
lemma tidy_sanitize (name : String) : Tidy (sanitize name).toList := by
  rw [sanitize, String.toList_ofList]
  exact tidy_sanitizeChars _

/-- A snake form is tidy and has no capitals. -/
lemma isSnake_snakeCase (name : String) : IsSnake (snakeCase name).toList := by
  rw [snakeCase, String.toList_ofList]
  exact isSnake_snakeChars _

/-- A module name is tidy and has no capitals. -/
lemma isSnake_moduleName (name : String) : IsSnake (moduleName name).toList := by
  rw [moduleName, String.toList_ofList]
  exact isSnake_snakeChars _

variable (keeps : Spelling.Keeps)
include keeps

/-- Cleaning leaves tidy names alone, and no others. -/
theorem sanitize_eq_self_iff : sanitize name = name ↔ Tidy name.toList := by
  constructor
  · intro e
    rw [← e]
    exact tidy_sanitize name
  · intro h
    rw [sanitize, sanitizeChars_of_tidy keeps h, String.ofList_toList]

/-- The snake form leaves tidy names without capitals alone, and no others. -/
theorem snakeCase_eq_self_iff : snakeCase name = name ↔ IsSnake name.toList := by
  constructor
  · intro e
    rw [← e]
    exact isSnake_snakeCase name
  · intro h
    rw [snakeCase, snakeChars_of_isSnake keeps h, String.ofList_toList]

/-- A name is its own module name if and only if it is its own snake form. -/
theorem moduleName_eq_self_iff : moduleName name = name ↔ IsSnake name.toList := by
  constructor
  · intro e
    rw [← e]
    exact isSnake_moduleName name
  · intro h
    rw [moduleName, joinAcronyms_of_small h.small]
    exact (snakeCase_eq_self_iff keeps).2 h

/-- A name has the pascal form of its snake form. -/
theorem pascalCase_snakeCase (name : String) : pascalCase (snakeCase name) = pascalCase name := by
  have same : snakeChars (snakeCase name).toList = snakeChars name.toList := by
    rw [snakeChars_of_isSnake keeps (isSnake_snakeCase name), snakeCase, String.toList_ofList]
  rw [pascalCase, pascalChars, same]
  rfl

end Conversions

/-- Whatever texts outside ASCII are spelled like, if those in ASCII are spelled as they are, then clean forms,
snake forms and module names stay as they are, and none of them has two underscores in a row or one at an end.  A
name and its snake form have the same pascal form, and give a member of any parent the same synthetic name. -/
theorem conversions_settle [Spelling] (keeps : Spelling.Keeps) (parent name : String) :
    sanitize (sanitize name) = sanitize name ∧ snakeCase (snakeCase name) = snakeCase name ∧
      moduleName (moduleName name) = moduleName name ∧ pascalCase (snakeCase name) = pascalCase name ∧
      syntheticName parent (snakeCase name) = syntheticName parent name ∧
      Neat (sanitize name) ∧ Neat (snakeCase name) ∧ Neat (moduleName name) := by
  have tidy : Tidy (sanitize name).toList := tidy_sanitize name
  have snake : IsSnake (snakeCase name).toList := isSnake_snakeCase name
  have ofModule : IsSnake (moduleName name).toList := isSnake_moduleName name
  have pascal : pascalCase (snakeCase name) = pascalCase name := pascalCase_snakeCase keeps name
  refine ⟨(sanitize_eq_self_iff keeps).2 tidy, (snakeCase_eq_self_iff keeps).2 snake,
    (moduleName_eq_self_iff keeps).2 ofModule, pascal, ?_, tidy.neat, snake.neat, ofModule.neat⟩
  rw [syntheticName, pascal, syntheticName]

attribute [local instance] Spelling.german

/-- The acronym is one word of the module name, two of the snake form, and neither form changes any more. -/
theorem conversions_settle_acronym :
    snakeCase "AuthNMapping--Ü" = "auth_nmapping_u" ∧ moduleName "AuthNMapping--Ü" = "authn_mapping_u" ∧
      snakeCase (snakeCase "AuthNMapping--Ü") = snakeCase "AuthNMapping--Ü" ∧
      moduleName (moduleName "AuthNMapping--Ü") = moduleName "AuthNMapping--Ü" ∧
      syntheticName "Pet" (snakeCase "AuthNMapping--Ü") = syntheticName "Pet" "AuthNMapping--Ü" ∧
      Neat (sanitize "AuthNMapping--Ü") := by
  obtain ⟨-, snake, ofModule, -, synthetic, neat, -⟩ :=
    conversions_settle Spelling.keeps_german "Pet" "AuthNMapping--Ü"
  exact ⟨by decide +kernel, by decide +kernel, snake, ofModule, synthetic, neat⟩

-- Names with other snake forms may have the same pascal form, and are then in each other's way.
example : syntheticName "Pet" "line1" = syntheticName "Pet" "line_1" := by
  decide +kernel

end Naming

end OpenApiManifest
