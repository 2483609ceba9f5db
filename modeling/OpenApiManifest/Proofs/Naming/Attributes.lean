import OpenApiManifest.Proofs.Naming.Forms

/-!
# Attribute names

An attribute name is the snake form of a name, or that form with an underscore in front
(`ReservedWords.attributeOf_cases`).  The underscore is no part of the snake form of the attribute name, so it is
put there again: attribute names are their own attribute names (`ReservedWords.attributeName_legal`).
-/

namespace OpenApiManifest

namespace ReservedWords

/-- The attribute name of what has some snake form. -/
def attributeOf (reserved : ReservedWords) (snake : List Char) : String :=
  match snake with
  | [] => "_"
  | c :: rest =>
    if c.isDigit then String.ofList ('_' :: c :: rest)
    else reserved.escape (String.ofList (c :: rest))

/-- The attribute name of a name is that of its snake form. -/
lemma attributeName_eq [Spelling] (reserved : ReservedWords) (name : String) :
    reserved.attributeName name = reserved.attributeOf (Naming.snakeChars name.toList) := by
  rw [attributeName]
  cases Naming.snakeChars name.toList with
  | nil => rfl
  | cons c rest => rfl

/-- Whether a text may be the name of an attribute: it is made of small letters, digits and underscores, does not
start with a digit, and is not reserved. -/
structure IsAttribute (reserved : ReservedWords) (text : String) : Prop where
  nonempty : text ≠ ""
  chars : ∀ c ∈ text.toList, ('a' ≤ c ∧ c ≤ 'z') ∨ ('0' ≤ c ∧ c ≤ '9') ∨ c = '_'
  first : ∀ c, text.toList.head? = some c → ¬ ('0' ≤ c ∧ c ≤ '9')
  free : text ∉ reserved.words

variable {reserved : ReservedWords} {snake : List Char}

/-- An attribute name is a snake form, or one with an underscore in front. -/
lemma attributeOf_cases (reserved : ReservedWords) (snake : List Char) :
    reserved.attributeOf snake = String.ofList ('_' :: snake) ∨
      reserved.attributeOf snake = String.ofList snake ∧ (∃ c, snake.head? = some c ∧ c.isDigit = false) ∧
        String.ofList snake ∉ reserved.words := by
  cases snake with
  | nil => exact .inl rfl
  | cons c rest =>
    unfold attributeOf
    dsimp only
    split
    case isTrue => exact .inl rfl
    case isFalse letter =>
      unfold escape
      split
      case isTrue => exact .inl (String.toList_inj.1 (by simp))
      case isFalse free =>
        exact .inr ⟨rfl, ⟨c, rfl, Bool.eq_false_iff.2 letter⟩, fun h => free (decide_eq_true h)⟩

/-- The small letters are those from `a` to `z`. -/
lemma isLower_iff {c : Char} : c.isLower = true ↔ 'a' ≤ c ∧ c ≤ 'z' := by
  rw [Char.isLower, Bool.and_eq_true, decide_eq_true_eq, decide_eq_true_eq]
  rfl

/-- The digits are those from `0` to `9`. -/
lemma isDigit_iff {c : Char} : c.isDigit = true ↔ '0' ≤ c ∧ c ≤ '9' := by
  rw [Char.isDigit, Bool.and_eq_true, decide_eq_true_eq, decide_eq_true_eq]
  rfl

/-- A character of a name that is no capital is a small letter, a digit or an underscore. -/
lemma chars_of_small {c : Char} (name : Naming.isNameChar c = true) (small : c.isUpper = false) :
    ('a' ≤ c ∧ c ≤ 'z') ∨ ('0' ≤ c ∧ c ≤ '9') ∨ c = '_' := by
  simp only [Naming.isNameChar, Char.isAlphanum, Char.isAlpha, small, Bool.false_or, Bool.or_eq_true,
    decide_eq_true_eq] at name
  rw [← isLower_iff, ← isDigit_iff]
  exact or_assoc.1 name

/-- The attribute name for a snake form may be the name of an attribute, unless a reserved word starts with an
underscore. -/
theorem isAttribute_attributeOf (form : Naming.IsSnake snake)
    (plain : ∀ word ∈ reserved.words, word.toList.head? ≠ some '_') :
    reserved.IsAttribute (reserved.attributeOf snake) := by
  have chars : ∀ c ∈ snake, ('a' ≤ c ∧ c ≤ 'z') ∨ ('0' ≤ c ∧ c ≤ '9') ∨ c = '_' :=
    fun c hc => chars_of_small (form.chars c hc) (form.small c hc)
  rcases attributeOf_cases reserved snake with e | ⟨e, ⟨c, head, letter⟩, free⟩
  · rw [e]
    constructor
    · intro empty
      simpa using congrArg String.toList empty
    · rw [String.toList_ofList]
      exact List.forall_mem_cons.2 ⟨.inr (.inr rfl), chars⟩
    · rw [String.toList_ofList]
      rintro _ ⟨⟩
      decide
    · intro known
      refine plain _ known ?_
      rw [String.toList_ofList]
      rfl
  · rw [e]
    constructor
    · intro empty
      have nothing : snake = [] := by simpa using congrArg String.toList empty
      rw [nothing] at head
      cases head
    · rwa [String.toList_ofList]
    · rw [String.toList_ofList, head]
      rintro _ ⟨⟩
      rw [← isDigit_iff, letter]
      exact Bool.false_ne_true
    · exact free

/-- An attribute name is its own attribute name. -/
theorem attributeName_attributeOf [Spelling] (keeps : Spelling.Keeps) (form : Naming.IsSnake snake) :
    reserved.attributeName (reserved.attributeOf snake) = reserved.attributeOf snake := by
  have same : Naming.snakeChars (reserved.attributeOf snake).toList = snake := by
    rcases attributeOf_cases reserved snake with e | ⟨e, -⟩
    · rw [e, String.toList_ofList, Naming.snakeChars_underscore keeps form]
    · rw [e, String.toList_ofList, Naming.snakeChars_of_isSnake keeps form]
  rw [attributeName_eq, same]

/-- The words that are reserved where no others are given start with letters. -/
lemma head?_standard : ∀ word ∈ standard.words, word.toList.head? ≠ some '_' := by
  decide +kernel

/-- Whatever texts are spelled like, attribute names are made of small letters, digits and underscores, do not start
with a digit and are not reserved, unless a reserved word starts with an underscore.  If texts in ASCII are spelled
as they are, attribute names are their own attribute names, whatever is reserved. -/
theorem attributeName_legal [Spelling] (reserved : ReservedWords) (name : String) :
    ((∀ word ∈ reserved.words, word.toList.head? ≠ some '_') →
      reserved.IsAttribute (reserved.attributeName name)) ∧
    (Spelling.Keeps →
      reserved.attributeName (reserved.attributeName name) = reserved.attributeName name) ∧
    ∀ word ∈ standard.words, word.toList.head? ≠ some '_' := by
  have form : Naming.IsSnake (Naming.snakeChars name.toList) := Naming.isSnake_snakeChars _
  refine ⟨fun plain => ?_, fun keeps => ?_, head?_standard⟩
  · rw [attributeName_eq]
    exact isAttribute_attributeOf form plain
  · rw [attributeName_eq reserved name]
    exact attributeName_attributeOf keeps form

attribute [local instance] Spelling.german

/-- Names that are reserved, that start with a digit or that are empty get an underscore. -/
theorem attributeName_legal_standard :
    ["from", "2faCode", "ünits", "--"].map standard.attributeName = ["_from", "_2fa_code", "units", "_"] ∧
      standard.IsAttribute (standard.attributeName "2faCode") ∧
      standard.attributeName (standard.attributeName "from") = standard.attributeName "from" := by
  obtain ⟨legal, -, plain⟩ := attributeName_legal standard "2faCode"
  obtain ⟨-, stable, -⟩ := attributeName_legal standard "from"
  exact ⟨by decide +kernel, legal plain, stable Spelling.keeps_german⟩

-- Where a reserved word starts with an underscore, the escape of another one may be reserved itself.
example : (ofList ["from", "_from"]).attributeName "from" ∈ (ofList ["from", "_from"]).words := by
  decide +kernel

end ReservedWords

end OpenApiManifest
