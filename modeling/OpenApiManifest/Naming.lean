import OpenApiManifest.Entries
import OpenApiManifest.Text.Spelling

/-!
# Names

How names of documents become identifiers: names over `[A-Za-z0-9_]`, their snake and pascal forms,
the names of models that have none of their own, module names, and attribute names that avoid
reserved words.
-/

namespace OpenApiManifest

namespace Naming

/-- Whether a character may stand in an identifier. -/
def isNameChar (c : Char) : Bool :=
  c.isAlphanum || c = '_'

/-- Puts a character in front of others, but no second underscore in front of an underscore. -/
def squeeze (c : Char) (rest : List Char) : List Char :=
  if c = '_' ∧ rest.head? = some '_' then rest else c :: rest

def collapse (cs : List Char) : List Char :=
  cs.foldr squeeze []

def trim (cs : List Char) : List Char :=
  ((cs.dropWhile (· = '_')).reverse.dropWhile (· = '_')).reverse

/-- Puts an underscore between a small letter and a capital right after it. -/
def separate : List Char → List Char
  | [] => []
  | c :: rest =>
    match rest with
    | next :: _ =>
      if c.isLower && next.isUpper then c :: '_' :: separate rest else c :: separate rest
    | [] => [c]

/-- The pascal form of the characters after `last`; `start` says whether a word starts here. -/
def capitalize (start : Bool) (last : Char) : List Char → List Char
  | [] => []
  | c :: rest =>
    if start then c.toUpper :: capitalize false c rest
    else if c = '_' then capitalize true c rest
    else if last.isLower then c :: capitalize false c rest
    else c.toLower :: capitalize false c rest

/-- Replaces every occurrence of a token, from the left and without overlap; `skip` characters still
belong to the last occurrence. -/
def replaceToken (token replacement : List Char) : Nat → List Char → List Char
  | _, [] => []
  | skip + 1, _ :: rest => replaceToken token replacement skip rest
  | 0, c :: rest =>
    if token.isPrefixOf (c :: rest) then
      replacement ++ replaceToken token replacement (token.length - 1) rest
    else c :: replaceToken token replacement 0 rest

/-- Where no token starts, a character stays. -/
theorem replaceToken_cons_of_not {token replacement rest : List Char} {c : Char}
    (other : token.isPrefixOf (c :: rest) = false) :
    replaceToken token replacement 0 (c :: rest) = c :: replaceToken token replacement 0 rest := by
  rw [replaceToken, if_neg (by rw [other]; nofun)]

/-- Acronyms and the spelling under which they stay one word. -/
def acronyms : List (String × String) :=
  [("IdP", "Idp"), ("AuthNMapping", "AuthnMapping"), ("AuthN ", "Authn "), ("IoT", "Iot"),
    ("SLOs", "Slos")]

/-- Spells the acronyms of a name as one word each. -/
def joinAcronyms (cs : List Char) : List Char :=
  acronyms.foldl (fun cs (token, replacement) =>
    replaceToken token.toList replacement.toList 0 cs) cs

/-- The name of the anonymous item schema of a named array. -/
def itemName (parent : String) : String :=
  parent ++ "Item"

section Conversions

variable [Spelling]

/-- The characters of a name: spelled in ASCII, every run of other characters an underscore, and no
underscore at the ends. -/
def sanitizeChars (cs : List Char) : List Char :=
  trim (collapse ((Spelling.chars cs).map fun c => if isNameChar c then c else '_'))

/-- The snake form: words apart, all letters small. -/
def snakeChars (cs : List Char) : List Char :=
  (separate (sanitizeChars cs)).map Char.toLower

/-- The pascal form: every word with a capital, no underscores. -/
def pascalChars (cs : List Char) : List Char :=
  capitalize true ' ' (snakeChars cs)

/-- A name over `[A-Za-z0-9_]`. -/
def sanitize (name : String) : String :=
  String.ofList (sanitizeChars name.toList)

/-- The words of a name in small letters, with underscores between them. -/
def snakeCase (name : String) : String :=
  String.ofList (snakeChars name.toList)

/-- The words of a name with capitals, one after the other. -/
def pascalCase (name : String) : String :=
  String.ofList (pascalChars name.toList)

/-- The name of an anonymous schema found under a member of a model. -/
def syntheticName (parent member : String) : String :=
  parent ++ pascalCase member

/-- The name of the module of a model or of a group of operations. -/
def moduleName (name : String) : String :=
  String.ofList (snakeChars (joinAcronyms name.toList))

end Conversions

end Naming

/-- Words that generated names must not be. -/
structure ReservedWords where
  words : List String
  nodup : words.Nodup

namespace ReservedWords

def ofList (words : List String) : ReservedWords :=
  ⟨OrderedSet.ofList words, OrderedSet.nodup_ofList words⟩

def contains (reserved : ReservedWords) (word : String) : Bool :=
  word ∈ reserved.words

def size (reserved : ReservedWords) : Nat :=
  reserved.words.length

/-- Puts an underscore in front of a reserved word. -/
def escape (reserved : ReservedWords) (word : String) : String :=
  if reserved.contains word then "_" ++ word else word

/-- The attribute name of a property or parameter: its snake form, escaped where it is reserved, and
with an underscore in front where it is empty or starts with a digit. -/
def attributeName [Spelling] (reserved : ReservedWords) (name : String) : String :=
  match Naming.snakeChars name.toList with
  | [] => "_"
  | c :: rest =>
    if c.isDigit then String.ofList ('_' :: c :: rest)
    else reserved.escape (String.ofList (c :: rest))

/-- The keywords of the target language and the built-in names that a client must not hide. -/
def standard : ReservedWords :=
  ofList ["False", "None", "True", "and", "as", "assert", "async", "await", "break", "class",
    "continue", "def", "del", "elif", "else", "except", "finally", "for", "from", "global", "if",
    "import", "in", "is", "lambda", "nonlocal", "not", "or", "pass", "raise", "return", "try",
    "while", "with", "yield", "property", "cls"]

end ReservedWords

end OpenApiManifest
