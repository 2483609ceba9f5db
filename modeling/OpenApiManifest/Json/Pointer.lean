import OpenApiManifest.Json.Basic

/-!
# Pointers into a document

A pointer is `#` followed by the keys and indexes on the way to a value, each after a slash.  A tilde
in a key is written `~0` and a slash `~1`, so that a slash in a pointer always separates two steps.
-/

namespace OpenApiManifest.Pointer

/-- How one character of a key is written in a pointer. -/
def escapeChar : Char → List Char
  | '~' => ['~', '0']
  | '/' => ['~', '1']
  | c => [c]

/-- How the characters of a key are written in a pointer. -/
def escapeChars (cs : List Char) : List Char :=
  cs.flatMap escapeChar

/-- The characters of the key that a written step stands for. -/
def unescapeChars : List Char → List Char
  | [] => []
  | '~' :: '0' :: rest => '~' :: unescapeChars rest
  | '~' :: '1' :: rest => '/' :: unescapeChars rest
  | c :: rest => c :: unescapeChars rest

/-- How a key is written in a pointer. -/
def escape (key : String) : String :=
  String.ofList (escapeChars key.toList)

/-- The key that a written step stands for. -/
def unescape (step : String) : String :=
  String.ofList (unescapeChars step.toList)

/-- The pointer to the value under a key of the value at a pointer. -/
def child (pointer key : String) : String :=
  pointer ++ "/" ++ escape key

/-- The pointer to an item of the array at a pointer. -/
def item (pointer : String) (index : Nat) : String :=
  child pointer (Nat.repr index)

/-- Characters are escaped one by one. -/
@[simp] theorem escapeChars_cons (c : Char) (rest : List Char) :
    escapeChars (c :: rest) = escapeChar c ++ escapeChars rest := rfl

/-- Reading what was written for one character gives the character back. -/
theorem unescapeChars_escapeChar_append (c : Char) (rest : List Char) :
    unescapeChars (escapeChar c ++ rest) = c :: unescapeChars rest := by
  unfold escapeChar
  split
  · simp [unescapeChars]
  · simp [unescapeChars]
  · rename_i tilde _
    rw [List.singleton_append, unescapeChars]
    · exact fun _ h => absurd h tilde
    · exact fun _ h => absurd h tilde

/-- Reading what was written gives the characters back. -/
theorem unescapeChars_escapeChars (cs : List Char) : unescapeChars (escapeChars cs) = cs := by
  induction cs with
  | nil => rfl
  | cons c rest ih => rw [escapeChars_cons, unescapeChars_escapeChar_append, ih]

/-- Reading what was written gives the key back. -/
@[simp] theorem unescape_escape (key : String) : unescape (escape key) = key := by
  simp [unescape, escape, unescapeChars_escapeChars]

end OpenApiManifest.Pointer
