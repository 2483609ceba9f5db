import OpenApiManifest.Json.Pointer
import OpenApiManifest.ModelError

/-!
# Typed access to the fields of an object

An object of a document together with its pointer.  A field that is absent and one that holds null
are the same to every access by type; a field that holds something else than expected is a
malformation at the pointer of that field.
-/

namespace OpenApiManifest

/-- The fields of an object and the pointer at which it stands. -/
structure Fields where
  pointer : String
  entries : List (String × Json)

namespace Fields

/-- The fields of a value that must be an object. -/
def ofJson (value : Json) (pointer : String) : Except ModelError Fields :=
  match value with
  | .obj entries => .ok ⟨pointer, entries⟩
  | other => .error (.malformed pointer (.unexpected .object other.kind))

def childPointer (fields : Fields) (key : String) : String :=
  Pointer.child fields.pointer key

/-- Whether there is a field with a key. -/
def has (fields : Fields) (key : String) : Bool :=
  Entries.has key fields.entries

/-- The value of a field, whatever it is. -/
def get? (fields : Fields) (key : String) : Option Json :=
  Entries.get? key fields.entries

/-- The malformation of a field that holds something else than expected. -/
def unexpected (fields : Fields) (key : String) (expected : Shape) (found : Json) : ModelError :=
  .malformed (fields.childPointer key) (.unexpected expected found.kind)

def string? (fields : Fields) (key : String) : Except ModelError (Option String) :=
  match fields.get? key with
  | none | some .null => .ok none
  | some (.str text) => .ok (some text)
  | some other => .error (fields.unexpected key .string other)

def string (fields : Fields) (key : String) : Except ModelError String := do
  match ← fields.string? key with
  | some text => return text
  | none => throw (.malformed fields.pointer (.missingField key))

/-- The truth value that a text spells, in any mixture of cases. -/
def truth? (text : String) : Option Bool :=
  let small := text.toList.map Char.toLower
  if small = ['t', 'r', 'u', 'e'] then some true
  else if small = ['f', 'a', 'l', 's', 'e'] then some false
  else none

/-- A field that may hold a truth value, itself or spelled out in a text. -/
def bool? (fields : Fields) (key : String) : Except ModelError (Option Bool) :=
  match fields.get? key with
  | none | some .null => .ok none
  | some (.bool value) => .ok (some value)
  | some (.str text) =>
    match truth? text with
    | some value => .ok (some value)
    | none => .error (fields.unexpected key .boolean (.str text))
  | some other => .error (fields.unexpected key .boolean other)

/-- A field that holds a truth value, or false where there is none. -/
def flag (fields : Fields) (key : String) : Except ModelError Bool := do
  return (← fields.bool? key).getD false

/-- A field that may hold a non-negative integer. -/
def nat? (fields : Fields) (key : String) : Except ModelError (Option Nat) :=
  match fields.get? key with
  | none | some .null => .ok none
  | some (.num value) =>
    match value.toNat? with
    | some n => .ok (some n)
    | none => .error (fields.unexpected key .nonNegativeInteger (.num value))
  | some other => .error (fields.unexpected key .nonNegativeInteger other)

def number? (fields : Fields) (key : String) : Except ModelError (Option Number) :=
  match fields.get? key with
  | none | some .null => .ok none
  | some (.num value) => .ok (some value)
  | some other => .error (fields.unexpected key .number other)

def array? (fields : Fields) (key : String) : Except ModelError (Option (List Json)) :=
  match fields.get? key with
  | none | some .null => .ok none
  | some (.arr items) => .ok (some items)
  | some other => .error (fields.unexpected key .array other)

def object? (fields : Fields) (key : String) :
    Except ModelError (Option (List (String × Json))) :=
  match fields.get? key with
  | none | some .null => .ok none
  | some (.obj entries) => .ok (some entries)
  | some other => .error (fields.unexpected key .object other)

/-- Reads a field that may be there, whatever it holds. -/
def optional {α : Type} (fields : Fields) (key : String)
    (read : Json → String → Except ModelError α) : Except ModelError (Option α) := do
  match fields.get? key with
  | none => return none
  | some value => return some (← read value (fields.childPointer key))

/-- Reads the items of the array at a pointer one after the other, from some index on. -/
def eachItem {α : Type} (read : Json → String → Except ModelError α) (pointer : String) :
    Nat → List Json → Except ModelError (List α)
  | _, [] => .ok []
  | index, item :: rest => do
    let first ← read item (Pointer.item pointer index)
    let others ← eachItem read pointer (index + 1) rest
    return first :: others

/-- Reads the values of the object at a pointer one after the other. -/
def eachEntry {α : Type} (read : String → Json → String → Except ModelError α)
    (pointer : String) : List (String × Json) → Except ModelError (Entries α)
  | [] => .ok []
  | (key, value) :: rest => do
    let first ← read key value (Pointer.child pointer key)
    let others ← eachEntry read pointer rest
    return (key, first) :: others

/-- The items of a field that may hold an array, each read; no items where there is none. -/
def items {α : Type} (fields : Fields) (key : String)
    (read : Json → String → Except ModelError α) : Except ModelError (List α) := do
  match ← fields.array? key with
  | none => return []
  | some values => eachItem read (fields.childPointer key) 0 values

/-- The entries of a field that may hold an object, each read; no entries where there is none. -/
def table {α : Type} (fields : Fields) (key : String)
    (read : String → Json → String → Except ModelError α) :
    Except ModelError (Entries α) := do
  match ← fields.object? key with
  | none => return []
  | some entries => eachEntry read (fields.childPointer key) entries

def readString (value : Json) (pointer : String) : Except ModelError String :=
  match value with
  | .str text => .ok text
  | other => .error (.malformed pointer (.unexpected .string other.kind))

/-- A field that may hold an array of texts. -/
def strings (fields : Fields) (key : String) : Except ModelError (List String) :=
  fields.items key readString

/-- Whether a key is that of an extension. -/
def isExtension (key : String) : Bool :=
  ['x', '-'].isPrefixOf key.toList

def extensions (fields : Fields) : Entries Json :=
  fields.entries.filter fun entry => isExtension entry.1

end Fields

end OpenApiManifest
