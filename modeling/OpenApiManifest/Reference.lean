import OpenApiManifest.Json.Fields

/-!
# References

A reference names an entry of a section of the components of its document.  Reading one never looks
at the entry that it names, so references may run forward and in circles.
-/

namespace OpenApiManifest

/-- The identity of one document among those that are used side by side. -/
structure DocumentId where
  number : Nat
  deriving DecidableEq, Repr

/-- A place in a document.  No two things read from one document stand at the same pointer, so a
place identifies what stands there. -/
structure Place where
  document : DocumentId
  pointer : String
  deriving DecidableEq, Repr

/-- A reference: its text, the section and the name that the text ends with, and where it stands. -/
structure Reference where
  text : String
  within : String
  name : String
  place : Place
  deriving DecidableEq, Repr

namespace Reference

/-- Splits a text at its slashes, keeps the last two segments, and takes them for the section and
the name. -/
def ofText (text : String) (place : Place) : Except ModelError Reference :=
  match (text.toList.splitOn '/').reverse with
  | name :: within :: _ =>
    if name.isEmpty || within.isEmpty then
      .error (.malformed place.pointer (.referenceWithEmptySegment text))
    else
      .ok
        { text
          within := String.ofList (Pointer.unescapeChars within)
          name := String.ofList (Pointer.unescapeChars name)
          place }
  | _ => .error (.malformed place.pointer (.referenceWithoutSection text))

end Reference

/-- A position that holds a value of its own or a reference to a component. -/
inductive Slot (α : Type) where
  | owned (value : α)
  | ref (reference : Reference)
  deriving Repr

namespace Slot

variable {α β : Type}

def owned? : Slot α → Option α
  | .owned value => some value
  | .ref _ => none

/-- Reads a slot: an object with the field `$ref` is a reference, any other is read by `owned`. -/
def read (document : DocumentId) (value : Json) (pointer : String)
    (owned : Fields → Except ModelError α) : Except ModelError (Slot α) := do
  let fields ← Fields.ofJson value pointer
  match ← fields.string? "$ref" with
  | some text => return .ref (← Reference.ofText text ⟨document, pointer⟩)
  | none => return .owned (← owned fields)

/-- How a slot is written: a reference as an object with the one field `$ref`. -/
def write (owned : α → Json) : Slot α → Json
  | .owned value => owned value
  | .ref reference => .obj [("$ref", .str reference.text)]

end Slot

end OpenApiManifest
