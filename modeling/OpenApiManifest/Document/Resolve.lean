import OpenApiManifest.Document.Basic

/-!
# Following references

A reference is looked up by name in the section of the components that its position expects, and only
in the document that it was read from.  A chain of references is followed to the value at its end.

What follows references is a `Run`: beside its result it lists the references that were found on the
way, so that an owner of the document can remember where each of them leads.
-/

namespace OpenApiManifest

/-- A kind of value that the components hold in a section of its own. -/
class Component (α : Type) where
  within : ComponentSection
  entries : Components → Entries (Slot α)

instance : Component Schema := ⟨.schemas, Components.schemas⟩
instance : Component Parameter := ⟨.parameters, Components.parameters⟩
instance : Component Response := ⟨.responses, Components.responses⟩
instance : Component SecurityScheme := ⟨.securitySchemes, Components.securitySchemes⟩

/-- A reference that was found: where it stands, and the position of the entry that it names. -/
structure Found where
  place : Place
  index : Nat
  deriving DecidableEq, Repr

/-- Why work on a document ended early: an error, or because it would not have come to an end within
the steps that it was given. -/
inductive Halt where
  | error (cause : ModelError)
  | outOfSteps
  deriving DecidableEq, Repr

def Halt.message : Halt → String
  | .error cause => cause.message
  | .outOfSteps => "the schemas of the document lead in a circle"

/-- The outcome of work that follows references. -/
structure Run (α : Type) where
  found : List Found
  result : Except Halt α

namespace Run

variable {α β : Type}

def fail (cause : ModelError) : Run α :=
  ⟨[], .error (.error cause)⟩

def outOfSteps : Run α :=
  ⟨[], .error .outOfSteps⟩

/-- Goes on with the result of some work. -/
def andThen (run : Run α) (next : α → Run β) : Run β :=
  match run.result with
  | .ok value =>
    let rest := next value
    ⟨run.found ++ rest.found, rest.result⟩
  | .error halt => ⟨run.found, .error halt⟩

instance : Monad Run where
  pure value := ⟨[], .ok value⟩
  bind := andThen

/-- Work that only gives a value gives this value. -/
@[simp] theorem result_pure (value : α) : (pure value : Run α).result = .ok value := rfl

/-- The result of work in two parts is that of the second part on the result of the first. -/
@[simp] theorem result_bind (run : Run α) (next : α → Run β) :
    (run >>= next).result = run.result >>= fun value => (next value).result := by
  show (andThen run next).result = _
  unfold andThen
  cases h : run.result <;> rfl

/-- Work that only fails fails for this cause. -/
@[simp] theorem result_fail (cause : ModelError) :
    (fail cause : Run α).result = .error (.error cause) := rfl

/-- Changing the value of some work changes it in the result. -/
@[simp] theorem result_map (f : α → β) (run : Run α) :
    (f <$> run).result = f <$> run.result := by
  show (andThen run fun value => pure (f value)).result = _
  unfold andThen
  cases h : run.result <;> rfl

end Run

namespace Reference

variable {α : Type} [Component α]

/-- Looks a reference up in a document: the entry that it names, and its position. -/
def lookup (reference : Reference) (document : Document) : Except ModelError (Nat × Slot α) :=
  if document.id ≠ reference.place.document then .error (.foreign reference.text)
  else
    match ComponentSection.ofKey? reference.within with
    | none => .error (.unresolved reference.text (.unknownSection reference.within))
    | some found =>
      if found ≠ Component.within α then
        .error (.unresolved reference.text (.wrongSection found (Component.within α)))
      else
        match Entries.locate? reference.name (Component.entries document.components) with
        | some entry => .ok entry
        | none =>
          .error (.unresolved reference.text (.noEntry (Component.within α) reference.name))

def hop (reference : Reference) (document : Document) : Run (Slot α) :=
  match reference.lookup document with
  | .ok (index, slot) => ⟨[⟨reference.place, index⟩], .ok slot⟩
  | .error cause => .fail cause

end Reference

namespace Slot

variable {α : Type} [Component α]

/-- Follows a slot to the value at its end over at most so many references.  The last reference of a
chain that is too long is still looked up. -/
def follow (document : Document) (origin : String) : Nat → Slot α → Run α
  | _, .owned value => pure value
  | 0, .ref reference => do
    -- Looking it up is what remembers it, although the chain fails.
    let _ ← (reference.hop document : Run (Slot α))
    Run.fail (.unresolved origin .endlessChain)
  | hops + 1, .ref reference => do
    let next ← reference.hop document
    follow document origin hops next

/-- The value that a slot holds or that its reference leads to. -/
def resolve (slot : Slot α) (document : Document) : Run α :=
  match slot with
  | .owned value => pure value
  | .ref reference => follow document reference.text maxAliasHops (.ref reference)

end Slot

/-- A reference together with the position that an earlier look-up found for it. -/
structure Link where
  reference : Reference
  index : Option Nat
  deriving DecidableEq, Repr

namespace Link

variable {α : Type} [Component α]

/-- Follows a reference for one step.  The position that is remembered spares the checks and the
search by name, and a search that succeeds is remembered. -/
def resolve (link : Link) (document : Document) : Except ModelError (Slot α) × Link :=
  if document.id ≠ link.reference.place.document then
    (.error (.foreign link.reference.text), link)
  else
    match link.index with
    | some index =>
      match (Component.entries document.components)[index]? with
      | some (_, slot) => (.ok slot, link)
      | none => (.error (.unresolved link.reference.text .vanished), link)
    | none =>
      match link.reference.lookup document with
      | .ok (index, slot) => (.ok slot, { link with index := some index })
      | .error cause => (.error cause, link)

end Link

/-- What is remembered about the references that were found. -/
structure Memo where
  found : List Found

namespace Memo

def empty : Memo := ⟨[]⟩

/-- The position that is remembered for the reference at a place. -/
def index? (memo : Memo) (place : Place) : Option Nat :=
  (memo.found.find? fun f => decide (f.place = place)).map Found.index

/-- A reference with what is remembered about it. -/
def link (memo : Memo) (reference : Reference) : Link :=
  ⟨reference, memo.index? reference.place⟩

/-- Remembers one more reference; what is remembered already stays. -/
def remember (memo : Memo) (found : Found) : Memo :=
  if (memo.index? found.place).isSome then memo else ⟨found :: memo.found⟩

/-- Remembers the references that were found, in order. -/
def rememberAll (memo : Memo) (found : List Found) : Memo :=
  found.foldl remember memo

end Memo

namespace Document

/-- A number of steps that suffices to go through the schemas of a document from a root of some size:
one for every schema and reference, for every component that may be entered on the way. -/
def steps (document : Document) (rootSize : Nat) : Nat :=
  4 * (document.components.schemas.length + 2)
    * (rootSize + Schema.propertiesSize document.components.schemas + 2)

end Document

end OpenApiManifest
