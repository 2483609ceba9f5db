import OpenApiManifest.Schema.Basic

/-!
# Statistics and warnings

What a run counts while it builds a manifest, and what it warns of.
-/

namespace OpenApiManifest

/-- Something worth a word that does not stop a run. -/
inductive Warning where
  /-- A parameter was left out because it has no schema. -/
  | parameterWithoutSchema (version operationId parameter : String)
  /-- An operation accepts anything because one of its responses has no content. -/
  | acceptsAnything (version operationId : String)
  /-- Nothing is known of the values of a property. -/
  | opaqueProperty (version model property : String)
  deriving DecidableEq, Repr

namespace Warning

def message : Warning → String
  | .parameterWithoutSchema version operationId parameter =>
    "[" ++ version ++ "] parameter '" ++ parameter ++ "' of '" ++ operationId ++ "' has no schema"
  | .acceptsAnything version operationId =>
    "[" ++ version ++ "] '" ++ operationId
      ++ "' has a response without content, accepting */*"
  | .opaqueProperty version model property =>
    "[" ++ version ++ "] property '" ++ property ++ "' of '" ++ model
      ++ "' is an object without properties"

/-- Whether a warning is about something that was left out. -/
def isSkipped : Warning → Bool
  | .parameterWithoutSchema .. => true
  | _ => false

end Warning

/-- What a run counts. -/
structure Statistics where
  versions : Nat
  operations : Nat
  groups : Nat
  models : Nat
  objects : Nat
  enums : Nat
  unions : Nat
  listWrappers : Nat
  cyclesDetected : Nat
  cycles : List (List String)
  warnings : List Warning
  deriving DecidableEq, Repr

namespace Statistics

def none : Statistics := ⟨0, 0, 0, 0, 0, 0, 0, 0, 0, [], []⟩

def countVersion (s : Statistics) : Statistics :=
  { s with versions := s.versions + 1 }

def countGroup (s : Statistics) (operations : Nat) : Statistics :=
  { s with groups := s.groups + 1, operations := s.operations + operations }

def countModel (s : Statistics) (tag : SchemaTag) : Statistics :=
  let s := { s with models := s.models + 1 }
  match tag with
  | .object | .allOf => { s with objects := s.objects + 1 }
  | .enum => { s with enums := s.enums + 1 }
  | .oneOf => { s with unions := s.unions + 1 }
  | .array => { s with listWrappers := s.listWrappers + 1 }
  | .anyOf | .primitive => s

/-- Records groups of schemas that reach one another. -/
def addCycles (s : Statistics) (cycles : List (List String)) : Statistics :=
  { s with
    cyclesDetected := s.cyclesDetected + cycles.length
    cycles := s.cycles ++ cycles }

def warn (s : Statistics) (warnings : List Warning) : Statistics :=
  { s with warnings := s.warnings ++ warnings }

def merge (s other : Statistics) : Statistics :=
  { versions := s.versions + other.versions
    operations := s.operations + other.operations
    groups := s.groups + other.groups
    models := s.models + other.models
    objects := s.objects + other.objects
    enums := s.enums + other.enums
    unions := s.unions + other.unions
    listWrappers := s.listWrappers + other.listWrappers
    cyclesDetected := s.cyclesDetected + other.cyclesDetected
    cycles := s.cycles ++ other.cycles
    warnings := s.warnings ++ other.warnings }

end Statistics

end OpenApiManifest
