import OpenApiManifest.Yaml.Scalar

/-!
# Values of YAML texts

The tree of a text becomes a value: a mapping is an object whose keys are the texts of its keys, and an
alias is the value of the node it stands for.  How deep the value may be and how often an alias may
be followed is limited.
-/

namespace OpenApiManifest.Yaml

/-- How many collections may be open at once. -/
def maxLevels : Nat := 128

/-- How often an alias may be followed for each part of a text. -/
def maxJumps : Nat := 100

/-- A step of reading values: it counts how often an alias was followed. -/
abbrev ValueM := StateT Nat (Except Cause)

namespace Document

/-- The node that is meant by a node. -/
def follow (document : Document) : Node → ValueM Node
  | .alias number => do
    let jumps := (← get) + 1
    set jumps
    if document.root.size * maxJumps < jumps then throw .tooManyAliases
    match document.anchored? number with
    | some node => return node
    | none => throw .unknownAnchor
  | node => return node

def keyText (document : Document) (node : Node) : ValueM String := do
  match ← document.follow node with
  | .scalar scalar => return scalar.text
  | _ => throw .keyNotScalar

/-- The value of a node, when so many collections may still be opened. -/
def nodeValue (document : Document) : Nat → Node → ValueM Json
  | 0, node => do
    match ← document.follow node with
    | .scalar scalar => scalar.value
    | _ => throw .tooDeep
  | levels + 1, node => do
    match ← document.follow node with
    | .scalar scalar => scalar.value
    | .sequence tag items => do
      if isLocalTag tag then throw .localTag
      return .arr (← items.mapM (nodeValue document levels))
    | .mapping tag fields => do
      if isLocalTag tag then throw .localTag
      let entries ← fields.mapM fun field => do
        return (← document.keyText field.1, ← nodeValue document levels field.2)
      return .obj (Entries.ofList entries)
    | .alias _ => throw .unknownAnchor

def value (document : Document) : Except Cause Json := do
  let (value, _) ← (document.nodeValue maxLevels document.root).run 0
  return value

end Document

/-- Whether a character may stand in a text. -/
def isAllowed (c : Char) : Bool :=
  c = '\t' || c = '\n' || c = '\r' || c = '\u0085'
    || (' ' ≤ c && c ≤ '~')
    || ('\u00a0' ≤ c && c ≠ '\ufffe' && c ≠ '\uffff')

/-- The value of the only document of a text. -/
def read (bytes : List UInt8) : Except Problem Json := do
  match String.fromUTF8? ⟨bytes.toArray⟩ with
  | none => throw ⟨.notUnicode, none⟩
  | some text =>
    if !text.toList.all isAllowed then throw ⟨.controlCharacter, none⟩
    let document ← Document.ofTokens (← Token.scan text.toList)
    match document.value with
    | .ok value => return value
    | .error cause => throw ⟨cause, none⟩

end OpenApiManifest.Yaml
