import OpenApiManifest.Entries
import OpenApiManifest.Yaml.Token

/-!
# The tree of a YAML text

The tokens of a text are read into a tree of nodes, in which an alias is a node of its own.  The
anchors of a text are numbered as they come up, by how many names were known before; an alias stands
for the node that was given its number last.
-/

namespace OpenApiManifest.Yaml

/-- A scalar as it is written. -/
structure Scalar where
  text : String
  /-- Whether the text is plain, neither in quotes nor a block. -/
  plain : Bool
  tag : Option String
  deriving DecidableEq, Repr

/-- A node. -/
inductive Node where
  | scalar (scalar : Scalar)
  | sequence (tag : Option String) (items : List Node)
  | mapping (tag : Option String) (fields : List (Node × Node))
  | alias (number : Nat)

/-- A document: its root, the definition that each anchor number was given last, and the nodes of the
definitions. -/
structure Document where
  root : Node
  owners : List (Nat × Nat)
  definitions : List (Nat × Node)

/-- The node that an anchor number stands for. -/
def Document.anchored? (document : Document) (number : Nat) : Option Node := do
  let definition ← document.owners.lookup number
  document.definitions.lookup definition

namespace Node

mutual
/-- The size of a node: a scalar and an alias count once, a collection twice and by its parts. -/
def size : Node → Nat
  | .scalar _ => 1
  | .alias _ => 1
  | .sequence _ items => sizeItems items + 2
  | .mapping _ fields => sizeFields fields + 2

def sizeItems : List Node → Nat
  | [] => 0
  | item :: rest => size item + sizeItems rest

def sizeFields : List (Node × Node) → Nat
  | [] => 0
  | (key, value) :: rest => size key + size value + sizeFields rest
end

/-- The node of a place at which nothing is written. -/
def empty (tag : Option String) : Node :=
  .scalar ⟨"", true, tag⟩

end Node

/-- The state of reading nodes: the tokens that are left, the anchors that are known, and what they
stand for. -/
structure Reading where
  tokens : List Placed
  /-- What the handles of tags stand for. -/
  handles : List (String × String)
  anchors : Entries Nat
  owners : List (Nat × Nat)
  definitions : List (Nat × Node)

def standardHandles : List (String × String) :=
  [("!", "!"), ("!!", "tag:yaml.org,2002:")]

/-- A step of reading nodes. -/
abbrev ReadingM := StateT Reading (Except Problem)

namespace ReadingM

/-- The token at hand; after the last one the text has ended. -/
def token : ReadingM Token := do
  match (← get).tokens with
  | placed :: _ => return placed.token
  | [] => return .textEnd

def skip : ReadingM Unit :=
  modify fun reading => { reading with tokens := reading.tokens.drop 1 }

/-- Takes the token at hand, if it is the given one. -/
def take (token : Token) : ReadingM Bool := do
  if (← ReadingM.token) = token then
    skip
    return true
  return false

/-- Ends the reading with a cause seen at the token at hand. -/
def fail {α : Type} (cause : Cause) : ReadingM α := do
  match (← get).tokens with
  | placed :: _ => throw (.seenAt cause placed.line placed.column)
  | [] => throw ⟨cause, none⟩

/-- Gives an anchor its number, and notes the definition that begins here. -/
def define (name : String) : ReadingM Nat := do
  let reading ← get
  -- A repeated name does not add to the count, so definitions can share a number.
  let number := reading.anchors.length
  let definition := reading.owners.length
  set { reading with
    anchors := Entries.put name number reading.anchors
    owners := (number, definition) :: reading.owners }
  return definition

def settle (definition : Option Nat) (node : Node) : ReadingM Node := do
  match definition with
  | some definition =>
    modify fun reading =>
      { reading with definitions := (definition, node) :: reading.definitions }
  | none => pure ()
  return node

end ReadingM

open ReadingM

def WrittenTag.full (tag : WrittenTag) : ReadingM String := do
  if tag.handle.isEmpty then return tag.suffix
  match (← get).handles.lookup tag.handle with
  | some start => return start ++ tag.suffix
  | none => ReadingM.fail .unknownTagHandle

/-- Reads the anchor and the tag before a node, in either order. -/
def readProperties : ReadingM (Option String × Option String) := do
  match ← token with
  | .anchor name => do
    skip
    match ← token with
    | .tag tag => do
      skip
      return (some name, some (← tag.full))
    | _ => return (some name, none)
  | .tag tag => do
    skip
    match ← token with
    | .anchor name => do
      skip
      return (some name, some (← tag.full))
    | _ => return (none, some (← tag.full))
  | _ => return (none, none)

/-- Where a node stands: a block collection may begin there, or also a sequence that is not indented
further than the mapping around it. -/
inductive Standing where
  | flow
  | block
  | blockValue
  deriving DecidableEq, Repr

mutual
def readNode (standing : Standing) : Nat → ReadingM Node
  | 0 => ReadingM.fail .tooDeep
  | fuel + 1 => do
    match ← token with
    | .alias name => do
      match Entries.get? name (← get).anchors with
      | some number => do
        skip
        return .alias number
      | none => ReadingM.fail .unknownAnchor
    | _ => do
      let (anchor, tag) ← readProperties
      let definition ← anchor.mapM define
      match ← token with
      | .scalar text plain => do
        skip
        settle definition (.scalar ⟨text, plain, tag⟩)
      | .flowSequenceStart => do
        skip
        settle definition (.sequence tag (← readFlowItems true fuel))
      | .flowMappingStart => do
        skip
        settle definition (.mapping tag (← readFlowFields true fuel))
      | .blockEntry =>
        if standing = .blockValue then
          settle definition (.sequence tag (← readIndentlessItems fuel))
        else readEmpty definition anchor tag
      | .blockSequenceStart =>
        if standing = .flow then readEmpty definition anchor tag
        else do
          skip
          settle definition (.sequence tag (← readBlockItems fuel))
      | .blockMappingStart =>
        if standing = .flow then readEmpty definition anchor tag
        else do
          skip
          settle definition (.mapping tag (← readBlockFields fuel))
      | _ => readEmpty definition anchor tag

/-- Reads a node of which only the anchor or the tag is written. -/
def readEmpty (definition : Option Nat) (anchor tag : Option String) : ReadingM Node := do
  if anchor.isNone && tag.isNone then ReadingM.fail .expectedNode
  else settle definition (.empty tag)

/-- Reads a node, or the empty one before one of some tokens. -/
def readNodeOr (standing : Standing) (ends : List Token) : Nat → ReadingM Node
  | 0 => ReadingM.fail .tooDeep
  | fuel + 1 => do
    if (← token) ∈ ends then return .empty none else readNode standing fuel

def readBlockItems : Nat → ReadingM (List Node)
  | 0 => ReadingM.fail .tooDeep
  | fuel + 1 => do
    if ← take .blockEnd then return []
    if !(← take .blockEntry) then ReadingM.fail .expectedBlockEntry
    let item ← readNodeOr .block [.blockEntry, .blockEnd] fuel
    return item :: (← readBlockItems fuel)

/-- Reads the entries of a sequence that ends with the mapping around it. -/
def readIndentlessItems : Nat → ReadingM (List Node)
  | 0 => ReadingM.fail .tooDeep
  | fuel + 1 => do
    if !(← take .blockEntry) then return []
    let item ← readNodeOr .block [.blockEntry, .key, .value, .blockEnd] fuel
    return item :: (← readIndentlessItems fuel)

def readBlockFields : Nat → ReadingM (List (Node × Node))
  | 0 => ReadingM.fail .tooDeep
  | fuel + 1 => do
    if ← take .blockEnd then return []
    if !(← take .key) then ReadingM.fail .expectedKey
    let key ← readNodeOr .blockValue [.key, .value, .blockEnd] fuel
    let value ←
      if ← take .value then readNodeOr .blockValue [.key, .value, .blockEnd] fuel
      else pure (.empty none)
    return (key, value) :: (← readBlockFields fuel)

/-- Reads the entries of a flow sequence.  A key begins a mapping of one field. -/
def readFlowItems (first : Bool) : Nat → ReadingM (List Node)
  | 0 => ReadingM.fail .tooDeep
  | fuel + 1 => do
    if ← take .flowSequenceEnd then return []
    if !first then
      if !(← take .flowEntry) then ReadingM.fail .expectedCommaOrBracket
      if ← take .flowSequenceEnd then return []
    let item ← if ← take .key then readSingleField fuel else readNode .flow fuel
    return item :: (← readFlowItems false fuel)

/-- Reads the only field of a mapping in a flow sequence.  A key of which nothing is written takes the
token after it. -/
def readSingleField : Nat → ReadingM Node
  | 0 => ReadingM.fail .tooDeep
  | fuel + 1 => do
    let key ←
      if (← token) ∈ [Token.value, .flowEntry, .flowSequenceEnd] then do
        skip
        pure (.empty none)
      else readNode .flow fuel
    let value ←
      if ← take .value then readNodeOr .flow [.flowEntry, .flowSequenceEnd] fuel
      else pure (.empty none)
    return .mapping none [(key, value)]

/-- Reads the fields of a flow mapping.  A node alone is a key with an empty value. -/
def readFlowFields (first : Bool) : Nat → ReadingM (List (Node × Node))
  | 0 => ReadingM.fail .tooDeep
  | fuel + 1 => do
    if ← take .flowMappingEnd then return []
    if !first then
      if !(← take .flowEntry) then ReadingM.fail .expectedCommaOrBrace
      if ← take .flowMappingEnd then return []
    let field ←
      if ← take .key then do
        let key ← readNodeOr .flow [.value, .flowEntry, .flowMappingEnd] fuel
        let value ←
          if ← take .value then readNodeOr .flow [.flowEntry, .flowMappingEnd] fuel
          else pure (.empty none)
        pure (key, value)
      else do
        let key ← readNode .flow fuel
        pure (key, .empty none)
    return field :: (← readFlowFields false fuel)
end

/-- Reads the directives before a document.  The version is given at most once and is 1.1 or 1.2, and
a handle is declared at most once. -/
def readDirectives : Nat → Bool → List (String × String) → ReadingM Bool
  | 0, _, _ => ReadingM.fail .tooDeep
  | fuel + 1, versioned, declared => do
    match ← token with
    | .directive (.version major minor) => do
      if versioned then ReadingM.fail .repeatedDirective
      if major ≠ 1 ∨ (minor ≠ 1 ∧ minor ≠ 2) then ReadingM.fail .incompatibleVersion
      skip
      let _ ← readDirectives fuel true declared
      return true
    | .directive (.handle name start) => do
      if (declared.lookup name).isSome then ReadingM.fail .repeatedDirective
      skip
      let _ ← readDirectives fuel versioned ((name, start) :: declared)
      return true
    | _ => do
      modify fun reading => { reading with handles := declared ++ standardHandles }
      return versioned || !declared.isEmpty

/-- Reads a document, and nothing where the text holds none. -/
def readDocument (fuel : Nat) : ReadingM (Option Node) := do
  if (← token) = .textEnd then return none
  let directives ← readDirectives fuel false []
  if ← take .documentStart then
    match ← token with
    | .directive _ => return some (.empty none)
    | .documentStart => return some (.empty none)
    | .documentEnd => return some (.empty none)
    | .textEnd => return some (.empty none)
    | _ => return some (← readNode .block fuel)
  if directives then ReadingM.fail .expectedDocumentStart
  return some (← readNode .block fuel)

/-- Goes on over the marks that end a document. -/
def skipDocumentEnds : Nat → ReadingM Unit
  | 0 => pure ()
  | fuel + 1 => do
    if ← take .documentEnd then skipDocumentEnds fuel

/-- The only document of a text.  A text without one stands for an empty node. -/
def Document.ofTokens (tokens : List Placed) : Except Problem Document := do
  let fuel := 3 * tokens.length + 8
  let reading : Reading := ⟨tokens, standardHandles, [], [], []⟩
  let (root, reading) ← (readDocument fuel).run reading
  let ((), reading) ← (skipDocumentEnds fuel).run reading
  match reading.tokens with
  | [] | ⟨.textEnd, _, _⟩ :: _ =>
    return ⟨root.getD (.empty none), reading.owners, reading.definitions⟩
  | ⟨_, line, column⟩ :: _ => throw (.seenAt .severalDocuments line column)

end OpenApiManifest.Yaml
