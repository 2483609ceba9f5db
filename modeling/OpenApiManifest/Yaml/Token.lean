import OpenApiManifest.Yaml.Tag

/-!
# Tokens of a YAML text

A text is split into tokens that make its structure explicit: the beginnings and ends of blocks, which
the text shows by indentation, become tokens of their own, and so does the beginning of a key, which
the text shows only by the colon after it.  For the latter the scanner remembers, for each open flow
collection, where a key may have begun; a colon puts the token for the key there.
-/

namespace OpenApiManifest.Yaml

/-- A token. -/
inductive Token where
  | directive (directive : Directive)
  | documentStart
  | documentEnd
  | blockSequenceStart
  | blockMappingStart
  | blockEnd
  | flowSequenceStart
  | flowSequenceEnd
  | flowMappingStart
  | flowMappingEnd
  | blockEntry
  | flowEntry
  | key
  | value
  | alias (name : String)
  | anchor (name : String)
  | tag (tag : WrittenTag)
  | scalar (text : String) (plain : Bool)
  | textEnd
  deriving DecidableEq, Repr

/-- A token and the line and column, counted from zero, at which it starts. -/
structure Placed where
  token : Token
  line : Nat
  column : Nat

/-- A place where a key may have begun. -/
structure KeyStart where
  /-- Whether nothing but a key may begin there. -/
  required : Bool
  /-- How many tokens stand before it. -/
  count : Nat
  index : Nat
  line : Nat
  column : Nat

/-- The state of the scanner. -/
structure Scanner where
  cursor : Cursor
  /-- The tokens, the newest first. -/
  tokens : List Placed
  count : Nat
  /-- The columns of the open blocks, the innermost first. -/
  indents : List Nat
  /-- Where a key may have begun in the innermost flow collection, or in the block around all. -/
  key : Option KeyStart
  /-- The same for what is around it. -/
  outer : List (Option KeyStart)
  /-- Whether a key may begin at the next token. -/
  keyAllowed : Bool

namespace Scanner

def start (chars : List Char) : Scanner :=
  ⟨.start chars, [], 0, [], none, [], true⟩

/-- Whether the scanner is inside a flow collection. -/
def inFlow (s : Scanner) : Bool :=
  !s.outer.isEmpty

/-- The column of the innermost block; there is one before the first column around all blocks. -/
def indent (s : Scanner) : Int :=
  match s.indents with
  | [] => -1
  | column :: _ => column

/-- Adds a token that starts at a cursor. -/
def emitAt (c : Cursor) (token : Token) (s : Scanner) : Scanner :=
  { s with tokens := ⟨token, c.line, c.column⟩ :: s.tokens, count := s.count + 1 }

/-- Adds a token of some characters that starts at the cursor. -/
def emit (token : Token) (steps : Nat) (s : Scanner) : Scanner :=
  { s.emitAt s.cursor token with cursor := s.cursor.advance steps }

/-- Puts tokens in the place where a key began. -/
def insertAt (key : KeyStart) (tokens : List Token) (s : Scanner) : Scanner :=
  let newer := s.count - key.count
  let inserted := tokens.map fun token => Placed.mk token key.line key.column
  { s with
    tokens := s.tokens.take newer ++ inserted.reverse ++ s.tokens.drop newer
    count := s.count + tokens.length }

/-- Ends the blocks that stand further to the right than a column; with no column, all blocks. -/
def closeBlocks (column : Option Nat) (s : Scanner) : Scanner :=
  if s.inFlow then s
  else
    let closed := s.indents.takeWhile fun i => column.all fun c => decide (c < i)
    closed.foldl (fun s _ => s.emitAt s.cursor .blockEnd)
      { s with indents := s.indents.drop closed.length }

def opensBlock (column : Nat) (s : Scanner) : Bool :=
  !s.inFlow && decide (s.indent < column)

/-- Begins a block at the cursor, if it stands further to the right than the blocks around it. -/
def openBlock (token : Token) (s : Scanner) : Scanner :=
  let column := s.cursor.column
  if s.opensBlock column then
    { s.emitAt s.cursor token with indents := column :: s.indents }
  else s

/-- What becomes of a key start that was not followed by a colon. -/
def KeyStart.forget (key : KeyStart) : Except Problem Unit :=
  if key.required then .error (.seenAt .expectedColon key.line key.column) else .ok ()

/-- Gives up the key that may have begun in the innermost collection. -/
def dropKey (s : Scanner) : Except Problem Scanner := do
  match s.key with
  | some key => KeyStart.forget key
  | none => pure ()
  return { s with key := none }

/-- Notes that a key may begin at the cursor. -/
def saveKey (s : Scanner) : Except Problem Scanner := do
  if !s.keyAllowed then return s
  let c := s.cursor
  let required := !s.inFlow && decide (s.indent = c.column)
  return { ← s.dropKey with key := some ⟨required, s.count, c.index, c.line, c.column⟩ }

/-- Gives up a key start that the cursor has left: a key is on one line and not longer than 1024
characters. -/
def KeyStart.orStale (c : Cursor) : Option KeyStart → Except Problem (Option KeyStart)
  | none => .ok none
  | some key => do
    if key.line < c.line ∨ key.index + 1024 < c.index then
      KeyStart.forget key
      return none
    return some key

/-- Gives up the key starts that the cursor has left. -/
def dropStale (s : Scanner) : Except Problem Scanner := do
  let outer ← s.outer.mapM (KeyStart.orStale s.cursor)
  let key ← KeyStart.orStale s.cursor s.key
  return { s with key, outer }

/-- Goes on to the next token, over blanks, comments and ends of lines.  A tab is no blank where a key
may begin in a block. -/
def skipGap : Nat → Scanner → Scanner
  | 0, s => s
  | fuel + 1, s =>
    let c := s.cursor
    let c := if c.index = 0 ∧ c.isAt '\uFEFF' then c.advance 1 else c
    let tabs := s.inFlow || !s.keyAllowed
    let c := c.skipWhile fun char => char = ' ' || (tabs && char = '\t')
    let c := if c.isAt '#' then c.skipWhile fun char => !isBreak char else c
    if c.atBreak then
      skipGap fuel { s with cursor := c.nextLine.2, keyAllowed := s.keyAllowed || !s.inFlow }
    else { s with cursor := c }

/-- Ends the open blocks and the key before what stands on a line of its own. -/
def closeAll (s : Scanner) : Except Problem Scanner := do
  return { ← (s.closeBlocks none).dropKey with keyAllowed := false }

def openFlow (token : Token) (s : Scanner) : Except Problem Scanner := do
  let s ← s.saveKey
  return { s with outer := s.key :: s.outer, key := none, keyAllowed := true }.emit token 1

def closeFlow (token : Token) (s : Scanner) : Except Problem Scanner := do
  let s ← s.dropKey
  let s := match s.outer with
    | [] => s
    | key :: outer => { s with key, outer }
  return { s with keyAllowed := false }.emit token 1

def blockEntry (s : Scanner) : Except Problem Scanner := do
  if !s.inFlow && !s.keyAllowed then s.cursor.fail .blockEntryNotAllowed
  let s ← (s.openBlock .blockSequenceStart).dropKey
  return { s with keyAllowed := true }.emit .blockEntry 1

/-- A key with a mark of its own. -/
def markedKey (s : Scanner) : Except Problem Scanner := do
  if !s.inFlow && !s.keyAllowed then s.cursor.fail .mappingKeyNotAllowed
  let s ← (s.openBlock .blockMappingStart).dropKey
  return { s with keyAllowed := !s.inFlow }.emit .key 1

/-- A colon: a key began at the place that was noted, or, where none was, the key is empty. -/
def colon (s : Scanner) : Except Problem Scanner := do
  match s.key with
  | some key =>
    let opens := s.opensBlock key.column
    let s := s.insertAt key (if opens then [.blockMappingStart, .key] else [.key])
    let indents := if opens then key.column :: s.indents else s.indents
    return { s with indents, key := none, keyAllowed := false }.emit .value 1
  | none =>
    if !s.inFlow && !s.keyAllowed then s.cursor.fail .mappingValueNotAllowed
    let s := s.openBlock .blockMappingStart
    return { s with keyAllowed := !s.inFlow }.emit .value 1

/-- Adds a token with which a key may begin, read up to a cursor. -/
def startOfKey (s : Scanner) (token : Token) (next : Cursor) : Except Problem Scanner := do
  let s ← s.saveKey
  return { s.emitAt s.cursor token with cursor := next, keyAllowed := false }

def quoted (double : Bool) (s : Scanner) : Except Problem Scanner := do
  let c := s.cursor.advance 1
  let (chars, next) ← readQuoted double (c.rest.length + 1) [] c
  s.startOfKey (.scalar (String.ofList chars) false) next

def block (literal : Bool) (s : Scanner) : Except Problem Scanner := do
  let s ← s.dropKey
  let (chars, next) ← readBlock literal s.indent (s.cursor.advance 1)
  let s := s.emitAt s.cursor (.scalar (String.ofList chars) false)
  return { s with cursor := next, keyAllowed := true }

def plain (s : Scanner) : Except Problem Scanner := do
  let indent := (s.indent + 1).toNat
  let text ← readPlain s.inFlow indent (s.cursor.rest.length + 1) [] ⟨[], none, []⟩ s.cursor
  let s ← s.startOfKey (.scalar (String.ofList text.chars) true) text.after
  -- A text that ends over a line break leaves the next token at the start of a line.
  return { s with keyAllowed := text.overLines }

/-- Whether a plain text may begin at a cursor. -/
def startsPlain (inFlow : Bool) (c : Cursor) : Bool :=
  match c.char? with
  | none => false
  | some char =>
    if char = '-' then !(c.charAt? 1).any isBlank
    else if char = '?' ∨ char = ':' then !inFlow && !isGap (c.charAt? 1)
    else
      !isBlank char && !isBreak char
        && !(char ∈ [',', '[', ']', '\x7b', '\x7d', '#', '&', '*', '!', '|', '>', '\'', '"', '%',
          '@', '\x60'])

def readToken (s : Scanner) (char : Char) : Except Problem Scanner := do
  let c := s.cursor
  let gapAfter := isGap (c.charAt? 1)
  if c.column = 0 ∧ char = '%' then
    let s ← s.closeAll
    let (directive, next) ← readDirective (c.advance 1)
    return { s.emitAt c (.directive directive) with cursor := next }
  else if c.atDocumentMark then
    return (← s.closeAll).emit (if char = '-' then .documentStart else .documentEnd) 3
  else if char = '[' then s.openFlow .flowSequenceStart
  else if char = '\x7b' then s.openFlow .flowMappingStart
  else if char = ']' then s.closeFlow .flowSequenceEnd
  else if char = '\x7d' then s.closeFlow .flowMappingEnd
  else if char = ',' then
    return { ← s.dropKey with keyAllowed := true }.emit .flowEntry 1
  else if char = '-' ∧ gapAfter then s.blockEntry
  else if char = '?' ∧ (s.inFlow || gapAfter) then s.markedKey
  else if char = ':' ∧ (s.inFlow || gapAfter) then s.colon
  else if char = '*' then
    let (name, next) ← readAnchor (c.advance 1)
    s.startOfKey (.alias name) next
  else if char = '&' then
    let (name, next) ← readAnchor (c.advance 1)
    s.startOfKey (.anchor name) next
  else if char = '!' then
    let (tag, next) ← readTag s.inFlow c
    s.startOfKey (.tag tag) next
  else if char = '|' ∧ !s.inFlow then s.block true
  else if char = '>' ∧ !s.inFlow then s.block false
  else if char = '\'' then s.quoted false
  else if char = '"' then s.quoted true
  else if startsPlain s.inFlow c then s.plain
  else c.fail .cannotStartToken

/-- Reads tokens up to the end of the text. -/
def run : Nat → Scanner → Except Problem Scanner
  | 0, s => .ok s
  | fuel + 1, s => do
    let s ← (s.skipGap (s.cursor.rest.length + 1)).dropStale
    let s := s.closeBlocks (some s.cursor.column)
    match s.cursor.char? with
    | some char => (← s.readToken char).run fuel
    | none => return (← s.closeAll).emit .textEnd 0

end Scanner

/-- The tokens of a text.  Each step but the last one takes a character. -/
def Token.scan (chars : List Char) : Except Problem (List Placed) := do
  return (← (Scanner.start chars).run (chars.length + 1)).tokens.reverse

end OpenApiManifest.Yaml
