import OpenApiManifest.Yaml.Cursor

/-!
# Texts of scalars

The three ways in which a YAML text writes a scalar: plain, in quotes, and as a block.  A single end
of line inside a plain or quoted text stands for a blank, and further ends of lines stand for
themselves.
-/

namespace OpenApiManifest.Yaml

/-- Joins the parts of a text at a gap: over ends of lines, of which the first one folds, or else over
the blanks between. -/
def joinGap (blanks : List Char) (firstBreak : Option (List Char)) (breaks : List Char) :
    List Char :=
  match firstBreak with
  | none => blanks
  | some first =>
    if first = ['\n'] then if breaks.isEmpty then [' '] else breaks
    else first ++ breaks

/-- A gap inside a text: the blanks before its first end of line, that end, and the ends after it. -/
structure Gap where
  blanks : List Char
  firstBreak : Option (List Char)
  breaks : List Char

def Gap.chars (gap : Gap) : List Char :=
  joinGap gap.blanks gap.firstBreak gap.breaks

/-- Reads the gap at a cursor.  In a line that is not indented far enough a tab is refused. -/
def readGap (indent : Option Nat) : Nat → Gap → Cursor → Except Problem (Gap × Cursor)
  | 0, gap, c => .ok (gap, c)
  | fuel + 1, gap, c =>
    if c.atBlank then
      match gap.firstBreak with
      | none =>
        readGap indent fuel { gap with blanks := gap.blanks ++ c.char?.toList } (c.advance 1)
      | some _ =>
        if c.isAt '\t' && indent.any fun i => decide (c.column < i) then c.fail .tabInIndentation
        else readGap indent fuel gap (c.advance 1)
    else if c.atBreak then
      let (lineEnd, next) := c.nextLine
      match gap.firstBreak with
      | none => readGap indent fuel { gap with firstBreak := some lineEnd } next
      | some _ => readGap indent fuel { gap with breaks := gap.breaks ++ lineEnd } next
    else .ok (gap, c)

/-- Whether a plain text ends at a cursor. -/
def endsPlain (inFlow : Bool) (c : Cursor) : Bool :=
  match c.char? with
  | none => true
  | some char =>
    isBlank char || isBreak char || (char = ':' && isGap (c.charAt? 1))
      || (inFlow && char ∈ [',', '[', ']', '\x7b', '\x7d'])

/-- Reads the characters of a plain text up to the next gap or the end. -/
def readPlainRun (inFlow : Bool) : Nat → List Char → Cursor → Except Problem (List Char × Cursor)
  | 0, read, c => .ok (read, c)
  | fuel + 1, read, c =>
    if inFlow && c.isAt ':'
        && (c.charAt? 1).any (fun n => decide (n ∈ [',', '?', '[', ']', '\x7b', '\x7d'])) then
      c.fail .unexpectedColon
    else if endsPlain inFlow c then .ok (read, c)
    else readPlainRun inFlow fuel (read ++ c.char?.toList) (c.advance 1)

/-- A plain text that was read: its characters, whether its last gap spans lines, and the cursor after
that gap. -/
structure PlainText where
  chars : List Char
  overLines : Bool
  after : Cursor

/-- Reads a plain text.  In a block it ends before a line that is indented less than `indent`. -/
def readPlain (inFlow : Bool) (indent : Nat) :
    Nat → List Char → Gap → Cursor → Except Problem PlainText
  | 0, read, gap, c => .ok ⟨read, gap.firstBreak.isSome, c⟩
  | fuel + 1, read, gap, c =>
    if c.atDocumentMark || c.isAt '#' then .ok ⟨read, gap.firstBreak.isSome, c⟩
    else do
      let (run, next) ← readPlainRun inFlow c.rest.length [] c
      let overLines := run.isEmpty && gap.firstBreak.isSome
      let read := if run.isEmpty then read else read ++ gap.chars ++ run
      if !(next.atBlank || next.atBreak) then return ⟨read, overLines, next⟩
      let (gap, after) ← readGap (some indent) next.rest.length ⟨[], none, []⟩ next
      if !inFlow && after.column < indent then return ⟨read, gap.firstBreak.isSome, after⟩
      readPlain inFlow indent fuel read gap after

/-- The character that a one-letter escape stands for. -/
def escaped? : Char → Option Char
  | '0' => some '\x00'
  | 'a' => some '\x07'
  | 'b' => some '\x08'
  | 't' => some '\t'
  | '\t' => some '\t'
  | 'n' => some '\n'
  | 'v' => some '\x0b'
  | 'f' => some '\x0c'
  | 'r' => some '\r'
  | 'e' => some '\x1b'
  | ' ' => some ' '
  | '"' => some '"'
  | '/' => some '/'
  | '\\' => some '\\'
  | 'N' => some '\u0085'
  | '_' => some '\u00a0'
  | 'L' => some '\u2028'
  | 'P' => some '\u2029'
  | _ => none

/-- The number of digits after the letter of a numeric escape. -/
def escapeDigits? : Char → Option Nat
  | 'x' => some 2
  | 'u' => some 4
  | 'U' => some 8
  | _ => none

def hexDigit? (c : Char) : Option Nat :=
  if c.isDigit then some (c.toNat - 48)
  else if 'a' ≤ c ∧ c ≤ 'f' then some (c.toNat - 87)
  else if 'A' ≤ c ∧ c ≤ 'F' then some (c.toNat - 55)
  else none

def hexValue? (digits : List Char) : Option Nat :=
  digits.foldlM (fun value c => (hexDigit? c).map (value * 16 + ·)) 0

def readCode (digits : Nat) (c : Cursor) : Except Problem (Char × Cursor) :=
  let text := c.rest.take digits
  match hexValue? text with
  | none => c.fail .unknownEscape
  | some code =>
    if text.length < digits ∨ (0xD800 ≤ code ∧ code ≤ 0xDFFF) ∨ 0x10FFFF < code then
      c.fail .unknownEscape
    else .ok (Char.ofNat code, c.advance digits)

/-- Reads the characters of a quoted text up to the next gap or the closing quote.  The flag says
whether an escaped end of line was met, which joins the lines. -/
def readQuotedRun (double : Bool) :
    Nat → List Char → Cursor → Except Problem (List Char × Bool × Cursor)
  | 0, read, c => .ok (read, false, c)
  | fuel + 1, read, c =>
    match c.char? with
    | none => .ok (read, false, c)
    | some char =>
      if isBlank char || isBreak char then .ok (read, false, c)
      else if !double && char = '\'' then
        if c.charAt? 1 = some '\'' then
          readQuotedRun double fuel (read ++ ['\'']) (c.advance 2)
        else .ok (read, false, c)
      else if double && char = '"' then .ok (read, false, c)
      else if double && char = '\\' then
        match c.charAt? 1 with
        | none => c.fail .unknownEscape
        | some letter =>
          if isBreak letter then .ok (read, true, (c.advance 1).nextLine.2)
          else
            match escaped? letter, escapeDigits? letter with
            | some stands, _ => readQuotedRun double fuel (read ++ [stands]) (c.advance 2)
            | none, some digits => do
              let (stands, next) ← readCode digits (c.advance 2)
              readQuotedRun double fuel (read ++ [stands]) next
            | none, none => c.fail .unknownEscape
      else readQuotedRun double fuel (read ++ [char]) (c.advance 1)

/-- Reads a quoted text after its opening quote. -/
def readQuoted (double : Bool) :
    Nat → List Char → Cursor → Except Problem (List Char × Cursor)
  | 0, _, c => c.fail .unfinishedQuotedText
  | fuel + 1, read, c =>
    if c.atDocumentMark || c.char?.isNone then c.fail .unfinishedQuotedText
    else do
      let (run, joined, next) ← readQuotedRun double (c.rest.length + 1) [] c
      let read := read ++ run
      if next.isAt (if double then '"' else '\'') then return (read, next.advance 1)
      if next.char?.isNone then next.fail .unfinishedQuotedText
      let first := if joined then some [] else none
      let (gap, after) ← readGap none (next.rest.length + 1) ⟨[], first, []⟩ next
      let chars := if joined then gap.breaks else gap.chars
      readQuoted double fuel (read ++ chars) after

/-- What becomes of the ends of lines after a block text. -/
inductive Chomping where
  | strip | clip | keep
  deriving DecidableEq, Repr

/-- The header of a block text. -/
structure BlockHeader where
  chomping : Chomping
  /-- How much further than its surroundings the text is indented, if the header says so. -/
  increment : Option Nat

def readBlockMarks (c : Cursor) : Except Problem (BlockHeader × Cursor) :=
  let chomping? : Option Char → Option Chomping
    | some '+' => some .keep
    | some '-' => some .strip
    | _ => none
  let digit? : Option Char → Option Nat
    | some d => if d.isDigit then some (d.toNat - 48) else none
    | none => none
  let header (chomping : Chomping) (increment : Option Nat) (steps : Nat) :=
    if increment = some 0 then c.fail .malformedBlockHeader
    else .ok (⟨chomping, increment⟩, c.advance steps)
  match chomping? c.char?, digit? c.char? with
  | some chomping, _ =>
    match digit? (c.charAt? 1) with
    | some n => header chomping (some n) 2
    | none => header chomping none 1
  | none, some n =>
    match chomping? (c.charAt? 1) with
    | some chomping => header chomping (some n) 2
    | none => header .clip (some n) 1
  | none, none => header .clip none 0

/-- Reads blank lines before a line of a block text.  Without an indent the widest of them sets
it. -/
def readBlockBreaks (indent : Option Nat) :
    Nat → Nat → List Char → Cursor → Except Problem (Nat × List Char × Cursor)
  | 0, widest, breaks, c => .ok (widest, breaks, c)
  | fuel + 1, widest, breaks, c =>
    let blanks := (c.rest.takeWhile (· = ' ')).length
    let c := c.advance (match indent with
      | some i => min blanks (i - c.column)
      | none => blanks)
    let widest := max widest c.column
    let inIndent := match indent with
      | some i => decide (c.column < i)
      | none => true
    if inIndent && c.isAt '\t' then c.fail .tabInIndentation
    else if c.atBreak then
      let (lineEnd, next) := c.nextLine
      readBlockBreaks indent fuel widest (breaks ++ lineEnd) next
    else .ok (widest, breaks, c)

/-- A block text that is being read: its characters, the end of its last line, the ends of the blank
lines after it, and whether that line starts with a blank. -/
structure BlockText where
  chars : List Char
  lineEnd : List Char
  breaks : List Char
  startsBlank : Bool

def readBlockLines (literal : Bool) (indent : Nat) :
    Nat → BlockText → Cursor → Except Problem (BlockText × Cursor)
  | 0, text, c => .ok (text, c)
  | fuel + 1, text, c =>
    if c.column ≠ indent ∨ c.char?.isNone then .ok (text, c)
    else do
      let blank := c.atBlank
      let folded := !literal && text.lineEnd.head? = some '\n' && !text.startsBlank && !blank
      let lineEnd :=
        if folded then if text.breaks.isEmpty then [' '] else [] else text.lineEnd
      let (line, next) := c.takeWhile fun char => !isBreak char
      let (after, following) := next.nextLine
      let chars := text.chars ++ lineEnd ++ text.breaks ++ line
      let (_, breaks, last) ←
        readBlockBreaks (some indent) (following.rest.length + 1) 0 [] following
      readBlockLines literal indent fuel ⟨chars, after, breaks, blank⟩ last

/-- Reads a block text after its first mark.  `around` is the indent of its surroundings. -/
def readBlock (literal : Bool) (around : Int) (c : Cursor) :
    Except Problem (List Char × Cursor) := do
  let (header, c) ← readBlockMarks c
  let c := c.skipWhile isBlank
  let c := if c.isAt '#' then c.skipWhile fun char => !isBreak char else c
  if !(c.atBreak || c.char?.isNone) then c.fail .malformedBlockHeader
  let c := c.nextLine.2
  let fuel := c.rest.length + 1
  let given := header.increment.map fun n => (max around 0).toNat + n
  let (widest, breaks, next) ← readBlockBreaks given fuel 0 [] c
  -- Without a given indent the first line of the text sets it, and wider blank lines before it count.
  let indent := given.getD (max (max widest (around + 1).toNat) 1)
  let (text, after) ← readBlockLines literal indent fuel ⟨[], [], breaks, false⟩ next
  let ending := match header.chomping with
    | .strip => []
    | .clip => text.lineEnd
    | .keep => text.lineEnd ++ text.breaks
  return (text.chars ++ ending, after)

end OpenApiManifest.Yaml
