import OpenApiManifest.Yaml.Text

/-!
# Tags, anchors and directives

What stands beside a node or a document: an anchor names a node, a tag says what a node is, and a
directive declares the version of the format or a handle that shortens tags.
-/

namespace OpenApiManifest.Yaml

/-- Whether a character may stand in the name of an anchor, a handle or a directive. -/
def isWordChar (c : Char) : Bool :=
  c.isAlphanum || c = '_' || c = '-'

/-- Whether a character may stand in a tag.  A tag in angle brackets may hold three more. -/
def isTagChar (bracketed : Bool) (c : Char) : Bool :=
  isWordChar c
    || c ∈ [';', '/', '?', ':', '@', '&', '=', '+', '$', '.', '%', '!', '~', '*', '\'', '(', ')']
    || (bracketed && c ∈ [',', '[', ']'])

def readAnchor (c : Cursor) : Except Problem (String × Cursor) :=
  let (name, next) := c.takeWhile isWordChar
  let ends := isGap next.char?
    || next.char?.any fun char => decide (char ∈ ['?', ':', ',', ']', '\x7d', '%', '@', '\x60'])
  if name.isEmpty || !ends then c.fail .emptyAnchor
  else .ok (String.ofList name, next)

/-- The number of bytes of a character, by its first byte. -/
def utf8Width? (byte : Nat) : Option Nat :=
  if byte < 0x80 then some 1
  else if 0xC0 ≤ byte ∧ byte < 0xE0 then some 2
  else if 0xE0 ≤ byte ∧ byte < 0xF0 then some 3
  else if 0xF0 ≤ byte ∧ byte < 0xF8 then some 4
  else none

/-- Reads a byte that is written as a percent sign and two digits. -/
def readTagByte (c : Cursor) : Except Problem (Nat × Cursor) :=
  match c.rest with
  | '%' :: high :: low :: _ =>
    match hexDigit? high, hexDigit? low with
    | some high, some low => .ok (high * 16 + low, c.advance 3)
    | _, _ => c.fail .malformedTag
  | _ => c.fail .malformedTag

/-- Reads the remaining bytes of an escaped character. -/
def readTagBytes : Nat → Nat → Cursor → Except Problem (Nat × Cursor)
  | 0, code, c => .ok (code, c)
  | more + 1, code, c => do
    let (byte, next) ← readTagByte c
    if 0x80 ≤ byte ∧ byte < 0xC0 then readTagBytes more (code * 64 + (byte - 0x80)) next
    else c.fail .malformedTag

/-- Reads a character that is written as its bytes, each with a percent sign. -/
def readTagEscape (c : Cursor) : Except Problem (Char × Cursor) := do
  let (byte, next) ← readTagByte c
  match utf8Width? byte with
  | some 1 => return (Char.ofNat byte, next)
  | some width =>
    let (code, after) ← readTagBytes (width - 1) (byte % Nat.pow 2 (7 - width)) next
    return (Char.ofNat code, after)
  | none => c.fail .malformedTag

def readTagText (bracketed : Bool) : Nat → List Char → Cursor → Except Problem (List Char × Cursor)
  | 0, read, c => .ok (read, c)
  | fuel + 1, read, c =>
    match c.char? with
    | none => .ok (read, c)
    | some '%' => do
      let (char, next) ← readTagEscape c
      readTagText bracketed fuel (read ++ [char]) next
    | some char =>
      if isTagChar bracketed char then readTagText bracketed fuel (read ++ [char]) (c.advance 1)
      else .ok (read, c)

/-- Reads the characters of a tag after those that are known already.  A tag has some. -/
def readTagSuffix (bracketed : Bool) (known : List Char) (c : Cursor) :
    Except Problem (List Char × Cursor) := do
  let (text, next) ← readTagText bracketed c.rest.length known c
  if text.isEmpty then c.fail .malformedTag else return (text, next)

/-- A tag as it is written: a handle, which may be empty, and what follows it. -/
structure WrittenTag where
  handle : String
  suffix : String
  deriving DecidableEq, Repr

/-- Reads a handle after its exclamation mark, and whether a second one closes it. -/
def readHandle (c : Cursor) : List Char × Bool × Cursor :=
  let (name, next) := (c.advance 1).takeWhile isWordChar
  if next.isAt '!' then ('!' :: name ++ ['!'], true, next.advance 1) else ('!' :: name, false, next)

def readTag (inFlow : Bool) (c : Cursor) : Except Problem (WrittenTag × Cursor) := do
  let (tag, next) ←
    if c.charAt? 1 = some '<' then do
      let (text, next) ← readTagSuffix true [] (c.advance 2)
      if next.isAt '>' then pure (WrittenTag.mk "" (String.ofList text), next.advance 1)
      else next.fail .malformedTag
    else do
      let (handle, closed, next) := readHandle c
      if closed then
        let (text, next) ← readTagSuffix false [] next
        pure (WrittenTag.mk (String.ofList handle) (String.ofList text), next)
      else
        let (text, next) ← readTagText false next.rest.length (handle.drop 1) next
        if text.isEmpty then pure (WrittenTag.mk "" "!", next)
        else pure (WrittenTag.mk "!" (String.ofList text), next)
  if isGap next.char? || (inFlow && next.isAt ',') then return (tag, next)
  else next.fail .malformedTag

/-- A directive. -/
inductive Directive where
  | version (major minor : Nat)
  /-- Tags with the handle start with the given text. -/
  | handle (name start : String)
  deriving DecidableEq, Repr

/-- Reads a number of at most nine digits. -/
def readVersionNumber (c : Cursor) : Except Problem (Nat × Cursor) :=
  let (digits, next) := c.takeWhile Char.isDigit
  if digits.isEmpty ∨ 9 < digits.length then c.fail .malformedDirective
  else .ok (digits.foldl (fun n d => n * 10 + (d.toNat - 48)) 0, next)

/-- Reads the handle that a directive declares: one exclamation mark, or a word between two. -/
def readDeclaredHandle (c : Cursor) : Except Problem (String × Cursor) :=
  if !c.isAt '!' then c.fail .malformedDirective
  else
    let (handle, closed, next) := readHandle c
    if closed || handle = ['!'] then .ok (String.ofList handle, next)
    else c.fail .malformedDirective

/-- Reads a directive after its percent sign, with the rest of its line. -/
def readDirective (c : Cursor) : Except Problem (Directive × Cursor) := do
  let (name, next) := c.takeWhile isWordChar
  if name.isEmpty || !isGap next.char? then c.fail .unknownDirective
  let next := next.skipWhile isBlank
  let (directive, next) ←
    if name = "YAML".toList then do
      let (major, next) ← readVersionNumber next
      if !next.isAt '.' then next.fail .malformedDirective
      let (minor, next) ← readVersionNumber (next.advance 1)
      pure (Directive.version major minor, next)
    else if name = "TAG".toList then do
      let (handle, next) ← readDeclaredHandle next
      if !next.atBlank then next.fail .malformedDirective
      let (start, next) ← readTagSuffix true [] (next.skipWhile isBlank)
      if !isGap next.char? then next.fail .malformedDirective
      pure (Directive.handle handle (String.ofList start), next)
    else c.fail .unknownDirective
  let next := next.skipWhile isBlank
  let next := if next.isAt '#' then next.skipWhile fun char => !isBreak char else next
  if next.atBreak then return (directive, next.nextLine.2)
  if next.char?.isNone then return (directive, next)
  next.fail .malformedDirective

end OpenApiManifest.Yaml
