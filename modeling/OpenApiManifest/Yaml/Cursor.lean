/-!
# Reading characters of a YAML text

A cursor holds the characters that are still to be read and knows its line and column.  What can be
wrong with a text is told apart by cause and carries the place where it was seen.
-/

namespace OpenApiManifest.Yaml

/-- What can be wrong with a text. -/
inductive Cause where
  | notUnicode
  | controlCharacter
  | expectedColon
  | blockEntryNotAllowed
  | mappingKeyNotAllowed
  | mappingValueNotAllowed
  | cannotStartToken
  | unknownDirective
  | malformedDirective
  | emptyAnchor
  | malformedTag
  | unknownTagHandle
  | malformedBlockHeader
  | tabInIndentation
  | unfinishedQuotedText
  | unknownEscape
  | unexpectedColon
  | incompatibleVersion
  | repeatedDirective
  | expectedDocumentStart
  | expectedNode
  | expectedBlockEntry
  | expectedKey
  | expectedCommaOrBracket
  | expectedCommaOrBrace
  | repeatedAnchorOrTag
  | unknownAnchor
  | severalDocuments
  | tooDeep
  | tooManyAliases
  | keyNotScalar
  | localTag
  | wrongTag
  | integerOutOfRange
  deriving DecidableEq, Repr

namespace Cause

def message : Cause → String
  | .notUnicode => "invalid leading UTF-8 octet"
  | .controlCharacter => "control characters are not allowed"
  | .expectedColon => "could not find expected ':'"
  | .blockEntryNotAllowed => "block sequence entries are not allowed in this context"
  | .mappingKeyNotAllowed => "mapping keys are not allowed in this context"
  | .mappingValueNotAllowed => "mapping values are not allowed in this context"
  | .cannotStartToken => "found character that cannot start any token"
  | .unknownDirective => "found unknown directive name"
  | .malformedDirective => "did not find expected comment or line break"
  | .emptyAnchor => "did not find expected alphabetic or numeric character"
  | .malformedTag => "did not find expected tag URI"
  | .unknownTagHandle => "found undefined tag handle"
  | .malformedBlockHeader => "did not find expected comment or line break"
  | .tabInIndentation => "found a tab character where an indentation space is expected"
  | .unfinishedQuotedText => "found unexpected end of stream"
  | .unknownEscape => "found unknown escape character"
  | .unexpectedColon => "found unexpected ':'"
  | .incompatibleVersion => "found incompatible YAML document"
  | .repeatedDirective => "found duplicate %YAML directive"
  | .expectedDocumentStart => "did not find expected <document start>"
  | .expectedNode => "did not find expected node content"
  | .expectedBlockEntry => "did not find expected '-' indicator"
  | .expectedKey => "did not find expected key"
  | .expectedCommaOrBracket => "did not find expected ',' or ']'"
  | .expectedCommaOrBrace => "did not find expected ',' or '\x7d'"
  | .repeatedAnchorOrTag => "did not find expected node content"
  | .unknownAnchor => "unknown anchor"
  | .severalDocuments =>
    "deserializing from YAML containing more than one document is not supported"
  | .tooDeep => "recursion limit exceeded"
  | .tooManyAliases => "repetition limit exceeded"
  | .keyNotScalar => "invalid type: expected a string key"
  | .localTag => "invalid type: enum, expected any valid JSON value"
  | .wrongTag => "invalid value"
  | .integerOutOfRange => "invalid type: integer, expected any valid JSON value"

end Cause

/-- A cause, and the line and column, counted from one, at which it was seen in the text. -/
structure Problem where
  cause : Cause
  place : Option (Nat × Nat)
  deriving DecidableEq, Repr

namespace Problem

/-- A problem seen at a line and column that are counted from zero. -/
def seenAt (cause : Cause) (line column : Nat) : Problem :=
  ⟨cause, some (line + 1, column + 1)⟩

def message (problem : Problem) : String :=
  match problem.place with
  | some (line, column) =>
    problem.cause.message ++ " at line " ++ Nat.repr line ++ " column " ++ Nat.repr column
  | none => problem.cause.message

end Problem

/-- The characters that are still to be read, and where the first of them stands, counted from
zero. -/
structure Cursor where
  rest : List Char
  index : Nat
  line : Nat
  column : Nat

/-- Whether a character is a blank inside a line. -/
def isBlank (c : Char) : Bool :=
  c = ' ' || c = '\t'

def isBreak (c : Char) : Bool :=
  c = '\n' || c = '\r' || c = '\u0085' || c = '\u2028' || c = '\u2029'

/-- Whether there is a blank, the end of a line or the end of the text. -/
def isGap : Option Char → Bool
  | some c => isBlank c || isBreak c
  | none => true

namespace Cursor

def start (chars : List Char) : Cursor := ⟨chars, 0, 0, 0⟩

def char? (c : Cursor) : Option Char :=
  c.rest.head?

def charAt? (c : Cursor) (steps : Nat) : Option Char :=
  c.rest[steps]?

def isAt (c : Cursor) (char : Char) : Bool :=
  c.char? = some char

/-- Goes on by some characters of the same line. -/
def advance (c : Cursor) (steps : Nat) : Cursor :=
  ⟨c.rest.drop steps, c.index + steps, c.line, c.column + steps⟩

/-- Goes on after the end of a line, and gives the text that the end of the line stands for. -/
def nextLine (c : Cursor) : List Char × Cursor :=
  match c.rest with
  | '\r' :: '\n' :: rest => (['\n'], ⟨rest, c.index + 2, c.line + 1, 0⟩)
  | '\u2028' :: rest => (['\u2028'], ⟨rest, c.index + 1, c.line + 1, 0⟩)
  | '\u2029' :: rest => (['\u2029'], ⟨rest, c.index + 1, c.line + 1, 0⟩)
  | _ :: rest => (['\n'], ⟨rest, c.index + 1, c.line + 1, 0⟩)
  | [] => ([], c)

/-- Goes on over the characters of the same line that have a property. -/
def skipWhile (c : Cursor) (p : Char → Bool) : Cursor :=
  c.advance (c.rest.takeWhile p).length

/-- The characters of the same line that have a property, and the cursor after them. -/
def takeWhile (c : Cursor) (p : Char → Bool) : List Char × Cursor :=
  (c.rest.takeWhile p, c.skipWhile p)

/-- Whether the cursor stands at the end of a line. -/
def atBreak (c : Cursor) : Bool :=
  c.char?.any isBreak

def atBlank (c : Cursor) : Bool :=
  c.char?.any isBlank

/-- Whether a line starts here that begins or ends a document. -/
def atDocumentMark (c : Cursor) : Bool :=
  c.column = 0 && (['-', '-', '-'].isPrefixOf c.rest || ['.', '.', '.'].isPrefixOf c.rest)
    && isGap (c.charAt? 3)

/-- Ends the reading with a cause seen here. -/
def fail {α : Type} (c : Cursor) (cause : Cause) : Except Problem α :=
  .error (.seenAt cause c.line c.column)

end Cursor

end OpenApiManifest.Yaml
