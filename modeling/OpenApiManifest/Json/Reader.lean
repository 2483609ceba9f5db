import OpenApiManifest.Json.Basic

/-!
# Reading values from text

A reader over bytes.  A fault says what is wrong and how many bytes were left when it was seen, from
which its line and column follow.  A byte that was only looked at counts as seen where the fault is
about that byte.
-/

namespace OpenApiManifest.Json

/-- What can be wrong with a text. -/
inductive Problem where
  | endInValue
  | endInObject
  | endInArray
  | endInString
  | expectedValue
  | expectedWord
  | expectedColon
  | expectedCommaOrBracket
  | expectedCommaOrBrace
  | trailingComma
  | trailingCharacters
  | keyNotString
  | invalidNumber
  | numberOutOfRange
  | invalidEscape
  | unfinishedSurrogatePair
  | loneSurrogate
  | controlCharacter
  | invalidUnicode
  | tooDeep
  deriving DecidableEq, Repr

namespace Problem

def message : Problem → String
  | .endInValue => "EOF while parsing a value"
  | .endInObject => "EOF while parsing an object"
  | .endInArray => "EOF while parsing a list"
  | .endInString => "EOF while parsing a string"
  | .expectedValue => "expected value"
  | .expectedWord => "expected ident"
  | .expectedColon => "expected `:`"
  | .expectedCommaOrBracket => "expected `,` or `]`"
  | .expectedCommaOrBrace => "expected `,` or `\x7d`"
  | .trailingComma => "trailing comma"
  | .trailingCharacters => "trailing characters"
  | .keyNotString => "key must be a string"
  | .invalidNumber => "invalid number"
  | .numberOutOfRange => "number out of range"
  | .invalidEscape => "invalid escape"
  | .unfinishedSurrogatePair => "unexpected end of hex escape"
  | .loneSurrogate => "lone leading surrogate in hex escape"
  | .controlCharacter => "control character (\\u0000-\\u001F) found while parsing a string"
  | .invalidUnicode => "invalid unicode code point"
  | .tooDeep => "recursion limit exceeded"

end Problem

/-- A line, counted from one, and the number of bytes read on it. -/
structure Position where
  line : Nat
  column : Nat
  deriving DecidableEq, Repr

namespace Position

def after (bytes : List UInt8) : Position :=
  bytes.foldl
    (fun p byte => if byte = 10 then ⟨p.line + 1, 0⟩ else ⟨p.line, p.column + 1⟩) ⟨1, 0⟩

/-- The position in some bytes at which `left` of them are unread. -/
def whenLeft (source : List UInt8) (left : Nat) : Position :=
  after (source.take (source.length - left))

def describe (p : Position) : String :=
  " at line " ++ Nat.repr p.line ++ " column " ++ Nat.repr p.column

end Position

/-- A problem and the number of bytes that were unread when it was seen. -/
structure Fault where
  problem : Problem
  left : Nat
  deriving DecidableEq, Repr

namespace Fault

/-- A fault seen after all bytes before `rest` were read. -/
def before (problem : Problem) (rest : List UInt8) : Fault :=
  ⟨problem, rest.length⟩

/-- A fault about the first byte of `rest`, or about its end. -/
def on (problem : Problem) (rest : List UInt8) : Fault :=
  ⟨problem, rest.length - 1⟩

/-- The message of a fault in a text. -/
def message (source : List UInt8) (fault : Fault) : String :=
  fault.problem.message ++ (Position.whenLeft source fault.left).describe

end Fault

namespace Reader

/-- What a reading step gives: a value and the bytes after it. -/
abbrev Step (α : Type) := Except Fault (α × List UInt8)

def skipBlank (bytes : List UInt8) : List UInt8 :=
  bytes.dropWhile fun b => b = 32 ∨ b = 10 ∨ b = 9 ∨ b = 13

def isDigit (b : UInt8) : Bool :=
  48 ≤ b ∧ b ≤ 57

def word : List UInt8 → List UInt8 → Except Fault (List UInt8)
  | [], rest => .ok rest
  | _ :: _, [] => .error (.before .endInValue [])
  | expected :: more, byte :: rest =>
    if byte = expected then word more rest else .error (.before .expectedWord rest)

def hexValue? (b : UInt8) : Option Nat :=
  if 48 ≤ b ∧ b ≤ 57 then some (b.toNat - 48)
  else if 65 ≤ b ∧ b ≤ 70 then some (b.toNat - 55)
  else if 97 ≤ b ∧ b ≤ 102 then some (b.toNat - 87)
  else none

def hexValue4? (a b c d : UInt8) : Option Nat := do
  let a ← hexValue? a
  let b ← hexValue? b
  let c ← hexValue? c
  let d ← hexValue? d
  return ((a * 16 + b) * 16 + c) * 16 + d

/-- The byte that a one-letter escape stands for. -/
def simpleEscape? (b : UInt8) : Option UInt8 :=
  if b = 34 ∨ b = 92 ∨ b = 47 then some b
  else if b = 98 then some 8
  else if b = 102 then some 12
  else if b = 110 then some 10
  else if b = 114 then some 13
  else if b = 116 then some 9
  else none

/-- Puts the bytes of a character in front of bytes kept in reverse. -/
def pushChar (code : Nat) (reversed : List UInt8) : List UInt8 :=
  (String.utf8EncodeChar (Char.ofNat code)).reverse ++ reversed

/-- Reads a text after its opening quote; the bytes read so far are kept in reverse. -/
def text (reversed : List UInt8) : List UInt8 → Step String
  | [] => .error (.before .endInString [])
  | 34 :: rest =>
    match String.fromUTF8? ⟨reversed.reverse.toArray⟩ with
    | some value => .ok (value, rest)
    | none => .error (.before .invalidUnicode (34 :: rest))
  | 92 :: [] => .error (.before .endInString [])
  | 92 :: 117 :: a :: b :: c :: d :: rest =>
    match hexValue4? a b c d with
    | none => .error (.before .invalidEscape rest)
    | some high =>
      if 0xDC00 ≤ high ∧ high ≤ 0xDFFF then .error (.before .loneSurrogate rest)
      else if 0xD800 ≤ high ∧ high ≤ 0xDBFF then
        match rest with
        | 92 :: 117 :: e :: f :: g :: h :: rest =>
          match hexValue4? e f g h with
          | none => .error (.before .invalidEscape rest)
          | some low =>
            if 0xDC00 ≤ low ∧ low ≤ 0xDFFF then
              text (pushChar (0x10000 + (high - 0xD800) * 0x400 + (low - 0xDC00)) reversed) rest
            else .error (.before .loneSurrogate rest)
        | 92 :: 117 :: _ => .error (.before .endInString [])
        | 92 :: [] => .error (.before .endInString [])
        | 92 :: _ :: rest => .error (.before .unfinishedSurrogatePair rest)
        | [] => .error (.before .endInString [])
        | _ :: rest => .error (.before .unfinishedSurrogatePair rest)
      else text (pushChar high reversed) rest
  | 92 :: 117 :: _ => .error (.before .endInString [])
  | 92 :: letter :: rest =>
    match simpleEscape? letter with
    | some byte => text (byte :: reversed) rest
    | none => .error (.before .invalidEscape rest)
  | byte :: rest =>
    if byte < 32 then .error (.before .controlCharacter rest)
    else text (byte :: reversed) rest

def maxSignificand : Nat := 18446744073709551615

/-- Ten to some power, as the nearest binary64 number. -/
def powerOfTen (n : Nat) : Float :=
  Float.ofScientific 1 false n

/-- Scales down by steps of `10 ^ 308` until the exponent is small enough. -/
def scaleDown (f : Float) (exponent : Nat) : Nat → Float
  | 0 => f
  | steps + 1 =>
    if exponent ≤ 308 then f / powerOfTen exponent
    else if f == 0.0 then f
    else scaleDown (f / powerOfTen 308) (exponent - 308) steps

/-- The number `significand * 10 ^ exponent`: one rounding of the significand and one of the product
or quotient. -/
def scaled (negative : Bool) (significand : Nat) (exponent : Int) (rest : List UInt8) :
    Step Number :=
  -- Each step rounds, so the result can miss the nearest number in its last places.
  let f := Float.ofNat significand
  let signed := fun (g : Float) => (if negative then -g else g).toBits
  if 0 ≤ exponent then
    let g := f * powerOfTen exponent.toNat
    if exponent ≤ 308 then
      if g.isInf then .error (.before .numberOutOfRange rest)
      else .ok (.float (signed g), rest)
    else if significand = 0 then .ok (.float (signed f), rest)
    else .error (.before .numberOutOfRange rest)
  else .ok (.float (signed (scaleDown f (-exponent).toNat 5)), rest)

def maxExponent : Nat := 2147483647

/-- Keeps an exponent between the least and the greatest one. -/
def clampExponent (exponent : Int) : Int :=
  max (-2147483648) (min exponent 2147483647)

/-- Reads the digits of an exponent after the first one. -/
def exponentDigits (negative : Bool) (significand : Nat) (before : Int) (down : Bool) (value : Nat) :
    List UInt8 → Step Number
  | [] => finish []
  | byte :: rest =>
    if isDigit byte then
      let next := value * 10 + (byte.toNat - 48)
      if maxExponent < next then
        if significand ≠ 0 ∧ ¬ down then .error (.before .numberOutOfRange rest)
        else .ok (.float (if negative then -0.0 else 0.0 : Float).toBits, rest.dropWhile isDigit)
      else exponentDigits negative significand before down next rest
    else finish (byte :: rest)
where
  /-- The number with the exponent read. -/
  finish (rest : List UInt8) : Step Number :=
    scaled negative significand
      (clampExponent (if down then before - value else before + value)) rest

def exponent (negative : Bool) (significand : Nat) (before : Int) (bytes : List UInt8) :
    Step Number :=
  let (down, digits) :=
    match bytes with
    | 43 :: rest => (false, rest)
    | 45 :: rest => (true, rest)
    | _ => (false, bytes)
  match digits with
  | [] => .error (.before .endInValue [])
  | byte :: rest =>
    if isDigit byte then
      exponentDigits negative significand before down (byte.toNat - 48) rest
    else .error (.before .invalidNumber rest)

/-- Goes on after the digits of a number with a point. -/
def afterDigits (negative : Bool) (significand : Nat) (before : Int) : List UInt8 → Step Number
  | 101 :: rest => exponent negative significand before rest
  | 69 :: rest => exponent negative significand before rest
  | rest => scaled negative significand before rest

/-- Reads the digits after a point; `seen` says whether there was one. -/
def fraction (negative : Bool) (significand : Nat) (before : Int) (seen : Bool) :
    List UInt8 → Step Number
  | [] => if seen then scaled negative significand before [] else .error (.on .endInValue [])
  | byte :: rest =>
    if isDigit byte then
      let next := significand * 10 + (byte.toNat - 48)
      if maxSignificand < next then
        afterDigits negative significand before (rest.dropWhile isDigit)
      else fraction negative next (before - 1) true rest
    else if seen then afterDigits negative significand before (byte :: rest)
    else .error (.on .invalidNumber (byte :: rest))

/-- Goes on after the digits before the point, of which `dropped` did not fit. -/
def afterWhole (negative : Bool) (significand : Nat) (dropped : Int) : List UInt8 → Step Number
  | 46 :: rest => fraction negative significand dropped false rest
  | rest => afterDigits negative significand dropped rest

def whole (negative : Bool) (significand : Nat) : List UInt8 → Step Number
  | [] => finish []
  | byte :: rest =>
    if isDigit byte then
      let next := significand * 10 + (byte.toNat - 48)
      if maxSignificand < next then
        let dropped := (rest.takeWhile isDigit).length + 1
        afterWhole negative significand dropped (rest.dropWhile isDigit)
      else whole negative next rest
    else finish (byte :: rest)
where
  /-- An integer, unless a point or an exponent follows. -/
  finish : List UInt8 → Step Number
    | 46 :: rest => fraction negative significand 0 false rest
    | 101 :: rest => exponent negative significand 0 rest
    | 69 :: rest => exponent negative significand 0 rest
    | rest =>
      if ¬ negative then .ok (.int significand, rest)
      else if significand = 0 ∨ 9223372036854775808 < significand then
        .ok (.float (-(Float.ofNat significand)).toBits, rest)
      else .ok (.int (-(significand : Int)), rest)

def number (negative : Bool) : List UInt8 → Step Number
  | [] => .error (.before .endInValue [])
  | 48 :: rest =>
    match rest with
    | byte :: _ =>
      if isDigit byte then .error (.on .invalidNumber rest) else whole.finish negative 0 rest
    | [] => whole.finish negative 0 []
  | byte :: rest =>
    if isDigit byte then whole negative (byte.toNat - 48) rest
    else .error (.before .invalidNumber rest)

/-- Reads a value that is neither an array nor an object, from its first byte. -/
def scalar : List UInt8 → Step Json
  | 110 :: rest => (word [117, 108, 108] rest).map fun rest => (.null, rest)
  | 116 :: rest => (word [114, 117, 101] rest).map fun rest => (.bool true, rest)
  | 102 :: rest => (word [97, 108, 115, 101] rest).map fun rest => (.bool false, rest)
  | 45 :: rest => (number true rest).map fun (n, rest) => (.num n, rest)
  | 34 :: rest => (text [] rest).map fun (s, rest) => (.str s, rest)
  | byte :: rest =>
    if isDigit byte then (number false (byte :: rest)).map fun (n, rest) => (.num n, rest)
    else .error (.on .expectedValue (byte :: rest))
  | [] => .error (.on .endInValue [])

/-- Goes on after an item of an array: `true` if another item follows. -/
def nextItem (bytes : List UInt8) : Step Bool :=
  match skipBlank bytes with
  | [] => .error (.on .endInArray [])
  | 93 :: rest => .ok (false, rest)
  | 44 :: rest =>
    match skipBlank rest with
    | [] => .error (.on .endInValue [])
    | 93 :: more => .error (.on .trailingComma (93 :: more))
    | more => .ok (true, more)
  | rest => .error (.on .expectedCommaOrBracket rest)

/-- Starts an array after its bracket: `true` if an item follows. -/
def firstItem (bytes : List UInt8) : Step Bool :=
  match skipBlank bytes with
  | [] => .error (.on .endInArray [])
  | 93 :: rest => .ok (false, rest)
  | rest => .ok (true, rest)

/-- Starts an object after its brace: `true` if a key follows, whose quote is then read. -/
def firstKey (bytes : List UInt8) : Step Bool :=
  match skipBlank bytes with
  | [] => .error (.on .endInObject [])
  | 125 :: rest => .ok (false, rest)
  | 34 :: rest => .ok (true, rest)
  | rest => .error (.on .keyNotString rest)

/-- Goes on after a field of an object: `true` if another key follows, whose quote is then read. -/
def nextKey (bytes : List UInt8) : Step Bool :=
  match skipBlank bytes with
  | [] => .error (.on .endInObject [])
  | 125 :: rest => .ok (false, rest)
  | 44 :: rest =>
    match skipBlank rest with
    | [] => .error (.on .endInValue [])
    | 125 :: more => .error (.on .trailingComma (125 :: more))
    | 34 :: more => .ok (true, more)
    | more => .error (.on .keyNotString more)
  | rest => .error (.on .expectedCommaOrBrace rest)

def colon (bytes : List UInt8) : Except Fault (List UInt8) :=
  match skipBlank bytes with
  | [] => .error (.on .endInObject [])
  | 58 :: rest => .ok rest
  | rest => .error (.on .expectedColon rest)

mutual
/-- Reads a value.  At most `levels` brackets may be open; the fuel bounds the number of steps. -/
def value (levels : Nat) : Nat → List UInt8 → Except Fault (Json × List UInt8)
  | 0, bytes => .error (.on .endInValue bytes)
  | fuel + 1, bytes =>
    match skipBlank bytes with
    | 91 :: rest =>
      match levels with
      | 0 => .error (.on .tooDeep (91 :: rest))
      | levels + 1 => do
        let (more, rest) ← firstItem rest
        let (items, rest) ← items levels fuel more rest
        return (.arr items, rest)
    | 123 :: rest =>
      match levels with
      | 0 => .error (.on .tooDeep (123 :: rest))
      | levels + 1 => do
        let (more, rest) ← firstKey rest
        let (fields, rest) ← fields levels fuel more rest
        return (.obj (Entries.ofList fields), rest)
    | rest => scalar rest

/-- Reads the items of an array, if there are more. -/
def items (levels : Nat) :
    Nat → Bool → List UInt8 → Except Fault (List Json × List UInt8)
  | _, false, rest => .ok ([], rest)
  | 0, true, rest => .error (.on .endInArray rest)
  | fuel + 1, true, rest => do
    let (item, rest) ← value levels fuel rest
    let (more, rest) ← nextItem rest
    let (others, rest) ← items levels fuel more rest
    return (item :: others, rest)

/-- Reads the fields of an object, if there are more. -/
def fields (levels : Nat) :
    Nat → Bool → List UInt8 → Except Fault (List (String × Json) × List UInt8)
  | _, false, rest => .ok ([], rest)
  | 0, true, rest => .error (.on .endInObject rest)
  | fuel + 1, true, rest => do
    let (key, rest) ← text [] rest
    let rest ← colon rest
    let (item, rest) ← value levels fuel rest
    let (more, rest) ← nextKey rest
    let (others, rest) ← fields levels fuel more rest
    return ((key, item) :: others, rest)
end

/-- The number of brackets that may be open at a time. -/
def maxLevels : Nat := 127

end Reader

/-- Reads a text that holds one value and nothing after it but blanks. -/
def read (source : List UInt8) : Except Fault Json := do
  let (value, rest) ← Reader.value Reader.maxLevels (2 * source.length + 2) source
  match Reader.skipBlank rest with
  | [] => return value
  | rest => throw (.on .trailingCharacters rest)

end OpenApiManifest.Json
