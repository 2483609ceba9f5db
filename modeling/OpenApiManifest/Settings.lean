import OpenApiManifest.Json.Printer
import OpenApiManifest.Json.Reader
import OpenApiManifest.Naming

/-!
# Settings

The settings of a run: for each version the named arrays that are models of their own, and the words
that generated names must avoid.  They are read from an object with the fields `list_models` and
`reserved_words`, or from an array of the two values in this order.  A fault tells the path to the
value that it is about.
-/

namespace OpenApiManifest

/-- The settings of a run. -/
structure Settings where
  listModels : Entries (List String)
  /-- The reserved words, in place of the standard ones. -/
  reservedWords : Option (List String)
  deriving DecidableEq, Repr

namespace Settings

/-- The settings of a run that is given none. -/
def standard : Settings := ⟨[], none⟩

/-- The distinct names of the arrays that are models in a version. -/
def listModelsOf (settings : Settings) (version : String) : List String :=
  OrderedSet.ofList ((Entries.get? version settings.listModels).getD [])

def reserved (settings : Settings) : ReservedWords :=
  match settings.reservedWords with
  | some words => .ofList words
  | none => .standard

/-- A step on the way to a value. -/
inductive PathStep where
  | key (name : String)
  | index (i : Nat)
  /-- A key that could not be read. -/
  | unreadable
  deriving DecidableEq, Repr

/-- How the steps of a path are written after those before them. -/
def writeSteps (first : Bool) : List PathStep → String
  | [] => ""
  | .index i :: rest => "[" ++ Nat.repr i ++ "]" ++ writeSteps false rest
  | .key name :: rest => (if first then "" else ".") ++ name ++ writeSteps false rest
  | .unreadable :: rest => (if first then "" else ".") ++ "?" ++ writeSteps false rest

def writePath (path : List PathStep) : String :=
  if path.isEmpty then "." else writeSteps true path

/-- What a value is found to be where another kind is expected. -/
inductive FoundValue where
  | null
  | boolean (value : Bool)
  | number (value : Number)
  | string (text : String)
  | sequence
  | map
  deriving DecidableEq, Repr

/-- The values that settings are made of. -/
inductive ExpectedValue where
  | string | sequence | map | settings
  deriving DecidableEq, Repr

/-- What can be wrong with settings. -/
inductive Problem where
  | json (problem : Json.Problem)
  | wrongType (found : FoundValue) (expected : ExpectedValue)
  | unknownField (name : String)
  | duplicateField (name : String)
  deriving DecidableEq, Repr

/-- Whether a character is shown by its code: controls, invisible characters and marks that combine
with the character before them. -/
def isShownByCode (c : Char) : Bool :=
  let n := c.toNat
  n < 0x20 || (0x7F ≤ n && n ≤ 0x9F) || n = 0xAD || (0x300 ≤ n && n ≤ 0x36F)
    || (0x200B ≤ n && n ≤ 0x200F) || (0x2028 ≤ n && n ≤ 0x202E) || (0x2060 ≤ n && n ≤ 0x206F)
    || (0xE000 ≤ n && n ≤ 0xF8FF) || n = 0xFEFF || 0xE0000 ≤ n

/-- How one character of a text is shown in a message. -/
def showChar (c : Char) : List Char :=
  if c = '"' then ['\\', '"']
  else if c = '\\' then ['\\', '\\']
  else if c = '\n' then ['\\', 'n']
  else if c = '\r' then ['\\', 'r']
  else if c = '\t' then ['\\', 't']
  else if c.toNat = 0 then ['\\', '0']
  else if isShownByCode c then
    '\\' :: 'u' :: '\x7b' :: (Nat.toDigits 16 c.toNat ++ ['\x7d'])
  else [c]

/-- How a text is shown in a message. -/
def showText (text : String) : String :=
  String.ofList ('"' :: (text.toList.flatMap showChar ++ ['"']))

/-- How a value that was found is called in a message. -/
def FoundValue.describe : FoundValue → String
  | .null => "null"
  | .boolean true => "boolean `true`"
  | .boolean false => "boolean `false`"
  | .number (.int value) => "integer `" ++ toString value ++ "`"
  | .number (.float bits) => "floating point `" ++ Number.text (.float bits) ++ "`"
  | .string text => "string " ++ showText text
  | .sequence => "sequence"
  | .map => "map"

/-- How an expected value is called in a message. -/
def ExpectedValue.describe : ExpectedValue → String
  | .string => "a string"
  | .sequence => "a sequence"
  | .map => "a map"
  | .settings => "struct GeneratorConfig"

def Problem.message : Problem → String
  | .json problem => problem.message
  | .wrongType found expected =>
    "invalid type: " ++ found.describe ++ ", expected " ++ expected.describe
  | .unknownField name =>
    "unknown field `" ++ name ++ "`, expected `list_models` or `reserved_words`"
  | .duplicateField name => "duplicate field `" ++ name ++ "`"

/-- A problem, the path to the value that it is about, and the number of bytes that were unread when
it was seen. -/
structure Fault where
  path : List PathStep
  problem : Problem
  left : Nat
  deriving DecidableEq, Repr

/-- The message of a fault in a text. -/
def Fault.message (source : List UInt8) (fault : Fault) : String :=
  "at '" ++ writePath fault.path ++ "': " ++ fault.problem.message
    ++ (Json.Position.whenLeft source fault.left).describe

/-- A fault of the text itself, at a path. -/
def within {α : Type} (path : List PathStep) : Except Json.Fault α → Except Fault α
  | .ok value => .ok value
  | .error fault => .error ⟨path, .json fault.problem, fault.left⟩

/-- What a scalar is called when it is found in place of something else. -/
def FoundValue.ofScalar : Json → FoundValue
  | .null => .null
  | .bool value => .boolean value
  | .num value => .number value
  | .str text => .string text
  | .arr _ => .sequence
  | .obj _ => .map

/-- The fault of a value of another kind than expected.  A scalar is read to its end, the bracket of
an array or object is only looked at. -/
def wrongType {α : Type} (path : List PathStep) (expected : ExpectedValue) (bytes : List UInt8) :
    Except Fault α :=
  match bytes with
  | 91 :: _ => .error ⟨path, .wrongType .sequence expected, bytes.length⟩
  | 123 :: _ => .error ⟨path, .wrongType .map expected, bytes.length⟩
  | _ => do
    let (found, rest) ← within path (Json.Reader.scalar bytes)
    throw ⟨path, .wrongType (.ofScalar found) expected, rest.length⟩

def readText (path : List PathStep) (bytes : List UInt8) : Except Fault (String × List UInt8) :=
  match Json.Reader.skipBlank bytes with
  | 34 :: rest => within path (Json.Reader.text [] rest)
  | rest => wrongType path .string rest

/-- Reads the texts of an array from some index on, if there are more. -/
def readItems (path : List PathStep) :
    Nat → Nat → Bool → List UInt8 → Except Fault (List String × List UInt8)
  | _, _, false, rest => .ok ([], rest)
  | 0, _, true, rest => .error ⟨path, .json .endInArray, rest.length⟩
  | fuel + 1, index, true, rest => do
    let (item, rest) ← readText (path ++ [.index index]) rest
    let (more, rest) ← within path (Json.Reader.nextItem rest)
    let (others, rest) ← readItems path fuel (index + 1) more rest
    return (item :: others, rest)

def readTexts (path : List PathStep) (bytes : List UInt8) :
    Except Fault (List String × List UInt8) :=
  match Json.Reader.skipBlank bytes with
  | 91 :: rest => do
    let (more, rest) ← within path (Json.Reader.firstItem rest)
    readItems path bytes.length 0 more rest
  | rest => wrongType path .sequence rest

def readKey (path : List PathStep) (bytes : List UInt8) : Except Fault (String × List UInt8) :=
  within (path ++ [.unreadable]) (Json.Reader.text [] bytes)

/-- Reads the entries of the lists of models, if there are more. -/
def readVersions (path : List PathStep) :
    Nat → Bool → List UInt8 → Except Fault (List (String × List String) × List UInt8)
  | _, false, rest => .ok ([], rest)
  | 0, true, rest => .error ⟨path, .json .endInObject, rest.length⟩
  | fuel + 1, true, rest => do
    let (version, rest) ← readKey path rest
    let rest ← within path (Json.Reader.colon rest)
    let (names, rest) ← readTexts (path ++ [.key version]) rest
    let (more, rest) ← within (path ++ [.unreadable]) (Json.Reader.nextKey rest)
    let (others, rest) ← readVersions path fuel more rest
    return ((version, names) :: others, rest)

/-- Reads the lists of models of all versions. -/
def readListModels (path : List PathStep) (bytes : List UInt8) :
    Except Fault (Entries (List String) × List UInt8) :=
  match Json.Reader.skipBlank bytes with
  | 123 :: rest => do
    let (more, rest) ← within (path ++ [.unreadable]) (Json.Reader.firstKey rest)
    let (entries, rest) ← readVersions path bytes.length more rest
    return (Entries.ofList entries, rest)
  | rest => wrongType path .map rest

/-- Reads the reserved words, which may be null. -/
def readReservedWords (path : List PathStep) (bytes : List UInt8) :
    Except Fault (Option (List String) × List UInt8) :=
  match Json.Reader.skipBlank bytes with
  | 110 :: rest => do
    return (none, ← within path (Json.Reader.word [117, 108, 108] rest))
  | rest => do
    let (words, rest) ← readTexts path rest
    return (some words, rest)

/-- The bytes that are unread when a key is refused: blanks and a closing brace after it are passed
over. -/
def leftAfterKey (bytes : List UInt8) : Nat :=
  match Json.Reader.skipBlank bytes with
  | 125 :: rest => rest.length
  | rest => rest.length

/-- The fields read so far. -/
structure Partial where
  listModels : Option (Entries (List String))
  reservedWords : Option (Option (List String))

def Partial.finish (p : Partial) : Settings :=
  ⟨p.listModels.getD [], p.reservedWords.getD none⟩

/-- Reads the fields of settings, if there are more. -/
def readFields : Nat → Partial → Bool → List UInt8 → Except Fault Settings
  | _, read, false, _ => .ok read.finish
  | 0, _, true, rest => .error ⟨[], .json .endInObject, rest.length⟩
  | fuel + 1, read, true, rest => do
    let (key, rest) ← readKey [] rest
    if key = "list_models" then
      if read.listModels.isSome then
        throw ⟨[], .duplicateField key, leftAfterKey rest⟩
      let rest ← within [] (Json.Reader.colon rest)
      let (value, rest) ← readListModels [.key key] rest
      let (more, rest) ← within [.unreadable] (Json.Reader.nextKey rest)
      readFields fuel { read with listModels := some value } more rest
    else if key = "reserved_words" then
      if read.reservedWords.isSome then
        throw ⟨[], .duplicateField key, leftAfterKey rest⟩
      let rest ← within [] (Json.Reader.colon rest)
      let (value, rest) ← readReservedWords [.key key] rest
      let (more, rest) ← within [.unreadable] (Json.Reader.nextKey rest)
      readFields fuel { read with reservedWords := some value } more rest
    -- The colon after a refused key is not looked for.
    else throw ⟨[.key key], .unknownField key, leftAfterKey rest⟩

/-- Ends settings that are given as an array of both values. -/
def endArray (bytes : List UInt8) : Except Json.Fault Unit :=
  match Json.Reader.skipBlank bytes with
  | [] => .error (.on .endInArray [])
  | 93 :: _ => .ok ()
  | 44 :: rest =>
    match Json.Reader.skipBlank rest with
    | 93 :: more => .error (.on .trailingComma (93 :: more))
    | more => .error (.on .trailingCharacters more)
  | rest => .error (.on .trailingCharacters rest)

/-- Reads settings that are given as an array, after its bracket. -/
def readArray (bytes : List UInt8) : Except Fault Settings := do
  let (more, rest) ← within [] (Json.Reader.firstItem bytes)
  if !more then return standard
  let (listModels, rest) ← readListModels [.index 0] rest
  let (more, rest) ← within [] (Json.Reader.nextItem rest)
  if !more then return ⟨listModels, none⟩
  let (reservedWords, rest) ← readReservedWords [.index 1] rest
  within [] (endArray rest)
  return ⟨listModels, reservedWords⟩

/-- Reads settings.  What stands after them is not looked at. -/
def read (source : List UInt8) : Except Fault Settings :=
  match Json.Reader.skipBlank source with
  | 123 :: rest => do
    let (more, rest) ← within [.unreadable] (Json.Reader.firstKey rest)
    readFields source.length ⟨none, none⟩ more rest
  | 91 :: rest => readArray rest
  | rest => wrongType [] .settings rest

end Settings

end OpenApiManifest
