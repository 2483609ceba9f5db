import OpenApiManifest.Decimal.Shortest
import OpenApiManifest.Json.Basic

/-!
# Writing values as text

Two written forms of one value: the compact one, without blanks, and the indented one, with a line
for every item and field.
-/

namespace OpenApiManifest

/-- Numbers have a plain point from `0.00001` up to, but not including, `10^16`. -/
def Number.layout : Decimal.Layout := ⟨-4, 16⟩

def Number.text : Number → String
  | .int value => toString value
  | .float bits => layout.writeBits bits

namespace Json

def hexDigit (n : Nat) : Char :=
  Nat.digitChar n

/-- How one character stands inside a quoted text. -/
def escapeChar (c : Char) : List Char :=
  if c = '"' then ['\\', '"']
  else if c = '\\' then ['\\', '\\']
  else if c = '\n' then ['\\', 'n']
  else if c = '\r' then ['\\', 'r']
  else if c = '\t' then ['\\', 't']
  else if c = '\x08' then ['\\', 'b']
  else if c = '\x0c' then ['\\', 'f']
  else if c.toNat < 32 then
    ['\\', 'u', '0', '0', hexDigit (c.toNat / 16), hexDigit (c.toNat % 16)]
  else [c]

def quote (text : String) : String :=
  String.ofList ('"' :: (text.toList.flatMap escapeChar ++ ['"']))

mutual
def compact : Json → String
  | .null => "null"
  | .bool true => "true"
  | .bool false => "false"
  | .num value => value.text
  | .str value => quote value
  | .arr items => "[" ++ String.intercalate "," (compactItems items) ++ "]"
  | .obj fields => "\x7b" ++ String.intercalate "," (compactFields fields) ++ "\x7d"

def compactItems : List Json → List String
  | [] => []
  | item :: rest => compact item :: compactItems rest

def compactFields : List (String × Json) → List String
  | [] => []
  | (key, value) :: rest => (quote key ++ ":" ++ compact value) :: compactFields rest
end

/-- The start of a line at some level of nesting. -/
def newline (level : Nat) : String :=
  String.ofList ('\n' :: List.replicate (2 * level) ' ')

/-- The lines of an array or object between its brackets. -/
def block (opening closing : String) (level : Nat) (lines : List String) : String :=
  if lines.isEmpty then opening ++ closing
  else opening ++ newline (level + 1)
    ++ String.intercalate ("," ++ newline (level + 1)) lines ++ newline level ++ closing

mutual
/-- The indented text of a value that stands at some level of nesting. -/
def indented (level : Nat) : Json → String
  | .arr items => block "[" "]" level (indentedItems (level + 1) items)
  | .obj fields => block "\x7b" "\x7d" level (indentedFields (level + 1) fields)
  | .null => "null"
  | .bool true => "true"
  | .bool false => "false"
  | .num value => value.text
  | .str value => quote value

def indentedItems (level : Nat) : List Json → List String
  | [] => []
  | item :: rest => indented level item :: indentedItems level rest

def indentedFields (level : Nat) : List (String × Json) → List String
  | [] => []
  | (key, value) :: rest =>
    (quote key ++ ": " ++ indented level value) :: indentedFields level rest
end

def pretty (value : Json) : String :=
  indented 0 value

end Json

end OpenApiManifest
