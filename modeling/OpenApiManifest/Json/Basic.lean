import OpenApiManifest.Entries

/-!
# Values of a document

The tree that a loader hands over: null, booleans, numbers, texts, arrays, and objects whose fields
keep their order.  A number is either an integer between `-2^63` and `2^64 - 1` or a binary64
number, kept as its bits so that equality of numbers is decidable.
-/

namespace OpenApiManifest

/-- A number of a document. -/
inductive Number where
  | int (value : Int)
  | float (bits : UInt64)
  deriving DecidableEq, Repr, Inhabited

namespace Number

/-- Whether the number is kept as a binary64 number. -/
def isFloat : Number → Bool
  | .int _ => false
  | .float _ => true

/-- The number as a natural number, if it is a non-negative integer. -/
def toNat? : Number → Option Nat
  | .int value => if 0 ≤ value then some value.toNat else none
  | .float _ => none

/-- The least integer that is kept as such, `-2^63`. -/
def minInt : Int := -9223372036854775808

/-- The greatest integer that is kept as such, `2^64 - 1`. -/
def maxInt : Int := 18446744073709551615

def holdsInt (value : Int) : Bool :=
  minInt ≤ value && value ≤ maxInt

/-- The integer itself where it is in range, and the nearest binary64 number elsewhere. -/
def ofInt (value : Int) : Number :=
  if holdsInt value then .int value
  else .float (Float.ofInt value).toBits

end Number

/-- A value of a document. -/
inductive Json where
  | null
  | bool (value : Bool)
  | num (value : Number)
  | str (value : String)
  | arr (items : List Json)
  | obj (fields : List (String × Json))
  deriving Repr, Inhabited

/-- The six kinds of values. -/
inductive JsonKind where
  | null | boolean | number | string | array | object
  deriving DecidableEq, Repr

namespace JsonKind

/-- How a kind is spoken of in a message. -/
def describe : JsonKind → String
  | .null => "null"
  | .boolean => "a boolean"
  | .number => "a number"
  | .string => "a string"
  | .array => "an array"
  | .object => "an object"

end JsonKind

namespace Json

def kind : Json → JsonKind
  | .null => .null
  | .bool _ => .boolean
  | .num _ => .number
  | .str _ => .string
  | .arr _ => .array
  | .obj _ => .object

mutual
/-- The number of levels of arrays and objects in a value; a scalar has none. -/
def depth : Json → Nat
  | .arr items => depthItems items + 1
  | .obj fields => depthFields fields + 1
  | _ => 0

def depthItems : List Json → Nat
  | [] => 0
  | item :: rest => max (depth item) (depthItems rest)

/-- The greatest depth among the values of some fields. -/
def depthFields : List (String × Json) → Nat
  | [] => 0
  | (_, value) :: rest => max (depth value) (depthFields rest)
end

/-- An item is no deeper than its list. -/
theorem depth_le_depthItems {item : Json} {items : List Json} (h : item ∈ items) :
    item.depth ≤ depthItems items := by
  induction items with
  | nil => simp at h
  | cons first rest ih =>
    rw [depthItems]
    rcases List.mem_cons.1 h with rfl | h
    · exact Nat.le_max_left _ _
    · exact Nat.le_trans (ih h) (Nat.le_max_right _ _)

/-- The value of a field is no deeper than its fields. -/
theorem depth_le_depthFields {key : String} {value : Json} {fields : List (String × Json)}
    (h : (key, value) ∈ fields) : value.depth ≤ depthFields fields := by
  induction fields with
  | nil => simp at h
  | cons first rest ih =>
    obtain ⟨k, v⟩ := first
    rw [depthFields]
    rcases List.mem_cons.1 h with h | h
    · cases h
      exact Nat.le_max_left _ _
    · exact Nat.le_trans (ih h) (Nat.le_max_right _ _)

/-- A text, or null where there is none. -/
def ofText? : Option String → Json
  | some text => .str text
  | none => .null

def ofNat (n : Nat) : Json := .num (.int n)

def ofTexts (texts : List String) : Json := .arr (texts.map .str)

end Json

end OpenApiManifest
