import OpenApiManifest.Json.Basic
import OpenApiManifest.Yaml.Node

/-!
# Values of scalars

A plain scalar is null, a boolean, an integer or a floating-point number if its text reads as one, and
a text otherwise.  Any other scalar is a text, unless its tag asks for one of these.
-/

namespace OpenApiManifest.Yaml

def isNull (text : String) : Bool :=
  text ∈ ["null", "Null", "NULL", "~"]

def boolean? (text : String) : Option Bool :=
  if text ∈ ["true", "True", "TRUE"] then some true
  else if text ∈ ["false", "False", "FALSE"] then some false
  else none

def unsigned : List Char → List Char
  | '+' :: rest => rest
  | '-' :: rest => rest
  | chars => chars

/-- Whether a text consists of digits with a needless zero before them.  Such a text is no number. -/
def isZeroPadded (chars : List Char) : Bool :=
  match unsigned chars with
  | '0' :: rest => !rest.isEmpty && rest.all Char.isDigit
  | _ => false

/-- The value of some digits of a base up to sixteen. -/
def digitsValue? (base : Nat) (digits : List Char) : Option Nat :=
  if digits.isEmpty then none
  else
    digits.foldlM
      (fun value c =>
        match hexDigit? c with
        | some digit => if digit < base then some (value * base + digit) else none
        | none => none) 0

/-- The value of digits that may be marked as hexadecimal, octal or binary. -/
def magnitude? : List Char → Option Nat
  | '0' :: 'x' :: digits => digitsValue? 16 digits
  | '0' :: 'o' :: digits => digitsValue? 8 digits
  | '0' :: 'b' :: digits => digitsValue? 2 digits
  | digits => digitsValue? 10 digits

/-- The integer that a text reads as, of any size. -/
def integer? (chars : List Char) : Option Int :=
  if isZeroPadded chars then none
  else
    match chars with
    | '-' :: rest => (magnitude? rest).map fun n => -Int.ofNat n
    | '+' :: rest => (magnitude? rest).map Int.ofNat
    | _ => (magnitude? chars).map Int.ofNat

/-- Digits with an optional exponent: the digits, and by how many places they stand to the left of the
point. -/
structure Scientific where
  digits : Nat
  exponent : Int

def exponent? : List Char → Option Int
  | [] => some 0
  | mark :: rest =>
    if mark = 'e' ∨ mark = 'E' then
      match rest with
      | '-' :: digits => (digitsValue? 10 digits).map fun n => -Int.ofNat n
      | '+' :: digits => (digitsValue? 10 digits).map Int.ofNat
      | digits => (digitsValue? 10 digits).map Int.ofNat
    else none

/-- Reads a number without a sign: digits with at most one point among them, at least one digit, and
an optional exponent. -/
def scientific? (chars : List Char) : Option Scientific := do
  let whole := chars.takeWhile Char.isDigit
  let rest := chars.dropWhile Char.isDigit
  let (fraction, rest) := match rest with
    | '.' :: rest => (rest.takeWhile Char.isDigit, rest.dropWhile Char.isDigit)
    | _ => ([], rest)
  let digits ← digitsValue? 10 (whole ++ fraction)
  let exponent ← exponent? rest
  return ⟨digits, exponent - fraction.length⟩

/-- The binary64 number nearest to a number, if it is finite. -/
def Scientific.nearest? (s : Scientific) : Option Float :=
  let size := (Nat.toDigits 10 s.digits).length + s.exponent
  if s.digits = 0 ∨ size < -400 then some 0.0
  else if 400 < size then none
  else
    let value :=
      Float.ofScientific s.digits (decide (s.exponent < 0)) s.exponent.natAbs
    if value.isFinite then some value else none

/-- The floating-point number that a text reads as: null stands for those that are not finite. -/
def float? (chars : List Char) : Option Json :=
  let text := String.ofList chars
  let finite (negative : Bool) (chars : List Char) : Option Json := do
    let value ← (← scientific? chars).nearest?
    return .num (.float (if negative then -value else value).toBits)
  let unmarked := match chars with
    | '+' :: rest => String.ofList rest
    | _ => text
  if unmarked ∈ [".inf", ".Inf", ".INF"] then some .null
  else if text ∈ ["-.inf", "-.Inf", "-.INF", ".nan", ".NaN", ".NAN"] then some .null
  else
    match chars with
    | '-' :: rest => finite true rest
    | '+' :: rest => finite false rest
    | _ => finite false chars

/-- Whether an integer fits into 128 bits, with or without a sign. -/
def fitsWide (value : Int) : Bool :=
  -170141183460469231731687303715884105728 ≤ value
    && value ≤ 340282366920938463463374607431768211455

/-- The value of an integer, and none if it is so large that it is read as floating-point. -/
def integerValue? (value : Int) : Option (Except Cause Json) :=
  if Number.holdsInt value then some (.ok (.num (.int value)))
  else if fitsWide value then some (.error .integerOutOfRange)
  else none

def plainValue (text : String) : Except Cause Json :=
  let chars := text.toList
  if text.isEmpty || isNull text then .ok .null
  else
    match boolean? text with
    | some value => .ok (.bool value)
    | none =>
      match (integer? chars).bind integerValue? with
      | some value => value
      | none =>
        match if isZeroPadded chars then none else float? chars with
        | some value => .ok value
        | none => .ok (.str text)

/-- Whether a tag is one of the text's own, which no value has. -/
def isLocalTag (tag : Option String) : Bool :=
  match tag.map String.toList with
  | some ('!' :: _ :: _) => true
  | _ => false

/-- What an asked-for value is, or else a cause. -/
def demand (value : Option Json) : Except Cause Json :=
  match value with
  | some value => .ok value
  | none => .error .wrongTag

def Scalar.value (scalar : Scalar) : Except Cause Json :=
  let chars := scalar.text.toList
  if isLocalTag scalar.tag then .error .localTag
  else
    match scalar.tag with
    | some "tag:yaml.org,2002:bool" => demand ((boolean? scalar.text).map .bool)
    | some "tag:yaml.org,2002:int" =>
      ((integer? chars).bind integerValue?).getD (.error .wrongTag)
    | some "tag:yaml.org,2002:float" => demand (float? chars)
    | some "tag:yaml.org,2002:null" => demand (if isNull scalar.text then some .null else none)
    | some "!" => if scalar.plain then plainValue scalar.text else .ok (.str scalar.text)
    | some _ => .ok (.str scalar.text)
    | none => if scalar.plain then plainValue scalar.text else .ok (.str scalar.text)

end OpenApiManifest.Yaml
