/-!
# Shortest decimals

The decimal with the fewest digits that reads back as a given binary64 number, and of several such
decimals the one nearest to the number.  All arithmetic is exact: the number is decoded into
`significand * 2 ^ exponent` and compared with the two ends of the interval of reals that round to
it.
-/

namespace OpenApiManifest.Decimal

/-- A finite binary64 number: its sign, and its size as `significand * 2 ^ exponent`. -/
structure Binary where
  negative : Bool
  significand : Nat
  exponent : Int

/-- The parts of a finite binary64 number, read off its bits. -/
def Binary.ofBits (bits : UInt64) : Binary :=
  let fraction : Nat := bits.toNat % Nat.pow 2 52
  let biased : Nat := bits.toNat / Nat.pow 2 52 % Nat.pow 2 11
  { negative := Nat.pow 2 63 ≤ bits.toNat
    significand := if biased = 0 then fraction else fraction + Nat.pow 2 52
    exponent := if biased = 0 then -1074 else (biased : Int) - 1075 }

/-- A decimal `digits * 10 ^ exponent`. -/
structure Value where
  digits : Nat
  exponent : Int

/-- A positive real as a fraction, with the ends of the interval around it. -/
structure Interval where
  low : Nat
  value : Nat
  high : Nat
  denominator : Nat
  closed : Bool

/-- The reals that round to a number.  Below a power of two the numbers lie twice as close. -/
def Binary.interval (b : Binary) : Interval :=
  let below := if b.significand = Nat.pow 2 52 ∧ -1074 < b.exponent then 1 else 2
  let unit := Nat.pow 2 (b.exponent - 2).toNat
  { low := (4 * b.significand - below) * unit
    value := 4 * b.significand * unit
    high := (4 * b.significand + 2) * unit
    denominator := Nat.pow 2 (2 - b.exponent).toNat
    closed := b.significand % 2 = 0 }

/-- The `e` with `10 ^ (e - 1) ≤ value < 10 ^ e`, for a value of at least `10 ^ -steps`. -/
def magnitude (value denominator : Nat) : Nat → Int
  | 0 => 0
  | steps + 1 =>
    if denominator ≤ value then (Nat.toDigits 10 (value / denominator)).length
    else magnitude (value * 10) denominator steps - 1

/-- Whether `digits * 10 ^ exponent` lies in the interval. -/
def Interval.holds (i : Interval) (digits : Nat) (exponent : Int) : Bool :=
  let up := Nat.pow 10 exponent.toNat
  let down := Nat.pow 10 (-exponent).toNat
  let point := digits * up * i.denominator
  if i.closed then i.low * down ≤ point ∧ point ≤ i.high * down
  else i.low * down < point ∧ point < i.high * down

/-- The point of the grid `10 ^ exponent` that lies in the interval nearest to its value, the even
one of two that are equally near. -/
def Interval.nearest? (i : Interval) (exponent : Int) : Option Nat :=
  let up := Nat.pow 10 exponent.toNat
  let down := Nat.pow 10 (-exponent).toNat
  let below := i.value * down / (i.denominator * up)
  let toBelow := i.value * down - below * up * i.denominator
  let toAbove := (below + 1) * up * i.denominator - i.value * down
  match i.holds below exponent, i.holds (below + 1) exponent with
  | true, true =>
    if toBelow < toAbove ∨ (toBelow = toAbove ∧ below % 2 = 0) then some below
    else some (below + 1)
  | true, false => some below
  | false, true => some (below + 1)
  | false, false => none

/-- The first hit among the grids of `count`, `count + 1`, … digits. -/
def Interval.search (i : Interval) (size : Int) (count : Nat) : Nat → Value
  | 0 => ⟨0, 0⟩
  | more + 1 =>
    match i.nearest? (size - count) with
    | some digits => ⟨digits, size - count⟩
    | none => i.search size (count + 1) more

/-- Drops zeros at the end of the digits. -/
def Value.trim (d : Value) : Nat → Value
  | 0 => d
  | steps + 1 =>
    if d.digits % 10 = 0 ∧ d.digits ≠ 0 then Value.trim ⟨d.digits / 10, d.exponent + 1⟩ steps
    else d

/-- The shortest decimal that reads back as a positive number; seventeen digits are always
enough. -/
def Binary.shortest (b : Binary) : Value :=
  let i := b.interval
  (i.search (magnitude i.value i.denominator 400) 1 17).trim 17

/-- Where a decimal is written with a plain point and where with an exponent: the position of the
point, counted from the first digit, lies between these two. -/
structure Layout where
  leastPoint : Int
  greatestPoint : Int

/-- Writes a positive decimal: with a plain point and at least one digit on each side of it, or with
one digit before the point and a signed exponent. -/
def Layout.write (layout : Layout) (d : Value) : String :=
  let digits := Nat.toDigits 10 d.digits
  let point := digits.length + d.exponent
  if point < layout.leastPoint ∨ layout.greatestPoint < point then
    let sign := if 0 < point then "+" else "-"
    let size := Nat.repr (point - 1).natAbs
    match digits with
    | [] => ""
    | [digit] => String.ofList [digit] ++ "e" ++ sign ++ size
    | digit :: rest => String.ofList (digit :: '.' :: rest) ++ "e" ++ sign ++ size
  else if point ≤ 0 then
    "0." ++ String.ofList (List.replicate (-point).toNat '0' ++ digits)
  else
    let whole := digits.take point.toNat
    let zeros := List.replicate (point.toNat - whole.length) '0'
    let rest := digits.drop point.toNat
    String.ofList (whole ++ zeros) ++ "." ++ (if rest.isEmpty then "0" else String.ofList rest)

/-- Writes a finite binary64 number by its shortest decimal. -/
def Layout.writeBits (layout : Layout) (bits : UInt64) : String :=
  let b := Binary.ofBits bits
  let sign := if b.negative then "-" else ""
  if b.significand = 0 then sign ++ "0.0" else sign ++ layout.write b.shortest

end OpenApiManifest.Decimal
