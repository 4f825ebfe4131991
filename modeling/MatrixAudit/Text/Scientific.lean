import MatrixAudit.Residue

/-!
# Numbers in scientific notation

A word can be read as the bits of a floating-point number: a sign, eleven bits of exponent and
fifty-two of fraction. The text of such a number has the fewest digits that are still rounded to it,
and among these the ones nearest to it; of two that are equally near it has the greater.
-/

namespace MatrixAudit

namespace Scientific

/-- The numbers that are rounded to a positive floating-point number: those between two ends, and
the ends themselves if the range is closed. -/
structure Range where
  low : Nat
  value : Nat
  high : Nat
  closed : Bool
deriving DecidableEq

namespace Range

/-- The range of the number with this exponent and fraction, in quarters of the smallest positive
number. What lies below a power of two is only half as far away as what lies above. -/
def ofBits (exponent fraction : Nat) : Range :=
  let significand := if exponent = 0 then fraction else 4503599627370496 + fraction
  let scale := Nat.pow 2 (exponent - 1)
  let below := if fraction = 0 ∧ 1 < exponent then 1 else 2
  { low := (4 * significand - below) * scale
    value := 4 * significand * scale
    high := (4 * significand + 2) * scale
    closed := significand % 2 = 0 }

def contains (r : Range) (n : Nat) : Bool :=
  if r.closed then r.low ≤ n && n ≤ r.high else r.low < n && n < r.high

/-- The multiple of a step that is nearest to the number, if one is rounded to it at all. -/
def multiple? (r : Range) (step : Nat) : Option Nat :=
  let down := r.value / step
  let up := down + 1
  if r.contains (up * step) && (!r.contains (down * step) || step ≤ 2 * (r.value % step))
  then some up
  else if r.contains (down * step) then some down
  else none

def scaled (r : Range) (factor : Nat) : Range :=
  { r with low := r.low * factor, value := r.value * factor, high := r.high * factor }

end Range

/-- Places are counted from so far behind the point, where every number has digits. -/
def lowestPlace : Nat := 350

/-- The highest place that any number has a digit at. -/
def highestPlace : Nat := lowestPlace + 309

/-- One at a place, in quarters of the smallest positive number at the lowest place. -/
def unitAt (place : Nat) : Nat := Nat.pow 2 1076 * Nat.pow 10 place

/-- The digits of a number, and the place of the last one: the highest up to the given one at which
some digits are rounded to it. -/
def digitsFrom (r : Range) : (place : Nat) → Nat × Nat
  | 0 => ((r.multiple? (unitAt 0)).getD 0, 0)
  | place + 1 =>
    match r.multiple? (unitAt (place + 1)) with
    | some digits => (digits, place + 1)
    | none => digitsFrom r place

def shortest (r : Range) : Nat × Nat :=
  digitsFrom (r.scaled (Nat.pow 10 lowestPlace)) highestPlace

/-- Digits with a point behind the first, and the place of that one counted from the point. -/
def spelled (digits place : Nat) : String :=
  let characters := (toString digits).toList
  let exponent : Int := Int.ofNat (place + characters.length) - Int.ofNat (lowestPlace + 1)
  let behind := characters.drop 1
  let point := if behind.isEmpty then "" else "."
  s!"{String.ofList (characters.take 1)}{point}{String.ofList behind}e{exponent}"

/-- The text of the floating-point number with these bits. -/
def text (bits : Word) : String :=
  let exponent := bits.toNat / 4503599627370496 % 2048
  let fraction := bits.toNat % 4503599627370496
  let sign := if bits.toNat < 9223372036854775808 then "" else "-"
  if exponent = 2047 then
    if fraction = 0 then s!"{sign}inf" else "NaN"
  else if exponent = 0 ∧ fraction = 0 then s!"{sign}0e0"
  else
    let (digits, place) := shortest (.ofBits exponent fraction)
    s!"{sign}{spelled digits place}"

end Scientific

end MatrixAudit
