import MatrixAudit.Residue

/-!
# Durations

A measured duration is a number of nanoseconds. It is shown with two decimals in the largest unit in
which it is at least one; a tie goes to the even digit.
-/

namespace MatrixAudit

structure Duration where
  nanos : Nat
deriving DecidableEq

namespace Duration

def millis (d : Duration) : Nat := d.nanos / 1000000

/-- Whole microseconds as a word; a longer duration is cut to the largest word. -/
def microsWord (d : Duration) : Word := UInt64.ofNat (min (d.nanos / 1000) (UInt64.size - 1))

/-- `amount / unit` in hundredths, to the nearest, with a tie going to the even one. -/
def hundredths (amount unit : Nat) : Nat :=
  let whole := amount * 100 / unit
  let twice := 2 * (amount * 100 % unit)
  if unit < twice ∨ (twice = unit ∧ whole % 2 = 1) then whole + 1 else whole

def decimals (amount unit : Nat) : String :=
  let digits := hundredths amount unit
  s!"{digits / 100}.{digits % 100 / 10}{digits % 10}"

def text (d : Duration) : String :=
  if 1000000000 ≤ d.nanos then decimals d.nanos 1000000000 ++ "s"
  else if 1000000 ≤ d.nanos then decimals d.nanos 1000000 ++ "ms"
  else if 1000 ≤ d.nanos then decimals d.nanos 1000 ++ "µs"
  else decimals d.nanos 1 ++ "ns"

end Duration

end MatrixAudit
