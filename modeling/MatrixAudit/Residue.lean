/-!
# Residues on raw words

A 64-bit word stands for its residue modulo the prime `2 ^ 57 - 13`. Arguments need not be reduced;
every operation here gives the canonical word of its result, the one below the modulus. Sums and
products are formed as natural numbers, so nothing is lost before the reduction.
-/

namespace MatrixAudit

/-- A raw 64-bit word, as files and the wire carry it. -/
abbrev Word := UInt64

namespace Residue

/-- The prime modulus, `2 ^ 57 - 13`. -/
def modulus : Nat := 144115188075855859

def modulusWord : Word := 144115188075855859

def reduce (a : Word) : Word := a % modulusWord

/-- The canonical word of a natural number. -/
def ofNat (a : Nat) : Word := UInt64.ofNat (a % modulus)

/-- Whether a word already lies below the modulus. -/
def isReduced (a : Word) : Bool := a < modulusWord

def add (a b : Word) : Word := ofNat (a.toNat + b.toNat)

def mul (a b : Word) : Word := ofNat (a.toNat * b.toNat)

/-- The difference of the reduced arguments, with the modulus lent when it would be negative. -/
def sub (a b : Word) : Word :=
  if reduce b ≤ reduce a then reduce a - reduce b else modulusWord - (reduce b - reduce a)

/-- Zero is its own negative; any other residue is taken from the modulus. -/
def neg (a : Word) : Word :=
  if reduce a = 0 then 0 else modulusWord - reduce a

theorem toNat_modulusWord : modulusWord.toNat = modulus := rfl

theorem toNat_ofNat (a : Nat) : (ofNat a).toNat = a % modulus := by
  have h : a % modulus < modulus := Nat.mod_lt _ (by decide)
  simp only [ofNat, UInt64.toNat_ofNat']
  exact Nat.mod_eq_of_lt (Nat.lt_trans h (by decide))

theorem toNat_reduce (a : Word) : (reduce a).toNat = a.toNat % modulus := by
  simp only [reduce, UInt64.toNat_mod, toNat_modulusWord]

theorem toNat_add (a b : Word) : (add a b).toNat = (a.toNat + b.toNat) % modulus := toNat_ofNat _

theorem toNat_mul (a b : Word) : (mul a b).toNat = a.toNat * b.toNat % modulus := toNat_ofNat _

end Residue

end MatrixAudit
