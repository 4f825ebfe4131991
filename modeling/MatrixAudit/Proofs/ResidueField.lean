import Mathlib.Data.List.Prime
import Mathlib.Data.ZMod.Basic
import Mathlib.NumberTheory.LucasPrimality
import Mathlib.Tactic.NormNum.Prime
import Mathlib.Tactic.ReduceModChar
import MatrixAudit.Residue

/-!
# The field of residues

The modulus is prime, by Lucas's criterion along a chain of two smaller primes. A raw word stands
for an element of the field with that many elements, and the operations on words are those of the
field. Each element has exactly one canonical word.
-/

namespace MatrixAudit
namespace Residue

lemma prime_of_factors {p : ℕ} (a : ZMod p) (factors : List ℕ)
    (hprime : ∀ f ∈ factors, f.Prime) (hprod : factors.prod = p - 1)
    (ha : a ^ (p - 1) = 1) (hne : ∀ f ∈ factors, a ^ ((p - 1) / f) ≠ 1) : p.Prime := by
  refine lucas_primality p a ha fun q hq hdvd => ?_
  rw [← hprod] at hdvd
  obtain ⟨f, hf, hqf⟩ := (Prime.dvd_prod_iff hq.prime).1 hdvd
  rw [(Nat.prime_dvd_prime_iff_eq hq (hprime f hf)).1 hqf]
  exact hne f hf

lemma prime_12009599006321321 : Nat.Prime 12009599006321321 := by
  refine prime_of_factors 3 [2, 2, 2, 5, 53, 157, 1613, 2731, 8191] ?_ (by norm_num) ?_ ?_
  · norm_num
  · reduce_mod_char
  · simp only [List.forall_mem_cons]
    norm_num
    reduce_mod_char
    decide

lemma prime_24019198012642643 : Nat.Prime 24019198012642643 := by
  refine prime_of_factors 2 [2, 12009599006321321] ?_ (by norm_num) ?_ ?_
  · simp [Nat.prime_two, prime_12009599006321321]
  · reduce_mod_char
  · simp only [List.forall_mem_cons]
    norm_num
    reduce_mod_char
    decide

theorem prime_modulus : modulus.Prime := by
  refine prime_of_factors 2 [2, 3, 24019198012642643] ?_ rfl ?_ ?_
  · simp [Nat.prime_two, Nat.prime_three, prime_24019198012642643]
  · unfold modulus
    reduce_mod_char
  · unfold modulus
    simp only [List.forall_mem_cons]
    norm_num
    reduce_mod_char
    decide

instance : Fact modulus.Prime := ⟨prime_modulus⟩

/-- The residue that a word stands for. -/
def toField (a : Word) : ZMod modulus := (a.toNat : ZMod modulus)

/-- The canonical word of a residue. -/
def ofField (x : ZMod modulus) : Word := ofNat x.val

lemma toField_ofNat (a : ℕ) : toField (ofNat a) = (a : ZMod modulus) := by
  rw [toField, toNat_ofNat, ZMod.natCast_mod]

lemma toField_ofField (x : ZMod modulus) : toField (ofField x) = x := by
  rw [ofField, toField_ofNat, ZMod.natCast_zmod_val]

lemma isReduced_iff {a : Word} : isReduced a = true ↔ a.toNat < modulus := by
  rw [isReduced, decide_eq_true_eq, UInt64.lt_iff_toNat_lt, toNat_modulusWord]

lemma isReduced_ofNat (a : ℕ) : isReduced (ofNat a) = true := by
  rw [isReduced_iff, toNat_ofNat]
  exact Nat.mod_lt _ prime_modulus.pos

lemma ofNat_eq_ofNat_iff {a b : ℕ} : ofNat a = ofNat b ↔ (a : ZMod modulus) = b := by
  rw [← UInt64.toNat_inj, toNat_ofNat, toNat_ofNat, ZMod.natCast_eq_natCast_iff']

/-- A word is the canonical word of a number iff it is reduced and congruent to it. -/
theorem eq_ofNat_iff {a : Word} {b : ℕ} :
    a = ofNat b ↔ isReduced a = true ∧ toField a = (b : ZMod modulus) := by
  constructor
  · rintro rfl
    exact ⟨isReduced_ofNat b, toField_ofNat b⟩
  · rintro ⟨hred, hres⟩
    rw [toField, ZMod.natCast_eq_natCast_iff', Nat.mod_eq_of_lt (isReduced_iff.1 hred)] at hres
    rw [← UInt64.toNat_inj, toNat_ofNat, hres]

lemma ofField_toField {a : Word} (hred : isReduced a = true) : ofField (toField a) = a := by
  rw [eq_comm, ofField, eq_ofNat_iff, ZMod.natCast_zmod_val]
  exact ⟨hred, rfl⟩

end Residue
end MatrixAudit
