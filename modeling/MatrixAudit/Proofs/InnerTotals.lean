import Mathlib.Algebra.BigOperators.Ring.Finset
import Mathlib.Data.List.GetD
import MatrixAudit.Balance
import MatrixAudit.Proofs.ResidueField

/-!
# Inner products as sums of naturals

The accumulator of an inner product adds up reduced products. What it stands for is the exact sum of
the products of the raw words, and the inner product is the canonical word of that sum.
-/

namespace MatrixAudit
open Finset

/-- The number at a place of a vector; zero beyond its end. -/
def numberAt (xs : List Word) (i : ℕ) : ℕ := (xs.getD i 0).toNat

/-- The exact sum of the products of two vectors, over the places of the first. -/
def innerTotal (xs ys : List Word) : ℕ := ∑ i ∈ range xs.length, numberAt xs i * numberAt ys i

@[simp] lemma numberAt_cons_zero (x : Word) (xs : List Word) : numberAt (x :: xs) 0 = x.toNat := rfl

@[simp] lemma numberAt_cons_succ (x : Word) (xs : List Word) (i : ℕ) :
    numberAt (x :: xs) (i + 1) = numberAt xs i := rfl

lemma numberAt_eq_getElem {xs : List Word} {i : ℕ} (h : i < xs.length) :
    numberAt xs i = xs[i].toNat := by
  rw [numberAt, List.getD_eq_getElem _ _ h]

lemma numberAt_set {xs : List Word} {k : ℕ} (hk : k < xs.length) (word : Word) (j : ℕ) :
    numberAt (xs.set k word) j = if j = k then word.toNat else numberAt xs j := by
  by_cases hj : j = k
  · subst hj
    rw [if_pos rfl, numberAt_eq_getElem (by rwa [List.length_set]), List.getElem_set_self]
  · rw [if_neg hj, numberAt, numberAt, List.getD_eq_getElem?_getD, List.getD_eq_getElem?_getD,
      List.getElem?_set_ne fun h => hj h.symm]

lemma innerTotal_cons (x y : Word) (xs ys : List Word) :
    innerTotal (x :: xs) (y :: ys) = x.toNat * y.toNat + innerTotal xs ys := by
  simp only [innerTotal, List.length_cons, sum_range_succ', numberAt_cons_succ, numberAt_cons_zero]
  rw [Nat.add_comm]

/-- Reducing each product first does not change the residue of the sum. -/
lemma cast_termSum (start : ℕ) (xs ys : List Word) (h : xs.length = ys.length) :
    (termSum start xs ys : ZMod Residue.modulus) = start + innerTotal xs ys := by
  induction xs generalizing start ys with
  | nil => simp [termSum, innerTotal]
  | cons x xs ih =>
    obtain _ | ⟨y, ys⟩ := ys
    · simp at h
    · have hstep : termSum start (x :: xs) (y :: ys) =
          termSum (start + (Residue.mul x y).toNat) xs ys := rfl
      rw [hstep, ih _ _ (by simpa using h), innerTotal_cons, Residue.toNat_mul]
      push_cast [ZMod.natCast_mod]
      ring

theorem innerProduct_eq {xs ys : List Word} (h : xs.length = ys.length) :
    innerProduct xs ys = .ok (Residue.ofNat (innerTotal xs ys)) := by
  have hcast : Residue.ofNat (termSum 0 xs ys) = Residue.ofNat (innerTotal xs ys) := by
    rw [Residue.ofNat_eq_ofNat_iff, cast_termSum 0 xs ys h, Nat.cast_zero, zero_add]
  rw [← hcast, innerProduct, sameLength, if_pos h]
  rfl

lemma innerProduct_of_length_ne {xs ys : List Word} (h : xs.length ≠ ys.length) :
    innerProduct xs ys = .error (.unequalLengths xs.length ys.length) := by
  rw [innerProduct, sameLength, if_neg h]
  rfl

namespace Client

/-- What the client's vectors make of a challenge and a response of their lengths. -/
def exactBalance (c : Client) (challenge response : List Word) : Balance :=
  ⟨Residue.ofNat (innerTotal c.weights response), Residue.ofNat (innerTotal c.claimed challenge)⟩

theorem balance_eq (c : Client) (challenge response : List Word) :
    c.balance challenge response =
      if c.weights.length ≠ response.length then
        .error (.unequalLengths c.weights.length response.length)
      else if c.claimed.length ≠ challenge.length then
        .error (.unequalLengths c.claimed.length challenge.length)
      else .ok (c.exactBalance challenge response) := by
  rw [balance]
  by_cases hweights : c.weights.length = response.length
  · rw [innerProduct_eq hweights, if_neg (not_not.2 hweights)]
    by_cases hclaimed : c.claimed.length = challenge.length
    · rw [innerProduct_eq hclaimed, if_neg (not_not.2 hclaimed)]
      rfl
    · rw [innerProduct_of_length_ne hclaimed, if_pos hclaimed]
      rfl
  · rw [innerProduct_of_length_ne hweights, if_pos hweights]
    rfl

lemma balance_of_length_eq {c : Client} {challenge response : List Word}
    (hweights : c.weights.length = response.length)
    (hclaimed : c.claimed.length = challenge.length) :
    c.balance challenge response = .ok (c.exactBalance challenge response) := by
  rw [balance_eq, if_neg (not_not.2 hweights), if_neg (not_not.2 hclaimed)]

end Client

end MatrixAudit
