import Mathlib.Data.Int.ModEq
import Mathlib.Data.Set.Function
import MatrixAudit.Proofs.ResidueField

/-!
# Operations on words that stand for residues

Each operation gives the canonical word of its result in the field, whatever words its arguments
are, and nothing wraps on the way. So only the residues of the arguments matter, and the laws of the
field hold for words: multiplication by a word that is not zero in the field permutes the canonical
words.
-/

namespace MatrixAudit
namespace Residue

/-- The word is the canonical one of the residue of an integer. -/
structure Represents (word : Word) (value : ℤ) : Prop where
  reduced : isReduced word = true
  congruent : (word.toNat : ℤ) ≡ value [ZMOD modulus]

/-- What the operations compute on the way to their results fits: sums and products are formed in
128 bits, and no word is taken from a smaller one. -/
structure StaysInRange (a b : Word) : Prop where
  sum_lt : a.toNat + b.toNat < 2 ^ 128
  product_lt : a.toNat * b.toNat < 2 ^ 128
  sub_le : ¬reduce b ≤ reduce a → reduce a ≤ reduce b ∧ reduce b - reduce a ≤ modulusWord
  neg_le : reduce a ≤ modulusWord

section Differences

variable (a b : Word)

lemma toNat_reduce_lt : (reduce a).toNat < modulus := by
  rw [toNat_reduce]
  exact Nat.mod_lt _ prime_modulus.pos

lemma reduce_le_modulusWord : reduce a ≤ modulusWord := by
  rw [UInt64.le_iff_toNat_le, toNat_modulusWord]
  exact (toNat_reduce_lt a).le

lemma staysInRange : StaysInRange a b := by
  have ha := a.toNat_lt
  have hb := b.toNat_lt
  refine ⟨by omega, ?_, fun hlt => ?_, reduce_le_modulusWord a⟩
  · exact (Nat.mul_lt_mul'' ha hb).trans_eq (pow_add 2 64 64).symm
  · have hle : reduce a ≤ reduce b := UInt64.le_of_lt (UInt64.not_le.1 hlt)
    refine ⟨hle, UInt64.le_trans ?_ (reduce_le_modulusWord b)⟩
    rw [UInt64.le_iff_toNat_le, UInt64.toNat_sub_of_le _ _ hle]
    exact Nat.sub_le _ _

end Differences

section Field

variable {a b : Word}

lemma eq_ofField_iff {x : ZMod modulus} : a = ofField x ↔ isReduced a = true ∧ toField a = x := by
  rw [ofField, eq_ofNat_iff, ZMod.natCast_zmod_val]

lemma isReduced_ofField (x : ZMod modulus) : isReduced (ofField x) = true := isReduced_ofNat _

lemma ofNat_eq_ofField (n : ℕ) : ofNat n = ofField n :=
  eq_ofField_iff.2 ⟨isReduced_ofNat n, toField_ofNat n⟩

lemma toField_congr_iff : toField a = toField b ↔ a.toNat ≡ b.toNat [MOD modulus] :=
  ZMod.natCast_eq_natCast_iff _ _ _

lemma represents_ofField_iff {x : ZMod modulus} {value : ℤ} :
    Represents (ofField x) value ↔ x = value := by
  have hcongr : ((ofField x).toNat : ℤ) ≡ value [ZMOD modulus] ↔ x = value := by
    rw [← ZMod.intCast_eq_intCast_iff, Int.cast_natCast]
    change toField (ofField x) = _ ↔ _
    rw [toField_ofField]
  exact ⟨fun h => hcongr.1 h.congruent, fun h => ⟨isReduced_ofField x, hcongr.2 h⟩⟩

theorem reduce_eq (a : Word) : reduce a = ofField (toField a) := by
  rw [toField, ← ofNat_eq_ofField, ← UInt64.toNat_inj, toNat_reduce, toNat_ofNat]

theorem add_eq (a b : Word) : add a b = ofField (toField a + toField b) := by
  rw [add, ofNat_eq_ofField, Nat.cast_add, toField, toField]

theorem mul_eq (a b : Word) : mul a b = ofField (toField a * toField b) := by
  rw [mul, ofNat_eq_ofField, Nat.cast_mul, toField, toField]

lemma toField_reduce (a : Word) : toField (reduce a) = toField a := by
  rw [reduce_eq, toField_ofField]

lemma toField_modulusWord : toField modulusWord = 0 := by
  rw [toField, toNat_modulusWord, ZMod.natCast_self]

/-- Words are subtracted as in the field if nothing is taken from a smaller word. -/
lemma toField_sub_of_le (h : b ≤ a) : toField (a - b) = toField a - toField b := by
  rw [toField, UInt64.toNat_sub_of_le _ _ h, Nat.cast_sub (UInt64.le_iff_toNat_le.1 h), toField,
    toField]

theorem sub_eq (a b : Word) : sub a b = ofField (toField a - toField b) := by
  rw [eq_ofField_iff, sub, isReduced_iff]
  have ha := toNat_reduce_lt a
  have hb := toNat_reduce_lt b
  split_ifs with hle
  · rw [toField_sub_of_le hle, toField_reduce, toField_reduce, UInt64.toNat_sub_of_le _ _ hle]
    exact ⟨(Nat.sub_le _ _).trans_lt ha, rfl⟩
  · obtain ⟨hlt, hborrow⟩ := (staysInRange a b).sub_le hle
    have hpos : (reduce a).toNat < (reduce b).toNat :=
      UInt64.lt_iff_toNat_lt.1 (UInt64.not_le.1 hle)
    rw [toField_sub_of_le hborrow, toField_sub_of_le hlt, toField_reduce, toField_reduce,
      toField_modulusWord, zero_sub, neg_sub, UInt64.toNat_sub_of_le _ _ hborrow,
      UInt64.toNat_sub_of_le _ _ hlt, toNat_modulusWord]
    exact ⟨by omega, rfl⟩

theorem neg_eq (a : Word) : neg a = ofField (-toField a) := by
  rw [eq_ofField_iff, neg, isReduced_iff]
  split_ifs with hzero
  · have hfield : toField a = 0 := by
      rw [← toField_reduce, hzero]
      exact Nat.cast_zero
    rw [hfield, neg_zero]
    exact ⟨prime_modulus.pos, Nat.cast_zero⟩
  · have hpos : (reduce a).toNat ≠ 0 := fun h => hzero (UInt64.toNat_inj.1 h)
    have hle := reduce_le_modulusWord a
    have hlt := toNat_reduce_lt a
    rw [toField_sub_of_le hle, toField_modulusWord, toField_reduce, zero_sub,
      UInt64.toNat_sub_of_le _ _ hle, toNat_modulusWord]
    exact ⟨by omega, rfl⟩

end Field

/-- Multiplication by a word that is not zero in the field permutes the canonical words. -/
theorem bijOn_mul {a : Word} (h : toField a ≠ 0) :
    Set.BijOn (mul a) {x | isReduced x = true} {x | isReduced x = true} := by
  refine ⟨fun x _ => isReduced_ofNat _, fun x hx y hy heq => ?_, fun y hy => ?_⟩
  · rw [mul_eq, mul_eq] at heq
    have hfield := congrArg toField heq
    rw [toField_ofField, toField_ofField, mul_right_inj' h] at hfield
    rw [← ofField_toField hx, hfield, ofField_toField hy]
  · refine ⟨ofField (toField y / toField a), isReduced_ofField _, ?_⟩
    rw [mul_eq, toField_ofField, mul_div_cancel₀ _ h, ofField_toField hy]

lemma bijOn_toField : Set.BijOn toField {x | isReduced x = true} Set.univ := by
  refine ⟨Set.mapsTo_univ _ _, fun x hx y hy heq => ?_, fun x _ => ?_⟩
  · rw [← ofField_toField hx, heq, ofField_toField hy]
  · exact ⟨ofField x, isReduced_ofField x, toField_ofField x⟩

/-- The operations on raw words are those of the field of residues. Whatever words stand for the
arguments, each gives the canonical word of what the integers give, and nothing wraps. What is added
can be subtracted again, and every word that is not zero in the field has an inverse. -/
theorem operations_of_field :
    (∀ a b : Word, Represents (reduce a) a.toNat ∧ Represents (add a b) (a.toNat + b.toNat) ∧
      Represents (sub a b) (a.toNat - b.toNat) ∧ Represents (mul a b) (a.toNat * b.toNat) ∧
      Represents (neg a) (-a.toNat) ∧ StaysInRange a b) ∧
    (∀ wide : ℕ, Represents (ofNat wide) wide) ∧
    (∀ a a' b b' : Word, a.toNat ≡ a'.toNat [MOD modulus] → b.toNat ≡ b'.toNat [MOD modulus] →
      reduce a = reduce a' ∧ neg a = neg a' ∧ add a b = add a' b' ∧ sub a b = sub a' b' ∧
        mul a b = mul a' b') ∧
    (∀ a b : Word, sub (add a b) b = reduce a ∧ add (neg a) a = 0) ∧
    (∀ a : Word, ¬a.toNat ≡ 0 [MOD modulus] →
      Set.BijOn (mul a) {x | isReduced x = true} {x | isReduced x = true} ∧
      ∃ x, isReduced x = true ∧ mul a x = 1) ∧
    modulus = 2 ^ 57 - 13 ∧ modulus.Prime ∧
    Set.BijOn toField {x | isReduced x = true} Set.univ := by
  refine ⟨fun a b => ⟨?_, ?_, ?_, ?_, ?_, staysInRange a b⟩, fun wide => ?_,
    fun a a' b b' ha hb => ?_, fun a b => ⟨?_, ?_⟩, fun a ha => ?_, rfl, prime_modulus,
    bijOn_toField⟩
  · rw [reduce_eq, represents_ofField_iff, toField, Int.cast_natCast]
  · rw [add_eq, represents_ofField_iff]
    push_cast [toField]
    rfl
  · rw [sub_eq, represents_ofField_iff]
    push_cast [toField]
    rfl
  · rw [mul_eq, represents_ofField_iff]
    push_cast [toField]
    rfl
  · rw [neg_eq, represents_ofField_iff]
    push_cast [toField]
    rfl
  · rw [ofNat_eq_ofField, represents_ofField_iff, Int.cast_natCast]
  · rw [← toField_congr_iff] at ha hb
    simp only [reduce_eq, neg_eq, add_eq, sub_eq, mul_eq, ha, hb, and_self]
  · rw [sub_eq, add_eq, toField_ofField, add_sub_cancel_right, reduce_eq]
  · rw [add_eq, neg_eq, toField_ofField, neg_add_cancel]
    rfl
  · have hne : toField a ≠ 0 := fun h =>
      ha ((toField_congr_iff (b := 0)).1 (h.trans Nat.cast_zero.symm))
    have hbij := bijOn_mul hne
    obtain ⟨x, hx, hone⟩ := hbij.surjOn (show isReduced 1 = true by decide)
    exact ⟨hbij, x, hx, hone⟩

/-- Words above the modulus, of which the first stands for two. -/
theorem operations_of_field_sample :
    Represents (sub 3 (modulusWord + 5)) (3 - (modulusWord + 5).toNat) ∧
    Represents (ofNat (2 ^ 128 - 1)) (2 ^ 128 - 1 : ℕ) ∧
    mul (modulusWord + 2) 3 = mul 2 (modulusWord + 3) ∧
    sub (add (modulusWord + 2) 18446744073709551615) 18446744073709551615 = 2 ∧
    add (neg (modulusWord + 2)) (modulusWord + 2) = 0 ∧
    Set.BijOn (mul (modulusWord + 2)) {x | isReduced x = true} {x | isReduced x = true} ∧
    ∃ x, isReduced x = true ∧ mul (modulusWord + 2) x = 1 := by
  obtain ⟨hresults, hwide, hresidues, hcancel, hunits, -⟩ := operations_of_field
  have hsub := (hresults 3 (modulusWord + 5)).2.2.1
  have hmul := (hresidues (modulusWord + 2) 2 3 (modulusWord + 3) (by decide) (by decide)).2.2.2.2
  have hback := (hcancel (modulusWord + 2) 18446744073709551615).1
  obtain ⟨hbij, hinverse⟩ := hunits (modulusWord + 2) (by decide)
  exact ⟨hsub, hwide _, hmul, hback.trans (by decide), (hcancel _ 0).2, hbij, hinverse⟩

end Residue
end MatrixAudit
