import Mathlib
import MatrixAudit.Proofs.ColumnDefects

/-!
# How many challenges a wrong claim survives

The challenges that a wrong claim passes are the kernel of a linear form that is not zero, so they
are one in as many as the field has elements. With all words of a challenge but one given, exactly
one canonical word in that place passes.
-/

namespace MatrixAudit
open Finset

/-- A challenge of `n` canonical words. -/
def CanonicalChallenge (n : ℕ) (challenge : List Word) : Prop :=
  challenge.length = n ∧ ∀ word ∈ challenge, Residue.isReduced word = true

/-- The canonical challenge of a vector of residues. -/
def challengeOf {n : ℕ} (v : Fin n → ZMod Residue.modulus) : List Word :=
  List.ofFn fun k => Residue.ofField (v k)

lemma length_challengeOf {n : ℕ} (v : Fin n → ZMod Residue.modulus) : (challengeOf v).length = n :=
  List.length_ofFn

lemma cast_numberAt_challengeOf {n : ℕ} (v : Fin n → ZMod Residue.modulus) (k : Fin n) :
    (numberAt (challengeOf v) k : ZMod Residue.modulus) = v k := by
  have hk : k.val < (challengeOf v).length := by rw [length_challengeOf]; exact k.isLt
  rw [numberAt_eq_getElem hk]
  simp only [challengeOf, List.getElem_ofFn]
  exact Residue.toField_ofField (v k)

lemma challengeOf_injective {n : ℕ} : Function.Injective (challengeOf (n := n)) := by
  intro v w h
  funext k
  rw [← cast_numberAt_challengeOf v k, ← cast_numberAt_challengeOf w k, h]

lemma range_challengeOf (n : ℕ) :
    Set.range (challengeOf (n := n)) = {challenge | CanonicalChallenge n challenge} := by
  ext challenge
  constructor
  · rintro ⟨v, rfl⟩
    refine ⟨length_challengeOf v, fun word hword => ?_⟩
    obtain ⟨k, rfl⟩ := List.mem_ofFn.1 hword
    exact Residue.isReduced_ofNat _
  · rintro ⟨rfl, hred⟩
    refine ⟨fun k => Residue.toField challenge[k], List.ext_getElem (length_challengeOf _) ?_⟩
    intro k _ hk
    simp only [challengeOf, List.getElem_ofFn]
    exact Residue.ofField_toField (hred _ (List.getElem_mem hk))

lemma ncard_canonicalChallenge (n : ℕ) :
    {challenge | CanonicalChallenge n challenge}.ncard = Residue.modulus ^ n := by
  rw [← range_challengeOf, ← Set.image_univ, Set.ncard_image_of_injective _ challengeOf_injective,
    Set.ncard_univ, Nat.card_fun, Nat.card_zmod, Nat.card_fin]

/-- A linear form that is not zero vanishes on one vector in as many as the field has elements. -/
lemma ncard_ker {K V : Type} [Field K] [Finite K] [AddCommGroup V] [Module K V] [Module.Finite K V]
    {f : Module.Dual K V} (hf : f ≠ 0) :
    (LinearMap.ker f : Set V).ncard = Nat.card K ^ (Module.finrank K V - 1) := by
  have hrank := Module.Dual.finrank_ker_add_one_of_ne_zero hf
  have hcard : (LinearMap.ker f : Set V).ncard = Nat.card (LinearMap.ker f) := rfl
  rw [hcard, Module.natCard_eq_pow_finrank (K := K), ← hrank, Nat.add_sub_cancel]

namespace Statement

variable {s : Statement}

/-- The defects as a linear form on challenges. -/
def defectForm (s : Statement) : Module.Dual (ZMod Residue.modulus)
    (Fin s.client.n → ZMod Residue.modulus) :=
  ∑ k, s.defect k.val • LinearMap.proj k

lemma defectForm_apply (v : Fin s.client.n → ZMod Residue.modulus) :
    s.defectForm v = ∑ k, s.defect k.val * v k := by
  simp [defectForm, LinearMap.sum_apply]

lemma defectForm_ne_zero {k : ℕ} (hk : k < s.client.n) (hdefect : s.defect k ≠ 0) :
    s.defectForm ≠ 0 := by
  intro h
  apply hdefect
  have hsingle := LinearMap.congr_fun h (Pi.single ⟨k, hk⟩ 1)
  rw [defectForm_apply, Finset.sum_eq_single ⟨k, hk⟩] at hsingle
  · simpa using hsingle
  · intro j _ hj
    rw [Pi.single_eq_of_ne hj, mul_zero]
  · exact fun h => (h (mem_univ _)).elim

lemma passes_challengeOf_iff [Sharing] (fits : s.Fits) (parallel : Bool)
    (v : Fin s.client.n → ZMod Residue.modulus) :
    s.Passes parallel (challengeOf v) ↔ s.defectForm v = 0 := by
  rw [passes_iff fits parallel (length_challengeOf v), defectForm_apply,
    Finset.sum_range fun k => s.defect k * (numberAt (challengeOf v) k : ZMod Residue.modulus)]
  simp only [cast_numberAt_challengeOf]

lemma ncard_passing [Sharing] (fits : s.Fits) (parallel : Bool) {k : ℕ} (hk : k < s.client.n)
    (hdefect : s.defect k ≠ 0) :
    {challenge | CanonicalChallenge s.client.n challenge ∧ s.Passes parallel challenge}.ncard =
      Residue.modulus ^ (s.client.n - 1) := by
  have hker : {challenge | CanonicalChallenge s.client.n challenge ∧ s.Passes parallel challenge} =
      Set.image challengeOf
        (LinearMap.ker s.defectForm : Set (Fin s.client.n → ZMod Residue.modulus)) := by
    ext challenge
    constructor
    · rintro ⟨hcanonical, hpass⟩
      obtain ⟨v, rfl⟩ : challenge ∈ Set.range challengeOf := by
        rw [range_challengeOf]
        exact hcanonical
      exact ⟨v, (passes_challengeOf_iff fits parallel v).1 hpass, rfl⟩
    · rintro ⟨v, hv, rfl⟩
      have hcanonical : challengeOf v ∈ {challenge | CanonicalChallenge s.client.n challenge} := by
        rw [← range_challengeOf]
        exact ⟨v, rfl⟩
      exact ⟨hcanonical, (passes_challengeOf_iff fits parallel v).2 hv⟩
  rw [hker, Set.ncard_image_of_injective _ challengeOf_injective,
    ncard_ker (defectForm_ne_zero hk hdefect), Nat.card_zmod, Module.finrank_fin_fun]

/-- With the other words given, the word in a defective column is determined: it has to cancel what
the other columns contribute. -/
lemma passes_set_iff [Sharing] (fits : s.Fits) (parallel : Bool) {k : ℕ} (hk : k < s.client.n)
    (hdefect : s.defect k ≠ 0) {challenge : List Word} (hlen : challenge.length = s.client.n)
    (word : Word) :
    s.Passes parallel (challenge.set k word) ↔
      Residue.toField word = -(∑ j ∈ (range s.client.n).erase k,
        s.defect j * (numberAt challenge j : ZMod Residue.modulus)) / s.defect k := by
  have hrest : ∑ j ∈ (range s.client.n).erase k,
      s.defect j * (numberAt (challenge.set k word) j : ZMod Residue.modulus) =
      ∑ j ∈ (range s.client.n).erase k,
        s.defect j * (numberAt challenge j : ZMod Residue.modulus) := by
    refine sum_congr rfl fun j hj => ?_
    rw [numberAt_set (by rwa [hlen]), if_neg (ne_of_mem_erase hj)]
  rw [passes_iff fits parallel (by rw [List.length_set, hlen]),
    ← add_sum_erase _ _ (mem_range.2 hk), hrest, numberAt_set (by rwa [hlen]), if_pos rfl,
    eq_div_iff hdefect, mul_comm (Residue.toField word), eq_neg_iff_add_eq_zero, Residue.toField]

lemma defect_ne_zero {k : ℕ} (hwrong : ¬ numberAt s.client.claimed k ≡
    s.dataset.columnTotal s.client.weights k [MOD Residue.modulus]) : s.defect k ≠ 0 := by
  rwa [defect, sub_ne_zero, Ne, ZMod.natCast_eq_natCast_iff]

/-- A claim that is wrong in some column passes the honest exchange for one canonical challenge in
as many as the field has elements. In a wrong column, whatever the other words are, exactly one
canonical word passes. -/
theorem card_passing_challenges [Sharing] {dataset : Dataset} {client : Client} {s : Statement}
    (accepted : ofParts dataset client = .ok s) (parallel : Bool) {k : ℕ} (hk : k < s.client.n)
    (hwrong : ¬ numberAt s.client.claimed k ≡
      s.dataset.columnTotal s.client.weights k [MOD Residue.modulus]) :
    {challenge | CanonicalChallenge s.client.n challenge}.ncard = Residue.modulus ^ s.client.n ∧
    {challenge | CanonicalChallenge s.client.n challenge ∧ s.Passes parallel challenge}.ncard =
      Residue.modulus ^ (s.client.n - 1) ∧
    ∀ challenge : List Word, challenge.length = s.client.n →
      ∃! word, Residue.isReduced word = true ∧ s.Passes parallel (challenge.set k word) := by
  have fits : s.Fits := (ofParts_eq_ok accepted).2
  have hdefect : s.defect k ≠ 0 := defect_ne_zero hwrong
  refine ⟨ncard_canonicalChallenge _, ncard_passing fits parallel hk hdefect,
    fun challenge hlen => ?_⟩
  refine ⟨Residue.ofField (-(∑ j ∈ (range s.client.n).erase k,
    s.defect j * (numberAt challenge j : ZMod Residue.modulus)) / s.defect k), ?_, ?_⟩
  · refine ⟨Residue.isReduced_ofNat _, ?_⟩
    rw [passes_set_iff fits parallel hk hdefect hlen, Residue.toField_ofField]
  · rintro word ⟨hred, hpass⟩
    rw [passes_set_iff fits parallel hk hdefect hlen] at hpass
    rw [← hpass, Residue.ofField_toField hred]

attribute [local instance] Sharing.halving

theorem card_passing_challenges_sample :
    ofParts sampleDataset { sampleClient with claimed := [4, 6, 0] } =
      .ok ⟨sampleDataset, { sampleClient with claimed := [4, 6, 0] }⟩ ∧ 2 < sampleClient.n ∧
    (¬ 0 ≡ sampleDataset.columnTotal sampleClient.weights 2 [MOD Residue.modulus]) ∧
    {challenge | CanonicalChallenge 3 challenge ∧
      Passes ⟨sampleDataset, { sampleClient with claimed := [4, 6, 0] }⟩ true challenge}.ncard =
        Residue.modulus ^ 2 := by
  have accepted : ofParts sampleDataset { sampleClient with claimed := [4, 6, 0] } =
    .ok ⟨sampleDataset, { sampleClient with claimed := [4, 6, 0] }⟩ := rfl
  have hwrong : ¬ 0 ≡ sampleDataset.columnTotal sampleClient.weights 2 [MOD Residue.modulus] := by
    decide
  have hcard := card_passing_challenges accepted true (by decide : 2 < sampleClient.n) hwrong
  exact ⟨accepted, by decide, hwrong, hcard.2.1⟩

end Statement

end MatrixAudit
