import MatrixAudit.Proofs.ColumnDefects

/-!
# The columns that the offline check lists

However the fields of a statement were edited, the offline check refuses lengths that differ, the
weights first, and otherwise compares every claimed sum with the exact sum of its column, word for
word. It counts all the columns in which they differ and lists the first of them.
-/

namespace MatrixAudit
open Finset

/-- The list holds the least places of a set in increasing order, `most` of them if there are as
many. -/
structure ListsLeast (listed : List ℕ) (places : Finset ℕ) (most : ℕ) : Prop where
  increasing : listed.Pairwise (· < ·)
  length_eq : listed.length = min most places.card
  mem : ∀ k ∈ listed, k ∈ places
  /-- What is left out lies behind what is listed. -/
  least : ∀ k ∈ listed, ∀ j ∈ places, j < k → j ∈ listed

lemma listsLeast_take {places : List ℕ} (increasing : places.Pairwise (· < ·)) (most : ℕ) :
    ListsLeast (places.take most) places.toFinset most := by
  refine ⟨increasing.sublist (List.take_sublist _ _), ?_, ?_, ?_⟩
  · have hnodup : places.Nodup := increasing.imp fun h => Nat.ne_of_lt h
    rw [List.length_take, List.toFinset_card_of_nodup hnodup]
  · intro k hk
    exact List.mem_toFinset.2 (List.mem_of_mem_take hk)
  · intro k hk j hj hlt
    rw [← List.take_append_drop most places] at increasing hj
    rw [List.mem_toFinset, List.mem_append] at hj
    -- a place behind the listed ones is greater than all of them
    refine hj.resolve_right fun hbehind => ?_
    exact Nat.lt_asymm hlt ((List.pairwise_append.1 increasing).2.2 k hk j hbehind)

/-- The columns in which two vectors of words differ. -/
def differingColumns (cols : ℕ) (xs ys : List Word) : Finset ℕ :=
  {k ∈ range cols | numberAt xs k ≠ numberAt ys k}

/-- A word that differs from a matching one makes its column differ, and no other. -/
lemma differingColumns_set {cols k : ℕ} {xs ys : List Word} {word : Word} (hxs : xs.length = cols)
    (hk : k < cols) (hsame : numberAt xs k = numberAt ys k) (hne : word.toNat ≠ numberAt xs k) :
    differingColumns cols (xs.set k word) ys = insert k (differingColumns cols xs ys) := by
  ext j
  simp only [differingColumns, mem_filter, mem_range, mem_insert, numberAt_set (hxs ▸ hk)]
  by_cases hj : j = k
  · subst hj
    simp [hk, ← hsame, hne]
  · simp [hj]

lemma toFinset_differingPlaces {cols : ℕ} {xs ys : List Word} (hxs : xs.length = cols)
    (hys : ys.length = cols) :
    (differingPlaces xs ys).toFinset = differingColumns cols xs ys := by
  rw [differingPlaces_eq (hxs.trans hys.symm), hxs]
  ext k
  simp [differingColumns]

lemma increasing_differingPlaces {xs ys : List Word} (h : xs.length = ys.length) :
    (differingPlaces xs ys).Pairwise (· < ·) := by
  rw [differingPlaces_eq h]
  exact List.pairwise_lt_range.filter _

namespace ColumnCheck

/-- The check found the exact column sums, and of the columns in which the claimed sums differ from
them the number and the first sixteen. -/
structure ExactFor (check : ColumnCheck) (s : Statement) : Prop where
  length_computed : check.computed.length = s.dataset.cols
  computed : ∀ k < s.dataset.cols, numberAt check.computed k =
    s.dataset.columnTotal s.client.weights k % Residue.modulus
  count : check.mismatchCount =
    (differingColumns s.dataset.cols s.client.claimed check.computed).card
  listed : ListsLeast check.mismatches
    (differingColumns s.dataset.cols s.client.claimed check.computed) 16
  passed_iff : check.passed = true ↔
    ∀ k < s.dataset.cols, numberAt s.client.claimed k = numberAt check.computed k

/-- The exact column sums do not depend on what is claimed of them. -/
lemma ExactFor.computed_eq {dataset : Dataset} {c c' : Client} {check check' : ColumnCheck}
    (h : check.ExactFor ⟨dataset, c⟩) (h' : check'.ExactFor ⟨dataset, c'⟩)
    (hweights : c.weights = c'.weights) : check.computed = check'.computed := by
  apply List.ext_getElem (h.length_computed.trans h'.length_computed.symm)
  intro k hk hk'
  have hcol : k < dataset.cols := h.length_computed ▸ hk
  rw [← UInt64.toNat_inj, ← numberAt_eq_getElem hk, ← numberAt_eq_getElem hk', h.computed k hcol,
    h'.computed k hcol, hweights]

end ColumnCheck

namespace Statement

variable {s : Statement}

lemma exists_exact_check [Sharing] (hweights : s.client.weights.length = s.dataset.rows)
    (hclaimed : s.client.claimed.length = s.dataset.cols) (parallel : Bool) :
    ∃ check, s.checkColumns parallel = .ok check ∧ check.ExactFor s := by
  have hcomputed := s.dataset.length_columnWords s.client.weights
  have hincreasing := increasing_differingPlaces (hclaimed.trans hcomputed.symm)
  have hplaces := toFinset_differingPlaces hclaimed hcomputed
  refine ⟨_, checkColumns_of_length_eq hweights hclaimed parallel, hcomputed, ?_, ?_, ?_, ?_⟩
  · exact fun k hk => s.dataset.numberAt_columnWords s.client.weights hk
  · have hnodup := hincreasing.imp fun {a b} (h : a < b) => Nat.ne_of_lt h
    rw [← hplaces, List.toFinset_card_of_nodup hnodup]
  · rw [← hplaces]
    exact listsLeast_take hincreasing 16
  · rw [List.isEmpty_iff, ← List.toFinset_eq_empty_iff, hplaces, differingColumns,
      filter_eq_empty_iff]
    simp only [mem_range, not_not]

lemma checkColumns_of_weights_ne [Sharing] (h : s.client.weights.length ≠ s.dataset.rows)
    (parallel : Bool) : s.checkColumns parallel =
      .error (.unequalLengths s.dataset.rows s.client.weights.length) := by
  rw [checkColumns, Dataset.columnSumsWith_eq_columnSums, Dataset.columnSums_of_length_ne _ h]
  rfl

lemma checkColumns_of_claimed_ne [Sharing] (hweights : s.client.weights.length = s.dataset.rows)
    (h : s.client.claimed.length ≠ s.dataset.cols) (parallel : Bool) :
    s.checkColumns parallel =
      .error (.unequalLengths s.dataset.cols s.client.claimed.length) := by
  have hlen : sameLength (s.dataset.columnWords s.client.weights).length s.client.claimed.length =
      .error (.unequalLengths s.dataset.cols s.client.claimed.length) := by
    rw [Dataset.length_columnWords, sameLength, if_neg h.symm]
  simp only [checkColumns, s.dataset.columnSumsWith_eq parallel hweights, bind, Except.bind, hlen]

/-- The offline check of any statement, by one worker or by several. Weights that are not one for
each row are refused first, and then claimed sums that are not one for each column. Otherwise there
is a verdict, and what it says of the columns is exact. -/
theorem checkColumns_exact [Sharing] (s : Statement) (parallel : Bool) :
    (s.checkColumns parallel = .error (.unequalLengths s.dataset.rows s.client.weights.length) ↔
      s.client.weights.length ≠ s.dataset.rows) ∧
    (s.client.weights.length = s.dataset.rows →
      (s.checkColumns parallel =
          .error (.unequalLengths s.dataset.cols s.client.claimed.length) ↔
        s.client.claimed.length ≠ s.dataset.cols)) ∧
    (s.client.weights.length = s.dataset.rows → s.client.claimed.length = s.dataset.cols →
      ∃ check, s.checkColumns parallel = .ok check ∧ check.ExactFor s) := by
  refine ⟨⟨fun h hweights => ?_, fun h => checkColumns_of_weights_ne h parallel⟩,
    fun hweights => ⟨fun h hclaimed => ?_, fun h => checkColumns_of_claimed_ne hweights h parallel⟩,
    fun hweights hclaimed => exists_exact_check hweights hclaimed parallel⟩
  · by_cases hclaimed : s.client.claimed.length = s.dataset.cols
    · obtain ⟨check, hcheck, -⟩ := exists_exact_check hweights hclaimed parallel
      rw [hcheck] at h
      cases h
    · -- the claimed sums are refused with two lengths that differ, but the weights have one
      rw [checkColumns_of_claimed_ne hweights hclaimed parallel] at h
      injection h with h
      injection h with hrows hlengths
      omega
  · obtain ⟨check, hcheck, -⟩ := exists_exact_check hweights hclaimed parallel
    rw [hcheck] at h
    cases h

/-- The sample with a claimed sum that is not reduced and another that is wrong. -/
def sampleWrong : Statement :=
  ⟨sampleDataset, { sampleClient with claimed := [144115188075855863, 7, 72057594037927935] }⟩

attribute [local instance] Sharing.halving

theorem checkColumns_exact_sample :
    sampleWrong.client.weights.length = sampleWrong.dataset.rows ∧
    sampleWrong.client.claimed.length = sampleWrong.dataset.cols ∧
    (∃ check, sampleWrong.checkColumns true = .ok check ∧ check.ExactFor sampleWrong ∧
      check.mismatches = [0, 1]) ∧
    checkColumns ⟨sampleDataset, { sampleClient with claimed := [4] }⟩ true =
      .error (.unequalLengths 3 1) := by
  have hfound : sampleWrong.checkColumns true =
      .ok ⟨[4, 6, 72057594037927935], [0, 1], 2, false⟩ := rfl
  obtain ⟨-, -, hverdict⟩ := checkColumns_exact sampleWrong true
  obtain ⟨check, hcheck, hexact⟩ := hverdict rfl rfl
  obtain ⟨-, hclaimed, -⟩ :=
    checkColumns_exact ⟨sampleDataset, { sampleClient with claimed := [4] }⟩ true
  refine ⟨rfl, rfl, ⟨check, hcheck, hexact, ?_⟩, (hclaimed rfl).2 (by decide)⟩
  rw [hcheck] at hfound
  cases hfound
  rfl

end Statement

end MatrixAudit
