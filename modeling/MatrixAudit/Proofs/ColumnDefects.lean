import MatrixAudit.ColumnCheck
import MatrixAudit.Proofs.ProductTotals

/-!
# Defects of a claim

The defect of a column is the claimed sum less the weighted sum of its entries, as an element of the
field. The offline check passes when every claimed sum is reduced and has no defect; an exchange
passes when the defects, weighed by the challenge, cancel. So the two decide one relation, and the
challenges that single out a column decide it as well as all challenges do.
-/

namespace MatrixAudit
open Finset

lemma mem_differingPlaces {xs ys : List Word} {k : ℕ} :
    k ∈ differingPlaces xs ys ↔ ∃ x y, xs[k]? = some x ∧ ys[k]? = some y ∧ x ≠ y := by
  simp only [differingPlaces, List.mem_map, List.mem_filter, List.mem_zipIdx_iff_getElem?,
    Prod.exists, bne_iff_ne, List.getElem?_zip_eq_some]
  constructor
  · rintro ⟨x, y, i, ⟨⟨hx, hy⟩, hne⟩, rfl⟩
    exact ⟨x, y, hx, hy, hne⟩
  · rintro ⟨x, y, hx, hy, hne⟩
    exact ⟨x, y, k, ⟨⟨hx, hy⟩, hne⟩, rfl⟩

lemma differingPlaces_eq_nil_iff {xs ys : List Word} (h : xs.length = ys.length) :
    differingPlaces xs ys = [] ↔ xs = ys := by
  constructor
  · intro hnil
    refine List.ext_getElem h fun k hx hy => ?_
    by_contra hne
    have hmem : k ∈ differingPlaces xs ys :=
      mem_differingPlaces.2 ⟨_, _, List.getElem?_eq_getElem hx, List.getElem?_eq_getElem hy, hne⟩
    rw [hnil] at hmem
    exact List.not_mem_nil hmem
  · rintro rfl
    refine List.eq_nil_iff_forall_not_mem.2 fun k hmem => ?_
    obtain ⟨x, y, hx, hy, hne⟩ := mem_differingPlaces.1 hmem
    exact hne (Option.some.inj (hx.symm.trans hy))

/-- The places at which two vectors of one length differ, found by going through all places. -/
lemma differingPlaces_eq {xs ys : List Word} (h : xs.length = ys.length) :
    differingPlaces xs ys =
      (List.range xs.length).filter fun k => numberAt xs k ≠ numberAt ys k := by
  have hitems : (xs.zip ys).zipIdx =
      (List.range xs.length).map fun k => ((xs.getD k 0, ys.getD k 0), k) := by
    apply List.ext_getElem
    · simp [h]
    · intro k hk _
      have hx : k < xs.length := by
        rw [List.length_zipIdx, List.length_zip] at hk
        omega
      rw [List.getElem_zipIdx, List.getElem_zip, List.getElem_map, List.getElem_range,
        List.getD_eq_getElem _ _ hx, List.getD_eq_getElem _ _ (h ▸ hx), Nat.zero_add]
  unfold differingPlaces
  rw [hitems, List.filter_map, List.map_map]
  simp only [Function.comp_def, List.map_id']
  apply List.filter_congr
  intro k _
  unfold numberAt
  rw [Bool.eq_iff_iff, bne_iff_ne, decide_eq_true_eq, Ne, Ne, UInt64.toNat_inj]

/-- The challenge that singles out column `k` of `n`. -/
def unitChallenge (n k : ℕ) : List Word := (List.replicate n 0).set k 1

lemma length_unitChallenge (n k : ℕ) : (unitChallenge n k).length = n := by
  rw [unitChallenge, List.length_set, List.length_replicate]

lemma numberAt_unitChallenge {n k : ℕ} (hk : k < n) (j : ℕ) :
    numberAt (unitChallenge n k) j = if j = k then 1 else 0 := by
  rw [numberAt, unitChallenge, List.getD_eq_getElem?_getD, List.getElem?_set, List.length_replicate,
    List.getElem?_replicate]
  by_cases hj : j = k
  · subst hj
    simp [hk]
  · have hkj : k ≠ j := fun h => hj h.symm
    simp only [hkj, hj, if_false]
    split <;> rfl

/-- Weighing the response is weighing the columns: the double sum taken in the other order. -/
lemma Dataset.cast_innerTotal_rowWords (d : Dataset) {weights : List Word}
    (h : weights.length = d.rows) (challenge : List Word) :
    (innerTotal weights (d.rowWords challenge) : ZMod Residue.modulus) =
      ∑ k ∈ range d.cols, (d.columnTotal weights k : ZMod Residue.modulus) *
        numberAt challenge k := by
  have hrow : ∀ i ∈ range d.rows, (numberAt (d.rowWords challenge) i : ZMod Residue.modulus) =
      d.rowTotal challenge i := by
    intro i hi
    have hlen : i < (d.rowWords challenge).length := by
      rw [length_rowWords]
      exact mem_range.1 hi
    rw [numberAt_eq_getElem hlen]
    simp only [rowWords, List.getElem_map, List.getElem_range]
    exact Residue.toField_ofNat _
  rw [innerTotal, h, Nat.cast_sum]
  calc ∑ i ∈ range d.rows, ((numberAt weights i * numberAt (d.rowWords challenge) i : ℕ) :
          ZMod Residue.modulus)
      = ∑ i ∈ range d.rows, ∑ k ∈ range d.cols,
          (numberAt weights i * d.number i k * numberAt challenge k : ZMod Residue.modulus) := by
        refine sum_congr rfl fun i hi => ?_
        rw [Nat.cast_mul, hrow i hi, rowTotal, Nat.cast_sum, mul_sum]
        refine sum_congr rfl fun k _ => ?_
        rw [Nat.cast_mul, mul_assoc]
    _ = ∑ k ∈ range d.cols, ∑ i ∈ range d.rows,
          (numberAt weights i * d.number i k * numberAt challenge k : ZMod Residue.modulus) :=
        sum_comm
    _ = _ := by
        refine sum_congr rfl fun k _ => ?_
        rw [columnTotal, Nat.cast_sum, sum_mul]
        refine sum_congr rfl fun i _ => ?_
        rw [Nat.cast_mul]

/-- Two rows of three entries, among them the greatest. -/
def sampleDataset : Dataset where
  rows := 2
  cols := 3
  entries := [1, 2, 72057594037927935, 3, 4, 0]
  valid := by decide
  length_entries := rfl
  entry_lt := by simp [entryWidth]

/-- A true claim about the sample's columns, with a first weight that is not reduced. -/
def sampleClient : Client := ⟨3, 2, [144115188075855860, 1], [4, 6, 72057594037927935]⟩

namespace Statement

/-- The dimensions of the parts and the lengths of the vectors agree. -/
structure Fits (s : Statement) : Prop where
  rows_eq : s.dataset.rows = s.client.m
  cols_eq : s.dataset.cols = s.client.n
  length_weights : s.client.m = s.client.weights.length
  length_claimed : s.client.n = s.client.claimed.length

/-- The balance of an exchange whose response is honest. -/
def honestBalance [Sharing] (s : Statement) (parallel : Bool) (challenge : List Word) :
    Except Failure Balance := do
  let response ← s.dataset.responseWith parallel challenge
  s.client.balance challenge response

/-- An exchange about the challenge passes when the response is honest. -/
def Passes [Sharing] (s : Statement) (parallel : Bool) (challenge : List Word) : Prop :=
  ∃ balance, s.honestBalance parallel challenge = .ok balance ∧ balance.passed = true

/-- By how much the claimed sum of column `k` is off. -/
def defect (s : Statement) (k : ℕ) : ZMod Residue.modulus :=
  numberAt s.client.claimed k - s.dataset.columnTotal s.client.weights k

/-- The parts are joined if their four pairs of lengths agree; the first pair that does not is
refused. -/
lemma ofParts_eq (dataset : Dataset) (client : Client) :
    ofParts dataset client =
      if dataset.rows ≠ client.m then .error (.unequalLengths dataset.rows client.m)
      else if dataset.cols ≠ client.n then .error (.unequalLengths dataset.cols client.n)
      else if client.m ≠ client.weights.length then
        .error (.unequalLengths client.m client.weights.length)
      else if client.n ≠ client.claimed.length then
        .error (.unequalLengths client.n client.claimed.length)
      else .ok ⟨dataset, client⟩ := by
  unfold ofParts sameLength
  by_cases hrows : dataset.rows = client.m
  swap
  · rw [if_neg hrows, if_pos hrows]
    rfl
  by_cases hcols : dataset.cols = client.n
  swap
  · rw [if_pos hrows, if_neg hcols, if_neg (not_not.2 hrows), if_pos hcols]
    rfl
  by_cases hweights : client.m = client.weights.length
  swap
  · rw [if_pos hrows, if_pos hcols, if_neg hweights, if_neg (not_not.2 hrows),
      if_neg (not_not.2 hcols), if_pos hweights]
    rfl
  by_cases hclaimed : client.n = client.claimed.length
  swap
  · rw [if_pos hrows, if_pos hcols, if_pos hweights, if_neg hclaimed, if_neg (not_not.2 hrows),
      if_neg (not_not.2 hcols), if_neg (not_not.2 hweights), if_pos hclaimed]
    rfl
  rw [if_pos hrows, if_pos hcols, if_pos hweights, if_pos hclaimed, if_neg (not_not.2 hrows),
    if_neg (not_not.2 hcols), if_neg (not_not.2 hweights), if_neg (not_not.2 hclaimed)]
  rfl

lemma ofParts_eq_ok {dataset : Dataset} {client : Client} {s : Statement}
    (h : ofParts dataset client = .ok s) : s = ⟨dataset, client⟩ ∧ s.Fits := by
  rw [ofParts_eq] at h
  split_ifs at h with hrows hcols hweights hclaimed
  cases h
  exact ⟨rfl, not_not.1 hrows, not_not.1 hcols, not_not.1 hweights, not_not.1 hclaimed⟩

variable {s : Statement}

lemma ofParts_of_fits (fits : s.Fits) : ofParts s.dataset s.client = .ok s := by
  rw [ofParts_eq, if_neg (not_not.2 fits.rows_eq), if_neg (not_not.2 fits.cols_eq),
    if_neg (not_not.2 fits.length_weights), if_neg (not_not.2 fits.length_claimed)]

lemma balance_rowWords (fits : s.Fits) {challenge : List Word} (h : challenge.length = s.client.n) :
    s.client.balance challenge (s.dataset.rowWords challenge) =
      .ok ⟨Residue.ofNat (innerTotal s.client.weights (s.dataset.rowWords challenge)),
        Residue.ofNat (innerTotal s.client.claimed challenge)⟩ := by
  have hrows : s.client.weights.length = (s.dataset.rowWords challenge).length := by
    rw [Dataset.length_rowWords, fits.rows_eq, fits.length_weights]
  have hcols : s.client.claimed.length = challenge.length := by rw [h, fits.length_claimed]
  exact Client.balance_of_length_eq hrows hcols

lemma honestBalance_eq [Sharing] (fits : s.Fits) (parallel : Bool) {challenge : List Word}
    (h : challenge.length = s.client.n) :
    s.honestBalance parallel challenge =
      .ok ⟨Residue.ofNat (innerTotal s.client.weights (s.dataset.rowWords challenge)),
        Residue.ofNat (innerTotal s.client.claimed challenge)⟩ := by
  rw [honestBalance, s.dataset.responseWith_eq parallel (h.trans fits.cols_eq.symm)]
  exact balance_rowWords fits h

lemma cast_innerTotal_rowWords (fits : s.Fits) (challenge : List Word) :
    (innerTotal s.client.weights (s.dataset.rowWords challenge) : ZMod Residue.modulus) =
      ∑ k ∈ range s.client.n, (s.dataset.columnTotal s.client.weights k : ZMod Residue.modulus) *
        numberAt challenge k := by
  rw [← fits.cols_eq]
  exact s.dataset.cast_innerTotal_rowWords (by rw [fits.rows_eq, fits.length_weights]) challenge

/-- An exchange passes iff the defects, weighed by the challenge, cancel. -/
theorem passes_iff [Sharing] (fits : s.Fits) (parallel : Bool) {challenge : List Word}
    (h : challenge.length = s.client.n) :
    s.Passes parallel challenge ↔
      ∑ k ∈ range s.client.n, s.defect k * (numberAt challenge k : ZMod Residue.modulus) = 0 := by
  have hsplit : ∑ k ∈ range s.client.n, s.defect k * (numberAt challenge k : ZMod Residue.modulus) =
      innerTotal s.client.claimed challenge -
        innerTotal s.client.weights (s.dataset.rowWords challenge) := by
    rw [cast_innerTotal_rowWords fits, innerTotal, ← fits.length_claimed, Nat.cast_sum,
      ← sum_sub_distrib]
    refine sum_congr rfl fun k _ => ?_
    rw [defect, Nat.cast_mul, sub_mul]
  rw [hsplit, sub_eq_zero, ← Residue.ofNat_eq_ofNat_iff, Passes, honestBalance_eq fits parallel h]
  constructor
  · rintro ⟨balance, heq, hpassed⟩
    obtain rfl := Except.ok.inj heq
    exact (beq_iff_eq.1 hpassed).symm
  · intro heq
    exact ⟨_, rfl, beq_iff_eq.2 heq.symm⟩

lemma passes_unitChallenge_iff [Sharing] (fits : s.Fits) (parallel : Bool) {k : ℕ}
    (hk : k < s.client.n) :
    s.Passes parallel (unitChallenge s.client.n k) ↔ s.defect k = 0 := by
  rw [passes_iff fits parallel (length_unitChallenge _ _),
    sum_eq_single_of_mem k (mem_range.2 hk), numberAt_unitChallenge hk, if_pos rfl, Nat.cast_one,
    mul_one]
  intro j _ hj
  rw [numberAt_unitChallenge hk, if_neg hj, Nat.cast_zero, mul_zero]

/-- The offline check compares the claimed sums with the canonical words of the column sums. -/
lemma checkColumns_of_length_eq [Sharing] {s : Statement}
    (hweights : s.client.weights.length = s.dataset.rows)
    (hclaimed : s.client.claimed.length = s.dataset.cols) (parallel : Bool) :
    let computed := s.dataset.columnWords s.client.weights
    let places := differingPlaces s.client.claimed computed
    s.checkColumns parallel =
      .ok ⟨computed, places.take listedMismatches, places.length, places.isEmpty⟩ := by
  have hlen : (s.dataset.columnWords s.client.weights).length = s.client.claimed.length := by
    rw [Dataset.length_columnWords, hclaimed]
  simp only [checkColumns, s.dataset.columnSumsWith_eq parallel hweights, bind, Except.bind,
    sameLength, if_pos hlen]
  rfl

lemma checkColumns_eq [Sharing] (fits : s.Fits) (parallel : Bool) :
    let computed := s.dataset.columnWords s.client.weights
    let places := differingPlaces s.client.claimed computed
    s.checkColumns parallel =
      .ok ⟨computed, places.take listedMismatches, places.length, places.isEmpty⟩ :=
  checkColumns_of_length_eq (by rw [fits.rows_eq, fits.length_weights])
    (by rw [fits.cols_eq, fits.length_claimed]) parallel

lemma claimed_eq_columnWords_iff (fits : s.Fits) :
    s.client.claimed = s.dataset.columnWords s.client.weights ↔
      (∀ word ∈ s.client.claimed, Residue.isReduced word = true) ∧
        ∀ k < s.client.n, s.defect k = 0 := by
  have hlen : s.client.claimed.length = (s.dataset.columnWords s.client.weights).length := by
    rw [Dataset.length_columnWords, fits.cols_eq, fits.length_claimed]
  have hword : ∀ k (hk : k < s.client.claimed.length)
      (hk' : k < (s.dataset.columnWords s.client.weights).length),
      s.client.claimed[k] = (s.dataset.columnWords s.client.weights)[k] ↔
        Residue.isReduced s.client.claimed[k] = true ∧ s.defect k = 0 := by
    intro k hk hk'
    simp only [Dataset.columnWords, List.getElem_map, List.getElem_range]
    rw [Residue.eq_ofNat_iff, defect, sub_eq_zero, numberAt_eq_getElem hk, Residue.toField]
  rw [List.ext_getElem_iff, List.forall_mem_iff_getElem, fits.length_claimed]
  constructor
  · rintro ⟨-, heq⟩
    exact ⟨fun k hk => ((hword k hk (hlen ▸ hk)).1 (heq k hk (hlen ▸ hk))).1,
      fun k hk => ((hword k hk (hlen ▸ hk)).1 (heq k hk (hlen ▸ hk))).2⟩
  · rintro ⟨hred, hdefect⟩
    exact ⟨hlen, fun k hk hk' => (hword k hk hk').2 ⟨hred k hk, hdefect k hk⟩⟩

/-- The offline check always reaches a verdict. It passes iff every claimed sum is reduced and no
column has a defect. -/
theorem exists_checkColumns [Sharing] (fits : s.Fits) (parallel : Bool) :
    ∃ check, s.checkColumns parallel = .ok check ∧
      (check.passed = true ↔ (∀ word ∈ s.client.claimed, Residue.isReduced word = true) ∧
        ∀ k < s.client.n, s.defect k = 0) := by
  refine ⟨_, checkColumns_eq fits parallel, ?_⟩
  rw [← claimed_eq_columnWords_iff fits, List.isEmpty_iff, differingPlaces_eq_nil_iff]
  rw [Dataset.length_columnWords, fits.cols_eq, fits.length_claimed]

/-- The offline check passes iff the claimed sums are reduced and the honest exchange passes for
every challenge; for the converse the challenges that single out a column are enough. -/
theorem checkColumns_passed_iff_passes [Sharing] {dataset : Dataset} {client : Client}
    {s : Statement} (accepted : ofParts dataset client = .ok s) (parallel shared : Bool) :
    ∃ check, s.checkColumns parallel = .ok check ∧
      (check.passed = true ↔ (∀ word ∈ s.client.claimed, Residue.isReduced word = true) ∧
        ∀ challenge : List Word, challenge.length = s.client.n → s.Passes shared challenge) ∧
      ((∀ word ∈ s.client.claimed, Residue.isReduced word = true) →
        (∀ k < s.client.n, s.Passes shared (unitChallenge s.client.n k)) →
          check.passed = true) := by
  have fits : s.Fits := (ofParts_eq_ok accepted).2
  obtain ⟨check, hcheck, hpassed⟩ := exists_checkColumns fits parallel
  have hunits : (∀ k < s.client.n, s.Passes shared (unitChallenge s.client.n k)) ↔
      ∀ k < s.client.n, s.defect k = 0 :=
    forall₂_congr fun k hk => passes_unitChallenge_iff fits shared hk
  refine ⟨check, hcheck, ?_, fun hred hpass => hpassed.2 ⟨hred, hunits.1 hpass⟩⟩
  rw [hpassed]
  refine and_congr_right fun _ => ⟨fun hdefect challenge hlen => ?_, fun hpass => ?_⟩
  · rw [passes_iff fits shared hlen]
    exact sum_eq_zero fun k hk => by rw [hdefect k (mem_range.1 hk), zero_mul]
  · exact hunits.1 fun k _ => hpass _ (length_unitChallenge _ _)

attribute [local instance] Sharing.halving

theorem checkColumns_passed_iff_passes_sample :
    ofParts sampleDataset sampleClient = .ok ⟨sampleDataset, sampleClient⟩ ∧
    ∃ check, checkColumns ⟨sampleDataset, sampleClient⟩ true = .ok check ∧
      (check.passed = true ↔ (∀ word ∈ sampleClient.claimed, Residue.isReduced word = true) ∧
        ∀ challenge : List Word, challenge.length = 3 →
          Passes ⟨sampleDataset, sampleClient⟩ false challenge) := by
  have accepted : ofParts sampleDataset sampleClient = .ok ⟨sampleDataset, sampleClient⟩ := rfl
  obtain ⟨check, hcheck, hiff, -⟩ := checkColumns_passed_iff_passes accepted true false
  exact ⟨accepted, check, hcheck, hiff⟩

end Statement

end MatrixAudit
