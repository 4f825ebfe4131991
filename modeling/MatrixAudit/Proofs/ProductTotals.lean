import MatrixAudit.Proofs.InnerTotals
import MatrixAudit.Proofs.SharedWork
import MatrixAudit.Proofs.WireWords

/-!
# Products with a dataset as sums of naturals

A dataset has a number at each row and column. The column sums and the response are the canonical
words of the exact sums of these numbers times the weights or the challenge, whoever computes them.
-/

namespace MatrixAudit
open Finset

lemma eq_map_range (xs : List Word) : xs = (List.range xs.length).map fun i => xs.getD i 0 := by
  refine List.ext_getElem (by simp) fun i h _ => ?_
  rw [List.getElem_map, List.getElem_range, List.getD_eq_getElem _ _ h]

lemma sum_map_range (n : ℕ) (f : ℕ → ℕ) : ((List.range n).map f).sum = ∑ i ∈ range n, f i := rfl

lemma mapM_eq_ok {α β ε : Type} {f : α → Except ε β} {g : α → β} {items : List α}
    (h : ∀ item ∈ items, f item = .ok (g item)) : items.mapM f = .ok (items.map g) := by
  induction items with
  | nil => rfl
  | cons item items ih =>
    rw [List.mapM_cons, h item List.mem_cons_self,
      ih fun item hitem => h item (List.mem_cons_of_mem _ hitem)]
    rfl

lemma addWeighted_getD {cols : ℕ} {sums : List ℕ} {row : List Word} (weight : Word) {k : ℕ}
    (hsums : sums.length = cols) (hrow : row.length = cols) (hk : k < cols) :
    ((addWeighted sums row weight).getD k 0 : ZMod Residue.modulus) =
      sums.getD k 0 + (weight.toNat * numberAt row k : ℕ) := by
  have hlen : k < (addWeighted sums row weight).length := by rw [length_addWeighted]; omega
  rw [List.getD_eq_getElem _ _ hlen, List.getD_eq_getElem _ _ (by omega),
    numberAt_eq_getElem (by omega)]
  simp only [addWeighted, List.getElem_zipWith, Residue.toNat_mul]
  push_cast [ZMod.natCast_mod]
  ring

lemma length_foldl_addWeighted {cols : ℕ} (items : List (List Word × Word)) {sums : List ℕ}
    (hsums : sums.length = cols) (hrows : ∀ item ∈ items, item.1.length = cols) :
    (items.foldl (fun sums item => addWeighted sums item.1 item.2) sums).length = cols := by
  induction items generalizing sums with
  | nil => exact hsums
  | cons item items ih =>
    have hrow : item.1.length = cols := hrows item List.mem_cons_self
    refine ih ?_ fun item h => hrows item (List.mem_cons_of_mem _ h)
    rw [length_addWeighted, hsums, hrow, Nat.min_self]

/-- Every column accumulator stands for the weighted sum of the numbers in its column. -/
lemma foldl_addWeighted_getD {cols k : ℕ} (hk : k < cols) (items : List (List Word × Word))
    {sums : List ℕ} (hsums : sums.length = cols) (hrows : ∀ item ∈ items, item.1.length = cols) :
    ((items.foldl (fun sums item => addWeighted sums item.1 item.2) sums).getD k 0 :
        ZMod Residue.modulus) =
      sums.getD k 0 + (items.map fun item => item.2.toNat * numberAt item.1 k).sum := by
  induction items generalizing sums with
  | nil => simp
  | cons item items ih =>
    have hrow : item.1.length = cols := hrows item List.mem_cons_self
    have hnext : (addWeighted sums item.1 item.2).length = cols := by
      rw [length_addWeighted, hsums, hrow, Nat.min_self]
    rw [List.foldl_cons, ih hnext fun item h => hrows item (List.mem_cons_of_mem _ h),
      addWeighted_getD _ hsums hrow hk, List.map_cons, List.sum_cons, Nat.cast_add, add_assoc]

namespace Dataset

/-- The number in row `i` and column `k`. -/
def number (d : Dataset) (i k : ℕ) : ℕ := numberAt d.entries (i * d.cols + k)

/-- The exact weighted sum of column `k`. -/
def columnTotal (d : Dataset) (weights : List Word) (k : ℕ) : ℕ :=
  ∑ i ∈ range d.rows, numberAt weights i * d.number i k

/-- The exact sum of the products of row `i` and the challenge. -/
def rowTotal (d : Dataset) (challenge : List Word) (i : ℕ) : ℕ :=
  ∑ k ∈ range d.cols, d.number i k * numberAt challenge k

/-- The canonical words of the weighted column sums. -/
def columnWords (d : Dataset) (weights : List Word) : List Word :=
  (List.range d.cols).map fun k => Residue.ofNat (d.columnTotal weights k)

/-- The canonical words of the products of the rows and the challenge. -/
def rowWords (d : Dataset) (challenge : List Word) : List Word :=
  (List.range d.rows).map fun i => Residue.ofNat (d.rowTotal challenge i)

lemma isReduced_of_mem_columnWords {d : Dataset} {weights : List Word} {word : Word}
    (h : word ∈ d.columnWords weights) : Residue.isReduced word = true := by
  obtain ⟨k, -, rfl⟩ := List.mem_map.1 h
  exact Residue.isReduced_ofNat _

lemma isReduced_of_mem_rowWords {d : Dataset} {challenge : List Word} {word : Word}
    (h : word ∈ d.rowWords challenge) : Residue.isReduced word = true := by
  obtain ⟨i, -, rfl⟩ := List.mem_map.1 h
  exact Residue.isReduced_ofNat _

variable (d : Dataset)

lemma length_columnWords (weights : List Word) : (d.columnWords weights).length = d.cols := by
  rw [columnWords, List.length_map, List.length_range]

lemma length_rowWords (challenge : List Word) : (d.rowWords challenge).length = d.rows := by
  rw [rowWords, List.length_map, List.length_range]

lemma numberAt_columnWords (weights : List Word) {k : ℕ} (hk : k < d.cols) :
    numberAt (d.columnWords weights) k = d.columnTotal weights k % Residue.modulus := by
  have hlen : k < (d.columnWords weights).length := by rwa [length_columnWords]
  rw [numberAt_eq_getElem hlen]
  simp only [columnWords, List.getElem_map, List.getElem_range]
  exact Residue.toNat_ofNat _

lemma rowList_eq :
    d.rowList = (List.range d.rows).map fun i => (d.entries.drop (i * d.cols)).take d.cols :=
  pieces_eq _ _ _

lemma length_row {i : ℕ} (hi : i < d.rows) :
    ((d.entries.drop (i * d.cols)).take d.cols).length = d.cols := by
  have hfit : (i + 1) * d.cols ≤ d.rows * d.cols := Nat.mul_le_mul_right _ hi
  rw [Nat.succ_mul] at hfit
  rw [List.length_take, List.length_drop, d.length_entries]
  omega

lemma length_of_mem_rowList {row : List Word} (h : row ∈ d.rowList) : row.length = d.cols := by
  rw [rowList_eq, List.mem_map] at h
  obtain ⟨i, hi, rfl⟩ := h
  exact d.length_row (List.mem_range.1 hi)

lemma numberAt_row {i k : ℕ} (hk : k < d.cols) :
    numberAt ((d.entries.drop (i * d.cols)).take d.cols) k = d.number i k := by
  simp only [numberAt, number, List.getD_eq_getElem?_getD]
  rw [List.getElem?_take_of_lt hk, List.getElem?_drop]

lemma innerTotal_row (challenge : List Word) {i : ℕ} (hi : i < d.rows) :
    innerTotal ((d.entries.drop (i * d.cols)).take d.cols) challenge = d.rowTotal challenge i := by
  rw [innerTotal, rowTotal, d.length_row hi]
  refine sum_congr rfl fun k hk => ?_
  rw [d.numberAt_row (mem_range.1 hk)]

lemma weighted_eq {weights : List Word} (h : weights.length = d.rows) :
    d.weighted weights = (List.range d.rows).map fun i =>
      ((d.entries.drop (i * d.cols)).take d.cols, weights.getD i 0) := by
  rw [weighted, rowList_eq]
  conv_lhs => rw [eq_map_range weights, h]
  exact List.zip_map'

theorem columnSums_eq {weights : List Word} (h : weights.length = d.rows) :
    d.columnSums weights = .ok (d.columnWords weights) := by
  have hrows : ∀ item ∈ d.weighted weights, item.1.length = d.cols := fun item hitem =>
    d.length_of_mem_rowList (List.of_mem_zip hitem).1
  have hzero : (zeroSums d.cols).length = d.cols := List.length_replicate
  rw [columnSums, sameLength, if_pos h.symm]
  refine congrArg Except.ok (List.ext_getElem ?_ fun k hk _ => ?_)
  · rw [List.length_map, length_foldl_addWeighted _ hzero hrows, length_columnWords]
  · have hk' : k < d.cols := by
      rwa [List.length_map, length_foldl_addWeighted _ hzero hrows] at hk
    have hsum := foldl_addWeighted_getD hk' (d.weighted weights) hzero hrows
    rw [List.getD_eq_getElem _ _ (by rwa [length_foldl_addWeighted _ hzero hrows])] at hsum
    simp only [columnWords, List.getElem_map, List.getElem_range]
    rw [Residue.ofNat_eq_ofNat_iff, hsum, d.weighted_eq h, List.map_map]
    simp only [zeroSums, Function.comp_def, d.numberAt_row hk', sum_map_range]
    simp [columnTotal, numberAt]

theorem response_eq {challenge : List Word} (h : challenge.length = d.cols) :
    d.response challenge = .ok (d.rowWords challenge) := by
  have hrow : ∀ row ∈ d.rowList,
      innerProduct row challenge = .ok (Residue.ofNat (innerTotal row challenge)) := fun row hr =>
    innerProduct_eq (by rw [d.length_of_mem_rowList hr, h])
  rw [response, sameLength, if_pos h.symm]
  refine (mapM_eq_ok hrow).trans (congrArg Except.ok ?_)
  rw [rowList_eq, List.map_map, rowWords]
  refine List.map_congr_left fun i hi => ?_
  rw [Function.comp_apply, d.innerTotal_row challenge (List.mem_range.1 hi)]

/-- Sharing the rows out does not change the column sums. -/
lemma columnSumsBy_eq {share : List (List Word × Word) → Split (List Word × Word)}
    {weights : List Word} (hshare : (share (d.weighted weights)).items = d.weighted weights) :
    d.columnSumsBy share weights = d.columnSums weights := by
  have hrows : ∀ item ∈ (share (d.weighted weights)).items, item.1.length = d.cols := by
    intro item hitem
    rw [hshare] at hitem
    exact d.length_of_mem_rowList (List.of_mem_zip hitem).1
  rw [columnSumsBy, sharedSums_eq _ _ hrows, hshare]
  rfl

/-- Sharing the rows out does not change the response. -/
lemma responseBy_eq {share : List (List Word) → Split (List Word)}
    (hshare : (share d.rowList).items = d.rowList) (challenge : List Word) :
    d.responseBy share challenge = d.response challenge := by
  rw [responseBy, Split.mapM_eq, hshare]
  rfl

lemma columnSumsWith_eq_columnSums [Sharing] (parallel : Bool) (weights : List Word) :
    d.columnSumsWith parallel weights = d.columnSums weights := by
  rw [columnSumsWith, d.columnSumsBy_eq (Sharing.items_share _), ite_self]

lemma responseWith_eq_response [Sharing] (parallel : Bool) (challenge : List Word) :
    d.responseWith parallel challenge = d.response challenge := by
  rw [responseWith, d.responseBy_eq (Sharing.items_share _), ite_self]

theorem columnSumsWith_eq [Sharing] (parallel : Bool) {weights : List Word}
    (h : weights.length = d.rows) :
    d.columnSumsWith parallel weights = .ok (d.columnWords weights) := by
  rw [columnSumsWith_eq_columnSums, d.columnSums_eq h]

theorem responseWith_eq [Sharing] (parallel : Bool) {challenge : List Word}
    (h : challenge.length = d.cols) :
    d.responseWith parallel challenge = .ok (d.rowWords challenge) := by
  rw [responseWith_eq_response, d.response_eq h]

lemma columnSums_of_length_ne {weights : List Word} (h : weights.length ≠ d.rows) :
    d.columnSums weights = .error (.unequalLengths d.rows weights.length) := by
  rw [columnSums, sameLength, if_neg h.symm]
  rfl

lemma response_of_length_ne {challenge : List Word} (h : challenge.length ≠ d.cols) :
    d.response challenge = .error (.unequalLengths d.cols challenge.length) := by
  rw [response, sameLength, if_neg h.symm]
  rfl

lemma responseWith_of_length_ne [Sharing] (parallel : Bool) {challenge : List Word}
    (h : challenge.length ≠ d.cols) :
    d.responseWith parallel challenge = .error (.unequalLengths d.cols challenge.length) := by
  rw [responseWith_eq_response, d.response_of_length_ne h]

end Dataset

end MatrixAudit
