import MatrixAudit.Proofs.ColumnDefects

/-!
# Products by any split of the rows

The rows can be cut into segments anywhere, and any tree can merge the partial results, with idle
workers among its leaves: the column sums and the response are those that one worker finds. No
accumulator outgrows 128 bits on the way, so nothing changes when every addition is cut to them.
-/

namespace MatrixAudit

/-- Accumulators of 128 bits count modulo this number. -/
def accumulatorSize : ℕ := 2 ^ 128

def wrapped (sums : List ℕ) : List ℕ := sums.map (· % accumulatorSize)

/-- The column sums as a split shares them out, with every addition cut to 128 bits. -/
def wrappedSums (cols : ℕ) (work : Split (List Word × Word)) : List ℕ :=
  work.fold (zeroSums cols) (fun sums item => wrapped (addWeighted sums item.1 item.2))
    (fun left right => wrapped (List.zipWith (· + ·) left right))

def AtMost (bound : ℕ) (sums : List ℕ) : Prop := ∀ sum ∈ sums, sum ≤ bound

lemma toNat_mul_le (a b : Word) : (Residue.mul a b).toNat ≤ Residue.modulus - 1 := by
  rw [Residue.toNat_mul]
  exact Nat.le_sub_one_of_lt (Nat.mod_lt _ Residue.prime_modulus.pos)

/-- As many reduced terms as there can be rows do not fill an accumulator. -/
lemma mul_lt_accumulatorSize {count : ℕ} (h : count < UInt64.size) :
    count * (Residue.modulus - 1) < accumulatorSize := calc
  count * (Residue.modulus - 1) ≤ UInt64.size * (Residue.modulus - 1) :=
    Nat.mul_le_mul_right _ (Nat.le_of_lt h)
  _ < accumulatorSize := by decide

section AtMost

variable {bound : ℕ} {sums : List ℕ}

lemma wrapped_eq (h : AtMost bound sums) (hbound : bound < accumulatorSize) :
    wrapped sums = sums := by
  unfold wrapped
  conv_rhs => rw [← List.map_id sums]
  apply List.map_congr_left
  intro sum hsum
  exact Nat.mod_eq_of_lt ((h sum hsum).trans_lt hbound)

lemma atMost_zeroSums (cols : ℕ) : AtMost 0 (zeroSums cols) := by
  intro sum hsum
  rw [List.eq_of_mem_replicate hsum]

lemma AtMost.addWeighted (h : AtMost bound sums) (row : List Word) (weight : Word) :
    AtMost (bound + (Residue.modulus - 1)) (addWeighted sums row weight) := by
  intro sum hsum
  obtain ⟨k, hk, rfl⟩ := List.mem_iff_getElem.1 hsum
  simp only [MatrixAudit.addWeighted, List.getElem_zipWith]
  exact Nat.add_le_add (h _ (List.getElem_mem _)) (toNat_mul_le _ _)

lemma AtMost.zipWith_add {other : ℕ} {right : List ℕ} (h : AtMost bound sums)
    (hright : AtMost other right) : AtMost (bound + other) (List.zipWith (· + ·) sums right) := by
  intro sum hsum
  obtain ⟨k, hk, rfl⟩ := List.mem_iff_getElem.1 hsum
  rw [List.getElem_zipWith]
  exact Nat.add_le_add (h _ (List.getElem_mem _)) (hright _ (List.getElem_mem _))

end AtMost

/-- An accumulator holds at most one reduced term for each row that went into it. -/
theorem atMost_sharedSums (cols : ℕ) (work : Split (List Word × Word)) :
    AtMost (work.items.length * (Residue.modulus - 1)) (sharedSums cols work) := by
  induction work with
  | idle =>
    rw [Split.items, List.length_nil, Nat.zero_mul]
    exact atMost_zeroSums cols
  | segment items =>
    rw [Split.items]
    induction items using List.reverseRecOn with
    | nil =>
      rw [List.length_nil, Nat.zero_mul]
      exact atMost_zeroSums cols
    | append_singleton items item ih =>
      have hstep : sharedSums cols (.segment (items ++ [item])) =
          addWeighted (sharedSums cols (.segment items)) item.1 item.2 := List.foldl_concat ..
      rw [hstep, List.length_append, List.length_singleton, Nat.succ_mul]
      exact ih.addWeighted item.1 item.2
  | both left right ihl ihr =>
    rw [Split.items, List.length_append, Nat.add_mul]
    exact ihl.zipWith_add ihr

/-- No addition outgrows its accumulator, in any segment and in any merge. -/
theorem wrappedSums_eq (cols : ℕ) (work : Split (List Word × Word))
    (h : work.items.length < UInt64.size) : wrappedSums cols work = sharedSums cols work := by
  induction work with
  | idle => rfl
  | segment items =>
    rw [Split.items] at h
    -- rows are added last, to accumulators that nothing was cut from
    induction items using List.reverseRecOn with
    | nil => rfl
    | append_singleton items item ih =>
      have hlen : items.length < UInt64.size := by
        rw [List.length_append] at h
        omega
      have hwrapped : wrappedSums cols (.segment (items ++ [item])) =
          wrapped (addWeighted (wrappedSums cols (.segment items)) item.1 item.2) :=
        List.foldl_concat ..
      have hstep : sharedSums cols (.segment (items ++ [item])) =
          addWeighted (sharedSums cols (.segment items)) item.1 item.2 := List.foldl_concat ..
      rw [hwrapped, ih hlen, ← hstep]
      exact wrapped_eq (atMost_sharedSums cols _) (mul_lt_accumulatorSize h)
  | both left right ihl ihr =>
    have hlen := h
    rw [Split.items, List.length_append] at hlen
    have hwrapped : wrappedSums cols (.both left right) =
        wrapped (List.zipWith (· + ·) (wrappedSums cols left) (wrappedSums cols right)) := rfl
    rw [hwrapped, ihl (by omega), ihr (by omega)]
    exact wrapped_eq (atMost_sharedSums cols (.both left right)) (mul_lt_accumulatorSize h)

namespace Dataset

variable (d : Dataset)

lemma length_weighted_lt (weights : List Word) : (d.weighted weights).length < UInt64.size := by
  have hrows : d.rowList.length = d.rows := length_pieces _ _ _
  have hlen : (d.weighted weights).length ≤ d.rowList.length := by
    rw [weighted, List.length_zip]
    exact Nat.min_le_left _ _
  rw [hrows] at hlen
  exact hlen.trans_lt d.valid.lt_size.2

/-- However the rows are cut and the partial results merged, the column sums and the response are
those of one worker, also with accumulators of 128 bits. Vectors of the wrong length are refused
alike, and so do the two ways in which a product is computed agree. -/
theorem products_eq_of_split [Sharing] :
    (∀ (weights : List Word) (work : Split (List Word × Word)), work.items = d.weighted weights →
      d.columnSumsBy (fun _ => work) weights = d.columnSums weights ∧
      (weights.length = d.rows →
        d.columnSums weights = .ok ((wrappedSums d.cols work).map Residue.ofNat))) ∧
    (∀ (challenge : List Word) (work : Split (List Word)), work.items = d.rowList →
      d.responseBy (fun _ => work) challenge = d.response challenge) ∧
    (∀ (weights : List Word) (share : List (List Word × Word) → Split (List Word × Word)),
      weights.length ≠ d.rows →
        d.columnSums weights = .error (.unequalLengths d.rows weights.length) ∧
        d.columnSumsBy share weights = .error (.unequalLengths d.rows weights.length)) ∧
    (∀ (challenge : List Word) (share : List (List Word) → Split (List Word)),
      challenge.length ≠ d.cols →
        d.response challenge = .error (.unequalLengths d.cols challenge.length) ∧
        d.responseBy share challenge = .error (.unequalLengths d.cols challenge.length)) ∧
    ∀ vector : List Word, d.columnSumsWith true vector = d.columnSumsWith false vector ∧
      d.responseWith true vector = d.responseWith false vector := by
  refine ⟨?_, ?_, ?_, ?_, ?_⟩
  · intro weights work hwork
    have hsums : d.columnSumsBy (fun _ => work) weights = d.columnSums weights :=
      d.columnSumsBy_eq hwork
    refine ⟨hsums, fun hlen => ?_⟩
    have hwrapped : wrappedSums d.cols work = sharedSums d.cols work := by
      apply wrappedSums_eq
      rw [hwork]
      exact d.length_weighted_lt weights
    rw [hwrapped, ← hsums, columnSumsBy, sameLength, if_pos hlen.symm]
    rfl
  · intro challenge work hwork
    exact d.responseBy_eq hwork challenge
  · intro weights share hlen
    refine ⟨d.columnSums_of_length_ne hlen, ?_⟩
    rw [columnSumsBy, sameLength, if_neg hlen.symm]
    rfl
  · intro challenge share hlen
    refine ⟨d.response_of_length_ne hlen, ?_⟩
    rw [responseBy, sameLength, if_neg hlen.symm]
    rfl
  · intro vector
    simp only [columnSumsWith_eq_columnSums, responseWith_eq_response, and_self]

attribute [local instance] Sharing.halving

theorem products_eq_of_split_sample :
    let weights : List Word := [144115188075855860, 1]
    let work : Split (List Word × Word) :=
      .both (.both .idle (.segment [([1, 2, 72057594037927935], 144115188075855860)]))
        (.both (.segment []) (.segment [([3, 4, 0], 1)]))
    let rows : Split (List Word) := .both (.segment [[1, 2, 72057594037927935]])
      (.both (.segment [[3, 4, 0]]) .idle)
    work.items = sampleDataset.weighted weights ∧
    sampleDataset.columnSumsBy (fun _ => work) weights = .ok [4, 6, 72057594037927935] ∧
    (wrappedSums 3 work).map Residue.ofNat = [4, 6, 72057594037927935] ∧
    rows.items = sampleDataset.rowList ∧
    sampleDataset.responseBy (fun _ => rows) [5, 7, 1] = .ok [72057594037927954, 43] ∧
    sampleDataset.columnSumsBy .segment [1] = .error (.unequalLengths 2 1) ∧
    sampleDataset.responseBy .segment [1] = .error (.unequalLengths 3 1) := by
  intro weights work rows
  obtain ⟨hsums, hresponse, hweights, hchallenge, -⟩ := sampleDataset.products_eq_of_split
  have hwork : work.items = sampleDataset.weighted weights := rfl
  have hrows : rows.items = sampleDataset.rowList := rfl
  have hdirect : sampleDataset.columnSums weights = .ok [4, 6, 72057594037927935] := rfl
  have hanswer : sampleDataset.response [5, 7, 1] = .ok [72057594037927954, 43] := rfl
  obtain ⟨hshared, hwrapped⟩ := hsums weights work hwork
  refine ⟨hwork, hshared.trans hdirect, ?_, hrows, ?_, ?_, ?_⟩
  · exact Except.ok.inj ((hwrapped rfl).symm.trans hdirect)
  · exact (hresponse [5, 7, 1] rows hrows).trans hanswer
  · exact (hweights [1] .segment (by decide)).2
  · exact (hchallenge [1] .segment (by decide)).2

end Dataset

end MatrixAudit
