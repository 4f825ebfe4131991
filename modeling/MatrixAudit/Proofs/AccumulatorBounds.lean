import MatrixAudit.Proofs.SplitProducts

/-!
# Accumulators that never overflow

Every accumulator of a product holds at most one reduced term for each item that went into it, at
every step of a loop and at every merge of partial results. There are fewer items than a 64-bit word
counts, so 128 bits are enough for all of them, and the products are exact.
-/

namespace MatrixAudit
open Finset

/-- What some work has come to at one time or another: a segment that was begun, or a merge. -/
inductive Split.Stage {α : Type} : Split α → Split α → Prop
  | idle : Stage .idle .idle
  | begun (items : List α) (count : ℕ) : Stage (.segment (items.take count)) (.segment items)
  | left {part left : Split α} (right : Split α) (h : Stage part left) :
    Stage part (.both left right)
  | right {part right : Split α} (left : Split α) (h : Stage part right) :
    Stage part (.both left right)
  | merged (left right : Split α) : Stage (.both left right) (.both left right)

lemma Split.Stage.length_le {α : Type} {part work : Split α} (h : part.Stage work) :
    part.items.length ≤ work.items.length := by
  induction h with
  | idle => exact Nat.le_refl _
  | begun items count => exact List.length_take_le' count items
  | left right h ih =>
    rw [Split.items, List.length_append]
    omega
  | right left h ih =>
    rw [Split.items, List.length_append]
    omega
  | merged left right => exact Nat.le_refl _

/-- Accumulators that have taken in so many reduced terms, within 128 bits. -/
structure Holds (terms : ℕ) (sums : List ℕ) : Prop where
  atMost : AtMost (terms * (Residue.modulus - 1)) sums
  lt : terms * (Residue.modulus - 1) < accumulatorSize

lemma product_lt_accumulatorSize (a b : Word) : a.toNat * b.toNat < accumulatorSize :=
  (Nat.mul_lt_mul'' a.toNat_lt b.toNat_lt).trans_eq (pow_add 2 64 64).symm

lemma AtMost.mono {bound greater : ℕ} {sums : List ℕ} (h : AtMost bound sums)
    (hle : bound ≤ greater) : AtMost greater sums := fun sum hsum => (h sum hsum).trans hle

/-- Whatever the cuts and the merges are, no accumulator outgrows its bits at any time. -/
theorem holds_sharedSums (cols : ℕ) {part work : Split (List Word × Word)} (h : part.Stage work)
    (hwork : work.items.length < UInt64.size) :
    Holds part.items.length (sharedSums cols part) where
  atMost := atMost_sharedSums cols part
  lt := mul_lt_accumulatorSize (h.length_le.trans_lt hwork)

section InnerProduct

/-- The accumulator of an inner product, with every addition cut to 128 bits. -/
def wrappedTermSum (xs ys : List Word) : ℕ :=
  (xs.zip ys).foldl
    (fun acc pair => (acc + (Residue.mul pair.1 pair.2).toNat) % accumulatorSize) 0

/-- An inner product as the sum of a single column, whose weights are the first vector. -/
def oneColumn (xs ys : List Word) : Split (List Word × Word) :=
  .segment ((xs.zip ys).map fun pair => ([pair.2], pair.1))

section Vectors

variable (xs ys : List Word)

lemma sharedSums_oneColumn : sharedSums 1 (oneColumn xs ys) = [termSum 0 xs ys] := by
  rw [sharedSums, oneColumn, Split.fold, List.foldl_map]
  exact List.foldl_hom (fun acc => [acc]) fun _ _ => rfl

lemma wrappedSums_oneColumn : wrappedSums 1 (oneColumn xs ys) = [wrappedTermSum xs ys] := by
  rw [wrappedSums, oneColumn, Split.fold, List.foldl_map]
  exact List.foldl_hom (fun acc => [acc]) fun _ _ => rfl

lemma length_oneColumn_le : (oneColumn xs ys).items.length ≤ xs.length := by
  rw [oneColumn, Split.items, List.length_map, List.length_zip]
  exact Nat.min_le_left _ _

end Vectors

variable {xs ys : List Word}

/-- After `i` terms the accumulator holds at most as many of them. -/
theorem holds_termSum (h : xs.length < UInt64.size) {i : ℕ} (hi : i ≤ xs.length) :
    Holds i [termSum 0 (xs.take i) (ys.take i)] where
  atMost := by
    have hterms : (oneColumn (xs.take i) (ys.take i)).items.length ≤ i :=
      (length_oneColumn_le _ _).trans (List.length_take_le _ _)
    rw [← sharedSums_oneColumn]
    exact (atMost_sharedSums 1 _).mono (Nat.mul_le_mul_right _ hterms)
  lt := mul_lt_accumulatorSize (hi.trans_lt h)

theorem wrappedTermSum_eq (h : xs.length < UInt64.size) :
    wrappedTermSum xs ys = termSum 0 xs ys := by
  have hsums := wrappedSums_eq 1 (oneColumn xs ys) ((length_oneColumn_le xs ys).trans_lt h)
  rw [wrappedSums_oneColumn, sharedSums_oneColumn] at hsums
  exact List.head_eq_of_cons_eq hsums

end InnerProduct

namespace Dataset

variable (d : Dataset)

/-- After `i` rows every column's accumulator holds at most as many terms. -/
theorem holds_foldl_weighted (weights : List Word) {i : ℕ} (hi : i ≤ d.rows) :
    Holds i (((d.weighted weights).take i).foldl
      (fun sums item => addWeighted sums item.1 item.2) (zeroSums d.cols)) where
  atMost := (atMost_sharedSums d.cols (.segment ((d.weighted weights).take i))).mono
    (Nat.mul_le_mul_right _ (List.length_take_le _ _))
  lt := mul_lt_accumulatorSize (hi.trans_lt d.valid.lt_size.2)

end Dataset

/-- Inner products and column sums are exact. Their accumulators hold at most one reduced term for
each item that went into them, at every step and at every merge, and 128 bits are enough for that.
So are they for every product of two words. -/
theorem accumulators_exact :
    (∀ xs ys : List Word, xs.length = ys.length → xs.length < UInt64.size →
      (∀ i ≤ xs.length, Holds i [termSum 0 (xs.take i) (ys.take i)]) ∧
      wrappedTermSum xs ys = termSum 0 xs ys ∧
      ∃ word, innerProduct xs ys = .ok word ∧
        word.toNat = (∑ i ∈ range xs.length, numberAt xs i * numberAt ys i) % Residue.modulus) ∧
    (∀ xs ys : List Word, xs.length ≠ ys.length →
      innerProduct xs ys = .error (.unequalLengths xs.length ys.length)) ∧
    (∀ (d : Dataset) (weights : List Word),
      (∀ i ≤ d.rows, Holds i (((d.weighted weights).take i).foldl
        (fun sums item => addWeighted sums item.1 item.2) (zeroSums d.cols))) ∧
      ∀ work : Split (List Word × Word), work.items = d.weighted weights →
        weights.length = d.rows →
          d.columnSums weights = .ok (d.columnWords weights) ∧
          d.columnSumsBy (fun _ => work) weights = .ok (d.columnWords weights) ∧
          ∀ k < d.cols, numberAt (d.columnWords weights) k =
            (∑ i ∈ range d.rows, numberAt weights i * d.number i k) % Residue.modulus) ∧
    (∀ (cols : ℕ) (work : Split (List Word × Word)), work.items.length < UInt64.size →
      (∀ part : Split (List Word × Word), part.Stage work →
        Holds part.items.length (sharedSums cols part)) ∧
      wrappedSums cols work = sharedSums cols work) ∧
    ∀ a b : Word, a.toNat * b.toNat < accumulatorSize := by
  refine ⟨fun xs ys hlen hsize => ?_, fun xs ys hlen => innerProduct_of_length_ne hlen,
    fun d weights => ⟨fun i hi => d.holds_foldl_weighted weights hi, fun work hwork hlen => ?_⟩,
    fun cols work hwork => ?_, product_lt_accumulatorSize⟩
  · refine ⟨fun i hi => holds_termSum hsize hi, wrappedTermSum_eq hsize, _,
      innerProduct_eq hlen, ?_⟩
    exact Residue.toNat_ofNat _
  · have hsums : d.columnSumsBy (fun _ => work) weights = d.columnSums weights :=
      d.columnSumsBy_eq hwork
    rw [hsums, d.columnSums_eq hlen]
    exact ⟨rfl, rfl, fun k hk => d.numberAt_columnWords weights hk⟩
  · exact ⟨fun part hpart => holds_sharedSums cols hpart hwork, wrappedSums_eq cols work hwork⟩

/-- Two terms of the greatest words would overflow without their reduction. -/
theorem accumulators_exact_sample :
    let greatest : Word := 18446744073709551615
    let weights : List Word := [144115188075855860, 1]
    let first : Split (List Word × Word) :=
      .segment [([1, 2, 72057594037927935], 144115188075855860)]
    let work : Split (List Word × Word) := .both (.both .idle first) (.segment [([3, 4, 0], 1)])
    accumulatorSize ≤ 2 * (greatest.toNat * greatest.toNat) ∧
    (∃ word, innerProduct [greatest, greatest] [greatest, greatest] = .ok word ∧
      word.toNat = 2 * (2 ^ 64 - 1) ^ 2 % Residue.modulus) ∧
    Holds 2 [termSum 0 [greatest, greatest] [greatest, greatest]] ∧
    innerProduct [greatest] [] = .error (.unequalLengths 1 0) ∧
    sampleDataset.columnSumsBy (fun _ => work) weights =
      .ok (sampleDataset.columnWords weights) ∧
    Holds 1 (sharedSums 3 first) ∧ wrappedSums 3 work = sharedSums 3 work := by
  intro greatest weights first work
  obtain ⟨hinner, hlengths, hcolumns, hwork, -⟩ := accumulators_exact
  obtain ⟨hterms, -, word, hword, hexact⟩ :=
    hinner [greatest, greatest] [greatest, greatest] rfl (by decide)
  obtain ⟨hstages, hwrapped⟩ := hwork 3 work (by decide)
  have hcut := ((hcolumns sampleDataset weights).2 work rfl rfl).2.1
  have hbegun : first.Stage first := .begun first.items 1
  refine ⟨by decide +kernel, ⟨word, hword, hexact.trans (by decide +kernel)⟩, hterms 2 (by decide),
    hlengths _ _ (by decide), hcut, hstages first (.left _ (.right _ hbegun)), hwrapped⟩

end MatrixAudit
