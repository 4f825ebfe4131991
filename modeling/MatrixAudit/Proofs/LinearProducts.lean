import MatrixAudit.Proofs.ColumnDefects

/-!
# Linearity of the products

The inner product of raw words is symmetric and linear, and so are the response in the challenge and
the column sums in the weights. Weighing the response is the same as applying the column sums to the
challenge. All these are equalities of canonical words: it does not matter that the sums and the
multiples of vectors are reduced where the sums inside a product are not.
-/

namespace MatrixAudit
open Finset

namespace Residue

lemma add_ofNat (a b : ℕ) : add (ofNat a) (ofNat b) = ofNat (a + b) := by
  rw [add, ofNat_eq_ofNat_iff, toNat_ofNat, toNat_ofNat]
  push_cast [ZMod.natCast_mod]
  rfl

lemma mul_ofNat (a : ℕ) (k : Word) : mul (ofNat a) k = ofNat (a * k.toNat) := by
  rw [mul, ofNat_eq_ofNat_iff, toNat_ofNat]
  push_cast [ZMod.natCast_mod]
  rfl

end Residue

section Vectors

variable {xs ys : List Word}

lemma vectorSum_eq (h : xs.length = ys.length) :
    vectorSum xs ys = .ok (List.zipWith Residue.add xs ys) := by
  rw [vectorSum, sameLength, if_pos h]
  rfl

/-- Beyond the end of the vectors both sides are zero. -/
lemma cast_numberAt_zipWith_add (h : xs.length = ys.length) (i : ℕ) :
    (numberAt (List.zipWith Residue.add xs ys) i : ZMod Residue.modulus) =
      numberAt xs i + numberAt ys i := by
  induction xs generalizing ys i with
  | nil =>
    obtain rfl : ys = [] := List.eq_nil_of_length_eq_zero h.symm
    simp [numberAt]
  | cons x xs ih =>
    obtain _ | ⟨y, ys⟩ := ys
    · cases h
    · cases i with
      | zero => simp [Residue.toNat_add]
      | succ i => exact ih (Nat.succ.inj h) i

lemma cast_numberAt_scaled (k : Word) (xs : List Word) (i : ℕ) :
    (numberAt (scaled k xs) i : ZMod Residue.modulus) = numberAt xs i * k.toNat := by
  induction xs generalizing i with
  | nil => simp [numberAt, scaled]
  | cons x xs ih =>
    cases i with
    | zero => simp [scaled, Residue.toNat_mul]
    | succ i => exact ih i

lemma length_zipWith_add (h : xs.length = ys.length) :
    (List.zipWith Residue.add xs ys).length = xs.length := by
  rw [List.length_zipWith, ← h, Nat.min_self]

lemma length_scaled (k : Word) (xs : List Word) : (scaled k xs).length = xs.length :=
  List.length_map _

end Vectors

/-- The sum of the first `n` numbers of a vector, each of them weighed by its coefficient. -/
def combination (n : ℕ) (coefficient : ℕ → ℕ) (xs : List Word) : ℕ :=
  ∑ i ∈ range n, coefficient i * numberAt xs i

section Combination

variable (n : ℕ) (coefficient : ℕ → ℕ) {xs ys : List Word}

lemma cast_combination (xs : List Word) :
    (combination n coefficient xs : ZMod Residue.modulus) =
      ∑ i ∈ range n, (coefficient i : ZMod Residue.modulus) * numberAt xs i := by
  simp only [combination, Nat.cast_sum, Nat.cast_mul]

lemma ofNat_combination_zipWith_add (h : xs.length = ys.length) :
    Residue.ofNat (combination n coefficient (List.zipWith Residue.add xs ys)) =
      Residue.ofNat (combination n coefficient xs + combination n coefficient ys) := by
  rw [Residue.ofNat_eq_ofNat_iff]
  simp only [Nat.cast_add, cast_combination, cast_numberAt_zipWith_add h, mul_add,
    sum_add_distrib]

lemma ofNat_combination_scaled (k : Word) (xs : List Word) :
    Residue.ofNat (combination n coefficient (scaled k xs)) =
      Residue.ofNat (combination n coefficient xs * k.toNat) := by
  rw [Residue.ofNat_eq_ofNat_iff]
  simp only [Nat.cast_mul, cast_combination, cast_numberAt_scaled, sum_mul, mul_assoc]

end Combination

/-- The canonical words of `m` combinations of one vector. -/
def combinationWords (n m : ℕ) (coefficient : ℕ → ℕ → ℕ) (xs : List Word) : List Word :=
  (List.range m).map fun j => Residue.ofNat (combination n (coefficient j) xs)

section CombinationWords

variable {n m : ℕ} {coefficient : ℕ → ℕ → ℕ} {xs ys : List Word}

lemma combinationWords_zipWith_add (h : xs.length = ys.length) :
    combinationWords n m coefficient (List.zipWith Residue.add xs ys) =
      List.zipWith Residue.add (combinationWords n m coefficient xs)
        (combinationWords n m coefficient ys) := by
  simp only [combinationWords, List.zipWith_map, List.zipWith_self]
  apply List.map_congr_left
  intro j _
  rw [ofNat_combination_zipWith_add n (coefficient j) h, Residue.add_ofNat]

lemma combinationWords_scaled (k : Word) (xs : List Word) :
    combinationWords n m coefficient (scaled k xs) =
      scaled k (combinationWords n m coefficient xs) := by
  simp only [combinationWords, scaled, List.map_map]
  apply List.map_congr_left
  intro j _
  rw [Function.comp_apply, Residue.mul_ofNat]
  exact ofNat_combination_scaled n (coefficient j) k xs

lemma length_combinationWords (xs : List Word) :
    (combinationWords n m coefficient xs).length = m := by
  rw [combinationWords, List.length_map, List.length_range]

end CombinationWords

/-- The product of `n` words takes sums to sums and multiples to multiples, as canonical words. -/
structure ActsLinearly (product : List Word → Except Failure (List Word)) (n : ℕ) : Prop where
  sum : ∀ xs ys : List Word, xs.length = n → ys.length = n → ∃ total first second image,
    vectorSum xs ys = .ok total ∧ product xs = .ok first ∧ product ys = .ok second ∧
      vectorSum first second = .ok image ∧ product total = .ok image
  multiple : ∀ (k : Word) (xs : List Word), xs.length = n → ∃ image,
    product xs = .ok image ∧ product (scaled k xs) = .ok (scaled k image)

lemma actsLinearly_of_eq_combinationWords {product : List Word → Except Failure (List Word)}
    {n m : ℕ} {coefficient : ℕ → ℕ → ℕ}
    (h : ∀ xs : List Word, xs.length = n → product xs = .ok (combinationWords n m coefficient xs)) :
    ActsLinearly product n := by
  constructor
  · intro xs ys hxs hys
    have hlen : xs.length = ys.length := hxs.trans hys.symm
    have htotal : (List.zipWith Residue.add xs ys).length = n := by
      rw [length_zipWith_add hlen, hxs]
    refine ⟨_, _, _, _, vectorSum_eq hlen, h xs hxs, h ys hys, vectorSum_eq ?_, ?_⟩
    · rw [length_combinationWords, length_combinationWords]
    · rw [h _ htotal, combinationWords_zipWith_add hlen]
  · intro k xs hxs
    have hscaled : (scaled k xs).length = n := by rw [length_scaled, hxs]
    exact ⟨_, h xs hxs, by rw [h _ hscaled, combinationWords_scaled]⟩

section InnerProduct

variable {xs ys zs : List Word}

lemma innerTotal_comm (h : xs.length = ys.length) : innerTotal xs ys = innerTotal ys xs := by
  simp only [innerTotal, h, Nat.mul_comm]

lemma innerProduct_comm (h : xs.length = ys.length) : innerProduct xs ys = innerProduct ys xs := by
  rw [innerProduct_eq h, innerProduct_eq h.symm, innerTotal_comm h]

lemma innerProduct_zipWith_add (hys : xs.length = ys.length) (hzs : xs.length = zs.length) :
    innerProduct xs (List.zipWith Residue.add ys zs) =
      .ok (Residue.add (Residue.ofNat (innerTotal xs ys)) (Residue.ofNat (innerTotal xs zs))) := by
  have hlen : ys.length = zs.length := hys.symm.trans hzs
  rw [innerProduct_eq (by rw [length_zipWith_add hlen, hys]), Residue.add_ofNat]
  exact congrArg Except.ok (ofNat_combination_zipWith_add xs.length (numberAt xs) hlen)

lemma innerProduct_scaled (h : xs.length = ys.length) (k : Word) :
    innerProduct xs (scaled k ys) =
      .ok (Residue.mul (Residue.ofNat (innerTotal xs ys)) k) := by
  rw [innerProduct_eq (by rw [length_scaled, h]), Residue.mul_ofNat]
  exact congrArg Except.ok (ofNat_combination_scaled xs.length (numberAt xs) k ys)

end InnerProduct

namespace Dataset

variable (d : Dataset)

lemma rowWords_eq_combinationWords (challenge : List Word) :
    d.rowWords challenge = combinationWords d.cols d.rows d.number challenge := rfl

lemma columnWords_eq_combinationWords (weights : List Word) :
    d.columnWords weights =
      combinationWords d.rows d.cols (fun k i => d.number i k) weights := by
  simp only [columnWords, combinationWords, columnTotal, combination, Nat.mul_comm]

lemma actsLinearly_responseWith [Sharing] (parallel : Bool) :
    ActsLinearly (d.responseWith parallel) d.cols := by
  apply actsLinearly_of_eq_combinationWords
  intro challenge h
  rw [d.responseWith_eq parallel h, d.rowWords_eq_combinationWords]

lemma actsLinearly_columnSumsWith [Sharing] (parallel : Bool) :
    ActsLinearly (d.columnSumsWith parallel) d.rows := by
  apply actsLinearly_of_eq_combinationWords
  intro weights h
  rw [d.columnSumsWith_eq parallel h, d.columnWords_eq_combinationWords]

/-- The number of a canonical word is congruent to what it was made of. -/
lemma cast_numberAt_columnWords (weights : List Word) {k : ℕ} (hk : k < d.cols) :
    (numberAt (d.columnWords weights) k : ZMod Residue.modulus) = d.columnTotal weights k := by
  rw [d.numberAt_columnWords weights hk, ZMod.natCast_mod]

lemma innerProduct_rowWords {weights challenge : List Word} (hweights : weights.length = d.rows)
    (hchallenge : challenge.length = d.cols) :
    innerProduct weights (d.rowWords challenge) =
      innerProduct (d.columnWords weights) challenge := by
  have hrows : weights.length = (d.rowWords challenge).length := by
    rw [length_rowWords, hweights]
  have hcols : (d.columnWords weights).length = challenge.length := by
    rw [length_columnWords, hchallenge]
  rw [innerProduct_eq hrows, innerProduct_eq hcols]
  refine congrArg Except.ok (Residue.ofNat_eq_ofNat_iff.2 ?_)
  rw [d.cast_innerTotal_rowWords hweights, innerTotal, length_columnWords, Nat.cast_sum]
  refine sum_congr rfl fun k hk => ?_
  rw [Nat.cast_mul, d.cast_numberAt_columnWords weights (mem_range.1 hk)]

/-- The inner product of raw words is symmetric, additive and homogeneous. The response is linear in
the challenge and the column sums are in the weights, by one worker or by several, and the weights
applied to the response are the column sums applied to the challenge. -/
theorem products_bilinear [Sharing] :
    (∀ (k : Word) (xs ys zs : List Word), xs.length = ys.length → xs.length = zs.length →
      ∃ first second total, innerProduct xs ys = .ok first ∧ innerProduct ys xs = .ok first ∧
        innerProduct xs zs = .ok second ∧ vectorSum ys zs = .ok total ∧
        innerProduct xs total = .ok (Residue.add first second) ∧
        innerProduct xs (scaled k ys) = .ok (Residue.mul first k)) ∧
    ∀ (d : Dataset) (parallel shared : Bool),
      ActsLinearly (d.responseWith parallel) d.cols ∧
      ActsLinearly (d.columnSumsWith parallel) d.rows ∧
      ∀ weights challenge : List Word, weights.length = d.rows → challenge.length = d.cols →
        ∃ response sums word, d.responseWith parallel challenge = .ok response ∧
          d.columnSumsWith shared weights = .ok sums ∧ innerProduct weights response = .ok word ∧
          innerProduct sums challenge = .ok word ∧ Residue.isReduced word = true := by
  constructor
  · intro k xs ys zs hys hzs
    have hfirst := innerProduct_eq hys
    exact ⟨_, _, _, hfirst, (innerProduct_comm hys).symm.trans hfirst, innerProduct_eq hzs,
      vectorSum_eq (hys.symm.trans hzs), innerProduct_zipWith_add hys hzs,
      innerProduct_scaled hys k⟩
  · intro d parallel shared
    refine ⟨d.actsLinearly_responseWith parallel, d.actsLinearly_columnSumsWith parallel, ?_⟩
    intro weights challenge hweights hchallenge
    have hrows : weights.length = (d.rowWords challenge).length := by
      rw [length_rowWords, hweights]
    have hword := innerProduct_eq hrows
    exact ⟨_, _, _, d.responseWith_eq parallel hchallenge, d.columnSumsWith_eq shared hweights,
      hword, (d.innerProduct_rowWords hweights hchallenge).symm.trans hword,
      Residue.isReduced_ofNat _⟩

attribute [local instance] Sharing.halving

theorem products_bilinear_sample :
    let xs : List Word := [144115188075855860, 2]
    let ys : List Word := [5, 144115188075855862]
    let zs : List Word := [7, 1]
    let k : Word := 144115188075855861
    let weights : List Word := [144115188075855860, 1]
    xs.length = ys.length ∧ xs.length = zs.length ∧ weights.length = sampleDataset.rows ∧
    innerProduct ys xs = .ok 11 ∧ innerProduct xs [12, 4] = .ok (Residue.add 11 9) ∧
    innerProduct xs (scaled k ys) = .ok (Residue.mul 11 k) ∧
    ActsLinearly (sampleDataset.responseWith true) 3 ∧
    ActsLinearly (sampleDataset.columnSumsWith true) 2 ∧
    ∃ word, innerProduct weights [72057594037927954, 43] = .ok word ∧
      innerProduct [4, 6, 72057594037927935] [5, 7, 1] = .ok word := by
  intro xs ys zs k weights
  obtain ⟨hvectors, hdatasets⟩ := products_bilinear
  obtain ⟨first, second, total, hfirst, hback, hsecond, htotal, hsum, hmultiple⟩ :=
    hvectors k xs ys zs rfl rfl
  obtain ⟨hresponse, hcolumns, hadjoint⟩ := hdatasets sampleDataset true false
  obtain ⟨response, sums, word, hanswer, hsums, hword, hword', -⟩ :=
    hadjoint weights [5, 7, 1] rfl rfl
  have hfirst' : innerProduct xs ys = .ok 11 := rfl
  have hsecond' : innerProduct xs zs = .ok 9 := rfl
  have htotal' : vectorSum ys zs = .ok [12, 4] := rfl
  have hanswer' : sampleDataset.responseWith true [5, 7, 1] = .ok [72057594037927954, 43] := rfl
  have hsums' : sampleDataset.columnSumsWith false weights = .ok [4, 6, 72057594037927935] := rfl
  obtain rfl := Except.ok.inj (hfirst.symm.trans hfirst')
  obtain rfl := Except.ok.inj (hsecond.symm.trans hsecond')
  obtain rfl := Except.ok.inj (htotal.symm.trans htotal')
  obtain rfl := Except.ok.inj (hanswer.symm.trans hanswer')
  obtain rfl := Except.ok.inj (hsums.symm.trans hsums')
  exact ⟨rfl, rfl, rfl, hback, hsum, hmultiple, hresponse, hcolumns, word, hword, hword'⟩

end Dataset

end MatrixAudit
