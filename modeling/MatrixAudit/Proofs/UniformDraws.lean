import Mathlib.Algebra.Order.Floor.Div
import Mathlib.Data.FinEnum
import Mathlib.Data.Set.Card.Arithmetic
import Mathlib.Probability.Distributions.Uniform
import MatrixAudit.Proofs.ResidueField
import MatrixAudit.Sampler

/-!
# Uniform residues from uniform draws

A draw stands for a residue if its multiple of the modulus lies in the residue's window. All windows
are as long as `128` steps of the modulus, so each residue has `128` draws and `1664` draws are left
over. A uniform draw that is accepted is therefore a uniform residue.
-/

namespace MatrixAudit
open scoped ENNReal

lemma card_word : Nat.card Word = 2 ^ 64 := by
  let e : Word ≃ Fin (2 ^ 64) := ⟨UInt64.toFin, UInt64.ofFin, fun _ => rfl, fun _ => rfl⟩
  rw [Nat.card_congr e, Nat.card_fin]

lemma ncard_words_between {first last : ℕ} (h : last ≤ 2 ^ 64) :
    {word : Word | first ≤ word.toNat ∧ word.toNat < last}.ncard = last - first := by
  have hinj : Function.Injective UInt64.toNat := fun _ _ => UInt64.toNat_inj.1
  have himage : UInt64.toNat '' {word : Word | first ≤ word.toNat ∧ word.toNat < last} =
      Finset.Ico first last := by
    ext value
    constructor
    · rintro ⟨word, hword, rfl⟩
      exact Finset.mem_coe.2 (Finset.mem_Ico.2 hword)
    · intro hvalue
      have hmem := Finset.mem_Ico.1 (Finset.mem_coe.1 hvalue)
      have hval : (UInt64.ofNat value).toNat = value :=
        UInt64.toNat_ofNat_of_lt' (hmem.2.trans_le h)
      refine ⟨UInt64.ofNat value, ?_, hval⟩
      rwa [Set.mem_ofPred_eq, hval]
  rw [← Set.ncard_image_of_injective _ hinj, himage, Set.ncard_coe_finset, Nat.card_Ico]

/-- A window as long as `count` steps holds `count` multiples of the step, wherever it starts. -/
lemma multiple_mem_window_iff {step : ℕ} (hstep : 0 < step) (start count v : ℕ) :
    start ≤ v * step ∧ v * step < start + count * step ↔
      start ⌈/⌉ step ≤ v ∧ v < start ⌈/⌉ step + count := by
  have hle : ∀ w, start ⌈/⌉ step ≤ w ↔ start ≤ w * step := by
    intro w
    rw [Nat.mul_comm w]
    exact ceilDiv_le_iff_le_mul hstep
  refine and_congr (hle v).symm ?_
  -- below `count` both sides hold; from there on both bounds move down by `count` multiples
  obtain hlt | ⟨w, rfl⟩ : v < count ∨ ∃ w, v = w + count := by
    obtain hlt | hge := Nat.lt_or_ge v count
    · exact .inl hlt
    · exact .inr ⟨v - count, by omega⟩
  · have := Nat.mul_lt_mul_of_pos_right hlt hstep
    omega
  · have := hle w
    rw [Nat.add_mul]
    omega

lemma tsum_indicator_const {α : Type} [Finite α] (s : Set α) (c : ℝ≥0∞) :
    (tsum fun a => s.indicator (fun _ => c) a) = s.ncard * c := by
  rw [← tsum_subtype, ENNReal.tsum_set_const, ← s.toFinite.cast_ncard_eq, ENat.toENNReal_coe]

/-- Given that a uniform element lies in a set, a value is as likely as it is often taken there. -/
lemma map_filter_uniform_apply {α β : Type} [Fintype α] [Nonempty α] {s : Set α}
    (h : ∃ a ∈ s, a ∈ (PMF.uniformOfFintype α).support) (f : α → β) (b : β) :
    ((PMF.uniformOfFintype α).filter s h).map f b = {a | a ∈ s ∧ f a = b}.ncard / s.ncard := by
  let weight : ℝ≥0∞ := (Fintype.card α : ℝ≥0∞)⁻¹
  have hzero : weight ≠ 0 := ENNReal.inv_ne_zero.2 (ENNReal.natCast_ne_top _)
  have htop : weight ≠ ⊤ := ENNReal.inv_ne_top.2 (Nat.cast_ne_zero.2 Fintype.card_ne_zero)
  have huniform : ⇑(PMF.uniformOfFintype α) = fun _ => weight := by
    funext a
    exact PMF.uniformOfFintype_apply a
  have hcancel : weight * ((s.ncard : ℝ≥0∞) * weight)⁻¹ = (s.ncard : ℝ≥0∞)⁻¹ := by
    rw [ENNReal.mul_inv (.inr htop) (.inr hzero), mul_left_comm, ENNReal.mul_inv_cancel hzero htop,
      mul_one]
  rw [PMF.map_apply, div_eq_mul_inv, ← tsum_indicator_const]
  refine tsum_congr fun a => ?_
  rw [PMF.filter_apply, huniform, tsum_indicator_const]
  by_cases hmem : a ∈ s
  · by_cases hvalue : f a = b
    · rw [if_pos hvalue.symm, Set.indicator_of_mem hmem, hcancel,
        Set.indicator_of_mem (show a ∈ {a | a ∈ s ∧ f a = b} from ⟨hmem, hvalue⟩)]
    · rw [if_neg fun h => hvalue h.symm, Set.indicator_of_notMem fun h => hvalue h.2]
  · rw [Set.indicator_of_notMem hmem, zero_mul, ite_self,
      Set.indicator_of_notMem fun h => hmem h.1]

section Acceptance

lemma toNat_acceptedLow : acceptedLow.toNat = Residue.modulus * 2 ^ 7 % 2 ^ 64 - 1 := rfl

lemma accept?_eq {draw : Word} {high low : ℕ}
    (hwide : draw.toNat * Residue.modulus = high * 2 ^ 64 + low) (hlow : low < 2 ^ 64) :
    accept? draw =
      if low ≤ Residue.modulus * 2 ^ 7 % 2 ^ 64 - 1 then some (UInt64.ofNat high) else none := by
  have hsize : UInt64.size = 2 ^ 64 := rfl
  have hdiv : (high * 2 ^ 64 + low) / 2 ^ 64 = high := by omega
  have hmod : (UInt64.ofNat (high * 2 ^ 64 + low)).toNat = low := by
    rw [UInt64.toNat_ofNat']
    omega
  unfold accept?
  simp only [hwide, UInt64.le_iff_toNat_le, hmod, hsize, hdiv, toNat_acceptedLow]

variable {draw value : Word}

/-- The window of a residue starts at its multiple of `2 ^ 64`. -/
theorem accept?_eq_some_iff :
    accept? draw = some value ↔
      value.toNat * 2 ^ 64 ≤ draw.toNat * Residue.modulus ∧
        draw.toNat * Residue.modulus < value.toNat * 2 ^ 64 + 128 * Residue.modulus := by
  -- `128` times the modulus is below `2 ^ 64`, so the bound on the low word does not wrap
  have hzone : Residue.modulus * 2 ^ 7 % 2 ^ 64 = 128 * Residue.modulus := rfl
  have hmodulus : 0 < Residue.modulus ∧ 128 * Residue.modulus < 2 ^ 64 := by decide
  obtain ⟨high, low, hwide, hlow⟩ :
      ∃ high low, draw.toNat * Residue.modulus = high * 2 ^ 64 + low ∧ low < 2 ^ 64 :=
    ⟨_, _, (Nat.div_add_mod' _ _).symm, Nat.mod_lt _ (by decide)⟩
  have hhigh : high < 2 ^ 64 := by
    have hprod : draw.toNat * Residue.modulus < 2 ^ 64 * 2 ^ 64 :=
      Nat.mul_lt_mul'' draw.toNat_lt (by omega)
    omega
  rw [accept?_eq hwide hlow, hzone, Option.ite_none_right_eq_some, Option.some.injEq,
    ← UInt64.toNat_inj, UInt64.toNat_ofNat_of_lt' hhigh, hwide]
  omega

lemma isReduced_of_accept? (h : accept? draw = some value) : Residue.isReduced value = true := by
  rw [Residue.isReduced_iff]
  have hle := (accept?_eq_some_iff.1 h).1
  have hlt : draw.toNat * Residue.modulus < 2 ^ 64 * Residue.modulus :=
    Nat.mul_lt_mul_of_pos_right draw.toNat_lt (by decide)
  omega

theorem ncard_accepted_for (h : Residue.isReduced value = true) :
    {draw | accept? draw = some value}.ncard = 128 := by
  let first := (value.toNat * 2 ^ 64) ⌈/⌉ Residue.modulus
  have hwindow : {draw | accept? draw = some value} =
      {draw | first ≤ draw.toNat ∧ draw.toNat < first + 128} := by
    ext draw
    rw [Set.mem_ofPred_eq, accept?_eq_some_iff]
    exact multiple_mem_window_iff (by decide) _ _ _
  have hfirst : first ≤ 2 ^ 64 - 128 := by
    have hvalue := Residue.isReduced_iff.1 h
    refine (ceilDiv_le_iff_le_mul (by decide)).2 ?_
    unfold Residue.modulus at hvalue ⊢
    omega
  rw [hwindow, ncard_words_between (by omega), Nat.add_sub_cancel_left]

lemma ncard_reduced : {value : Word | Residue.isReduced value = true}.ncard = Residue.modulus := by
  have hreduced : {value : Word | Residue.isReduced value = true} =
      {value | 0 ≤ value.toNat ∧ value.toNat < Residue.modulus} := by
    ext value
    rw [Set.mem_ofPred_eq, Residue.isReduced_iff]
    exact (and_iff_right (Nat.zero_le _)).symm
  rw [hreduced, ncard_words_between (by decide), Nat.sub_zero]

lemma ncard_accepted : {draw | accept? draw ≠ none}.ncard = 128 * Residue.modulus := by
  have hunion : {draw | accept? draw ≠ none} =
      ⋃ value : {value : Word | Residue.isReduced value = true},
        {draw | accept? draw = some value.1} := by
    ext draw
    rw [Set.mem_ofPred_eq, Set.mem_iUnion, Option.ne_none_iff_exists']
    constructor
    · rintro ⟨value, hvalue⟩
      exact ⟨⟨value, isReduced_of_accept? hvalue⟩, hvalue⟩
    · rintro ⟨value, hvalue⟩
      exact ⟨value, hvalue⟩
  have hdisjoint : Pairwise (Function.onFun Disjoint
      fun value : {value : Word | Residue.isReduced value = true} =>
        {draw | accept? draw = some value.1}) := by
    intro value other hne
    rw [Function.onFun, Set.disjoint_left]
    intro draw hvalue hother
    exact hne (Subtype.ext (Option.some.inj (hvalue.symm.trans hother)))
  have := Fintype.ofFinite {value : Word | Residue.isReduced value = true}
  rw [hunion, Set.ncard_iUnion_of_finite (fun _ => Set.toFinite _) hdisjoint,
    finsum_congr fun value => ncard_accepted_for value.2, finsum_eq_sum_of_fintype,
    Finset.sum_const, Finset.card_univ, ← Nat.card_eq_fintype_card, Nat.card_coe_set_eq,
    ncard_reduced, smul_eq_mul, Nat.mul_comm]

theorem ncard_rejected : {draw | accept? draw = none}.ncard = 1664 := by
  have hsplit := Set.ncard_add_ncard_compl {draw | accept? draw = none}
  have hcompl : {draw | accept? draw = none}ᶜ = {draw | accept? draw ≠ none} := rfl
  have hmodulus : 2 ^ 64 = 1664 + 128 * Residue.modulus := by decide
  rw [hcompl, ncard_accepted, card_word, hmodulus] at hsplit
  exact Nat.add_right_cancel hsplit

lemma exists_accepted : ∃ draw ∈ {draw | accept? draw ≠ none},
    draw ∈ (PMF.uniformOfFintype Word).support := by
  have hcard : {draw | accept? draw ≠ none}.ncard ≠ 0 := by
    rw [ncard_accepted]
    decide
  obtain ⟨draw, hdraw⟩ := Set.nonempty_of_ncard_ne_zero hcard
  exact ⟨draw, hdraw, PMF.mem_support_uniformOfFintype draw⟩

/-- The residue that a uniform draw stands for, given that the draw is accepted. -/
noncomputable def acceptedLaw : PMF Word :=
  ((PMF.uniformOfFintype Word).filter {draw | accept? draw ≠ none} exists_accepted).map
    fun draw => (accept? draw).getD 0

theorem acceptedLaw_apply (value : Word) :
    acceptedLaw value =
      if Residue.isReduced value = true then (Residue.modulus : ℝ≥0∞)⁻¹ else 0 := by
  have hfiber : {draw | draw ∈ {draw | accept? draw ≠ none} ∧ (accept? draw).getD 0 = value} =
      {draw | accept? draw = some value} := by
    ext draw
    rw [Set.mem_ofPred_eq, Set.mem_ofPred_eq, Set.mem_ofPred_eq]
    cases accept? draw <;> simp
  rw [acceptedLaw, map_filter_uniform_apply, hfiber, ncard_accepted]
  by_cases h : Residue.isReduced value = true
  · have hcancel := ENNReal.mul_div_mul_left 1 (Residue.modulus : ℝ≥0∞)
      (Nat.cast_ne_zero.2 (by decide : 128 ≠ 0)) (ENNReal.natCast_ne_top 128)
    rw [if_pos h, ncard_accepted_for h, Nat.cast_mul, ← one_div, ← hcancel, mul_one]
  · have hempty : {draw | accept? draw = some value} = ∅ :=
      Set.eq_empty_of_forall_notMem fun draw hdraw => h (isReduced_of_accept? hdraw)
    rw [if_neg h, hempty, Set.ncard_empty, Nat.cast_zero, ENNReal.zero_div]

end Acceptance

namespace Sampler

/-- The sampler behind its next draw. -/
def skip (s : Sampler) : Sampler := s.draw.2

lemma searchBy_eq_some_iff {accept : Word → Option Word} {limit : ℕ} {s next : Sampler}
    {value : Word} :
    searchBy accept limit s = some (value, next) ↔
      ∃ k < limit, (∀ j < k, accept (skip^[j] s).draw.1 = none) ∧
        accept (skip^[k] s).draw.1 = some value ∧ next = skip^[k + 1] s := by
  induction limit generalizing s with
  | zero => simp [searchBy]
  | succ limit ih =>
    rw [searchBy]
    cases hdraw : accept s.draw.1 with
    | some first =>
      constructor
      · rintro ⟨⟩
        exact ⟨0, Nat.succ_pos _, fun j hj => absurd hj (Nat.not_lt_zero j), hdraw, rfl⟩
      · rintro ⟨_ | k, -, hskipped, hvalue, rfl⟩
        · rw [Function.iterate_zero_apply, hdraw, Option.some.injEq] at hvalue
          rw [hvalue]
          rfl
        · have hfirst := hskipped 0 (Nat.succ_pos k)
          rw [Function.iterate_zero_apply, hdraw] at hfirst
          cases hfirst
    | none =>
      constructor
      · intro h
        obtain ⟨k, hk, hskipped, hvalue, hnext⟩ := ih.1 h
        refine ⟨k + 1, Nat.succ_lt_succ hk, ?_, hvalue, hnext⟩
        rintro (_ | j) hj
        · exact hdraw
        · exact hskipped j (Nat.lt_of_succ_lt_succ hj)
      · rintro ⟨_ | k, hk, hskipped, hvalue, hnext⟩
        · rw [Function.iterate_zero_apply, hdraw] at hvalue
          cases hvalue
        · exact ih.2 ⟨k, Nat.lt_of_succ_lt_succ hk,
            fun j hj => hskipped (j + 1) (Nat.succ_lt_succ hj), hvalue, hnext⟩

/-- A sample is the residue of the first draw that is accepted. A draw is accepted if the low word
of its wide product is small enough, and stands for the high word then. Each residue has the same
number of draws, so a uniform draw that is accepted is a uniform residue. -/
theorem sample_uniform :
    (∀ (s next : Sampler) (value : Word), s.sample = some (value, next) ↔
      ∃ k < period, (∀ j < k, accept? (skip^[j] s).draw.1 = none) ∧
        accept? (skip^[k] s).draw.1 = some value ∧ next = skip^[k + 1] s) ∧
    (∀ (draw : Word) (high low : ℕ), draw.toNat * Residue.modulus = high * 2 ^ 64 + low →
      low < 2 ^ 64 → accept? draw =
        if low ≤ Residue.modulus * 2 ^ 7 % 2 ^ 64 - 1 then some (UInt64.ofNat high) else none) ∧
    (∀ draw value : Word, accept? draw = some value → Residue.isReduced value = true) ∧
    (∀ value : Word, Residue.isReduced value = true →
      {draw | accept? draw = some value}.ncard = 128) ∧
    {draw | accept? draw = none}.ncard = 1664 ∧
    ∀ value : Word, acceptedLaw value =
      if Residue.isReduced value = true then (Residue.modulus : ℝ≥0∞)⁻¹ else 0 := by
  refine ⟨fun s next value => ?_, fun draw high low => accept?_eq, fun draw value => ?_,
    fun value => ncard_accepted_for, ncard_rejected, acceptedLaw_apply⟩
  · rw [sample, search]
    exact searchBy_eq_some_iff
  · exact isReduced_of_accept?

/-- The low word of the first draw is the greatest of all, that of the second one the greatest that
is accepted. -/
def sampleSampler : Sampler :=
  ⟨seedKey 0, 0, [9278800955345489605, 9278800955345489733]⟩

theorem sample_uniform_sample :
    sampleSampler.sample = some (72490632463636631, ⟨seedKey 0, 0, []⟩) ∧
    accept? 9278800955345489605 = none ∧
    accept? 9278800955345489733 = some 72490632463636631 ∧
    Residue.isReduced 72490632463636631 = true ∧
    {draw | accept? draw = some (Residue.modulusWord - 1)}.ncard = 128 ∧
    {draw | accept? draw = none}.ncard = 1664 ∧
    acceptedLaw 72490632463636631 = (Residue.modulus : ℝ≥0∞)⁻¹ := by
  obtain ⟨hsample, haccept, hreduced, hcard, hrejected, hlaw⟩ := sample_uniform
  have hfirst : accept? 9278800955345489605 = none := by
    rw [haccept 9278800955345489605 72490632463636630 (2 ^ 64 - 1) (by decide) (by decide)]
    decide
  have hsecond : accept? 9278800955345489733 = some 72490632463636631 := by
    rw [haccept 9278800955345489733 72490632463636631 (2 ^ 64 - 1665) (by decide) (by decide)]
    decide
  have hvalue := hreduced _ _ hsecond
  refine ⟨?_, hfirst, hsecond, hvalue, hcard _ (by decide), hrejected, ?_⟩
  · refine (hsample _ _ _).2 ⟨1, by decide, ?_, hsecond, rfl⟩
    intro j hj
    rw [Nat.lt_one_iff.1 hj]
    exact hfirst
  · rw [hlaw, if_pos hvalue]

end Sampler

end MatrixAudit
