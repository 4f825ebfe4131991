import Mathlib.Data.Nat.Dist
import Mathlib.Data.Nat.Notation
import Mathlib.Tactic.Lemma
import MatrixAudit.Text.Scientific

/-!
# The digits of a floating-point number

The ranges of the positive floating-point numbers lie one behind the other, and no two of them share
a number. The digits in the text of a number are in its own range, so they are rounded to it and to
no other; no fewer digits are, and no others at the same place are nearer.
-/

namespace MatrixAudit

namespace Scientific

namespace Range

/-- The number lies between the ends of its range. -/
structure Sound (r : Range) : Prop where
  low_pos : 0 < r.low
  low_lt : r.low < r.value
  lt_high : r.value < r.high

/-- So many steps are rounded to the number, and no others are nearer to it. Of two that are equally
near it is the greater. -/
structure Nearest (r : Range) (step digits : ℕ) : Prop where
  contains : r.contains (digits * step) = true
  least : ∀ other, r.contains (other * step) = true →
    Nat.dist (digits * step) r.value < Nat.dist (other * step) r.value ∨
      Nat.dist (digits * step) r.value = Nat.dist (other * step) r.value ∧ other ≤ digits

variable {r : Range} {step digits m n : ℕ}

lemma contains_iff : r.contains n = true ↔
    r.low ≤ n ∧ n ≤ r.high ∧ (r.closed = false → r.low < n ∧ n < r.high) := by
  rw [contains]
  cases r.closed with
  | true => simp
  | false =>
    rw [if_neg Bool.false_ne_true, Bool.and_eq_true, decide_eq_true_eq, decide_eq_true_eq]
    exact ⟨fun h => ⟨h.1.le, h.2.le, fun _ => h⟩, fun h => h.2.2 rfl⟩

lemma Sound.not_contains_zero (sound : r.Sound) : ¬r.contains 0 = true := fun h =>
  Nat.not_le_of_lt sound.low_pos (contains_iff.1 h).1

/-- What lies between the number and one that is rounded to it is rounded to it as well. -/
lemma Sound.contains_of_between (sound : r.Sound) (h : r.contains m = true)
    (hbetween : m ≤ n ∧ n ≤ r.value ∨ r.value ≤ n ∧ n ≤ m) : r.contains n = true := by
  rw [contains_iff] at h ⊢
  obtain ⟨hlow, hhigh, hopen⟩ := h
  have := sound.low_lt
  have := sound.lt_high
  refine ⟨by omega, by omega, fun h => ?_⟩
  have := hopen h
  omega

lemma Sound.scaled (sound : r.Sound) {factor : ℕ} (h : 0 < factor) : (r.scaled factor).Sound where
  low_pos := Nat.mul_pos sound.low_pos h
  low_lt := Nat.mul_lt_mul_of_pos_right sound.low_lt h
  lt_high := Nat.mul_lt_mul_of_pos_right sound.lt_high h

lemma value_lt (hstep : 0 < step) : r.value < (r.value / step + 1) * step :=
  (Nat.div_lt_iff_lt_mul hstep).1 (Nat.lt_succ_self _)

/-- A multiple that is rounded to the number brings one with it that is next to the number. -/
lemma Sound.contains_beside (sound : r.Sound) (hstep : 0 < step)
    (h : r.contains (n * step) = true) :
    n ≤ r.value / step ∧ r.contains (r.value / step * step) = true ∨
      r.value / step + 1 ≤ n ∧ r.contains ((r.value / step + 1) * step) = true := by
  obtain hn | hn := Nat.lt_or_ge (r.value / step) n
  · have hup : (r.value / step + 1) * step ≤ n * step := Nat.mul_le_mul_right _ hn
    exact .inr ⟨hn, sound.contains_of_between h (.inr ⟨(value_lt hstep).le, hup⟩)⟩
  · have hdown : n * step ≤ r.value / step * step := Nat.mul_le_mul_right _ hn
    exact .inl ⟨hn, sound.contains_of_between h (.inl ⟨hdown, Nat.div_mul_le_self _ _⟩)⟩

/-- The upper multiple is taken if it is rounded to the number and the lower one is not or is no
nearer, otherwise the lower one if it is. -/
lemma multiple?_eq (r : Range) (step : ℕ) : r.multiple? step =
    if r.contains ((r.value / step + 1) * step) = true ∧
        (r.contains (r.value / step * step) = false ∨ step ≤ 2 * (r.value % step)) then
      some (r.value / step + 1)
    else if r.contains (r.value / step * step) = true then some (r.value / step)
    else none := by
  simp only [multiple?, Bool.and_eq_true, Bool.or_eq_true, Bool.not_eq_true', decide_eq_true_eq]

lemma Sound.nearest_of_multiple? (sound : r.Sound) (hstep : 0 < step)
    (h : r.multiple? step = some digits) : r.Nearest step digits := by
  have hvalue : r.value / step * step + r.value % step = r.value := Nat.div_add_mod' _ _
  have hrest : r.value % step < step := Nat.mod_lt _ hstep
  have hup : (r.value / step + 1) * step = r.value / step * step + step := Nat.succ_mul _ _
  rw [multiple?_eq] at h
  by_cases hupper : r.contains ((r.value / step + 1) * step) = true ∧
      (r.contains (r.value / step * step) = false ∨ step ≤ 2 * (r.value % step))
  · rw [if_pos hupper] at h
    obtain rfl := Option.some.inj h
    refine ⟨hupper.1, fun other hother => ?_⟩
    unfold Nat.dist
    obtain ⟨hn, hdown⟩ | ⟨hn, -⟩ := sound.contains_beside hstep hother
    · have hbelow : other * step ≤ r.value / step * step := Nat.mul_le_mul_right _ hn
      have hhalf : step ≤ 2 * (r.value % step) := hupper.2.resolve_left (by simp [hdown])
      omega
    · obtain rfl | hn := Nat.eq_or_lt_of_le hn
      · exact .inr ⟨rfl, Nat.le_refl _⟩
      have habove : (r.value / step + 1 + 1) * step ≤ other * step := Nat.mul_le_mul_right _ hn
      rw [Nat.succ_mul] at habove
      omega
  · rw [if_neg hupper] at h
    split at h
    swap
    · cases h
    rename_i hlower
    obtain rfl := Option.some.inj h
    refine ⟨hlower, fun other hother => ?_⟩
    unfold Nat.dist
    obtain ⟨hn, -⟩ | ⟨hn, hcontains⟩ := sound.contains_beside hstep hother
    · have hbelow : other * step ≤ r.value / step * step := Nat.mul_le_mul_right _ hn
      omega
    · have habove : (r.value / step + 1) * step ≤ other * step := Nat.mul_le_mul_right _ hn
      have hhalf : ¬step ≤ 2 * (r.value % step) := fun hhalf => hupper ⟨hcontains, .inr hhalf⟩
      omega

lemma Sound.not_contains_of_multiple? (sound : r.Sound) (hstep : 0 < step)
    (h : r.multiple? step = none) (other : ℕ) : ¬r.contains (other * step) = true := by
  intro hother
  rw [multiple?_eq] at h
  split at h
  · cases h
  rename_i hupper
  split at h
  · cases h
  rename_i hlower
  obtain ⟨-, hdown⟩ | ⟨-, hup⟩ := sound.contains_beside hstep hother
  · exact hlower hdown
  · exact hupper ⟨hup, .inl (Bool.eq_false_of_not_eq_true hlower)⟩

/-- With a whole step on one side of the number, some multiple is rounded to it. -/
lemma Sound.exists_multiple? (sound : r.Sound) (hstep : 0 < step) (h : r.low + step ≤ r.value) :
    ∃ digits, r.multiple? step = some digits := by
  cases hmultiple : r.multiple? step with
  | some digits => exact ⟨digits, rfl⟩
  | none =>
    exfalso
    apply sound.not_contains_of_multiple? hstep hmultiple (r.value / step)
    have hbelow := Nat.div_mul_le_self r.value step
    have habove := value_lt (r := r) hstep
    have hhigh := sound.lt_high
    rw [Nat.succ_mul] at habove
    exact contains_iff.2 ⟨by omega, by omega, fun _ => by omega⟩

end Range

/-- The range of the positive number with these bits. -/
def rangeOf (bits : ℕ) : Range := .ofBits (bits / 4503599627370496) (bits % 4503599627370496)

variable {bits other place n : ℕ}

lemma sound_rangeOf (h : 0 < bits) : (rangeOf bits).Sound := by
  have hsplit := Nat.div_add_mod' bits 4503599627370496
  rw [rangeOf, Range.ofBits]
  generalize bits / 4503599627370496 = exponent at hsplit ⊢
  generalize bits % 4503599627370496 = fraction at hsplit ⊢
  have hscale : 0 < Nat.pow 2 (exponent - 1) := Nat.two_pow_pos _
  have hsignificand : 0 < if exponent = 0 then fraction else 4503599627370496 + fraction := by
    split <;> omega
  generalize (if exponent = 0 then fraction else 4503599627370496 + fraction) = significand at *
  have hbelow : 0 < (if fraction = 0 ∧ 1 < exponent then 1 else 2) ∧
      (if fraction = 0 ∧ 1 < exponent then 1 else 2) ≤ 2 := by split <;> omega
  exact ⟨Nat.mul_pos (by omega) hscale, Nat.mul_lt_mul_of_pos_right (by omega) hscale,
    Nat.mul_lt_mul_of_pos_right (by omega) hscale⟩

/-- The range of a number ends where the range of the next one starts. -/
lemma high_rangeOf (bits : ℕ) : (rangeOf bits).high = (rangeOf (bits + 1)).low := by
  have hfraction : bits % 4503599627370496 < 4503599627370496 := Nat.mod_lt _ (by decide)
  unfold rangeOf Range.ofBits
  dsimp only
  obtain hcarry | hcarry := Nat.eq_or_lt_of_le hfraction
  · have hexponent : (bits + 1) / 4503599627370496 = bits / 4503599627370496 + 1 := by omega
    have hnext : (bits + 1) % 4503599627370496 = 0 := by omega
    have hlast : bits % 4503599627370496 = 4503599627370495 := by omega
    rw [hexponent, hnext, hlast]
    cases bits / 4503599627370496 with
    | zero => rfl
    | succ exponent =>
      -- behind the carry the steps are twice as long
      have hbelow : 0 = 0 ∧ 1 < exponent + 1 + 1 := ⟨rfl, by omega⟩
      have hscale : Nat.pow 2 (exponent + 1) = Nat.pow 2 exponent * 2 := rfl
      rw [if_neg (Nat.succ_ne_zero _), if_neg (Nat.succ_ne_zero _), if_pos hbelow,
        Nat.add_sub_cancel, Nat.add_sub_cancel, hscale]
      omega
  · have hexponent : (bits + 1) / 4503599627370496 = bits / 4503599627370496 := by omega
    have hnext : (bits + 1) % 4503599627370496 = bits % 4503599627370496 + 1 := by omega
    have hbelow : ¬(bits % 4503599627370496 + 1 = 0 ∧ 1 < bits / 4503599627370496) :=
      fun h => Nat.succ_ne_zero _ h.1
    rw [hexponent, hnext, if_neg hbelow]
    congr 1
    split <;> omega

lemma closed_rangeOf (bits : ℕ) : (rangeOf bits).closed = decide (bits % 2 = 0) := by
  unfold rangeOf Range.ofBits
  rw [decide_eq_decide]
  split <;> omega

lemma high_le_low {bits other : ℕ} (hbits : 0 < bits) (h : bits < other) :
    (rangeOf bits).high ≤ (rangeOf other).low := by
  induction h with
  | refl => exact (high_rangeOf bits).le
  | @step next hnext ih =>
    have sound := sound_rangeOf (hbits.trans hnext)
    rw [← high_rangeOf]
    exact ih.trans (sound.low_lt.trans sound.lt_high).le

/-- Neighbours share an end, but only one of them is closed. -/
lemma not_contains_of_lt {factor : ℕ} (hfactor : 0 < factor) (h : bits < other)
    (hn : ((rangeOf bits).scaled factor).contains n = true) :
    ¬((rangeOf other).scaled factor).contains n = true := by
  intro hother
  obtain ⟨-, hhigh, hopen⟩ := Range.contains_iff.1 hn
  obtain ⟨hlow, -, hopen'⟩ := Range.contains_iff.1 hother
  simp only [Range.scaled, closed_rangeOf, decide_eq_false_iff_not, high_rangeOf] at *
  obtain rfl | hnext := Nat.eq_or_lt_of_le (Nat.succ_le_of_lt h)
  · obtain heven | hodd := Nat.mod_two_eq_zero_or_one bits
    · exact absurd hhigh (Nat.not_le_of_lt (hopen' (by omega)).1)
    · exact absurd hlow (Nat.not_le_of_lt (hopen (by omega)).2)
  · have sound : (rangeOf (bits + 1)).Sound := sound_rangeOf (Nat.succ_pos bits)
    have hbeyond : (rangeOf (bits + 1)).low < (rangeOf other).low :=
      (sound.low_lt.trans sound.lt_high).trans_le (high_le_low (Nat.succ_pos bits) hnext)
    exact absurd (hlow.trans hhigh)
      (Nat.not_le_of_lt (Nat.mul_lt_mul_of_pos_right hbeyond hfactor))

/-- No number is rounded to two floating-point numbers. -/
lemma eq_of_contains {factor : ℕ} (hfactor : 0 < factor)
    (h : ((rangeOf bits).scaled factor).contains n = true)
    (h' : ((rangeOf other).scaled factor).contains n = true) : bits = other := by
  obtain hlt | rfl | hgt := Nat.lt_trichotomy bits other
  · exact absurd h' (not_contains_of_lt hfactor hlt h)
  · rfl
  · exact absurd h (not_contains_of_lt hfactor hgt h')

/-- The range of the positive number with these bits, in the same units as the digits. -/
def decimalRange (bits : ℕ) : Range := (rangeOf bits).scaled (Nat.pow 10 lowestPlace)

lemma factor_pos : 0 < Nat.pow 10 lowestPlace := by decide +kernel

lemma unitAt_pos (place : ℕ) : 0 < unitAt place := by
  have hunit : 0 < Nat.pow 2 1076 := by decide +kernel
  unfold unitAt
  generalize Nat.pow 2 1076 = unit at *
  exact Nat.mul_pos hunit (Nat.pow_pos (by decide))

lemma unitAt_le {higher : ℕ} (h : place ≤ higher) : unitAt place ≤ unitAt higher := by
  have hpower : Nat.pow 10 place ≤ Nat.pow 10 higher := Nat.pow_le_pow_right (by decide) h
  unfold unitAt
  generalize Nat.pow 2 1076 = unit
  exact Nat.mul_le_mul_left unit hpower

lemma sound_decimalRange (h : 0 < bits) : (decimalRange bits).Sound :=
  (sound_rangeOf h).scaled factor_pos

/-- At the lowest place every number has digits. -/
lemma exists_lowest (h : 0 < bits) :
    ∃ digits, (decimalRange bits).multiple? (unitAt 0) = some digits := by
  apply (sound_decimalRange h).exists_multiple? (unitAt_pos 0)
  have hunit : unitAt 0 ≤ Nat.pow 10 lowestPlace := by decide +kernel
  have hvalue : ((rangeOf bits).low + 1) * Nat.pow 10 lowestPlace ≤
      (rangeOf bits).value * Nat.pow 10 lowestPlace :=
    Nat.mul_le_mul_right _ (sound_rangeOf h).low_lt
  rw [Nat.succ_mul] at hvalue
  exact (Nat.add_le_add_left hunit _).trans hvalue

/-- No number reaches beyond the highest place. -/
lemma high_lt_unitAt (h : 0 < bits) (finite : bits < 9218868437227405312) :
    (decimalRange bits).high < unitAt highestPlace := by
  have hgreatest : (rangeOf 9218868437227405312).low * Nat.pow 10 lowestPlace <
      unitAt highestPlace := by decide +kernel
  exact (Nat.mul_le_mul_right _ (high_le_low h finite)).trans_lt hgreatest

lemma digitsFrom_spec {r : Range} (h : ∃ digits, r.multiple? (unitAt 0) = some digits)
    (place : ℕ) :
    r.multiple? (unitAt (digitsFrom r place).2) = some (digitsFrom r place).1 ∧
      ∀ higher, (digitsFrom r place).2 < higher → higher ≤ place →
        r.multiple? (unitAt higher) = none := by
  induction place with
  | zero =>
    obtain ⟨digits, hdigits⟩ := h
    refine ⟨?_, fun higher hlow hhigh => absurd hlow (Nat.not_lt_of_le (hhigh.trans ?_))⟩
    · rw [digitsFrom, hdigits]
      rfl
    · exact Nat.zero_le _
  | succ place ih =>
    rw [digitsFrom]
    cases hmultiple : r.multiple? (unitAt (place + 1)) with
    | some digits =>
      exact ⟨hmultiple, fun higher hlow hhigh => absurd hlow (Nat.not_lt_of_le hhigh)⟩
    | none =>
      refine ⟨ih.1, fun higher hlow hhigh => ?_⟩
      obtain rfl | hlt := Nat.eq_or_lt_of_le hhigh
      · exact hmultiple
      · exact ih.2 higher hlow (Nat.le_of_lt_succ hlt)

/-- The bits without the one of the sign. -/
def magnitude (bits : Word) : ℕ := bits.toNat % 9223372036854775808

lemma ofBits_eq_rangeOf (bits : Word) :
    Range.ofBits (bits.toNat / 4503599627370496 % 2048) (bits.toNat % 4503599627370496) =
      rangeOf (magnitude bits) := by
  have hexponent : magnitude bits / 4503599627370496 = bits.toNat / 4503599627370496 % 2048 := by
    unfold magnitude
    omega
  have hfraction : magnitude bits % 4503599627370496 = bits.toNat % 4503599627370496 := by
    unfold magnitude
    omega
  rw [rangeOf, hexponent, hfraction]

lemma text_of_finite (bits : Word) (nonzero : magnitude bits ≠ 0)
    (finite : magnitude bits < 9218868437227405312) :
    text bits = (if bits.toNat < 9223372036854775808 then "" else "-") ++
      spelled (shortest (rangeOf (magnitude bits))).1 (shortest (rangeOf (magnitude bits))).2 := by
  unfold magnitude at nonzero finite
  have hexponent : bits.toNat / 4503599627370496 % 2048 ≠ 2047 := by omega
  have hzero : ¬(bits.toNat / 4503599627370496 % 2048 = 0 ∧
    bits.toNat % 4503599627370496 = 0) := by omega
  rw [text, if_neg hexponent, if_neg hzero, ofBits_eq_rangeOf]
  rfl

/-- The digits in the text of a finite number other than zero are nearest to it among those that are
rounded to it at their place, at no higher place any are, and they are rounded to no other number
with its sign. -/
theorem text_exact (bits : Word) (nonzero : magnitude bits ≠ 0)
    (finite : magnitude bits < 9218868437227405312) : ∃ digits place : ℕ,
    text bits = (if bits.toNat < 9223372036854775808 then "" else "-") ++ spelled digits place ∧
    (decimalRange (magnitude bits)).Nearest (unitAt place) digits ∧
    (∀ higher, place < higher → ∀ other,
      ¬(decimalRange (magnitude bits)).contains (other * unitAt higher) = true) ∧
    ∀ other : ℕ, (decimalRange other).contains (digits * unitAt place) = true →
      other = magnitude bits := by
  have hpositive : 0 < magnitude bits := Nat.pos_of_ne_zero nonzero
  have sound := sound_decimalRange hpositive
  obtain ⟨hdigits, hhigher⟩ := digitsFrom_spec (exists_lowest hpositive) highestPlace
  have hnearest := sound.nearest_of_multiple? (unitAt_pos _) hdigits
  refine ⟨_, _, text_of_finite bits nonzero finite, hnearest, fun higher hlow other hother => ?_,
    fun other hother => eq_of_contains factor_pos hother hnearest.contains⟩
  obtain hbeyond | hhigh := Nat.lt_or_ge highestPlace higher
  · obtain rfl | hother' := Nat.eq_zero_or_pos other
    · rw [Nat.zero_mul] at hother
      exact sound.not_contains_zero hother
    · have hunit := (unitAt_le hbeyond.le).trans (Nat.le_mul_of_pos_left (unitAt higher) hother')
      have hend := (Range.contains_iff.1 hother).2.1
      exact absurd (hunit.trans hend) (Nat.not_le_of_lt (high_lt_unitAt hpositive finite))
  · exact sound.not_contains_of_multiple? (unitAt_pos _) (hhigher higher hlow hhigh) other hother

/-- One tenth, and the greatest negative number. -/
example : text 4591870180066957722 = "1e-1" ∧ text 9223372036854775809 = "-5e-324" := by
  decide +kernel

end Scientific

end MatrixAudit
