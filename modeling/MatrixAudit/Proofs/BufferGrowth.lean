import Mathlib.Data.Nat.Notation
import Mathlib.Tactic.Lemma
import MatrixAudit.Space

/-!
# The growth of a buffer of rows

A buffer that takes in one row after the other grows in steps of its own. It always has room for the
rows that it holds, and for less than twice as much, so whether there is space for so many rows is
decided by one size, and space for some rows is space for fewer.
-/

namespace MatrixAudit

namespace Space

/-- The words that a buffer has room for after taking in so many rows one by one. -/
def capacityOf (cols : ℕ) : ℕ → ℕ
  | 0 => 0
  | count + 1 => grown (capacityOf cols count) ((count + 1) * cols)

/-- There is space for a buffer that takes in so many rows one by one. -/
def HoldsRows (space : Space) (cols count : ℕ) : Prop :=
  space.Holds (wordWidth * capacityOf cols count)

instance (space : Space) (cols count : ℕ) : Decidable (space.HoldsRows cols count) :=
  inferInstanceAs (Decidable (space.Holds _))

lemma le_grown (capacity needed : ℕ) : capacity ≤ grown capacity needed := by
  unfold grown
  split <;> omega

lemma needed_le_grown (capacity needed : ℕ) : needed ≤ grown capacity needed := by
  unfold grown
  split <;> omega

variable {space : Space} {cols count : ℕ}

lemma le_capacityOf (cols count : ℕ) : count * cols ≤ capacityOf cols count := by
  cases count with
  | zero => rw [Nat.zero_mul]; exact Nat.zero_le _
  | succ count => exact needed_le_grown _ _

lemma capacityOf_le (cols count : ℕ) :
    capacityOf cols count ≤ max leastWords (2 * (count * cols)) := by
  induction count with
  | zero => exact Nat.zero_le _
  | succ count ih =>
    rw [capacityOf, grown]
    rw [Nat.succ_mul]
    split <;> omega

lemma holdsRows_zero (space : Space) (cols : ℕ) : space.HoldsRows cols 0 :=
  holds_iff.2 fun _ _ => Nat.zero_le _

lemma holdsRows_endless (cols count : ℕ) : endless.HoldsRows cols count := holds_endless _

lemma HoldsRows.of_succ (h : space.HoldsRows cols (count + 1)) : space.HoldsRows cols count :=
  Holds.of_le h (Nat.mul_le_mul_left _ (le_grown _ _))

lemma HoldsRows.of_le {fewer : ℕ} (h : space.HoldsRows cols count) (hle : fewer ≤ count) :
    space.HoldsRows cols fewer := by
  induction hle with
  | refl => exact h
  | step _ ih => exact ih h.of_succ

/-- Space for the rows one by one is space for all of them at once. -/
lemma HoldsRows.holds (h : space.HoldsRows cols count) : space.Holds (wordWidth * (count * cols)) :=
  Holds.of_le h (Nat.mul_le_mul_left _ (le_capacityOf cols count))

/-- Space for twice the rows is space for them one by one. -/
lemma holdsRows_of_holds (h : space.Holds (wordWidth * max leastWords (2 * (count * cols)))) :
    space.HoldsRows cols count :=
  h.of_le (Nat.mul_le_mul_left _ (capacityOf_le cols count))

/-- Where there is no space for so many rows, some row is the first without space. -/
lemma exists_first_row (h : ¬space.HoldsRows cols count) :
    ∃ row < count, space.HoldsRows cols row ∧ ¬space.HoldsRows cols (row + 1) := by
  induction count with
  | zero => exact absurd (holdsRows_zero space cols) h
  | succ count ih =>
    by_cases hcount : space.HoldsRows cols count
    · exact ⟨count, Nat.lt_succ_self count, hcount, h⟩
    · obtain ⟨row, hrow, hfirst⟩ := ih hcount
      exact ⟨row, Nat.lt_succ_of_lt hrow, hfirst⟩

/-- Room for one more row is made iff there is space for it. -/
lemma grow_capacityOf (held : space.HoldsRows cols count) :
    space.grow (capacityOf cols count) ((count + 1) * cols) =
      if space.HoldsRows cols (count + 1) then .ok (capacityOf cols (count + 1))
      else .error (.noRoom (wordWidth * capacityOf cols (count + 1))) := by
  have hnext : capacityOf cols (count + 1) = grown (capacityOf cols count) ((count + 1) * cols) :=
    rfl
  rw [grow, ← hnext]
  by_cases hroom : capacityOf cols count < (count + 1) * cols
  · rw [if_pos hroom, allot]
    by_cases hholds : space.HoldsRows cols (count + 1)
    · rw [if_pos hholds, if_pos (show space.Holds _ from hholds)]
      rfl
    · rw [if_neg hholds, if_neg (show ¬space.Holds _ from hholds)]
      rfl
  · -- the buffer is large enough as it is, so the space is the same
    have hsame : capacityOf cols (count + 1) = capacityOf cols count :=
      if_pos (Nat.le_of_not_lt hroom)
    have hholds : space.HoldsRows cols (count + 1) := by
      rw [HoldsRows, hsame]
      exact held
    rw [if_neg hroom, if_pos hholds]
    rfl

/-- Whatever room is made, it is enough and there is space for it. -/
lemma grow_eq_ok {capacity needed next : ℕ} (held : space.Holds (wordWidth * capacity))
    (h : space.grow capacity needed = .ok next) :
    needed ≤ next ∧ space.Holds (wordWidth * next) := by
  rw [grow, allot] at h
  by_cases hroom : capacity < needed
  · rw [if_pos hroom] at h
    split at h
    · rename_i hholds
      cases h
      exact ⟨needed_le_grown _ _, hholds⟩
    · cases h
  · have hsame : grown capacity needed = capacity := if_pos (Nat.le_of_not_lt hroom)
    rw [if_neg hroom, hsame] at h
    cases h
    exact ⟨Nat.le_of_not_lt hroom, held⟩

end Space

end MatrixAudit
