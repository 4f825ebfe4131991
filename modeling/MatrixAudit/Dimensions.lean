import MatrixAudit.Channel.Reading

/-!
# Dimensions of a dataset

A dataset has `n` columns and `m` rows. Both are positive, and the bytes of its entries can be
counted in 64 bits.
-/

namespace MatrixAudit

/-- Whether the bytes of `m` rows of `n` entries can be counted in 64 bits. -/
def Countable (n m : Nat) : Prop := entryWidth * (m * n) < UInt64.size

instance (n m : Nat) : Decidable (Countable n m) := inferInstanceAs (Decidable (_ < _))

/-- The dimensions of some dataset: `n` columns and `m` rows. -/
structure ValidDimensions (n m : Nat) : Prop where
  cols_pos : 0 < n
  rows_pos : 0 < m
  countable : Countable n m

theorem validDimensions_iff (n m : Nat) :
    ValidDimensions n m ↔ 0 < n ∧ 0 < m ∧ Countable n m :=
  ⟨fun h => ⟨h.cols_pos, h.rows_pos, h.countable⟩, fun h => ⟨h.1, h.2.1, h.2.2⟩⟩

instance (n m : Nat) : Decidable (ValidDimensions n m) :=
  decidable_of_iff' _ (validDimensions_iff n m)

/-- Both dimensions can be counted in 64 bits. -/
theorem ValidDimensions.lt_size {n m : Nat} (valid : ValidDimensions n m) :
    n < UInt64.size ∧ m < UInt64.size := by
  have hcount : entryWidth * (m * n) < UInt64.size := valid.countable
  have hcols : n ≤ m * n := Nat.le_mul_of_pos_left n valid.rows_pos
  have hrows : m ≤ m * n := Nat.le_mul_of_pos_right m valid.cols_pos
  unfold entryWidth at hcount
  omega

end MatrixAudit
