import MatrixAudit.Products
import MatrixAudit.Statement

/-!
# The offline check

Every column sum is computed anew and compared with the claimed one. The comparison is between words
as they stand: a claimed sum that is right but not reduced counts as a mismatch.
-/

namespace MatrixAudit

/-- At most this many mismatching columns are listed. -/
def listedMismatches : Nat := 16

structure ColumnCheck where
  computed : List Word
  /-- The first mismatching columns, in increasing order. -/
  mismatches : List Nat
  mismatchCount : Nat
  passed : Bool
deriving DecidableEq

/-- The places where two vectors differ, in increasing order. -/
def differingPlaces (xs ys : List Word) : List Nat :=
  ((xs.zip ys).zipIdx.filter fun item => item.1.1 != item.1.2).map (·.2)

namespace Statement

/-- Computes the column sums and compares them with the claimed ones. -/
def checkColumns [Sharing] (s : Statement) (parallel : Bool) : Except Failure ColumnCheck := do
  let computed ← s.dataset.columnSumsWith parallel s.client.weights
  sameLength computed.length s.client.claimed.length
  let places := differingPlaces s.client.claimed computed
  return ⟨computed, places.take listedMismatches, places.length, places.isEmpty⟩

end Statement

end MatrixAudit
