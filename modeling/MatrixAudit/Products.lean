import MatrixAudit.Dataset
import MatrixAudit.InnerProduct
import MatrixAudit.Split

/-!
# Products with a dataset

`columnSums` weighs the rows and adds them up column by column. `response` takes the inner product
of every row with a challenge. Each can be done by one worker, row after row, or shared out.
-/

namespace MatrixAudit

/-- Adds one weighted row to the column accumulators; each term is reduced before it is added. -/
def addWeighted (sums : List Nat) (row : List Word) (weight : Word) : List Nat :=
  List.zipWith (fun sum entry => sum + (Residue.mul weight entry).toNat) sums row

/-- Column accumulators that have seen no row. -/
def zeroSums (cols : Nat) : List Nat := List.replicate cols 0

/-- The unreduced column sums of weighted rows, as a split shares them out. -/
def sharedSums (cols : Nat) (work : Split (List Word × Word)) : List Nat :=
  work.fold (zeroSums cols) (fun sums item => addWeighted sums item.1 item.2)
    (List.zipWith (· + ·))

namespace Dataset

def weighted (d : Dataset) (weights : List Word) : List (List Word × Word) :=
  d.rowList.zip weights

def columnSums (d : Dataset) (weights : List Word) : Except Failure (List Word) := do
  sameLength d.rows weights.length
  let sums := (d.weighted weights).foldl (fun sums item => addWeighted sums item.1 item.2)
    (zeroSums d.cols)
  return sums.map Residue.ofNat

/-- The weighted sum of every column, with the rows shared out by `share`. -/
def columnSumsBy (share : List (List Word × Word) → Split (List Word × Word)) (d : Dataset)
    (weights : List Word) : Except Failure (List Word) := do
  sameLength d.rows weights.length
  return (sharedSums d.cols (share (d.weighted weights))).map Residue.ofNat

/-- The inner product of every row with the challenge, row after row. -/
def response (d : Dataset) (challenge : List Word) : Except Failure (List Word) := do
  sameLength d.cols challenge.length
  d.rowList.mapM fun row => innerProduct row challenge

/-- The inner product of every row with the challenge, with the rows shared out by `share`. -/
def responseBy (share : List (List Word) → Split (List Word)) (d : Dataset)
    (challenge : List Word) : Except Failure (List Word) := do
  sameLength d.cols challenge.length
  (share d.rowList).mapM fun row => innerProduct row challenge

def columnSumsWith [Sharing] (parallel : Bool) (d : Dataset) (weights : List Word) :
    Except Failure (List Word) :=
  if parallel then d.columnSumsBy Sharing.share weights else d.columnSums weights

def responseWith [Sharing] (parallel : Bool) (d : Dataset) (challenge : List Word) :
    Except Failure (List Word) :=
  if parallel then d.responseBy Sharing.share challenge else d.response challenge

end Dataset

end MatrixAudit
