import MatrixAudit.Failure
import MatrixAudit.Residue

/-!
# Inner products and vectors of words

Vectors are lists of raw words. An inner product reduces each term before it is added, so its
accumulator after `i` terms is below `i` times the modulus; the total is reduced once more.
-/

namespace MatrixAudit

/-- Refuses two lengths that differ. -/
def sameLength (left right : Nat) : Except Failure Unit :=
  if left = right then .ok () else .error (.unequalLengths left right)

/-- The unreduced sum of the reduced products, in order, on top of `start`. -/
def termSum (start : Nat) (xs ys : List Word) : Nat :=
  (xs.zip ys).foldl (fun acc pair => acc + (Residue.mul pair.1 pair.2).toNat) start

def innerProduct (xs ys : List Word) : Except Failure Word := do
  sameLength xs.length ys.length
  return Residue.ofNat (termSum 0 xs ys)

def vectorSum (xs ys : List Word) : Except Failure (List Word) := do
  sameLength xs.length ys.length
  return List.zipWith Residue.add xs ys

def scaled (k : Word) (xs : List Word) : List Word := xs.map (Residue.mul · k)

end MatrixAudit
