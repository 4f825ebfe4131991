import MatrixAudit.Dimensions
import MatrixAudit.Space

/-!
# Client files

The client holds one weight for each row of the dataset and claims the weighted sum of each column.
Its file starts with the two dimensions, columns first; the weights and then the claimed sums
follow. All are eight-byte words, least significant byte first, and the file ends right after the
last one.
-/

namespace MatrixAudit

/-- What a client file says. Its fields can be edited apart, so the lengths need not agree with the
dimensions. -/
@[ext] structure Client where
  /-- The number of columns, one claimed sum for each. -/
  n : Nat
  /-- The number of rows, one weight for each. -/
  m : Nat
  weights : List Word
  claimed : List Word
deriving DecidableEq

namespace Client

/-- The client with the given vectors; their lengths are its dimensions. -/
def ofVectors (weights claimed : List Word) : Except Failure Client :=
  if ValidDimensions claimed.length weights.length then
    .ok ⟨claimed.length, weights.length, weights, claimed⟩
  else .error (.impossibleDimensions claimed.length weights.length)

/-- Reads the dimensions, columns first, and refuses those of no dataset. -/
def readHeader : Reading (Nat × Nat) := do
  let n ← Reading.word .clientFile "dimension n"
  let m ← Reading.word .clientFile "dimension m"
  if ValidDimensions n.toNat m.toNat then return (n.toNat, m.toNat)
  else throw (.impossibleDimensions n.toNat m.toNat)

/-- Reads a whole client file, which has to end where the last claimed sum does. -/
def read : Reading Client := do
  let (n, m) ← readHeader
  let weights ← Reading.words .clientFile "vector r" m
  let claimed ← Reading.words .clientFile "vector s" n
  Reading.expectEnd .clientFile
  return ⟨n, m, weights, claimed⟩

def ofContents (contents : List UInt8) : Except Failure Client := read.onBytes contents

/-- The client in the file at `path`, where `found` is what looking the file up gave. -/
def ofFile (path : String) (found : Except Fault (List UInt8)) : Except Failure Client := do
  ofContents (← found.mapError (.inaccessible path))

/-- The number of weights and claimed sums that are not reduced. -/
def unreducedCount (c : Client) : Nat :=
  (c.weights ++ c.claimed).countP fun word => !Residue.isReduced word

/-- The size of the file, by its dimensions, if it can be counted in 64 bits. -/
def encodedLength? (c : Client) (overflow : Overflow := .stops) : Option Nat :=
  overflow.count? (2 * wordWidth + wordWidth * (c.m + c.n))

/-- The contents of the client's file: its fields are written into a buffer of the size that its
dimensions give, each up to where the next one has to start. A client whose fields do not fill the
buffer in this way has no file. -/
def toBytes? (c : Client) (overflow : Overflow := .stops) (space : Space := .endless) :
    Option (List UInt8) := do
  let length ← c.encodedLength? overflow
  let claimedStart ← overflow.count? (2 * wordWidth + wordWidth * c.m)
  (space.allot length).toOption
  let blank := List.replicate length 0
  let withCols ← writeAt? 0 wordWidth (LittleEndian.encode wordWidth c.n) blank
  let withRows ←
    writeAt? wordWidth (2 * wordWidth) (LittleEndian.encode wordWidth c.m) withCols
  let withWeights ←
    writeAt? (2 * wordWidth) claimedStart (LittleEndian.encodeWords wordWidth c.weights) withRows
  writeAt? claimedStart length (LittleEndian.encodeWords wordWidth c.claimed) withWeights

end Client

end MatrixAudit
