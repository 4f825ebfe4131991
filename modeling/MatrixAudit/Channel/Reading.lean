import MatrixAudit.Bytes
import MatrixAudit.Channel.Source

/-!
# Exact reads

Every read here takes exactly the bytes of its field or fails; nothing is padded and no partial
value is given. Each is named by an origin and a context, which the failure repeats. A failed read
leaves its source as far as it was consumed, so reading can go on.
-/

namespace MatrixAudit

abbrev Reading := EStateM Failure Source

namespace Reading

variable {α : Type}

/-- Goes on with the result, unless it is a failure; nothing is read. -/
def ofExcept (result : Except Failure α) : Reading α := fun source =>
  match result with
  | .ok value => .ok value source
  | .error failure => .error failure source

/-- The largest byte count a failure reports. -/
def greatestCount : Nat := UInt64.size - 1

/-- Exactly `count` bytes; `expected` is the count a failure reports. -/
def exactly (origin : Origin) (context : String) (expected count : Nat) : Reading (List UInt8) :=
  fun source =>
    match source.fill count [] with
    | .ok bytes next => .ok bytes next
    | .error fault next => .error (.ofRead origin context expected fault) next

def byte (origin : Origin) (context : String) : Reading UInt8 := do
  let bytes ← exactly origin context 1 1
  return UInt8.ofNat (LittleEndian.decode bytes)

def word (origin : Origin) (context : String) : Reading Word := do
  let bytes ← exactly origin context wordWidth wordWidth
  return UInt64.ofNat (LittleEndian.decode bytes)

/-- Vectors are read this many words at a time, so that a length nobody has vouched for reserves no
space beyond the next block. -/
def blockWords : Nat := 65536

/-- The last `remaining` words of a vector, behind those already `done`, last first. -/
def wordBlocks (origin : Origin) (context : String) (expected : Nat) (remaining : Nat)
    (done : List Word) : Reading (List Word) :=
  if remaining = 0 then return done.reverse
  else do
    let count := min remaining blockWords
    let bytes ← exactly origin context expected (wordWidth * count)
    wordBlocks origin context expected (remaining - count)
      ((LittleEndian.decodeWords wordWidth count bytes).reverse ++ done)
termination_by remaining
decreasing_by simp only [blockWords]; omega

def words (origin : Origin) (context : String) (length : Nat) : Reading (List Word) :=
  wordBlocks origin context (min (wordWidth * length) greatestCount) length []

def entryBytes (origin : Origin) (context : String) (length : Nat) : Reading (List UInt8) :=
  exactly origin context (entryWidth * length) (entryWidth * length)

def entries (origin : Origin) (context : String) (length : Nat) : Reading (List Word) := do
  let bytes ← entryBytes origin context length
  return LittleEndian.decodeWords entryWidth length bytes

/-- Reads everything that is left and counts it. -/
def remaining (origin : Origin) : Reading Nat := fun source =>
  match source.drain 0 with
  | .ok count next => .ok count next
  | .error fault next => .error (.ofRead origin "draining trailing bytes" 0 fault) next

/-- Fails if anything is left; either way nothing is left afterwards. -/
def expectEnd (origin : Origin) : Reading Unit := do
  let extra ← remaining origin
  if extra = 0 then return () else throw (.overlong origin extra)

/-- The result of reading from the start of some bytes that end cleanly. -/
def onBytes (reading : Reading α) (bytes : List UInt8) : Except Failure α :=
  match reading.run { bytes } with
  | .ok value _ => .ok value
  | .error failure _ => .error failure

end Reading

end MatrixAudit
