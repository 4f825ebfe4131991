import MatrixAudit.Dimensions
import MatrixAudit.Space

/-!
# Datasets

A dataset is a dense matrix of seven-byte entries, kept row after row. Its file has no header: the
entries follow each other in that order, seven bytes each, least significant first. Reading takes
exactly the bytes of the entries and leaves what follows. The entries are kept in one buffer, and a
run breaks off when there is no space for it.
-/

namespace MatrixAudit

/-- A matrix of seven-byte entries, row after row. -/
@[ext] structure Dataset where
  rows : Nat
  cols : Nat
  entries : List Word
  valid : ValidDimensions cols rows
  length_entries : entries.length = rows * cols
  entry_lt : ∀ entry ∈ entries, entry.toNat < Nat.pow 256 entryWidth

namespace Dataset

def fits (entry : Word) : Bool := entry.toNat < Nat.pow 256 entryWidth

/-- The first thing wrong with a row that should have `cols` entries: its length comes before its
entries. -/
def rowFault? (cols : Nat) (row : List Word) : Option Failure :=
  if row.length = cols then (row.find? fun entry => !fits entry).map .wideEntry
  else some (.unequalLengths cols row.length)

theorem rowFault?_eq_none {cols : Nat} {row : List Word} (h : rowFault? cols row = none) :
    row.length = cols ∧ ∀ entry ∈ row, entry.toNat < Nat.pow 256 entryWidth := by
  unfold rowFault? at h
  split at h
  · rename_i same
    refine ⟨same, fun entry mem => ?_⟩
    simp only [Option.map_eq_none_iff, List.find?_eq_none, Bool.not_eq_true', Bool.not_eq_false,
      fits, decide_eq_true_eq] at h
    exact h entry mem
  · cases h

theorem length_flatten_of_rows {cols : Nat} {given : List (List Word)}
    (same : ∀ row ∈ given, row.length = cols) : given.flatten.length = given.length * cols := by
  induction given with
  | nil => simp
  | cons row rest ih =>
    simp only [List.flatten_cons, List.length_append, List.length_cons, Nat.succ_mul,
      same row (by simp), ih fun row mem => same row (by simp [mem])]
    omega

/-- The dataset with the given rows. All of them must be as long as the first. Room for as many
rows of that length is made before any row is looked at. -/
def ofRows (given : List (List Word)) (space : Space := .endless) : Except Failure Dataset :=
  let cols := (given.head?.map List.length).getD 0
  if valid : ValidDimensions cols given.length then do
    space.allot (wordWidth * (given.length * cols))
    match faultless : given.findSome? (rowFault? cols) with
    | some failure => .error failure
    | none =>
      have sound := fun row mem =>
        rowFault?_eq_none (List.findSome?_eq_none_iff.1 faultless row mem)
      .ok {
        rows := given.length
        cols := cols
        entries := given.flatten
        valid := valid
        length_entries := length_flatten_of_rows fun row mem => (sound row mem).1
        entry_lt := fun entry mem =>
          have ⟨row, memRow, memEntry⟩ := List.mem_flatten.1 mem
          (sound row memRow).2 entry memEntry }
  else .error (.impossibleDimensions cols given.length)

/-- The complete rows that were read so far, in a buffer with room for `capacity` words. -/
structure RowBuffer (cols : Nat) where
  count : Nat
  capacity : Nat
  entries : Array Word
  size_entries : entries.size = count * cols
  entry_lt : ∀ entry ∈ entries, entry.toNat < Nat.pow 256 entryWidth

namespace RowBuffer

variable {cols : Nat}

def empty (cols : Nat) : RowBuffer cols := ⟨0, 0, #[], by simp, by simp⟩

/-- The buffer with one more row, whose bytes are given, and with another capacity. -/
def push (b : RowBuffer cols) (capacity : Nat) (bytes : List UInt8) : RowBuffer cols where
  count := b.count + 1
  capacity := capacity
  entries := b.entries ++ (LittleEndian.decodeWords entryWidth cols bytes).toArray
  size_entries := by
    rw [Array.size_append, b.size_entries, List.size_toArray, LittleEndian.length_decodeWords,
      Nat.succ_mul]
  entry_lt := fun entry mem => by
    rcases Array.mem_append.1 mem with mem | mem
    · exact b.entry_lt entry mem
    · exact LittleEndian.toNat_lt_of_mem_decodeWords (List.mem_toArray.1 mem)

/-- The dataset of the rows in the buffer. -/
def toDataset (b : RowBuffer cols) (valid : ValidDimensions cols b.count) : Dataset where
  rows := b.count
  cols := cols
  entries := b.entries.toList
  valid := valid
  length_entries := b.size_entries
  entry_lt := fun entry mem => b.entry_lt entry (Array.mem_def.2 mem)

/-- Reads `left` more rows. Room for a row is made before its bytes are read. -/
def readRows (space : Space) (rows : Nat) : (left : Nat) → (b : RowBuffer cols) →
    b.count + left = rows → Reading {b : RowBuffer cols // b.count = rows}
  | 0, b, complete => return ⟨b, complete⟩
  | left + 1, b, missing => do
    let capacity ← Reading.ofExcept (space.grow b.capacity (b.entries.size + cols))
    let bytes ← Reading.entryBytes .datasetFile s!"matrix row {b.count}" cols
    readRows space rows left (b.push capacity bytes) (by
      have hcount : (b.push capacity bytes).count = b.count + 1 := rfl
      omega)

end RowBuffer

/-- Reads a dataset row by row and leaves what follows it unread. -/
def read (rows cols : Nat) (space : Space := .endless) : Reading Dataset :=
  if valid : ValidDimensions cols rows then do
    let ⟨b, complete⟩ ← RowBuffer.readRows space rows rows (.empty cols) (Nat.zero_add rows)
    return b.toDataset (complete ▸ valid)
  else throw (.impossibleDimensions cols rows)

/-- The dataset at the start of a file's contents. A file that is too short is refused whole. -/
def ofContents (rows cols : Nat) (contents : List UInt8) (space : Space := .endless) :
    Except Failure Dataset :=
  let expected := entryWidth * (rows * cols)
  if contents.length < expected then
    .error (.truncated .datasetFile s!"{rows} x {cols} matrix" expected)
  else (read rows cols space).onBytes (contents.take expected)

/-- The dataset in the file at `path`, where `found` is what looking the file up gave. Whether its
size can be counted is settled first. -/
def ofFile (path : String) (found : Except Fault (List UInt8)) (rows cols : Nat)
    (space : Space := .endless) : Except Failure Dataset :=
  if Countable cols rows then do
    ofContents rows cols (← found.mapError (.inaccessible path)) space
  else .error (.impossibleDimensions cols rows)

def toBytes (d : Dataset) : List UInt8 := LittleEndian.encodeWords entryWidth d.entries

def rowList (d : Dataset) : List (List Word) := pieces d.cols d.rows d.entries

def row? (d : Dataset) (i : Nat) : Option (List Word) :=
  if i < d.rows then some ((d.entries.drop (i * d.cols)).take d.cols) else none

/-- The entry `k` places after the start of row `i`, also where that lies in a later row. -/
def get? (d : Dataset) (i k : Nat) : Option Word := d.entries[i * d.cols + k]?

end Dataset

end MatrixAudit
