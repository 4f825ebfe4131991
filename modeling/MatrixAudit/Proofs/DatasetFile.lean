import MatrixAudit.Proofs.BufferGrowth
import MatrixAudit.Proofs.FileFields
import MatrixAudit.Proofs.FileReading
import MatrixAudit.Proofs.ProductTotals

/-!
# Contents of a dataset file

A dataset is read row by row into a buffer that grows. What the rows take together are the bytes of
its entries, so bytes that are enough hold a dataset, which does not depend on what follows the
entries. Of too few bytes some row is the first that is not complete, and where space is short some
row is the first without it; the reading stops at the one or the other.
-/

namespace MatrixAudit

namespace Dataset

/-- The dataset whose entries are the first `rows * cols` of some bytes. -/
def ofBytes (rows cols : ℕ) (valid : ValidDimensions cols rows) (bytes : List UInt8) :
    Dataset where
  rows := rows
  cols := cols
  entries := LittleEndian.decodeWords entryWidth (rows * cols) bytes
  valid := valid
  length_entries := LittleEndian.length_decodeWords ..
  entry_lt := fun _ mem => LittleEndian.toNat_lt_of_mem_decodeWords mem

namespace RowBuffer

variable {space : Space} {rows cols left : ℕ} {b : RowBuffer cols} {bytes rest : List UInt8}

/-- The buffer has grown with the rows that it holds. -/
def Grown (b : RowBuffer cols) : Prop := b.capacity = Space.capacityOf cols b.count

lemma grown_empty (cols : ℕ) : (empty cols).Grown := rfl

/-- The buffer after one more row, for which room was made. -/
def next (b : RowBuffer cols) (bytes : List UInt8) : RowBuffer cols :=
  b.push (Space.capacityOf cols (b.count + 1)) (bytes.take (entryWidth * cols))

lemma grown_next (b : RowBuffer cols) (bytes : List UInt8) : (b.next bytes).Grown := rfl

lemma count_next (b : RowBuffer cols) (bytes : List UInt8) :
    (b.next bytes).count = b.count + 1 := rfl

lemma grow_eq (grown : b.Grown) (held : space.HoldsRows cols b.count) :
    space.grow b.capacity (b.entries.size + cols) =
      if space.HoldsRows cols (b.count + 1) then .ok (Space.capacityOf cols (b.count + 1))
      else .error (.noRoom (wordWidth * Space.capacityOf cols (b.count + 1))) := by
  rw [grown, b.size_entries, ← Nat.succ_mul]
  exact Space.grow_capacityOf held

section ReadRows

variable {result : Except Failure {b : RowBuffer cols // b.count = rows}}

/-- Where there is space for another row, its bytes are asked for. -/
lemma readRows_room (grown : b.Grown) (held : space.HoldsRows cols (b.count + 1))
    (missing : b.count + 1 + left = rows)
    (h : (Reading.entryBytes .datasetFile s!"matrix row {b.count}" cols >>= fun taken =>
      readRows space rows left (b.push (Space.capacityOf cols (b.count + 1)) taken)
        missing).Parses bytes result rest) (missing' : b.count + (left + 1) = rows) :
    (readRows space rows (left + 1) b missing').Parses bytes result rest := by
  have hgrow := Reading.parses_ofExcept (space.grow b.capacity (b.entries.size + cols)) bytes
  rw [grow_eq grown held.of_succ, if_pos held] at hgrow
  rw [readRows, grow_eq grown held.of_succ, if_pos held]
  exact hgrow.bind h

/-- A complete row with space for it is taken in, and the reading goes on behind it. -/
lemma readRows_next (grown : b.Grown) (held : space.HoldsRows cols (b.count + 1))
    (complete : entryWidth * cols ≤ bytes.length) (missing : (b.next bytes).count + left = rows)
    (h : (readRows space rows left (b.next bytes) missing).Parses
      (bytes.drop (entryWidth * cols)) result rest) (missing' : b.count + (left + 1) = rows) :
    (readRows space rows (left + 1) b missing').Parses bytes result rest :=
  readRows_room grown held missing ((Reading.exactly_parses _ _ _ complete).bind h) missing'

/-- Complete rows with space for them are taken in one after the other, and the reading goes on
behind the last one. -/
lemma readRows_after {row total : ℕ} (grown : b.Grown) (missing : b.count + total = rows)
    (hleft : left + row = total) (held : space.HoldsRows cols (b.count + row))
    (complete : entryWidth * cols * row ≤ bytes.length) :
    ∃ further : RowBuffer cols, further.Grown ∧ further.count = b.count + row ∧
      further.entries.toList =
        b.entries.toList ++ LittleEndian.decodeWords entryWidth (row * cols) bytes ∧
      ∀ (missing' : further.count + left = rows)
        (result : Except Failure {b : RowBuffer cols // b.count = rows}) (rest : List UInt8),
        (readRows space rows left further missing').Parses
          (bytes.drop (entryWidth * cols * row)) result rest →
            (readRows space rows total b missing).Parses bytes result rest := by
  -- every row moves on in the bytes and is kept at the end of the buffer
  induction row generalizing b bytes total with
  | zero =>
    obtain rfl : left = total := hleft
    refine ⟨b, grown, rfl, ?_, fun _ _ _ h => ?_⟩
    · rw [Nat.zero_mul, LittleEndian.decodeWords_eq, List.range_zero, List.map_nil, List.append_nil]
    · rwa [Nat.mul_zero, List.drop_zero] at h
  | succ row ih =>
    obtain rfl : left + row + 1 = total := hleft
    rw [Nat.mul_succ] at complete
    have hnumber : b.count + (row + 1) = (b.next bytes).count + row := by
      rw [count_next]
      omega
    have hmissing : (b.next bytes).count + (left + row) = rows := by
      rw [count_next]
      omega
    have hrest : entryWidth * cols * row ≤ (bytes.drop (entryWidth * cols)).length := by
      rw [List.length_drop]
      omega
    have hfirst : space.HoldsRows cols (b.count + 1) := held.of_le (by omega)
    rw [hnumber] at held ⊢
    obtain ⟨further, hgrown, hcount, hentries, hgoes⟩ :=
      ih (grown_next b bytes) hmissing rfl held hrest
    refine ⟨further, hgrown, hcount, ?_, fun missing' result rest h => ?_⟩
    · rw [hentries, next, push, Array.toList_append, List.append_assoc,
        LittleEndian.decodeWords_take, Nat.succ_mul, Nat.add_comm _ cols,
        LittleEndian.decodeWords_add]
    · rw [Nat.mul_succ, Nat.add_comm, ← List.drop_drop] at h
      exact readRows_next grown hfirst (by omega) hmissing (hgoes missing' result rest h) missing

end ReadRows

/-- Bytes that are enough fill the buffer. -/
lemma readRows_parses (grown : b.Grown) (missing : b.count + left = rows)
    (held : space.HoldsRows cols rows) (h : entryWidth * cols * left ≤ bytes.length) :
    ∃ full : {b : RowBuffer cols // b.count = rows},
      full.1.entries.toList =
        b.entries.toList ++ LittleEndian.decodeWords entryWidth (left * cols) bytes ∧
      (readRows space rows left b missing).Parses bytes (.ok full)
        (bytes.drop (entryWidth * cols * left)) := by
  obtain ⟨full, -, hcount, hentries, hgoes⟩ :=
    readRows_after grown missing (Nat.zero_add left) (missing.symm ▸ held) h
  have hfull : full.count = rows := hcount.trans missing
  exact ⟨⟨full, hfull⟩, hentries, hgoes hfull _ _ (Reading.parses_pure _ _)⟩

/-- After `row` complete rows there are not enough bytes for another one. -/
lemma readRows_parses_truncated {row : ℕ} (grown : b.Grown) (missing : b.count + left = rows)
    (hrow : row < left) (held : space.HoldsRows cols (b.count + row + 1))
    (hcomplete : entryWidth * cols * row ≤ bytes.length)
    (hshort : bytes.length < entryWidth * cols * (row + 1)) :
    (readRows space rows left b missing).Parses bytes
      (.error (.truncated .datasetFile s!"matrix row {b.count + row}" (entryWidth * cols))) [] := by
  obtain ⟨fewer, rfl⟩ : ∃ fewer, left = fewer + 1 + row := ⟨left - row - 1, by omega⟩
  obtain ⟨further, hgrown, hcount, -, hgoes⟩ :=
    readRows_after grown missing rfl held.of_succ hcomplete
  rw [← hcount] at held ⊢
  apply hgoes (by omega)
  apply readRows_room hgrown held (by omega)
  apply Reading.Parses.bind_error
  apply Reading.exactly_parses_error
  rw [List.length_drop]
  rw [Nat.mul_succ] at hshort
  omega

/-- After `row` complete rows there is no space for another one, and its bytes are not read. -/
lemma readRows_parses_noRoom {row : ℕ} (grown : b.Grown) (missing : b.count + left = rows)
    (hrow : row < left) (held : space.HoldsRows cols (b.count + row))
    (hfull : ¬space.HoldsRows cols (b.count + row + 1))
    (hcomplete : entryWidth * cols * row ≤ bytes.length) :
    (readRows space rows left b missing).Parses bytes
      (.error (.noRoom (wordWidth * Space.capacityOf cols (b.count + row + 1))))
      (bytes.drop (entryWidth * cols * row)) := by
  obtain ⟨fewer, rfl⟩ : ∃ fewer, left = fewer + 1 + row := ⟨left - row - 1, by omega⟩
  obtain ⟨further, hgrown, hcount, -, hgoes⟩ := readRows_after grown missing rfl held hcomplete
  rw [← hcount] at held hfull ⊢
  apply hgoes (by omega)
  rw [readRows, grow_eq hgrown held, if_neg hfull]
  exact (Reading.parses_throw _ _).bind_error

end RowBuffer

variable {space : Space} {rows cols : ℕ} (valid : ValidDimensions cols rows)

lemma ofBytes_take (contents : List UInt8) :
    ofBytes rows cols valid (contents.take (entryWidth * (rows * cols))) =
      ofBytes rows cols valid contents := by
  unfold ofBytes
  simp only [LittleEndian.decodeWords_take]

lemma rowBytes_eq (rows cols : ℕ) : entryWidth * cols * rows = entryWidth * (rows * cols) := by
  rw [Nat.mul_assoc, Nat.mul_comm cols]

lemma read_parses {bytes : List UInt8} (held : space.HoldsRows cols rows)
    (h : entryWidth * (rows * cols) ≤ bytes.length) :
    (read rows cols space).Parses bytes (.ok (ofBytes rows cols valid bytes))
      (bytes.drop (entryWidth * (rows * cols))) := by
  rw [← rowBytes_eq] at h ⊢
  obtain ⟨⟨b, rfl⟩, hentries, hrows⟩ := RowBuffer.readRows_parses (RowBuffer.grown_empty cols)
    (Nat.zero_add rows) held h
  have hdataset : b.toDataset valid = ofBytes b.count cols valid bytes :=
    Dataset.ext rfl rfl hentries
  rw [← hdataset]
  unfold read
  rw [dif_pos valid]
  exact hrows.bind (Reading.parses_pure _ _)

include valid in
/-- With possible dimensions, too few bytes are missed in the first row that is not complete, if
there is space for the rows up to it. -/
lemma read_parses_truncated {bytes : List UInt8} {row : ℕ} (hrow : row < rows)
    (held : space.HoldsRows cols (row + 1)) (hcomplete : entryWidth * cols * row ≤ bytes.length)
    (hshort : bytes.length < entryWidth * cols * (row + 1)) :
    (read rows cols space).Parses bytes
      (.error (.truncated .datasetFile s!"matrix row {row}" (entryWidth * cols))) [] := by
  have hnumber : (RowBuffer.empty cols).count + row = row := Nat.zero_add row
  have hrows := RowBuffer.readRows_parses_truncated (RowBuffer.grown_empty cols)
    (Nat.zero_add rows) hrow (hnumber.symm ▸ held) hcomplete hshort
  rw [hnumber] at hrows
  rw [read, dif_pos valid]
  exact hrows.bind_error

include valid in
/-- With possible dimensions, the reading breaks off in front of the first row without space, if all
rows before it are complete. -/
lemma read_parses_noRoom {bytes : List UInt8} {row : ℕ} (hrow : row < rows)
    (held : space.HoldsRows cols row) (hfull : ¬space.HoldsRows cols (row + 1))
    (hcomplete : entryWidth * cols * row ≤ bytes.length) :
    (read rows cols space).Parses bytes
      (.error (.noRoom (wordWidth * Space.capacityOf cols (row + 1))))
      (bytes.drop (entryWidth * cols * row)) := by
  have hnumber : (RowBuffer.empty cols).count + row = row := Nat.zero_add row
  have hrows := RowBuffer.readRows_parses_noRoom (RowBuffer.grown_empty cols)
    (Nat.zero_add rows) hrow (hnumber.symm ▸ held) (hnumber.symm ▸ hfull) hcomplete
  rw [hnumber] at hrows
  rw [read, dif_pos valid]
  exact hrows.bind_error

/-- Some bytes have a number of complete rows, and are not enough for one more. -/
lemma exists_incomplete_row (hcols : 0 < cols) {available : ℕ}
    (h : available < entryWidth * cols * rows) :
    available / (entryWidth * cols) < rows ∧
      entryWidth * cols * (available / (entryWidth * cols)) ≤ available ∧
      available < entryWidth * cols * (available / (entryWidth * cols) + 1) := by
  have hwidth : 0 < entryWidth * cols := Nat.mul_pos (by decide) hcols
  exact ⟨Nat.div_lt_of_lt_mul h, Nat.mul_div_le _ _, Nat.lt_mul_div_succ _ hwidth⟩

/-- What the reading of rows stops with when so many bytes are available: the first row that is not
complete, or that there is no space for. -/
inductive Stops (space : Space) (rows cols available : ℕ) : Failure → Prop where
  | truncated {row : ℕ} (hrow : row < rows) (held : space.HoldsRows cols (row + 1))
    (hcomplete : entryWidth * cols * row ≤ available)
    (hshort : available < entryWidth * cols * (row + 1)) :
    Stops space rows cols available
      (.truncated .datasetFile s!"matrix row {row}" (entryWidth * cols))
  | noRoom {row : ℕ} (hrow : row < rows) (held : space.HoldsRows cols row)
    (hfull : ¬space.HoldsRows cols (row + 1)) (hcomplete : entryWidth * cols * row ≤ available) :
    Stops space rows cols available (.noRoom (wordWidth * Space.capacityOf cols (row + 1)))

/-- Without enough bytes and space for all rows, the reading stops with something. -/
lemma exists_stops (hcols : 0 < cols) {available : ℕ}
    (h : available < entryWidth * (rows * cols) ∨ ¬space.HoldsRows cols rows) :
    ∃ failure, Stops space rows cols available failure := by
  rw [← rowBytes_eq] at h
  by_cases held : space.HoldsRows cols rows
  · obtain ⟨hrow, hcomplete, hshort⟩ :=
      exists_incomplete_row hcols (h.resolve_right (not_not.2 held))
    exact ⟨_, .truncated hrow (held.of_le hrow) hcomplete hshort⟩
  · obtain ⟨full, hfull, heldFull, hnext⟩ := Space.exists_first_row held
    obtain hfew | hcomplete := Nat.lt_or_ge available (entryWidth * cols * full)
    · -- the bytes end before the first row without space is reached
      obtain ⟨hrow, hcomplete, hshort⟩ := exists_incomplete_row hcols hfew
      exact ⟨_, .truncated (hrow.trans hfull) (heldFull.of_le hrow) hcomplete hshort⟩
    · exact ⟨_, .noRoom hfull heldFull hnext hcomplete⟩

include valid in
lemma Stops.exists_parses {bytes : List UInt8} {failure : Failure}
    (h : Stops space rows cols bytes.length failure) :
    ∃ rest, (read rows cols space).Parses bytes (.error failure) rest := by
  cases h with
  | truncated hrow held hcomplete hshort =>
    exact ⟨_, read_parses_truncated valid hrow held hcomplete hshort⟩
  | noRoom hrow held hfull hcomplete =>
    exact ⟨_, read_parses_noRoom valid hrow held hfull hcomplete⟩

lemma read_of_not_valid (h : ¬ValidDimensions cols rows) (s : Source) :
    read rows cols space s = .error (.impossibleDimensions cols rows) s := by
  rw [read, dif_neg h]
  rfl

section OfFile

variable (path : String) {contents : List UInt8}

include valid

lemma ofFile_eq_ofContents :
    ofFile path (.ok contents) rows cols space = ofContents rows cols contents space :=
  if_pos valid.countable

lemma ofFile_of_lt (h : contents.length < entryWidth * (rows * cols)) :
    ofFile path (.ok contents) rows cols space =
      .error (.truncated .datasetFile s!"{rows} x {cols} matrix" (entryWidth * (rows * cols))) := by
  rw [ofFile_eq_ofContents valid, ofContents, if_pos h]

lemma ofFile_of_le (held : space.HoldsRows cols rows)
    (h : entryWidth * (rows * cols) ≤ contents.length) :
    ofFile path (.ok contents) rows cols space = .ok (ofBytes rows cols valid contents) := by
  have hfull : entryWidth * (rows * cols) ≤
      (contents.take (entryWidth * (rows * cols))).length := by
    rw [List.length_take]
    omega
  rw [ofFile_eq_ofContents valid, ofContents, if_neg (Nat.not_lt.2 h),
    (read_parses valid held hfull).onBytes, ofBytes_take]

lemma exists_ofFile_error (hfull : ¬space.HoldsRows cols rows)
    (h : entryWidth * (rows * cols) ≤ contents.length) :
    ∃ failure, ofFile path (.ok contents) rows cols space = .error failure := by
  obtain ⟨failure, hstops⟩ := exists_stops valid.cols_pos (Or.inr hfull)
  obtain ⟨rest, hread⟩ := hstops.exists_parses valid
  refine ⟨failure, ?_⟩
  rw [ofFile_eq_ofContents valid, ofContents, if_neg (Nat.not_lt.2 h), hread.onBytes]

/-- A file that can be read holds a dataset iff it is long enough for the entries. -/
theorem ofFile_ok (contents : List UInt8) :
    ofFile path (.ok contents) rows cols =
      if contents.length < entryWidth * (rows * cols) then
        .error (.truncated .datasetFile s!"{rows} x {cols} matrix" (entryWidth * (rows * cols)))
      else .ok (ofBytes rows cols valid contents) := by
  by_cases hshort : contents.length < entryWidth * (rows * cols)
  · rw [if_pos hshort, ofFile_of_lt valid path hshort]
  · rw [if_neg hshort, ofFile_of_le valid path (Space.holdsRows_endless _ _)
      (Nat.le_of_not_lt hshort)]

end OfFile

/-- Entries lie row after row, each in its own bytes. -/
lemma number_ofBytes (contents : List UInt8) {i k : ℕ} (hi : i < rows) (hk : k < cols) :
    (ofBytes rows cols valid contents).number i k =
      fieldAt entryWidth (entryWidth * (i * cols + k)) contents := by
  have hplace : i * cols + k < rows * cols := by
    have hrow : (i + 1) * cols ≤ rows * cols := Nat.mul_le_mul_right cols hi
    rw [Nat.succ_mul] at hrow
    omega
  have hwidth : entryWidth ≤ wordWidth := by decide
  have hfield := numberAt_decodeWords hwidth hplace 0 contents
  rwa [List.drop_zero, Nat.zero_add] at hfield

end Dataset

end MatrixAudit
