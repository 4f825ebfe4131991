import MatrixAudit.Proofs.ColumnDefects
import MatrixAudit.Proofs.DatasetFile

/-!
# Datasets and their bytes

A dataset is read back from the bytes it is written as, and what follows these is left alone. Bytes
that are enough for the dimensions are read into a dataset that is written as the same bytes; where
they are too few, the reading stops at the first row that is not complete. All this takes space for
the rows, which is asked for before their bytes are.
-/

namespace MatrixAudit

namespace Dataset

lemma length_toBytes (d : Dataset) : d.toBytes.length = entryWidth * (d.rows * d.cols) := by
  rw [toBytes, LittleEndian.length_encodeWords, d.length_entries]

lemma ofBytes_toBytes_append (d : Dataset) (tail : List UInt8) :
    ofBytes d.rows d.cols d.valid (d.toBytes ++ tail) = d := by
  have hentries : LittleEndian.decodeWords entryWidth (d.rows * d.cols) (d.toBytes ++ tail) =
      d.entries := by
    rw [← d.length_entries]
    exact LittleEndian.decodeWords_encodeWords_of_lt d.entry_lt tail
  apply Dataset.ext
  · rfl
  · rfl
  · exact hentries

lemma isReduced_of_mem_entries {d : Dataset} {entry : Word} (hentry : entry ∈ d.entries) :
    Residue.isReduced entry = true := by
  have hwidth : 256 ^ entryWidth < Residue.modulus := by decide
  rw [Residue.isReduced_iff]
  exact (d.entry_lt entry hentry).trans hwidth

lemma toBytes_ofBytes {rows cols : ℕ} (valid : ValidDimensions cols rows) {bytes : List UInt8}
    (h : entryWidth * (rows * cols) ≤ bytes.length) :
    (ofBytes rows cols valid bytes).toBytes = bytes.take (entryWidth * (rows * cols)) :=
  LittleEndian.encodeWords_decodeWords (by decide) h

/-- Reading undoes writing and leaves what follows unread, if there is space for the rows. With
possible dimensions, bytes that are enough are read into the one dataset that is written as them,
all of whose entries are reduced, and bytes that are too few are refused with the first row that is
not complete. In either case the reading breaks off in front of the first row without space, even if
not one of its bytes is there. With impossible dimensions nothing is read. The space that rows take
one by one is at least what all of them need and at most twice as much, apart from very few. -/
theorem read_inverse_toBytes (space : Space) :
    (∀ (d : Dataset) (tail : List UInt8), space.HoldsRows d.cols d.rows →
      (read d.rows d.cols space).Parses (d.toBytes ++ tail) (.ok d) tail) ∧
    (∀ (rows cols : ℕ) (bytes : List UInt8), ValidDimensions cols rows →
      entryWidth * (rows * cols) ≤ bytes.length → space.HoldsRows cols rows →
        ∃ d : Dataset, d.rows = rows ∧ d.cols = cols ∧
          (read rows cols space).Parses bytes (.ok d) (bytes.drop (entryWidth * (rows * cols))) ∧
          d.toBytes = bytes.take (entryWidth * (rows * cols)) ∧
          ∀ entry ∈ d.entries, fits entry = true ∧ Residue.isReduced entry = true) ∧
    (∀ (rows cols : ℕ) (bytes : List UInt8), ValidDimensions cols rows →
      bytes.length < entryWidth * (rows * cols) →
      space.HoldsRows cols (bytes.length / (entryWidth * cols) + 1) →
        (read rows cols space).Parses bytes
          (.error (.truncated .datasetFile s!"matrix row {bytes.length / (entryWidth * cols)}"
            (entryWidth * cols))) []) ∧
    (∀ (rows cols row : ℕ) (bytes : List UInt8), ValidDimensions cols rows → row < rows →
      entryWidth * cols * row ≤ bytes.length →
      space.HoldsRows cols row → ¬space.HoldsRows cols (row + 1) →
        (read rows cols space).Parses bytes
          (.error (.noRoom (wordWidth * Space.capacityOf cols (row + 1))))
          (bytes.drop (entryWidth * cols * row))) ∧
    (∀ (rows cols : ℕ) (s : Source), ¬ValidDimensions cols rows →
      read rows cols space s = .error (.impossibleDimensions cols rows) s) ∧
    ∀ rows cols : ℕ,
      (space.HoldsRows cols rows → space.Holds (wordWidth * (rows * cols))) ∧
      (space.Holds (wordWidth * max Space.leastWords (2 * (rows * cols))) →
        space.HoldsRows cols rows) := by
  refine ⟨?_, ?_, ?_, ?_, fun rows cols s h => read_of_not_valid h s,
    fun rows cols => ⟨Space.HoldsRows.holds, Space.holdsRows_of_holds⟩⟩
  · intro d tail held
    have hlen : entryWidth * (d.rows * d.cols) ≤ (d.toBytes ++ tail).length := by
      rw [List.length_append, length_toBytes]
      omega
    have hread := read_parses d.valid held hlen
    rwa [ofBytes_toBytes_append, List.drop_left' d.length_toBytes] at hread
  · intro rows cols bytes valid h held
    refine ⟨ofBytes rows cols valid bytes, rfl, rfl, read_parses valid held h,
      toBytes_ofBytes valid h, fun entry hentry => ⟨?_, isReduced_of_mem_entries hentry⟩⟩
    exact decide_eq_true ((ofBytes rows cols valid bytes).entry_lt entry hentry)
  · intro rows cols bytes valid h held
    obtain ⟨hrow, hcomplete, hshort⟩ := exists_incomplete_row valid.cols_pos (rowBytes_eq .. ▸ h)
    exact read_parses_truncated valid hrow held hcomplete hshort
  · intro rows cols row bytes valid hrow hcomplete held hfull
    exact read_parses_noRoom valid hrow held hfull hcomplete

theorem read_inverse_toBytes_sample :
    (read 2 3).Parses (sampleDataset.toBytes ++ [9, 9]) (.ok sampleDataset) [9, 9] ∧
    (∃ d : Dataset, d.rows = 2 ∧ d.cols = 1 ∧
      (read 2 1).Parses (List.replicate 15 255) (.ok d) [255] ∧
      d.toBytes = List.replicate 14 255) ∧
    (read 2 3).Parses (List.replicate 41 0)
      (.error (.truncated .datasetFile "matrix row 1" 21)) [] ∧
    (read 2 3 ⟨some 63⟩).Parses (List.replicate 41 0) (.error (.noRoom 64))
      (List.replicate 20 0) ∧
    read 0 3 .endless { bytes := [7] } = .error (.impossibleDimensions 3 0) { bytes := [7] } := by
  obtain ⟨hback, hfull, hshort, -, himpossible, -⟩ := read_inverse_toBytes .endless
  obtain ⟨-, -, -, hnoRoom, -, -⟩ := read_inverse_toBytes ⟨some 63⟩
  refine ⟨hback sampleDataset [9, 9] (by decide), ?_, ?_, ?_, himpossible 0 3 _ (by decide)⟩
  · obtain ⟨d, hrows, hcols, hread, hbytes, -⟩ :=
      hfull 2 1 (List.replicate 15 255) (by decide) (by decide) (by decide)
    exact ⟨d, hrows, hcols, hread, hbytes⟩
  · have hread := hshort 2 3 (List.replicate 41 0) (by decide) (by decide) (by decide)
    exact hread
  · have hread := hnoRoom 2 3 1 (List.replicate 41 0) (by decide) (by decide) (by decide)
      (by decide) (by decide)
    exact hread

/-- A row may be so long that there is no buffer for it although its bytes can be counted. No byte
of it is there, and yet it is not what is told to be missing. -/
theorem read_noRoom_of_missing :
    ValidDimensions 1152921504606846976 1 ∧
    (read 1 1152921504606846976 .signed).Parses [] (.error (.noRoom 9223372036854775808)) [] ∧
    ¬∀ (rows cols : ℕ) (bytes : List UInt8), ValidDimensions cols rows →
      bytes.length < entryWidth * (rows * cols) →
        (read rows cols .signed).Parses bytes
          (.error (.truncated .datasetFile s!"matrix row {bytes.length / (entryWidth * cols)}"
            (entryWidth * cols))) [] := by
  have valid : ValidDimensions 1152921504606846976 1 := by decide
  have held : Space.signed.HoldsRows 1152921504606846976 0 := Space.holdsRows_zero _ _
  have hfull : ¬Space.signed.HoldsRows 1152921504606846976 1 := by decide
  have hread : (read 1 1152921504606846976 .signed).Parses [] (.error (.noRoom 9223372036854775808))
      [] :=
    read_parses_noRoom valid Nat.zero_lt_one held hfull (Nat.zero_le _)
  refine ⟨valid, hread, fun hmissed => ?_⟩
  have hresult := hread.onBytes.symm.trans
    (hmissed 1 1152921504606846976 [] valid (by decide)).onBytes
  cases hresult

end Dataset

end MatrixAudit
