import MatrixAudit.Proofs.DatasetLoading

/-!
# The rows of a dataset

A dataset keeps its rows as one list of entries. However it was made, the blocks of that list are
its rows, none is left out, and making a dataset of them gives it back. Lists that are the rows of
no dataset are refused with the first thing that is wrong: the dimensions come before the space for
all rows and this before the rows, an earlier row before a later one, and the length of a row before
its entries.
-/

namespace MatrixAudit

section Pieces

variable {α : Type} {size : ℕ}

lemma pieces_succ (size count : ℕ) (items : List α) :
    pieces size (count + 1) items = items.take size :: pieces size count (items.drop size) := by
  rw [pieces_eq, pieces_eq, List.range_succ_eq_map]
  simp [Function.comp_def, Nat.succ_mul, Nat.add_comm]

lemma flatten_pieces (size count : ℕ) (items : List α) :
    (pieces size count items).flatten = items.take (size * count) := by
  induction count generalizing items with
  | zero => rfl
  | succ count ih =>
    rw [pieces_succ, List.flatten_cons, ih, ← List.take_add, Nat.mul_succ, Nat.add_comm]

lemma pieces_flatten {given : List (List α)} (h : ∀ row ∈ given, row.length = size) :
    pieces size given.length given.flatten = given := by
  induction given with
  | nil => rfl
  | cons row rest ih =>
    obtain ⟨hrow, hrest⟩ := List.forall_mem_cons.1 h
    rw [List.length_cons, pieces_succ, List.flatten_cons, List.take_left' hrow,
      List.drop_left' hrow, ih hrest]

/-- The consecutive pieces of `size` items as far as they go; fewer items at the end are left
out. -/
def exactPieces (size : ℕ) (items : List α) : List (List α) :=
  pieces size (items.length / size) items

end Pieces

namespace Dataset

/-- The greatest number of seven bytes. -/
def greatestEntry : ℕ := 2 ^ 56 - 1

lemma fits_iff {entry : Word} : fits entry = true ↔ entry.toNat ≤ greatestEntry := by
  have hwidth : Nat.pow 256 entryWidth = greatestEntry + 1 := rfl
  rw [fits, decide_eq_true_eq, hwidth, Nat.lt_succ_iff]

/-- The row has `cols` entries, and none of them is too wide. -/
@[mk_iff] structure RowFits (cols : ℕ) (row : List Word) : Prop where
  length_eq : row.length = cols
  entry_le : ∀ entry ∈ row, entry.toNat ≤ greatestEntry

/-- What is wrong with a row that should have `cols` entries. The entries are looked at if there are
as many, and the first that is too wide is named. -/
inductive RowFault (cols : ℕ) : List Word → Failure → Prop where
  | length {row : List Word} (h : row.length ≠ cols) :
    RowFault cols row (.unequalLengths cols row.length)
  | entry {before after : List Word} {entry : Word}
    (hlength : (before ++ entry :: after).length = cols)
    (hbefore : ∀ e ∈ before, e.toNat ≤ greatestEntry) (hentry : greatestEntry < entry.toNat) :
    RowFault cols (before ++ entry :: after) (.wideEntry entry)

section RowFault

variable {cols : ℕ} {row : List Word} {failure : Failure}

lemma rowFault?_eq_none_iff : rowFault? cols row = none ↔ RowFits cols row := by
  rw [rowFault?]
  by_cases h : row.length = cols
  · rw [if_pos h]
    simp only [Option.map_eq_none_iff, List.find?_eq_none, Bool.not_eq_true', Bool.not_eq_false,
      fits_iff]
    exact ⟨fun hentries => ⟨h, hentries⟩, RowFits.entry_le⟩
  · rw [if_neg h]
    constructor
    · intro hnone
      cases hnone
    · intro hfits
      exact absurd hfits.length_eq h

lemma rowFault?_eq_some_iff : rowFault? cols row = some failure ↔ RowFault cols row failure := by
  constructor
  · intro h
    rw [rowFault?] at h
    split at h
    · rename_i hlength
      obtain ⟨entry, hfind, rfl⟩ := Option.map_eq_some_iff.1 h
      obtain ⟨hwide, before, after, rfl, hbefore⟩ := List.find?_eq_some_iff_append.1 hfind
      refine .entry hlength (fun e he => fits_iff.1 (by simpa using hbefore e he)) ?_
      rw [← Nat.not_le, ← fits_iff]
      simpa using hwide
    · rename_i hlength
      cases h
      exact .length hlength
  · intro h
    cases h with
    | length hlength => exact if_neg hlength
    | entry hlength hbefore hentry =>
      rw [rowFault?, if_pos hlength, Option.map_eq_some_iff]
      refine ⟨_, List.find?_eq_some_iff_append.2 ⟨?_, _, _, rfl, ?_⟩, rfl⟩
      · simpa [← Bool.not_eq_true, fits_iff] using hentry
      · intro e he
        simpa [fits_iff] using hbefore e he

end RowFault

section Rows

variable (d : Dataset)

lemma entries_length_div : d.entries.length / d.cols = d.rows := by
  rw [d.length_entries, Nat.mul_div_cancel _ d.valid.cols_pos]

lemma rowList_eq_exactPieces : d.rowList = exactPieces d.cols d.entries := by
  rw [exactPieces, entries_length_div, rowList]

lemma length_rowList : d.rowList.length = d.rows := length_pieces _ _ _

lemma flatten_rowList : d.rowList.flatten = d.entries := by
  have hlen : d.cols * d.rows = d.entries.length := by rw [d.length_entries, Nat.mul_comm]
  rw [rowList, flatten_pieces, hlen, List.take_length]

/-- The blocks are the rows, and there is neither a block nor a row behind the last one. -/
lemma getElem?_rowList (i : ℕ) : d.rowList[i]? = d.row? i := by
  rw [rowList_eq, row?, List.getElem?_map]
  by_cases hi : i < d.rows
  · rw [if_pos hi, List.getElem?_range hi, Option.map_some]
  · rw [if_neg hi, List.getElem?_eq_none (by simpa using hi), Option.map_none]

lemma exists_row {i : ℕ} (hi : i < d.rows) :
    ∃ row, d.row? i = some row ∧ row.length = d.cols ∧
      ∀ k < d.cols, ∃ entry, d.get? i k = some entry ∧ row[k]? = some entry := by
  have hlen := d.length_row hi
  refine ⟨_, if_pos hi, hlen, fun k hk => ?_⟩
  have hentry := List.getElem?_eq_getElem (hlen ▸ hk)
  refine ⟨_, ?_, hentry⟩
  rw [← hentry, List.getElem?_take_of_lt hk, List.getElem?_drop, get?]

lemma entry_le {entry : Word} (h : entry ∈ d.entries) : entry.toNat ≤ greatestEntry :=
  Nat.le_of_lt_succ (d.entry_lt entry h)

lemma rowFits_of_mem_rowList {row : List Word} (h : row ∈ d.rowList) : RowFits d.cols row := by
  refine ⟨d.length_of_mem_rowList h, fun entry hentry => d.entry_le ?_⟩
  rw [← d.flatten_rowList]
  exact List.mem_flatten_of_mem h hentry

end Rows

/-- The length of the first row, and none without rows. -/
def firstLength (given : List (List Word)) : ℕ := (given.head?.map List.length).getD 0

lemma firstLength_eq {given : List (List Word)} {cols : ℕ} (hne : given ≠ [])
    (h : ∀ row ∈ given, row.length = cols) : firstLength given = cols := by
  cases given with
  | nil => exact absurd rfl hne
  | cons row rest => exact h row List.mem_cons_self

lemma validDimensions_firstLength_iff {given : List (List Word)} :
    ValidDimensions (firstLength given) given.length ↔ given ≠ [] ∧ firstLength given ≠ 0 ∧
      entryWidth * (given.length * firstLength given) < UInt64.size := by
  rw [validDimensions_iff, Countable, List.length_pos_iff, Nat.pos_iff_ne_zero]
  exact and_left_comm

/-- The bytes that a dataset of the given rows takes if all of them are as long as the first. -/
def roomFor (given : List (List Word)) : ℕ := wordWidth * (given.length * firstLength given)

section OfRows

variable {space : Space} {given : List (List Word)} {d : Dataset} {failure : Failure}

lemma ofRows_of_not_valid (h : ¬ValidDimensions (firstLength given) given.length) :
    ofRows given space = .error (.impossibleDimensions (firstLength given) given.length) :=
  dif_neg h

lemma ofRows_of_not_holds (valid : ValidDimensions (firstLength given) given.length)
    (h : ¬space.Holds (roomFor given)) : ofRows given space = .error (.noRoom (roomFor given)) := by
  unfold roomFor firstLength at *
  rw [ofRows, dif_pos valid, Space.allot, if_neg h]
  rfl

lemma ofRows_of_fault (valid : ValidDimensions (firstLength given) given.length)
    (held : space.Holds (roomFor given))
    (h : given.findSome? (rowFault? (firstLength given)) = some failure) :
    ofRows given space = .error failure := by
  unfold roomFor firstLength at *
  rw [ofRows, dif_pos valid, Space.allot, if_pos held]
  dsimp only [bind, Except.bind]
  split
  · rename_i other hother
    exact congrArg Except.error (Option.some.inj (hother.symm.trans h))
  · rename_i hnone
    cases hnone.symm.trans h

lemma ofRows_of_rowFits (valid : ValidDimensions (firstLength given) given.length)
    (held : space.Holds (roomFor given)) (h : ∀ row ∈ given, RowFits (firstLength given) row) :
    ∃ d : Dataset, ofRows given space = .ok d ∧ d.rows = given.length ∧
      d.cols = firstLength given ∧ d.entries = given.flatten := by
  have hnone : given.findSome? (rowFault? (firstLength given)) = none :=
    List.findSome?_eq_none_iff.2 fun row hrow => rowFault?_eq_none_iff.2 (h row hrow)
  unfold roomFor firstLength at *
  rw [ofRows, dif_pos valid, Space.allot, if_pos held]
  dsimp only [bind, Except.bind]
  split
  · rename_i other hother
    cases hother.symm.trans hnone
  · exact ⟨_, rfl, rfl, rfl, rfl⟩

/-- The first thing that is wrong with the given rows: the dimensions come before the space for as
many rows as long as the first, and this before the rows. -/
inductive FirstFault (space : Space) (given : List (List Word)) : Failure → Prop where
  | dimensions (h : ¬ValidDimensions (firstLength given) given.length) :
    FirstFault space given (.impossibleDimensions (firstLength given) given.length)
  | room (valid : ValidDimensions (firstLength given) given.length)
    (h : ¬space.Holds (roomFor given)) : FirstFault space given (.noRoom (roomFor given))
  | row {before after : List (List Word)} {row : List Word} {failure : Failure}
    (valid : ValidDimensions (firstLength given) given.length) (held : space.Holds (roomFor given))
    (hgiven : given = before ++ row :: after)
    (hbefore : ∀ sound ∈ before, RowFits (firstLength given) sound)
    (hrow : RowFault (firstLength given) row failure) : FirstFault space given failure

lemma ofRows_of_firstFault (h : FirstFault space given failure) :
    ofRows given space = .error failure := by
  cases h with
  | dimensions hinvalid => exact ofRows_of_not_valid hinvalid
  | room valid hfull => exact ofRows_of_not_holds valid hfull
  | row valid held hgiven hbefore hrow =>
    apply ofRows_of_fault valid held
    rw [List.findSome?_eq_some_iff]
    exact ⟨_, _, _, hgiven, rowFault?_eq_some_iff.2 hrow,
      fun sound hsound => rowFault?_eq_none_iff.2 (hbefore sound hsound)⟩

/-- Rows that no dataset is made of have a first fault. -/
lemma rowFits_or_firstFault (space : Space) (given : List (List Word)) :
    (ValidDimensions (firstLength given) given.length ∧ space.Holds (roomFor given) ∧
      ∀ row ∈ given, RowFits (firstLength given) row) ∨
      ∃ failure, FirstFault space given failure := by
  by_cases valid : ValidDimensions (firstLength given) given.length
  swap
  · exact .inr ⟨_, .dimensions valid⟩
  by_cases held : space.Holds (roomFor given)
  swap
  · exact .inr ⟨_, .room valid held⟩
  cases hfault : given.findSome? (rowFault? (firstLength given)) with
  | none =>
    refine .inl ⟨valid, held, fun row hrow => rowFault?_eq_none_iff.1 ?_⟩
    exact List.findSome?_eq_none_iff.1 hfault row hrow
  | some failure =>
    obtain ⟨before, row, after, hgiven, hrow, hbefore⟩ := List.findSome?_eq_some_iff.1 hfault
    exact .inr ⟨failure, .row valid held hgiven
      (fun sound hsound => rowFault?_eq_none_iff.1 (hbefore sound hsound))
      (rowFault?_eq_some_iff.1 hrow)⟩

lemma exists_ofRows_iff : (∃ d, ofRows given space = .ok d) ↔
    ValidDimensions (firstLength given) given.length ∧ space.Holds (roomFor given) ∧
      ∀ row ∈ given, RowFits (firstLength given) row := by
  constructor
  · rintro ⟨d, hd⟩
    refine (rowFits_or_firstFault space given).resolve_right ?_
    rintro ⟨failure, hfault⟩
    rw [ofRows_of_firstFault hfault] at hd
    cases hd
  · rintro ⟨valid, held, hrows⟩
    obtain ⟨d, hd, -⟩ := ofRows_of_rowFits valid held hrows
    exact ⟨d, hd⟩

lemma ofRows_eq_error_iff : ofRows given space = .error failure ↔
    FirstFault space given failure := by
  refine ⟨fun h => ?_, ofRows_of_firstFault⟩
  obtain ⟨valid, held, hrows⟩ | ⟨other, hother⟩ := rowFits_or_firstFault space given
  · obtain ⟨d, hd, -⟩ := ofRows_of_rowFits valid held hrows
    rw [hd] at h
    cases h
  · rw [ofRows_of_firstFault hother] at h
    cases h
    exact hother

/-- The rows that a dataset was made of are its rows. -/
lemma ofRows_eq_ok (h : ofRows given space = .ok d) :
    d.rows = given.length ∧ d.cols = firstLength given ∧ d.rowList = given := by
  obtain ⟨valid, held, hrows⟩ := exists_ofRows_iff.1 ⟨d, h⟩
  obtain ⟨made, hmade, hlength, hcols, hentries⟩ := ofRows_of_rowFits valid held hrows
  obtain rfl : made = d := Except.ok.inj (hmade.symm.trans h)
  refine ⟨hlength, hcols, ?_⟩
  rw [rowList, hlength, hcols, hentries, pieces_flatten fun row hrow => (hrows row hrow).length_eq]

theorem ofRows_rowList (d : Dataset) (held : space.Holds (wordWidth * (d.rows * d.cols))) :
    ofRows d.rowList space = .ok d := by
  have hne : d.rowList ≠ [] := by
    rw [← List.length_pos_iff, length_rowList]
    exact d.valid.rows_pos
  have hcols : firstLength d.rowList = d.cols :=
    firstLength_eq hne fun row hrow => d.length_of_mem_rowList hrow
  have valid : ValidDimensions (firstLength d.rowList) d.rowList.length := by
    rw [hcols, length_rowList]
    exact d.valid
  have held' : space.Holds (roomFor d.rowList) := by
    rw [roomFor, hcols, length_rowList]
    exact held
  obtain ⟨made, hmade, hrows, hcols', hentries⟩ :=
    ofRows_of_rowFits valid held' (hcols ▸ fun row hrow => d.rowFits_of_mem_rowList hrow)
  rw [hmade]
  refine congrArg Except.ok (Dataset.ext ?_ ?_ ?_)
  · rw [hrows, length_rowList]
  · rw [hcols', hcols]
  · rw [hentries, flatten_rowList]

end OfRows

namespace RowBuffer

variable {space : Space} {rows cols left : ℕ}

/-- The entries are within the room that was made for them, and there is space for it. -/
structure Roomy (space : Space) (b : RowBuffer cols) : Prop where
  size_le : b.entries.size ≤ b.capacity
  held : space.Holds (wordWidth * b.capacity)

lemma roomy_empty (space : Space) (cols : ℕ) : (empty cols).Roomy space :=
  ⟨Nat.le_refl _, Space.holds_iff.2 fun _ _ => Nat.zero_le _⟩

lemma Roomy.push {b : RowBuffer cols} {capacity : ℕ} (roomy : b.Roomy space)
    (h : space.grow b.capacity (b.entries.size + cols) = .ok capacity) (bytes : List UInt8) :
    (b.push capacity bytes).Roomy space := by
  obtain ⟨hroom, held⟩ := Space.grow_eq_ok roomy.held h
  refine ⟨?_, held⟩
  have hsize : (b.push capacity bytes).entries.size = b.entries.size + cols := by
    rw [(b.push capacity bytes).size_entries, b.size_entries]
    exact Nat.succ_mul _ _
  rw [hsize]
  exact hroom

/-- Whatever a source gives and whatever it breaks off with, there is room for what was read. -/
lemma Roomy.readRows {b : RowBuffer cols} {missing : b.count + left = rows}
    {full : {b : RowBuffer cols // b.count = rows}} {source next : Source} (roomy : b.Roomy space)
    (h : RowBuffer.readRows space rows left b missing source = .ok full next) :
    full.1.Roomy space := by
  induction left generalizing b source with
  | zero =>
    cases h
    exact roomy
  | succ left ih =>
    rw [RowBuffer.readRows] at h
    cases hgrow : space.grow b.capacity (b.entries.size + cols) with
    | error failure =>
      rw [hgrow] at h
      cases h
    | ok capacity =>
      rw [hgrow] at h
      have hroom : Reading.ofExcept (.ok capacity) source = .ok capacity source := rfl
      rw [bind_of_ok hroom] at h
      cases hbytes : Reading.entryBytes .datasetFile s!"matrix row {b.count}" cols source with
      | error failure rest =>
        rw [bind_of_error hbytes] at h
        cases h
      | ok bytes rest =>
        rw [bind_of_ok hbytes] at h
        exact ih (roomy.push hgrow bytes) h

end RowBuffer

/-- The dataset was made of rows, read from a source or taken from a file, and these are the
dimensions that it was given there. -/
inductive Made (space : Space) : ℕ → ℕ → Dataset → Prop where
  | ofRows {given : List (List Word)} {d : Dataset} (h : Dataset.ofRows given space = .ok d) :
    Made space given.length (firstLength given) d
  | read {rows cols : ℕ} {source next : Source} {d : Dataset}
    (h : Dataset.read rows cols space source = .ok d next) : Made space rows cols d
  | ofFile {path : String} {found : Except Fault (List UInt8)} {rows cols : ℕ} {d : Dataset}
    (h : Dataset.ofFile path found rows cols space = .ok d) : Made space rows cols d

section Made

variable {space : Space} {rows cols : ℕ} {d : Dataset}

/-- What is read has the dimensions asked for and there is space for it, in whatever pieces it
comes. -/
lemma read_eq_ok {source next : Source} (h : read rows cols space source = .ok d next) :
    d.rows = rows ∧ d.cols = cols ∧ space.Holds (wordWidth * (rows * cols)) := by
  rw [read] at h
  split at h
  · cases hrows : RowBuffer.readRows space rows rows (.empty cols) (Nat.zero_add rows) source with
    | ok full rest =>
      rw [bind_of_ok hrows] at h
      have roomy := (RowBuffer.roomy_empty space cols).readRows hrows
      obtain ⟨b, rfl⟩ := full
      cases h
      refine ⟨rfl, rfl, roomy.held.of_le (Nat.mul_le_mul_left _ ?_)⟩
      rw [← b.size_entries]
      exact roomy.size_le
    | error failure rest =>
      rw [bind_of_error hrows] at h
      cases h
  · cases h

lemma Made.dimensions (made : Made space rows cols d) :
    d.rows = rows ∧ d.cols = cols ∧ space.Holds (wordWidth * (rows * cols)) := by
  cases made with
  | ofRows h =>
    obtain ⟨hrows, hcols, -⟩ := ofRows_eq_ok h
    obtain ⟨-, held, -⟩ := exists_ofRows_iff.1 ⟨d, h⟩
    exact ⟨hrows, hcols, held⟩
  | read h => exact read_eq_ok h
  | @ofFile path found rows cols d h =>
    cases found with
    | ok contents =>
      obtain ⟨⟨hrows, hcols, -⟩, held⟩ := (ofFile_eq_ok_iff path).1 h
      exact ⟨hrows, hcols, held.holds⟩
    | error fault =>
      unfold Dataset.ofFile at h
      split at h <;> cases h

/-- The dataset has the given dimensions and as many entries as they say, none of them too wide. Its
rows, taken one by one, as the blocks of the entries or entry by entry, are the same and all of
them, and are what a dataset can be made of again. -/
structure Rectangular (space : Space) (d : Dataset) (rows cols : ℕ) : Prop where
  rows_eq : d.rows = rows
  cols_eq : d.cols = cols
  rows_pos : 0 < rows
  cols_pos : 0 < cols
  length_entries : d.entries.length = rows * cols
  entry_le : ∀ entry ∈ d.entries, entry.toNat ≤ greatestEntry
  rowList_eq : d.rowList = exactPieces cols d.entries
  length_rowList : d.rowList.length = rows
  flatten_rowList : d.rowList.flatten = d.entries
  row : ∀ i < rows, ∃ row, d.row? i = some row ∧ row.length = cols ∧ d.rowList[i]? = some row ∧
    ∀ k < cols, ∃ entry, d.get? i k = some entry ∧ row[k]? = some entry
  ofRows_rowList : Dataset.ofRows d.rowList space = .ok d

lemma Made.rectangular (made : Made space rows cols d) : d.Rectangular space rows cols := by
  obtain ⟨rfl, rfl, held⟩ := made.dimensions
  refine ⟨rfl, rfl, d.valid.rows_pos, d.valid.cols_pos, d.length_entries,
    fun _ hentry => d.entry_le hentry, d.rowList_eq_exactPieces, d.length_rowList,
    d.flatten_rowList, fun i hi => ?_, d.ofRows_rowList held⟩
  obtain ⟨row, hrow, hlength, hentries⟩ := d.exists_row hi
  exact ⟨row, hrow, hlength, (d.getElem?_rowList i).trans hrow, hentries⟩

end Made

/-- However a dataset was made, its rows are complete and agree. One can be made of given rows iff
there is a first row with an entry, the bytes can be counted, there is space for as many rows as
long as the first, and every row is as long as that and has no entry that is too wide; the given
rows are its rows then, and otherwise their first fault is reported. -/
theorem rows_exact (space : Space) :
    (∀ (rows cols : ℕ) (d : Dataset), Made space rows cols d → d.Rectangular space rows cols) ∧
    ∀ given : List (List Word),
      ((∃ d, ofRows given space = .ok d) ↔ given ≠ [] ∧ firstLength given ≠ 0 ∧
        entryWidth * (given.length * firstLength given) < UInt64.size ∧
        space.Holds (roomFor given) ∧
        ∀ row ∈ given, row.length = firstLength given ∧
          ∀ entry ∈ row, entry.toNat ≤ greatestEntry) ∧
      (∀ d, ofRows given space = .ok d → d.rows = given.length ∧ d.cols = firstLength given ∧
        d.rowList = given ∧ ∀ i, d.row? i = given[i]?) ∧
      ∀ failure, ofRows given space = .error failure ↔ FirstFault space given failure := by
  refine ⟨fun rows cols d made => made.rectangular, fun given => ⟨?_, ?_, ?_⟩⟩
  · rw [exists_ofRows_iff, validDimensions_firstLength_iff, and_assoc, and_assoc]
    simp only [rowFits_iff]
  · intro d h
    obtain ⟨hrows, hcols, hgiven⟩ := ofRows_eq_ok h
    refine ⟨hrows, hcols, hgiven, fun i => ?_⟩
    rw [← d.getElem?_rowList, hgiven]
  · exact fun failure => ofRows_eq_error_iff

theorem rows_exact_sample :
    let wide : Word := 72057594037927936
    let space : Space := ⟨some 64⟩
    Made space 2 3 sampleDataset ∧
    ofRows [[1, 2, 72057594037927935], [3, 4, 0]] space = .ok sampleDataset ∧
    (∃ row, sampleDataset.row? 1 = some row ∧ sampleDataset.rowList[1]? = some row ∧
      ∃ entry, sampleDataset.get? 1 2 = some entry ∧ row[2]? = some entry) ∧
    ofRows [[1, 2], [wide], [3, 4]] space = .error (.unequalLengths 2 1) ∧
    ofRows [[1, 2], [wide, wide + 1], [3]] space = .error (.wideEntry wide) ∧
    ofRows [[1, 2, 3], [1], [2]] space = .error (.noRoom 72) ∧
    ofRows [[], [1]] space = .error (.impossibleDimensions 0 2) := by
  intro wide space
  have hmade : ofRows [[1, 2, 72057594037927935], [3, 4, 0]] space = .ok sampleDataset := rfl
  have made : Made space 2 3 sampleDataset := .ofRows hmade
  obtain ⟨hrectangular, hgiven⟩ := rows_exact space
  obtain ⟨row, hrow, -, hblock, hentries⟩ := (hrectangular 2 3 sampleDataset made).row 1 (by decide)
  obtain ⟨-, -, hragged⟩ := hgiven [[1, 2], [wide], [3, 4]]
  obtain ⟨-, -, hwide⟩ := hgiven [[1, 2], [wide, wide + 1], [3]]
  obtain ⟨-, -, hroom⟩ := hgiven [[1, 2, 3], [1], [2]]
  obtain ⟨-, -, hempty⟩ := hgiven [[], [1]]
  have hfirst : ∀ sound ∈ [([1, 2] : List Word)], RowFits 2 sound := by
    simp [rowFits_iff, greatestEntry]
  have hentry : RowFault 2 [wide, wide + 1] (.wideEntry wide) :=
    @RowFault.entry 2 [] [wide + 1] wide rfl (by simp) (by decide)
  refine ⟨made, hmade, ⟨row, hrow, hblock, hentries 2 (by decide)⟩, ?_, ?_, ?_, ?_⟩
  · exact (hragged _).2 (.row (by decide) (by decide) rfl hfirst (.length (by decide)))
  · exact (hwide _).2 (.row (by decide) (by decide) rfl hfirst hentry)
  · exact (hroom _).2 (.room (by decide) (by decide))
  · exact (hempty _).2 (.dimensions (by decide))

/-- A row of zeros is followed by empty ones. That these are too short is not found out where there
is no space for as many rows as long as the first. -/
lemma ofRows_ragged {space : Space} {size count : ℕ} (valid : ValidDimensions size (count + 2))
    (hfull : ¬space.Holds (wordWidth * ((count + 2) * size))) :
    let given : List (List Word) := List.replicate size 0 :: List.replicate (count + 1) []
    ofRows given space = .error (.noRoom (wordWidth * ((count + 2) * size))) ∧
    ¬∀ (before after : List (List Word)) (row : List Word), given = before ++ row :: after →
      ValidDimensions (firstLength given) given.length →
      (∀ sound ∈ before, RowFits (firstLength given) sound) → row.length ≠ firstLength given →
        ofRows given space = .error (.unequalLengths (firstLength given) row.length) := by
  intro given
  have hcols : firstLength given = size := List.length_replicate
  have hrows : given.length = count + 2 := by rw [List.length_cons, List.length_replicate]
  have hroom : roomFor given = wordWidth * ((count + 2) * size) := by rw [roomFor, hcols, hrows]
  have valid' : ValidDimensions (firstLength given) given.length := by
    rw [hcols, hrows]
    exact valid
  have hstops := ofRows_of_not_holds valid' (hroom ▸ hfull)
  rw [hroom] at hstops
  refine ⟨hstops, fun hnamed => ?_⟩
  have hgiven : given = [List.replicate size 0] ++ [] :: List.replicate count [] := by
    rw [List.singleton_append, ← List.replicate_succ]
  have hfirst : ∀ sound ∈ [List.replicate size (0 : Word)],
      RowFits (firstLength given) sound := by
    intro sound hsound
    obtain rfl := List.mem_singleton.1 hsound
    refine ⟨rfl, fun entry hentry => ?_⟩
    rw [List.eq_of_mem_replicate hentry]
    exact Nat.zero_le _
  have hshort : ([] : List Word).length ≠ firstLength given := by
    rw [hcols]
    exact valid.cols_pos.ne
  cases hstops.symm.trans (hnamed _ _ _ hgiven valid' hfirst hshort)

theorem rows_disagree :
    let given : List (List Word) := List.replicate 1073741824 0 :: List.replicate 1073741823 []
    ofRows given .signed = .error (.noRoom 9223372036854775808) ∧
    ¬∀ (before after : List (List Word)) (row : List Word), given = before ++ row :: after →
      ValidDimensions (firstLength given) given.length →
      (∀ sound ∈ before, RowFits (firstLength given) sound) → row.length ≠ firstLength given →
        ofRows given .signed = .error (.unequalLengths (firstLength given) row.length) :=
  @ofRows_ragged .signed 1073741824 1073741822 (by decide) (by decide)

end Dataset

end MatrixAudit
