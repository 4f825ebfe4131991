import MatrixAudit.Proofs.DatasetCodec
import MatrixAudit.Proofs.FileRelation

/-!
# Datasets from files and from streams

A dataset can be taken from a file as a whole or read row by row from bytes as they come. Both give
the dataset whose bytes the contents begin with, if there is one of the dimensions asked for, and
both refuse the same dimensions; they differ in how they name what is missing from contents that are
too short. Both take the same space, but a stream asks for it before it knows what is missing. So
the files that a statement is written as are loaded as that statement.
-/

namespace MatrixAudit

namespace Dataset

/-- The dataset has the given dimensions, and the bytes begin with its own. -/
structure Begins (d : Dataset) (rows cols : ℕ) (bytes : List UInt8) : Prop where
  rows_eq : d.rows = rows
  cols_eq : d.cols = cols
  isPrefix : d.toBytes <+: bytes

variable {space : Space} {d : Dataset} {rows cols : ℕ} {bytes bytes' : List UInt8} {source : Source}

lemma begins_iff (valid : ValidDimensions cols rows) : d.Begins rows cols bytes ↔
    entryWidth * (rows * cols) ≤ bytes.length ∧ ofBytes rows cols valid bytes = d := by
  constructor
  · rintro ⟨rfl, rfl, tail, rfl⟩
    refine ⟨?_, ofBytes_toBytes_append d tail⟩
    rw [List.length_append, length_toBytes]
    exact Nat.le_add_right _ _
  · rintro ⟨hlen, rfl⟩
    refine ⟨rfl, rfl, ?_⟩
    rw [toBytes_ofBytes valid hlen]
    exact List.take_prefix _ _

/-- Only as many bytes count as the dataset has. -/
lemma Begins.of_take_eq (h : d.Begins rows cols bytes)
    (htake : bytes.take (entryWidth * (rows * cols)) =
      bytes'.take (entryWidth * (rows * cols))) : d.Begins rows cols bytes' := by
  obtain ⟨rfl, rfl, hbytes⟩ := h
  refine ⟨rfl, rfl, ?_⟩
  rw [List.prefix_iff_eq_take, length_toBytes] at hbytes ⊢
  rw [hbytes, htake]

lemma not_validDimensions_iff : ¬ValidDimensions cols rows ↔
    rows = 0 ∨ cols = 0 ∨ UInt64.size ≤ entryWidth * (rows * cols) := by
  rw [validDimensions_iff, Countable]
  omega

/-- Dimensions of no dataset are refused for any file that can be read. -/
lemma ofFile_of_not_valid (h : ¬ValidDimensions cols rows) (path : String)
    (contents : List UInt8) :
    ofFile path (.ok contents) rows cols space = .error (.impossibleDimensions cols rows) := by
  rw [ofFile]
  by_cases hcount : Countable cols rows
  · rw [if_pos hcount]
    -- without rows or columns nothing is missing from the file, and reading it refuses them
    have hexpected : entryWidth * (rows * cols) = 0 := by
      have hcount' : entryWidth * (rows * cols) < UInt64.size := hcount
      obtain rfl | rfl | hsize := not_validDimensions_iff.1 h
      · simp
      · simp
      · omega
    have hcontents : ofContents rows cols contents space =
        .error (.impossibleDimensions cols rows) := by
      rw [ofContents, hexpected, if_neg (Nat.not_lt_zero _), Reading.onBytes]
      rw [EStateM.run, read_of_not_valid h]
    exact hcontents
  · rw [if_neg hcount]

lemma ofFile_eq_ok_iff (path : String) : ofFile path (.ok bytes) rows cols space = .ok d ↔
    d.Begins rows cols bytes ∧ space.HoldsRows cols rows := by
  by_cases valid : ValidDimensions cols rows
  · rw [begins_iff valid]
    by_cases hlen : entryWidth * (rows * cols) ≤ bytes.length
    · by_cases held : space.HoldsRows cols rows
      · simp [ofFile_of_le valid path held hlen, hlen, held]
      · obtain ⟨failure, hfile⟩ := exists_ofFile_error valid path held hlen
        simp [hfile, held]
    · simp [ofFile_of_lt valid path (Nat.lt_of_not_le hlen), hlen]
  · rw [ofFile_of_not_valid valid]
    constructor
    · intro h
      cases h
    · rintro ⟨⟨rfl, rfl, -⟩, -⟩
      exact absurd d.valid valid

/-- Without enough bytes and space, a stream fails where the reading stops. -/
lemma exists_read_error (valid : ValidDimensions cols rows) (steady : source.Steady)
    (clean : source.fault = none) (h : source.bytes.length < entryWidth * (rows * cols) ∨
      ¬space.HoldsRows cols rows) :
    ∃ failure, Stops space rows cols source.bytes.length failure ∧
      ∃ next, read rows cols space source = .error failure next := by
  obtain ⟨failure, hstops⟩ := exists_stops valid.cols_pos h
  obtain ⟨rest, hparses⟩ := hstops.exists_parses valid
  obtain ⟨reads, hread⟩ := hparses source steady clean rfl
  exact ⟨failure, hstops, _, hread⟩

lemma exists_read_eq_ok_iff (steady : source.Steady) (clean : source.fault = none) :
    (∃ next, read rows cols space source = .ok d next) ↔
      d.Begins rows cols source.bytes ∧ space.HoldsRows cols rows := by
  by_cases valid : ValidDimensions cols rows
  · rw [begins_iff valid]
    by_cases hread : entryWidth * (rows * cols) ≤ source.bytes.length ∧ space.HoldsRows cols rows
    · obtain ⟨hlen, held⟩ := hread
      obtain ⟨reads, hread⟩ := read_parses valid held hlen source steady clean rfl
      simp [hread, hlen, held]
    · obtain ⟨failure, -, next, hfails⟩ := exists_read_error valid steady clean
        ((not_and_or.1 hread).imp_left Nat.lt_of_not_le)
      rw [hfails]
      constructor
      · rintro ⟨_, h⟩
        cases h
      · rintro ⟨⟨hlen, -⟩, held⟩
        exact absurd ⟨hlen, held⟩ hread
  · rw [read_of_not_valid valid]
    constructor
    · rintro ⟨next, h⟩
      cases h
    · rintro ⟨⟨rfl, rfl, -⟩, -⟩
      exact absurd d.valid valid

end Dataset

namespace Statement

variable {dataset : Dataset} {client : Client}

/-- A client that is joined with a dataset is read back from its fields. -/
lemma ofContents_contents_of_fits (fits : Fits ⟨dataset, client⟩) :
    client.Filled ∧ Client.ofContents client.contents = .ok client := by
  have hcols : dataset.cols = client.n := fits.cols_eq
  have hrows : dataset.rows = client.m := fits.rows_eq
  have valid : ValidDimensions client.n client.m := hcols ▸ hrows ▸ dataset.valid
  have filled : client.Filled := ⟨fits.length_weights.symm, fits.length_claimed.symm⟩
  exact ⟨filled, Client.ofContents_eq_ok_iff_contents.2 ⟨valid, filled, rfl⟩⟩

/-- Whatever follows the dataset in its file, the parts are loaded as they were written. -/
lemma load_of_fits (fits : Fits ⟨dataset, client⟩) {space : Space}
    (held : space.HoldsRows dataset.cols dataset.rows) {contents tail : List UInt8}
    {find : String → Except Fault (List UInt8)} {datasetPath clientPath : String}
    (hread : Client.ofContents contents = .ok client)
    (hdataset : find datasetPath = .ok (dataset.toBytes ++ tail))
    (hclient : find clientPath = .ok contents) :
    load find datasetPath clientPath space = .ok ⟨dataset, client⟩ := by
  have hfound : Client.ofFile clientPath (find clientPath) = .ok client := by
    rw [hclient]
    exact hread
  have hrows : dataset.rows = client.m := fits.rows_eq
  have hcols : dataset.cols = client.n := fits.cols_eq
  have hbegins : dataset.Begins client.m client.n (dataset.toBytes ++ tail) :=
    ⟨hrows, hcols, List.prefix_append _ _⟩
  rw [hrows, hcols] at held
  rw [load_of_client hfound, hdataset, (Dataset.ofFile_eq_ok_iff datasetPath).2 ⟨hbegins, held⟩]
  exact ofParts_of_fits fits

/-- A dataset is taken from a file iff it is read from a stream of the same bytes, and only the
bytes of its entries count. Without rows or columns, or with more bytes than can be counted, both
refuse the dimensions. Too few bytes are missed as a whole in a file, whatever space there is; a
stream misses them in the first row that is not complete, unless a row up to that one has no space,
which never happens if all rows have. The files that an accepted dataset and client are written as,
whatever follows the dataset's entries, are loaded as just these. -/
theorem loading_agrees (space : Space) :
    (∀ (path : String) (rows cols : ℕ) (d : Dataset) (source : Source), source.Steady →
      source.fault = none →
        (Dataset.ofFile path (.ok source.bytes) rows cols space = .ok d ↔
          ∃ next, Dataset.read rows cols space source = .ok d next)) ∧
    (∀ (path : String) (rows cols : ℕ) (d : Dataset) (contents : List UInt8) (source : Source),
      source.Steady → source.fault = none → contents.take (entryWidth * (rows * cols)) =
        source.bytes.take (entryWidth * (rows * cols)) →
      Dataset.ofFile path (.ok contents) rows cols space = .ok d →
        Dataset.ofFile path (.ok source.bytes) rows cols space = .ok d ∧
        ∃ next, Dataset.read rows cols space source = .ok d next) ∧
    (∀ (path : String) (rows cols : ℕ) (contents : List UInt8) (source : Source),
      rows = 0 ∨ cols = 0 ∨ UInt64.size ≤ entryWidth * (rows * cols) →
        Dataset.ofFile path (.ok contents) rows cols space =
          .error (.impossibleDimensions cols rows) ∧
        Dataset.read rows cols space source = .error (.impossibleDimensions cols rows) source) ∧
    (∀ (path : String) (rows cols : ℕ) (source : Source), ValidDimensions cols rows →
      source.Steady → source.fault = none → source.bytes.length < entryWidth * (rows * cols) →
        Dataset.ofFile path (.ok source.bytes) rows cols space =
          .error (.truncated .datasetFile s!"{rows} x {cols} matrix"
            (entryWidth * (rows * cols))) ∧
        (∃ failure, Dataset.Stops space rows cols source.bytes.length failure ∧
          ∃ next, Dataset.read rows cols space source = .error failure next) ∧
        (space.HoldsRows cols rows → ∃ row < rows, entryWidth * cols * row ≤ source.bytes.length ∧
          source.bytes.length < entryWidth * cols * (row + 1) ∧
          ∃ next, Dataset.read rows cols space source =
            .error (.truncated .datasetFile s!"matrix row {row}" (entryWidth * cols)) next)) ∧
    ∀ (dataset : Dataset) (client : Client) (s : Statement), ofParts dataset client = .ok s →
      2 * wordWidth + wordWidth * (client.m + client.n) < UInt64.size →
      space.Holds (2 * wordWidth + wordWidth * (client.m + client.n)) →
      space.HoldsRows dataset.cols dataset.rows → ∀ overflow : Overflow,
        ∃ contents, client.toBytes? overflow space = some contents ∧
          client.encodedLength? overflow = some contents.length ∧
          ∀ (find : String → Except Fault (List UInt8)) (datasetPath clientPath : String)
            (tail : List UInt8), find datasetPath = .ok (dataset.toBytes ++ tail) →
            find clientPath = .ok contents →
              load find datasetPath clientPath space = .ok ⟨dataset, client⟩ := by
  refine ⟨?_, ?_, ?_, ?_, ?_⟩
  · intro path rows cols d source steady clean
    rw [Dataset.ofFile_eq_ok_iff, Dataset.exists_read_eq_ok_iff steady clean]
  · intro path rows cols d contents source steady clean htake hfound
    obtain ⟨hbegins, held⟩ := (Dataset.ofFile_eq_ok_iff path).1 hfound
    have hbegins' := hbegins.of_take_eq htake
    exact ⟨(Dataset.ofFile_eq_ok_iff path).2 ⟨hbegins', held⟩,
      (Dataset.exists_read_eq_ok_iff steady clean).2 ⟨hbegins', held⟩⟩
  · intro path rows cols contents source himpossible
    have hinvalid := Dataset.not_validDimensions_iff.2 himpossible
    exact ⟨Dataset.ofFile_of_not_valid hinvalid path contents,
      Dataset.read_of_not_valid hinvalid source⟩
  · intro path rows cols source valid steady clean hshort
    obtain ⟨failure, hstops, hread⟩ :=
      Dataset.exists_read_error valid steady clean (Or.inl hshort)
    refine ⟨Dataset.ofFile_of_lt valid path hshort, ⟨failure, hstops, hread⟩, fun held => ?_⟩
    cases hstops with
    | @truncated row hrow _ hcomplete hmissing => exact ⟨row, hrow, hcomplete, hmissing, hread⟩
    | noRoom hrow _ hfull _ => exact absurd (held.of_le hrow) hfull
  · intro dataset client s accepted hsize heldFile held overflow
    have fits : Fits ⟨dataset, client⟩ := by
      obtain ⟨rfl, fits⟩ := ofParts_eq_ok accepted
      exact fits
    obtain ⟨filled, hread⟩ := ofContents_contents_of_fits fits
    refine ⟨client.contents, filled.toBytes?_eq hsize heldFile, ?_,
      fun find datasetPath clientPath tail hdataset hclient =>
        load_of_fits fits held hread hdataset hclient⟩
    rw [Client.encodedLength?_of_lt hsize, filled.length_contents]

theorem loading_agrees_sample :
    let paced : Source :=
      { bytes := sampleDataset.toBytes ++ [9, 9, 9], chunk := some 4, interrupts := true }
    let short : Source := { bytes := List.replicate 20 0, chunk := some 4 }
    let find := fun path => if path = "data" then .ok paced.bytes else .ok sampleFiles.client
    let space : Space := ⟨some 64⟩
    paced.Steady ∧ short.Steady ∧ ValidDimensions 2 2 ∧
    ofParts sampleDataset sampleClient = .ok ⟨sampleDataset, sampleClient⟩ ∧
    (∃ next, Dataset.read 2 3 space paced = .ok sampleDataset next) ∧
    Dataset.ofFile "data" (.ok short.bytes) 2 2 space =
      .error (.truncated .datasetFile "2 x 2 matrix" 28) ∧
    (∃ next, Dataset.read 2 2 space short =
      .error (.truncated .datasetFile "matrix row 1" 14) next) ∧
    Dataset.ofFile "data" (.ok []) 0 3 space = .error (.impossibleDimensions 3 0) ∧
    load find "data" "client" space = .ok ⟨sampleDataset, sampleClient⟩ := by
  intro paced short find space
  have steady : paced.Steady := fun h => by cases h
  have steady' : short.Steady := fun h => by cases h
  have valid : ValidDimensions 2 2 := by decide
  have accepted : ofParts sampleDataset sampleClient = .ok ⟨sampleDataset, sampleClient⟩ := rfl
  obtain ⟨hsame, -, himpossible, hshort, hload⟩ := loading_agrees space
  have hwhole : Dataset.ofFile "data" (.ok paced.bytes) 2 3 space = .ok sampleDataset := by
    rw [Dataset.ofFile_of_le (by decide) _ (by decide) (by decide)]
    rfl
  obtain ⟨hfile, -, hstops⟩ := hshort "data" 2 2 short valid steady' rfl (by decide)
  obtain ⟨row, -, hcomplete, hmissing, hstream⟩ := hstops (by decide)
  obtain rfl : row = 1 := by
    have hlen : short.bytes.length = 20 := rfl
    have hwidth : entryWidth * 2 = 14 := rfl
    rw [hlen, hwidth] at hcomplete hmissing
    omega
  obtain ⟨contents, hbytes, -, hloaded⟩ :=
    hload _ _ _ accepted (by decide) (by decide) (by decide) .stops
  obtain rfl : sampleFiles.client = contents := Option.some.inj hbytes
  have hstreamed := (hsame "data" 2 3 sampleDataset paced steady rfl).1 hwhole
  exact ⟨steady, steady', valid, accepted, hstreamed, hfile, hstream,
    (himpossible "data" 0 3 [] short (Or.inl rfl)).1,
    hloaded find "data" "client" [9, 9, 9] rfl rfl⟩

/-- A row may be so long that there is no buffer for it although its bytes can be counted. Of
contents that are too short a file is told to be, but a stream of them is broken off. -/
theorem loading_disagrees :
    ValidDimensions 1152921504606846977 1 ∧
    Dataset.ofFile "data" (.ok [0, 0, 0]) 1 1152921504606846977 .signed =
      .error (.truncated .datasetFile "1 x 1152921504606846977 matrix" 8070450532247928839) ∧
    ¬∀ (rows cols : ℕ) (source : Source), ValidDimensions cols rows → source.Steady →
      source.fault = none → source.bytes.length < entryWidth * (rows * cols) →
        ∃ row : ℕ, ∃ next, Dataset.read rows cols .signed source =
          .error (.truncated .datasetFile s!"matrix row {row}" (entryWidth * cols)) next := by
  have valid : ValidDimensions 1152921504606846977 1 := by decide
  have hshort : [0, 0, 0].length < entryWidth * (1 * 1152921504606846977) := by decide
  refine ⟨valid, Dataset.ofFile_of_lt valid "data" hshort, fun hmissed => ?_⟩
  have held : Space.signed.HoldsRows 1152921504606846977 0 := Space.holdsRows_zero _ _
  have hfull : ¬Space.signed.HoldsRows 1152921504606846977 1 := by decide
  have steady : Source.Steady { bytes := [0, 0, 0] } := fun h => by cases h
  obtain ⟨row, next, hread⟩ :=
    hmissed 1 1152921504606846977 { bytes := [0, 0, 0] } valid steady rfl hshort
  obtain ⟨reads, hstopped⟩ := Dataset.read_parses_noRoom valid Nat.zero_lt_one held hfull
    (Nat.zero_le _) { bytes := [0, 0, 0] } steady rfl rfl
  cases hread.symm.trans hstopped

end Statement

end MatrixAudit
