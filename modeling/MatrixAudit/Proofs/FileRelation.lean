import MatrixAudit.Proofs.ClientFile
import MatrixAudit.Proofs.ColumnDefects
import MatrixAudit.Proofs.DatasetFile

/-!
# The relation that two files stand in

The contents of a dataset file and of a client file are sound together when the client file is one
and the dataset file has all the entries of its dimensions. They can be loaded iff they are sound,
and the offline check then lists the columns whose claimed sum is not the weighted sum of the
entries, all of these read off the contents by their places.
-/

namespace MatrixAudit
open Finset

lemma exists_of_bind_eq_ok {α β : Type} {result : Except Failure α} {rest : α → Except Failure β}
    {value : β} (h : result.bind rest = .ok value) :
    ∃ first, result = .ok first ∧ rest first = .ok value := by
  cases result with
  | ok first => exact ⟨first, rfl, h⟩
  | error failure => cases h

namespace Statement

lemma load_eq (find : String → Except Fault (List UInt8)) (datasetPath clientPath : String)
    (space : Space) :
    load find datasetPath clientPath space = (Client.ofFile clientPath (find clientPath)).bind
      fun client => (Dataset.ofFile datasetPath (find datasetPath) client.m client.n space).bind
        fun dataset => ofParts dataset client := rfl

lemma load_of_client {find : String → Except Fault (List UInt8)} {clientPath : String}
    {client : Client} (h : Client.ofFile clientPath (find clientPath) = .ok client)
    (datasetPath : String) (space : Space) :
    load find datasetPath clientPath space =
      (Dataset.ofFile datasetPath (find datasetPath) client.m client.n space).bind
        fun dataset => ofParts dataset client := by
  rw [load_eq, h]
  rfl

end Statement

/-- What the dataset file and the client file hold. -/
structure Files where
  dataset : List UInt8
  client : List UInt8

namespace Files

variable (f : Files)

def cols : ℕ := Client.announcedCols f.client

def rows : ℕ := Client.announcedRows f.client

def weight (i : ℕ) : ℕ := fieldAt wordWidth (Client.weightsStart + wordWidth * i) f.client

def claimed (k : ℕ) : ℕ := fieldAt wordWidth (Client.claimedStart f.rows + wordWidth * k) f.client

def entry (i k : ℕ) : ℕ := fieldAt entryWidth (entryWidth * (i * f.cols + k)) f.dataset

lemma entry_lt (i k : ℕ) : f.entry i k < 256 ^ entryWidth := fieldAt_lt _ _ _

/-- The exact weighted sum of column `k`. -/
def total (k : ℕ) : ℕ := ∑ i ∈ range f.rows, f.weight i * f.entry i k

/-- The client file is one, and the dataset file has all the entries of its dimensions. -/
structure Sound : Prop where
  client : Client.IsFile f.client
  dataset : entryWidth * (f.rows * f.cols) ≤ f.dataset.length

/-- The claimed sum of column `k` is the weighted sum of its entries, reduced. -/
def Balanced (k : ℕ) : Prop := f.claimed k = f.total k % Residue.modulus

instance (k : ℕ) : Decidable (f.Balanced k) := inferInstanceAs (Decidable (_ = _))

def wrongColumns : List ℕ := (List.range f.cols).filter fun k => ¬f.Balanced k

/-- What the offline check finds. -/
def check : ColumnCheck where
  computed := (List.range f.cols).map fun k => Residue.ofNat (f.total k)
  mismatches := f.wrongColumns.take listedMismatches
  mismatchCount := f.wrongColumns.length
  passed := f.wrongColumns.isEmpty

lemma mem_wrongColumns {k : ℕ} : k ∈ f.wrongColumns ↔ k < f.cols ∧ ¬f.Balanced k := by
  unfold wrongColumns
  rw [List.mem_filter, List.mem_range, decide_eq_true_eq]

lemma check_passed_iff : f.check.passed = true ↔ ∀ k < f.cols, f.Balanced k := by
  have hempty : f.check.passed = f.wrongColumns.isEmpty := rfl
  rw [hempty, List.isEmpty_iff, List.eq_nil_iff_forall_not_mem]
  simp only [mem_wrongColumns, not_and, not_not]

variable {f}

lemma Sound.valid (sound : f.Sound) : ValidDimensions f.cols f.rows := sound.client.valid

def statement (sound : f.Sound) : Statement :=
  ⟨Dataset.ofBytes f.rows f.cols sound.valid f.dataset, Client.spelled f.client⟩

section Sound

variable (sound : f.Sound)

lemma statement_fits : (statement sound).Fits :=
  ⟨rfl, rfl, (LittleEndian.length_decodeWords _ _ _).symm,
    (LittleEndian.length_decodeWords _ _ _).symm⟩

lemma numberAt_weights {i : ℕ} (hi : i < f.rows) :
    numberAt (Client.spelled f.client).weights i = f.weight i :=
  numberAt_decodeWords (Nat.le_refl _) hi _ _

lemma numberAt_claimed {k : ℕ} (hk : k < f.cols) :
    numberAt (Client.spelled f.client).claimed k = f.claimed k :=
  numberAt_decodeWords (Nat.le_refl _) hk _ _

lemma columnTotal_statement {k : ℕ} (hk : k < f.cols) :
    (statement sound).dataset.columnTotal (statement sound).client.weights k = f.total k := by
  unfold Dataset.columnTotal total
  apply sum_congr rfl
  intro i hi
  have hi' : i < f.rows := mem_range.1 hi
  have hentry : (statement sound).dataset.number i k = f.entry i k :=
    Dataset.number_ofBytes sound.client.valid f.dataset hi' hk
  have hweight : numberAt (statement sound).client.weights i = f.weight i := numberAt_weights hi'
  rw [hentry, hweight]

/-- The offline check lists the wrong columns, as far as it lists any. -/
theorem checkColumns_statement [Sharing] (parallel : Bool) :
    (statement sound).checkColumns parallel = .ok f.check := by
  have hcomputed : (statement sound).dataset.columnWords (statement sound).client.weights =
      f.check.computed := by
    apply List.map_congr_left
    intro k hk
    rw [columnTotal_statement sound (List.mem_range.1 hk)]
  have hlen : (statement sound).client.claimed.length = f.cols :=
    LittleEndian.length_decodeWords _ _ _
  have hplaces : differingPlaces (statement sound).client.claimed f.check.computed =
      f.wrongColumns := by
    rw [differingPlaces_eq (by rw [hlen]; simp [check]), hlen]
    apply List.filter_congr
    intro k hk
    have hk' : k < f.cols := List.mem_range.1 hk
    have hword : numberAt f.check.computed k = f.total k % Residue.modulus := by
      rw [numberAt_eq_getElem (by simpa [check] using hk')]
      simp only [check, List.getElem_map, List.getElem_range]
      exact Residue.toNat_ofNat _
    have hclaimed : numberAt (statement sound).client.claimed k = f.claimed k :=
      numberAt_claimed hk'
    rw [hword, hclaimed]
    rfl
  rw [Statement.checkColumns_eq (statement_fits sound) parallel, hcomputed, hplaces]
  rfl

end Sound

variable {find : String → Except Fault (List UInt8)} {datasetPath clientPath : String}

lemma datasetFile_eq (valid : ValidDimensions f.cols f.rows)
    (hdataset : find datasetPath = .ok f.dataset) :
    Dataset.ofFile datasetPath (find datasetPath) f.rows f.cols =
      if f.dataset.length < entryWidth * (f.rows * f.cols) then
        .error (.truncated .datasetFile s!"{f.rows} x {f.cols} matrix"
          (entryWidth * (f.rows * f.cols)))
      else .ok (Dataset.ofBytes f.rows f.cols valid f.dataset) := by
  rw [hdataset]
  exact Dataset.ofFile_ok valid datasetPath f.dataset

lemma clientFile_eq_ok_iff (hclient : find clientPath = .ok f.client) {client : Client} :
    Client.ofFile clientPath (find clientPath) = .ok client ↔
      Client.IsFile f.client ∧ client = Client.spelled f.client := by
  rw [hclient]
  exact Client.ofContents_eq_ok_iff

theorem load_eq_ok (sound : f.Sound) (hdataset : find datasetPath = .ok f.dataset)
    (hclient : find clientPath = .ok f.client) :
    Statement.load find datasetPath clientPath = .ok (statement sound) := by
  have hspelled := (clientFile_eq_ok_iff hclient).2 ⟨sound.client, rfl⟩
  have hentries := datasetFile_eq sound.valid hdataset
  rw [if_neg (Nat.not_lt.2 sound.dataset)] at hentries
  rw [Statement.load_of_client hspelled]
  exact (congrArg (Except.bind · fun dataset => Statement.ofParts dataset _) hentries).trans
    (Statement.ofParts_of_fits (statement_fits sound))

/-- Files that can be loaded are sound. -/
theorem sound_of_load {s : Statement} (hdataset : find datasetPath = .ok f.dataset)
    (hclient : find clientPath = .ok f.client)
    (hload : Statement.load find datasetPath clientPath = .ok s) : f.Sound := by
  rw [Statement.load_eq] at hload
  obtain ⟨client, hread, hload⟩ := exists_of_bind_eq_ok hload
  obtain ⟨file, rfl⟩ := (clientFile_eq_ok_iff hclient).1 hread
  obtain ⟨dataset, hentries, -⟩ := exists_of_bind_eq_ok hload
  refine ⟨file, Nat.le_of_not_lt fun hshort => ?_⟩
  have hfails := (datasetFile_eq file.valid hdataset).symm.trans hentries
  rw [if_pos hshort] at hfails
  cases hfails

end Files

def sampleFiles : Files :=
  ⟨sampleDataset.toBytes, LittleEndian.encode wordWidth 3 ++ LittleEndian.encode wordWidth 2 ++
    LittleEndian.encodeWords wordWidth sampleClient.weights ++
    LittleEndian.encodeWords wordWidth sampleClient.claimed⟩

lemma sound_sampleFiles : sampleFiles.Sound := by
  refine ⟨⟨?_, ?_, ?_⟩, ?_⟩ <;> decide +kernel

end MatrixAudit
