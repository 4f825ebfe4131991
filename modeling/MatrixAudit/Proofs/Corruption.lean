import MatrixAudit.Proofs.FileRelation

/-!
# Corruption of one field

Overwriting one field of two files that pass the offline check leaves them loadable, and the check
then finds the columns that the field counts in and no others. A changed entry counts in its own
column if the weight of its row is not zero in the field; a changed claimed sum counts in its own
column; a weight that changes in the field counts in the columns that its row has an entry in.
-/

namespace MatrixAudit
open Finset

/-- Sums whose terms agree at all places but one differ by the terms at that place. -/
lemma sum_add_eq_of_agree {places : Finset ℕ} {i : ℕ} (hi : i ∈ places) {a b : ℕ → ℕ}
    (h : ∀ j ∈ places, j ≠ i → a j = b j) : ∑ j ∈ places, a j + b i = ∑ j ∈ places, b j + a i := by
  have hrest : ∑ j ∈ places.erase i, a j = ∑ j ∈ places.erase i, b j :=
    sum_congr rfl fun j hj => h j (mem_of_mem_erase hj) (ne_of_mem_erase hj)
  rw [← add_sum_erase places a hi, ← add_sum_erase places b hi, hrest]
  omega

lemma filter_range_eq_singleton {n k : ℕ} (hk : k < n) :
    ((List.range n).filter fun j => decide (j = k)) = [k] := by
  have hcount : (List.range n).count k = 1 :=
    List.count_eq_one_of_mem List.nodup_range (List.mem_range.2 hk)
  rw [List.filter_eq, hcount, List.replicate_one]

/-- A seven-byte number is its own residue. -/
lemma cast_eq_cast_iff_of_lt {a b : ℕ} (ha : a < 256 ^ entryWidth) (hb : b < 256 ^ entryWidth) :
    (a : ZMod Residue.modulus) = b ↔ a = b := by
  have hbound : 256 ^ entryWidth < Residue.modulus := by decide
  rw [ZMod.natCast_eq_natCast_iff', Nat.mod_eq_of_lt (ha.trans hbound),
    Nat.mod_eq_of_lt (hb.trans hbound)]

lemma Client.isFile_overwrite {contents : List UInt8} (file : IsFile contents) {start : ℕ}
    {patch : List UInt8} (behind : weightsStart ≤ start)
    (fits : start + patch.length ≤ contents.length) :
    IsFile (overwrite start patch contents) ∧
      announcedCols (overwrite start patch contents) = announcedCols contents ∧
      announcedRows (overwrite start patch contents) = announcedRows contents := by
  have hheader : weightsStart = wordWidth + wordWidth := rfl
  have hcols : announcedCols (overwrite start patch contents) = announcedCols contents :=
    fieldAt_overwrite_of_disjoint fits (Or.inl (by omega))
  have hrows : announcedRows (overwrite start patch contents) = announcedRows contents :=
    fieldAt_overwrite_of_disjoint fits (Or.inl (by omega))
  refine ⟨⟨?_, ?_, ?_⟩, hcols, hrows⟩
  · rw [length_overwrite fits]
    exact file.header
  · rw [hcols, hrows]
    exact file.valid
  · rw [length_overwrite fits, hcols, hrows]
    exact file.length_eq

namespace Files

/-- However the files are looked up, they can be loaded, and the offline check then finds the given
columns: the first of them are listed, all of them are counted. -/
def MismatchesAre [Sharing] (f : Files) (columns : List ℕ) : Prop :=
  ∀ (find : String → Except Fault (List UInt8)) (datasetPath clientPath : String) (parallel : Bool),
    find datasetPath = .ok f.dataset → find clientPath = .ok f.client →
      ∃ s check, Statement.load find datasetPath clientPath = .ok s ∧
        s.checkColumns parallel = .ok check ∧
        check.mismatches = columns.take listedMismatches ∧
        check.mismatchCount = columns.length ∧ check.passed = columns.isEmpty

lemma mismatchesAre_wrongColumns [Sharing] {f : Files} (sound : f.Sound) :
    f.MismatchesAre f.wrongColumns := by
  intro find datasetPath clientPath parallel hdataset hclient
  exact ⟨statement sound, f.check, load_eq_ok sound hdataset hclient,
    checkColumns_statement sound parallel, rfl, rfl, rfl⟩

def patchDataset (f : Files) (start : ℕ) (patch : List UInt8) : Files :=
  { f with dataset := overwrite start patch f.dataset }

def patchClient (f : Files) (start : ℕ) (patch : List UInt8) : Files :=
  { f with client := overwrite start patch f.client }

variable {f : Files} {i k : ℕ} {patch : List UInt8}

lemma entry_inside (sound : f.Sound) (hi : i < f.rows) (hk : k < f.cols) :
    entryWidth * (i * f.cols + k) + entryWidth ≤ f.dataset.length := by
  have hrow : (i + 1) * f.cols ≤ f.rows * f.cols := Nat.mul_le_mul_right _ hi
  have hplace : entryWidth * (i * f.cols + k + 1) ≤ entryWidth * (f.rows * f.cols) := by
    apply Nat.mul_le_mul_left
    rw [Nat.succ_mul] at hrow
    omega
  exact hplace.trans sound.dataset

lemma weight_inside (hi : i < f.rows) :
    Client.weightsStart + wordWidth * i + wordWidth ≤ Client.claimedStart f.rows := by
  have hplace : wordWidth * (i + 1) ≤ wordWidth * f.rows := Nat.mul_le_mul_left _ hi
  unfold Client.claimedStart
  rw [Nat.mul_succ] at hplace
  omega

lemma claimed_behind (m k : ℕ) : Client.weightsStart ≤ Client.claimedStart m + wordWidth * k := by
  unfold Client.claimedStart
  omega

lemma claimed_inside (sound : f.Sound) (hk : k < f.cols) :
    Client.claimedStart f.rows + wordWidth * k + wordWidth ≤ f.client.length := by
  have hplace : wordWidth * (k + 1) ≤ wordWidth * f.cols := Nat.mul_le_mul_left _ hk
  have hlen : f.client.length = Client.claimedStart f.rows + wordWidth * f.cols :=
    sound.client.length_eq
  rw [Nat.mul_succ] at hplace
  omega

/-- The place of an entry determines its row and its column. -/
lemma place_inj {n i' k' : ℕ} (hk : k < n) (hk' : k' < n) (h : i' * n + k' = i * n + k) :
    i' = i ∧ k' = k := by
  have hn : 0 < n := Nat.zero_lt_of_lt hk
  have hrow : i' = i := by
    have hdiv : (i' * n + k') / n = (i * n + k) / n := by rw [h]
    rwa [Nat.mul_comm, Nat.mul_add_div hn, Nat.mul_comm i, Nat.mul_add_div hn,
      Nat.div_eq_of_lt hk, Nat.div_eq_of_lt hk', Nat.add_zero, Nat.add_zero] at hdiv
  subst hrow
  exact ⟨rfl, Nat.add_left_cancel h⟩

/-- When only the term of row `i` changes in a column whose claimed sum was right, the sum is still
right iff the term is the same in the field. -/
theorem balanced_iff_term {g : Files} (hi : i < f.rows) (hrows : g.rows = f.rows)
    (hclaimed : g.claimed k = f.claimed k) (hold : f.Balanced k)
    (hagree : ∀ j < f.rows, j ≠ i → g.weight j * g.entry j k = f.weight j * f.entry j k) :
    g.Balanced k ↔
      (g.weight i * g.entry i k : ZMod Residue.modulus) = f.weight i * f.entry i k := by
  have hsum : g.total k + f.weight i * f.entry i k = f.total k + g.weight i * g.entry i k := by
    have hswap := sum_add_eq_of_agree (a := fun j => g.weight j * g.entry j k)
      (b := fun j => f.weight j * f.entry j k) (mem_range.2 hi)
      (fun j hj hne => hagree j (mem_range.1 hj) hne)
    unfold total
    rwa [hrows]
  -- the totals may be far apart as naturals; only in the field can the two terms be cancelled
  have hcast := congrArg (Nat.cast (R := ZMod Residue.modulus)) hsum
  push_cast at hcast
  have htotals : g.Balanced k ↔ (f.total k : ZMod Residue.modulus) = g.total k := by
    unfold Balanced at hold ⊢
    rw [hclaimed, hold, ZMod.natCast_eq_natCast_iff']
  rw [htotals]
  constructor
  · intro heq
    rw [heq] at hcast
    exact (add_left_cancel hcast).symm
  · intro heq
    rw [heq] at hcast
    exact (add_right_cancel hcast).symm

section Entry

variable (sound : f.Sound) (hi : i < f.rows) (hk : k < f.cols) (hpatch : patch.length = entryWidth)

include sound hi hk hpatch

lemma sound_patchEntry : (f.patchDataset (entryWidth * (i * f.cols + k)) patch).Sound := by
  have hinside := entry_inside sound hi hk
  have hlen : (overwrite (entryWidth * (i * f.cols + k)) patch f.dataset).length =
      f.dataset.length := length_overwrite (hpatch ▸ hinside)
  exact ⟨sound.client, sound.dataset.trans_eq hlen.symm⟩

lemma entry_patchEntry {i' k' : ℕ} (hk' : k' < f.cols) :
    (f.patchDataset (entryWidth * (i * f.cols + k)) patch).entry i' k' =
      if i' = i ∧ k' = k then LittleEndian.decode patch else f.entry i' k' := by
  have hfits : 0 + entryWidth * (i * f.cols + k) + entryWidth ≤ f.dataset.length := by
    rw [Nat.zero_add]
    exact entry_inside sound hi hk
  have hplace : i' * f.cols + k' = i * f.cols + k ↔ i' = i ∧ k' = k := by
    constructor
    · exact place_inj hk hk'
    · rintro ⟨rfl, rfl⟩
      rfl
  -- the entries are the fields of the whole file, numbered by their places
  have hfield := fieldAt_overwrite_field hpatch hfits (i' * f.cols + k')
  simp only [Nat.zero_add, hplace] at hfield
  exact hfield

/-- Another entry changes no column but its own, and that one only through the weight of its row. -/
lemma balanced_patchEntry (balanced : ∀ j < f.cols, f.Balanced j)
    (hnew : LittleEndian.decode patch ≠ f.entry i k) {j : ℕ} (hj : j < f.cols) :
    (f.patchDataset (entryWidth * (i * f.cols + k)) patch).Balanced j ↔
      j = k → f.weight i % Residue.modulus = 0 := by
  set g := f.patchDataset (entryWidth * (i * f.cols + k)) patch
  have hentry : ∀ i', g.entry i' j =
      if i' = i ∧ j = k then LittleEndian.decode patch else f.entry i' j :=
    fun _ => entry_patchEntry sound hi hk hpatch hj
  have hweight : ∀ i', g.weight i' = f.weight i' := fun _ => rfl
  have hagree : ∀ i' < f.rows, i' ≠ i → g.weight i' * g.entry i' j = f.weight i' * f.entry i' j := by
    intro i' _ hne
    rw [hweight, hentry, if_neg fun h => hne h.1]
  rw [balanced_iff_term (g := g) hi rfl rfl (balanced j hj) hagree, hweight, hentry]
  by_cases hjk : j = k
  · subst hjk
    have hdiff : (LittleEndian.decode patch : ZMod Residue.modulus) ≠ f.entry i j := by
      have hlt : LittleEndian.decode patch < 256 ^ entryWidth :=
        hpatch ▸ LittleEndian.decode_lt patch
      rw [Ne, cast_eq_cast_iff_of_lt hlt (f.entry_lt i j)]
      exact hnew
    have hzero : (f.weight i : ZMod Residue.modulus) = 0 ↔ f.weight i % Residue.modulus = 0 := by
      rw [ZMod.natCast_eq_zero_iff, Nat.dvd_iff_mod_eq_zero]
    rw [if_pos ⟨rfl, rfl⟩, mul_eq_mul_left_iff, or_iff_right hdiff, hzero]
    exact ⟨fun h _ => h, fun h => h rfl⟩
  · rw [if_neg fun h => hjk h.2]
    exact iff_of_true rfl fun h => absurd h hjk

theorem wrongColumns_patchEntry (balanced : ∀ j < f.cols, f.Balanced j)
    (hnew : LittleEndian.decode patch ≠ f.entry i k) :
    (f.patchDataset (entryWidth * (i * f.cols + k)) patch).wrongColumns =
      if f.weight i % Residue.modulus = 0 then [] else [k] := by
  unfold wrongColumns
  have hcolumn := fun j hj => balanced_patchEntry sound hi hk hpatch balanced hnew (j := j) hj
  split
  · rename_i hzero
    apply List.filter_eq_nil_iff.2
    intro j hj
    rw [decide_eq_true_eq, not_not, hcolumn j (List.mem_range.1 hj)]
    exact fun _ => hzero
  · rename_i hzero
    rw [← filter_range_eq_singleton hk]
    apply List.filter_congr
    intro j hj
    rw [decide_eq_decide, hcolumn j (List.mem_range.1 hj), Classical.not_imp]
    exact and_iff_left hzero

end Entry

section ClientField

variable {start : ℕ} (behind : Client.weightsStart ≤ start)
  (fits : start + patch.length ≤ f.client.length)

include behind fits

lemma header_patchClient (sound : f.Sound) :
    (f.patchClient start patch).cols = f.cols ∧ (f.patchClient start patch).rows = f.rows :=
  (Client.isFile_overwrite sound.client behind fits).2

lemma sound_patchClient (sound : f.Sound) : (f.patchClient start patch).Sound := by
  obtain ⟨hcols, hrows⟩ := header_patchClient behind fits sound
  refine ⟨(Client.isFile_overwrite sound.client behind fits).1, ?_⟩
  rw [hcols, hrows]
  exact sound.dataset

lemma entry_patchClient (sound : f.Sound) (i' k' : ℕ) :
    (f.patchClient start patch).entry i' k' = f.entry i' k' := by
  unfold entry
  rw [(header_patchClient behind fits sound).1]
  rfl

end ClientField

section Claimed

variable (sound : f.Sound) (hk : k < f.cols) (hpatch : patch.length = wordWidth)

include sound hk hpatch

lemma fits_patchClaimed :
    Client.claimedStart f.rows + wordWidth * k + patch.length ≤ f.client.length :=
  hpatch ▸ claimed_inside sound hk

lemma claimed_patchClaimed (k' : ℕ) :
    (f.patchClient (Client.claimedStart f.rows + wordWidth * k) patch).claimed k' =
      if k' = k then LittleEndian.decode patch else f.claimed k' := by
  have hfits := fits_patchClaimed sound hk hpatch
  unfold claimed
  rw [(header_patchClient (claimed_behind f.rows k) hfits sound).2]
  exact fieldAt_overwrite_field hpatch (claimed_inside sound hk) k'

lemma total_patchClaimed (k' : ℕ) :
    (f.patchClient (Client.claimedStart f.rows + wordWidth * k) patch).total k' = f.total k' := by
  have hbehind := claimed_behind f.rows k
  have hfits := fits_patchClaimed sound hk hpatch
  unfold total
  rw [(header_patchClient hbehind hfits sound).2]
  apply sum_congr rfl
  intro i hi
  have hinside := weight_inside (mem_range.1 hi)
  have hweight : (f.patchClient (Client.claimedStart f.rows + wordWidth * k) patch).weight i =
      f.weight i := fieldAt_overwrite_of_disjoint hfits (Or.inl (by omega))
  rw [hweight, entry_patchClient hbehind hfits sound]

/-- Another claimed sum is wrong, since the old one was the reduced sum of its column. -/
theorem wrongColumns_patchClaimed (balanced : ∀ j < f.cols, f.Balanced j)
    (hnew : LittleEndian.decode patch ≠ f.claimed k) :
    (f.patchClient (Client.claimedStart f.rows + wordWidth * k) patch).wrongColumns = [k] := by
  unfold wrongColumns
  rw [(header_patchClient (claimed_behind f.rows k) (fits_patchClaimed sound hk hpatch) sound).1,
    ← filter_range_eq_singleton hk]
  apply List.filter_congr
  intro j hj
  have hold : f.claimed j = f.total j % Residue.modulus := balanced j (List.mem_range.1 hj)
  unfold Balanced
  rw [decide_eq_decide, claimed_patchClaimed sound hk hpatch, total_patchClaimed sound hk hpatch,
    ← hold]
  by_cases hjk : j = k
  · subst hjk
    rw [if_pos rfl]
    exact iff_of_true hnew rfl
  · rw [if_neg hjk]
    exact iff_of_false (not_not.2 rfl) hjk

end Claimed

section Weight

variable (sound : f.Sound) (hi : i < f.rows) (hpatch : patch.length = wordWidth)

include sound hi hpatch

lemma fits_patchWeight :
    Client.weightsStart + wordWidth * i + patch.length ≤ f.client.length := by
  have hinside := weight_inside hi
  have hlen : f.client.length = Client.claimedStart f.rows + wordWidth * f.cols :=
    sound.client.length_eq
  omega

lemma weight_patchWeight (i' : ℕ) :
    (f.patchClient (Client.weightsStart + wordWidth * i) patch).weight i' =
      if i' = i then LittleEndian.decode patch else f.weight i' := by
  have hfits := fits_patchWeight sound hi hpatch
  rw [hpatch] at hfits
  exact fieldAt_overwrite_field hpatch hfits i'

lemma claimed_patchWeight (k : ℕ) :
    (f.patchClient (Client.weightsStart + wordWidth * i) patch).claimed k = f.claimed k := by
  have hfits := fits_patchWeight sound hi hpatch
  have hinside := weight_inside hi
  unfold claimed
  rw [(header_patchClient (Nat.le_add_right _ _) hfits sound).2]
  apply fieldAt_overwrite_of_disjoint hfits
  rw [hpatch]
  omega

/-- Another weight changes the columns that its row has an entry in, if it changes in the field. -/
theorem wrongColumns_patchWeight (balanced : ∀ j < f.cols, f.Balanced j) :
    (f.patchClient (Client.weightsStart + wordWidth * i) patch).wrongColumns =
      if LittleEndian.decode patch % Residue.modulus = f.weight i % Residue.modulus then []
      else (List.range f.cols).filter fun k => f.entry i k ≠ 0 := by
  have hbehind : Client.weightsStart ≤ Client.weightsStart + wordWidth * i := Nat.le_add_right _ _
  have hfits := fits_patchWeight sound hi hpatch
  obtain ⟨hcols, hrows⟩ := header_patchClient hbehind hfits sound
  have hentry := entry_patchClient hbehind hfits sound
  have hweight := weight_patchWeight sound hi hpatch
  have hclaimed := claimed_patchWeight sound hi hpatch
  set g := f.patchClient (Client.weightsStart + wordWidth * i) patch
  have hcolumn : ∀ j < f.cols, (g.Balanced j ↔
      LittleEndian.decode patch % Residue.modulus = f.weight i % Residue.modulus ∨
        f.entry i j = 0) := by
    intro j hj
    have hagree : ∀ i' < f.rows, i' ≠ i →
        g.weight i' * g.entry i' j = f.weight i' * f.entry i' j := by
      intro i' _ hne
      rw [hweight, if_neg hne, hentry]
    have hzero : (f.entry i j : ZMod Residue.modulus) = 0 ↔ f.entry i j = 0 := by
      rw [← Nat.cast_zero, cast_eq_cast_iff_of_lt (f.entry_lt i j) (by decide)]
    rw [balanced_iff_term hi hrows (hclaimed j) (balanced j hj) hagree, hweight, if_pos rfl, hentry,
      mul_eq_mul_right_iff, ZMod.natCast_eq_natCast_iff', hzero]
  unfold wrongColumns
  rw [hcols]
  split
  · rename_i hsame
    apply List.filter_eq_nil_iff.2
    intro j hj
    rw [decide_eq_true_eq, not_not, hcolumn j (List.mem_range.1 hj)]
    exact Or.inl hsame
  · rename_i hdiff
    apply List.filter_congr
    intro j hj
    rw [decide_eq_decide, hcolumn j (List.mem_range.1 hj), or_iff_right hdiff]

end Weight

/-- Files that can be loaded and pass the check are sound, and all their columns are balanced. -/
lemma balanced_of_passed [Sharing] {find : String → Except Fault (List UInt8)}
    {datasetPath clientPath : String} {s : Statement} {parallel : Bool} {check : ColumnCheck}
    (hdataset : find datasetPath = .ok f.dataset) (hclient : find clientPath = .ok f.client)
    (hload : Statement.load find datasetPath clientPath = .ok s)
    (hcheck : s.checkColumns parallel = .ok check) (hpassed : check.passed = true) :
    ∃ sound : f.Sound, s = statement sound ∧ ∀ j < f.cols, f.Balanced j := by
  have sound : f.Sound := sound_of_load hdataset hclient hload
  have hs : s = statement sound := by
    rw [load_eq_ok sound hdataset hclient] at hload
    exact (Except.ok.inj hload).symm
  refine ⟨sound, hs, ?_⟩
  rw [hs, checkColumns_statement sound] at hcheck
  rw [← check_passed_iff, Except.ok.inj hcheck]
  exact hpassed

end Files

/-- Take files that can be loaded and pass the offline check, a row and a column of theirs, and some
bytes. In the place of the entry there, other bytes leave a mismatch in that column exactly if the
weight of the row is not zero modulo the prime. In the place of the claimed sum, other bytes always
do. In the place of the weight, bytes of another residue leave a mismatch in the columns in which
the row has an entry, and bytes of the same residue leave none. -/
theorem corruption_localised [Sharing] {find : String → Except Fault (List UInt8)}
    {datasetPath clientPath : String} {dataset client : List UInt8} {s : Statement} {parallel : Bool}
    {check : ColumnCheck} (hdataset : find datasetPath = .ok dataset)
    (hclient : find clientPath = .ok client)
    (hload : Statement.load find datasetPath clientPath = .ok s)
    (hcheck : s.checkColumns parallel = .ok check) (hpassed : check.passed = true) {i k : ℕ}
    (hi : i < s.client.m) (hk : k < s.client.n) (patch : List UInt8) :
    let entryPlace := entryWidth * (i * s.client.n + k)
    let weightPlace := 2 * wordWidth + wordWidth * i
    let claimedPlace := 2 * wordWidth + wordWidth * s.client.m + wordWidth * k
    (patch.length = entryWidth → patch ≠ (dataset.drop entryPlace).take entryWidth →
      Files.MismatchesAre ⟨overwrite entryPlace patch dataset, client⟩
        (if numberAt s.client.weights i % Residue.modulus = 0 then [] else [k])) ∧
    (patch.length = wordWidth → patch ≠ (client.drop claimedPlace).take wordWidth →
      Files.MismatchesAre ⟨dataset, overwrite claimedPlace patch client⟩ [k]) ∧
    (patch.length = wordWidth →
      Files.MismatchesAre ⟨dataset, overwrite weightPlace patch client⟩
        (if LittleEndian.decode patch % Residue.modulus =
            numberAt s.client.weights i % Residue.modulus then []
          else (List.range s.client.n).filter fun k => s.dataset.number i k ≠ 0)) := by
  let f : Files := ⟨dataset, client⟩
  obtain ⟨sound, rfl, balanced⟩ :=
    Files.balanced_of_passed (f := f) hdataset hclient hload hcheck hpassed
  have hweight : numberAt (Files.statement sound).client.weights i = f.weight i :=
    Files.numberAt_weights hi
  have hentries : (List.range (Files.statement sound).client.n).filter
      (fun k => (Files.statement sound).dataset.number i k ≠ 0) =
      (List.range f.cols).filter fun k => f.entry i k ≠ 0 := by
    apply List.filter_congr
    intro j hj
    have hnumber : (Files.statement sound).dataset.number i j = f.entry i j :=
      Dataset.number_ofBytes sound.valid f.dataset hi (List.mem_range.1 hj)
    rw [hnumber]
  refine ⟨fun hpatch hne => ?_, fun hpatch hne => ?_, fun hpatch => ?_⟩
  · have hnew := decode_ne_fieldAt hpatch (Files.entry_inside sound hi hk) hne
    have hwrong := Files.wrongColumns_patchEntry sound hi hk hpatch balanced hnew
    rw [hweight, ← hwrong]
    exact Files.mismatchesAre_wrongColumns (Files.sound_patchEntry sound hi hk hpatch)
  · have hnew := decode_ne_fieldAt hpatch (Files.claimed_inside sound hk) hne
    have hwrong := Files.wrongColumns_patchClaimed sound hk hpatch balanced hnew
    rw [← hwrong]
    exact Files.mismatchesAre_wrongColumns (Files.sound_patchClient (Files.claimed_behind _ _)
      (Files.fits_patchClaimed sound hk hpatch) sound)
  · have hwrong := Files.wrongColumns_patchWeight sound hi hpatch balanced
    rw [hweight, hentries, ← hwrong]
    exact Files.mismatchesAre_wrongColumns (Files.sound_patchClient (Nat.le_add_right _ _)
      (Files.fits_patchWeight sound hi hpatch) sound)

attribute [local instance] Sharing.halving

theorem corruption_localised_sample :
    let find := fun path => if path = "data" then .ok sampleFiles.dataset else .ok sampleFiles.client
    ∃ s check, Statement.load find "data" "client" = .ok s ∧ s.checkColumns true = .ok check ∧
      check.passed = true ∧
      Files.MismatchesAre ⟨overwrite 7 [3, 0, 0, 0, 0, 0, 0] sampleFiles.dataset, sampleFiles.client⟩
        [1] ∧
      Files.MismatchesAre ⟨sampleFiles.dataset, overwrite 24 [0, 0, 0, 0, 0, 0, 0, 0]
        sampleFiles.client⟩ [0, 1] := by
  intro find
  have hload : Statement.load find "data" "client" = .ok (Files.statement sound_sampleFiles) :=
    Files.load_eq_ok sound_sampleFiles rfl rfl
  have hcheck := Files.checkColumns_statement sound_sampleFiles true
  have hpassed : sampleFiles.check.passed = true := by decide +kernel
  refine ⟨_, _, hload, hcheck, hpassed, ?_, ?_⟩
  · exact (corruption_localised (i := 0) (k := 1) rfl rfl hload hcheck hpassed (by decide +kernel)
      (by decide +kernel) [3, 0, 0, 0, 0, 0, 0]).1 rfl (by decide +kernel)
  · have h := (corruption_localised (i := 1) (k := 0) rfl rfl hload hcheck hpassed
      (by decide +kernel) (by decide +kernel) [0, 0, 0, 0, 0, 0, 0, 0]).2.2 rfl
    exact h

end MatrixAudit
