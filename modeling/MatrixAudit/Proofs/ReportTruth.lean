import MatrixAudit.Proofs.AuditorTranscript
import MatrixAudit.Proofs.ColumnListing
import MatrixAudit.Proofs.LengthAgreement
import MatrixAudit.Proofs.ReportText

/-!
# True reports

The verdict, the count and the columns of a report, its sides and its ends are filled in at
different places. Here is that they always agree with each other and with the run: for every check
of a statement whose lengths fit, and for every exchange that was completed, whatever the peer sent.
-/

namespace MatrixAudit
open Finset

lemma vectorEnds_eq {words : List Word} (h : words ≠ []) :
    vectorEnds words = some (words.head h, words.getLast h) := by
  rw [vectorEnds, List.head?_eq_some_head h, List.getLast?_eq_some_getLast h]

namespace Report

/-- A report of a check of some columns: it failed if it counts any, and it lists those that it
counts, sixteen at most. -/
structure TrueToColumns (r : Report) (cols : ℕ) : Prop where
  passed_iff_count : r.passed = true ↔ r.mismatchCount = 0
  passed_iff_columns : r.passed = true ↔ r.mismatchedColumns = []
  increasing : r.mismatchedColumns.Pairwise (· < ·)
  lt_cols : ∀ k ∈ r.mismatchedColumns, k < cols
  length_eq : r.mismatchedColumns.length = min 16 r.mismatchCount
  count_le : r.mismatchCount ≤ cols
  no_sides : r.weighed = none ∧ r.claimed = none
  no_ends : r.challengeEnds = none ∧ r.responseEnds = none
  /-- The columns are printed and saved just if there is something wrong with them. -/
  printed_iff : (∃ line ∈ r.display.toList.splitOn '\n', tellsColumns line = true) ↔
    r.passed = false
  saved_iff : ∃ members, Json.parse? r.toJson.compact = some (.record members) ∧
    Json.parse? r.fileText = some (.record members) ∧
    ("mismatched_columns" ∈ members.map Prod.fst ↔ r.passed = false)

/-- A report of an exchange in which the response answered the challenge. -/
structure TrueToExchange (r : Report) (c : Client) (challenge response : List Word) : Prop where
  sides : ∃ weighed claimed : Word, r.weighed = some weighed ∧ r.claimed = some claimed ∧
    weighed.toNat < Residue.modulus ∧ claimed.toNat < Residue.modulus ∧
    weighed = Residue.ofNat (innerTotal c.weights response) ∧
    claimed = Residue.ofNat (innerTotal c.claimed challenge) ∧
    (r.passed = true ↔ weighed = claimed)
  passed_iff_count : r.passed = true ↔ r.mismatchCount = 0
  no_columns : r.mismatchedColumns = []
  challengeEnds : ∃ h : challenge ≠ [],
    r.challengeEnds = some (challenge.head h, challenge.getLast h)
  responseEnds : ∃ h : response ≠ [], r.responseEnds = some (response.head h, response.getLast h)

lemma printed_iff_columns (r : Report) :
    (∃ line ∈ r.display.toList.splitOn '\n', tellsColumns line = true) ↔
      r.mismatchedColumns ≠ [] := by
  have hsome : (∃ line ∈ r.display.toList.splitOn '\n', tellsColumns line = true) ↔
      (r.display.toList.splitOn '\n').filter tellsColumns ≠ [] := by
    rw [Ne, List.filter_eq_nil_iff]
    simp only [not_forall, not_not, exists_prop]
  rw [hsome, r.shows_display.columns]
  by_cases h : r.mismatchedColumns = []
  · simp [h]
  · simp [h]

lemma saved_iff_columns (r : Report) :
    "mismatched_columns" ∈ r.members.map Prod.fst ↔ r.mismatchedColumns ≠ [] := by
  have hsome : "mismatched_columns" ∈ r.members.map Prod.fst ↔
      (r.members.lookup "mismatched_columns").isSome = true := by
    rw [List.lookup_isSome_iff, List.mem_map]
    refine exists_congr fun member => and_congr_right fun _ => ?_
    rw [beq_iff_eq, eq_comm]
  rw [hsome, r.says_members.mismatchedColumns]
  by_cases h : r.mismatchedColumns = []
  · simp [h]
  · simp [h]

lemma trueToColumns_ofColumnCheck {s : Statement} {check : ColumnCheck} (exact : check.ExactFor s)
    (n m millis : ℕ) : (ofColumnCheck n m check millis).TrueToColumns s.dataset.cols := by
  have hcount : check.passed = true ↔ check.mismatchCount = 0 := by
    rw [exact.passed_iff, exact.count, card_eq_zero, differingColumns, filter_eq_empty_iff]
    simp only [mem_range, not_not]
  have hlength : check.mismatches.length = min 16 check.mismatchCount := by
    rw [exact.listed.length_eq, ← exact.count]
  have hle : check.mismatchCount ≤ s.dataset.cols := by
    rw [exact.count, differingColumns]
    exact (card_filter_le _ _).trans_eq (card_range _)
  have hcolumns : check.passed = true ↔ check.mismatches = [] := by
    rw [hcount, ← List.length_eq_zero_iff, hlength]
    omega
  have hfailed : check.mismatches ≠ [] ↔ check.passed = false := by
    rw [Ne, ← hcolumns, Bool.not_eq_true]
  exact
    { passed_iff_count := hcount
      passed_iff_columns := hcolumns
      increasing := exact.listed.increasing
      lt_cols := fun k hk => mem_range.1 (mem_filter.1 (exact.listed.mem k hk)).1
      length_eq := hlength
      count_le := hle
      no_sides := ⟨rfl, rfl⟩
      no_ends := ⟨rfl, rfl⟩
      printed_iff := (printed_iff_columns _).trans hfailed
      saved_iff := ⟨_, Json.parse?_compact _, Json.parse?_pretty _,
        (saved_iff_columns _).trans hfailed⟩ }

lemma trueToExchange_interactive {c : Client} {challenge response : List Word} {balance : Balance}
    (weighed : c.Weighed challenge response balance) (valid : ValidDimensions c.n c.m) (role : Role)
    (millis : ℕ) : (interactive role c.n c.m challenge response balance millis).TrueToExchange c
      challenge response := by
  have hchallenge : challenge ≠ [] :=
    List.ne_nil_of_length_pos (weighed.length_challenge ▸ valid.cols_pos)
  have hresponse : response ≠ [] :=
    List.ne_nil_of_length_pos (weighed.length_response ▸ valid.rows_pos)
  obtain rfl := weighed.balance_eq
  have hcount : ∀ passed : Bool, passed = true ↔ (if passed then 0 else 1) = 0 := by decide
  exact
    { sides := ⟨_, _, rfl, rfl, Residue.isReduced_iff.1 (Residue.isReduced_ofNat _),
        Residue.isReduced_iff.1 (Residue.isReduced_ofNat _), rfl, rfl, beq_iff_eq⟩
      passed_iff_count := hcount _
      no_columns := rfl
      challengeEnds := ⟨hchallenge, vectorEnds_eq hchallenge⟩
      responseEnds := ⟨hresponse, vectorEnds_eq hresponse⟩ }

end Report

namespace Statement

variable {s : Statement}

lemma Fits.validDimensions (fits : s.Fits) : ValidDimensions s.client.n s.client.m := by
  have valid := s.dataset.valid
  rwa [fits.cols_eq, fits.rows_eq] at valid

theorem trueToColumns_of_checkColumns [Sharing] (fits : s.Fits) {parallel : Bool}
    {check : ColumnCheck} (h : s.checkColumns parallel = .ok check) (millis : ℕ) :
    (Report.ofColumnCheck s.client.n s.client.m check millis).TrueToColumns s.client.n := by
  obtain ⟨found, hfound, hexact⟩ := exists_exact_check
    (fits.length_weights.symm.trans fits.rows_eq.symm)
    (fits.length_claimed.symm.trans fits.cols_eq.symm) parallel
  rw [h] at hfound
  cases hfound
  have htrue := Report.trueToColumns_ofColumnCheck hexact s.client.n s.client.m millis
  rwa [fits.cols_eq] at htrue

/-- The verifier completed an exchange, whatever its channels did. -/
theorem trueToExchange_of_play [Sharing] (fits : s.Fits) {parallel : Bool} {elapsed : ℕ}
    {source : Source} {sink : Sink} {exchange : Exchange}
    (h : ((s.answerAudit parallel).play elapsed source sink).result = .ok exchange) (millis : ℕ) :
    (Report.ofExchange s.client.n s.client.m exchange millis).TrueToExchange s.client
      exchange.challenge exchange.response := by
  obtain ⟨found, hfound, weighed⟩ | ⟨byte, hbyte⟩ :=
    Dialogue.ends_of_play_eq_ok (answerAudit_concludes fits parallel) h
  · cases hfound
    exact Report.trueToExchange_interactive weighed fits.validDimensions _ _
  · cases hbyte

end Statement

/-- The auditor completed an exchange, whatever its channels did. -/
theorem Client.trueToExchange_of_play {c : Client} (valid : ValidDimensions c.n c.m)
    (hweights : c.weights.length = c.m) (hclaimed : c.claimed.length = c.n) {challenge : List Word}
    {elapsed : ℕ} {source : Source} {sink : Sink} {audit : Audit}
    (h : ((c.audit challenge).play elapsed source sink).result = .ok audit) (millis : ℕ) :
    audit.challenge = challenge ∧
      (Report.ofAudit c.n c.m audit millis).TrueToExchange c audit.challenge audit.response := by
  have hlength : challenge.length = c.n := by
    by_contra hne
    rw [play_audit_of_length_ne c challenge elapsed source sink hne] at h
    cases h
  obtain ⟨found, hfound, rfl, weighed⟩ | ⟨expected, got, hgot⟩ :=
    Dialogue.ends_of_play_eq_ok (audit_concludes hweights hclaimed hlength) h
  · cases hfound
    exact ⟨rfl, Report.trueToExchange_interactive weighed valid _ _⟩
  · cases hgot

end MatrixAudit
