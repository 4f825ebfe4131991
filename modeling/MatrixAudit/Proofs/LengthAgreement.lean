import MatrixAudit.Exchange
import MatrixAudit.Proofs.DialogueOutcome
import MatrixAudit.Proofs.FileRelation

/-!
# Lengths that agree

Many operations refuse two lengths that differ. The dimensions of a client file size everything that
is read after it: its own vectors, the dataset, the challenge and the response. So a statement that
was joined or loaded is never met with such a refusal, on whatever channels it is played, and a
loading that fails does so for another cause.
-/

namespace MatrixAudit

/-- The result is no refusal of two lengths that differ. -/
def LengthsAgree {α : Type} (result : Except Failure α) : Prop :=
  ∀ left right, result ≠ .error (.unequalLengths left right)

section LengthsAgree

variable {α β : Type}

@[simp] lemma lengthsAgree_ok (value : α) : LengthsAgree (.ok value) := by
  intro left right h
  cases h

@[simp] lemma lengthsAgree_error_iff {failure : Failure} :
    LengthsAgree (.error failure : Except Failure α) ↔
      ∀ left right, failure ≠ .unequalLengths left right := by
  constructor
  · intro h left right heq
    exact h left right (congrArg Except.error heq)
  · intro h left right heq
    exact h left right (Except.error.inj heq)

lemma LengthsAgree.bind {result : Except Failure α} {rest : α → Except Failure β}
    (h : LengthsAgree result) (hrest : ∀ value, result = .ok value → LengthsAgree (rest value)) :
    LengthsAgree (result.bind rest) := by
  cases result with
  | ok value => exact hrest value rfl
  | error failure => exact lengthsAgree_error_iff.2 (lengthsAgree_error_iff.1 h)

end LengthsAgree

namespace Client

lemma lengthsAgree_diagnosis (contents : List UInt8) : LengthsAgree (diagnosis contents) := by
  unfold diagnosis bodyDiagnosis
  dsimp only
  split_ifs <;> simp

variable (path : String) (found : Except Fault (List UInt8))

lemma lengthsAgree_ofFile : LengthsAgree (ofFile path found) := by
  cases found with
  | error fault =>
    have hfault : ofFile path (.error fault) = .error (.inaccessible path fault) := rfl
    simp [hfault]
  | ok contents =>
    have hcontents : ofFile path (.ok contents) = ofContents contents := rfl
    rw [hcontents, ofContents_eq]
    exact lengthsAgree_diagnosis contents

variable {path found}

lemma made_of_ofFile {c : Client} (h : ofFile path found = .ok c) : c.Made := by
  cases found with
  | error fault => cases h
  | ok contents => exact Or.inr ⟨contents, h⟩

end Client

namespace Dataset

/-- A dataset file gives a dataset of the dimensions asked for, or one of two failures. -/
lemma ofFile_cases {rows cols : ℕ} (valid : ValidDimensions cols rows) (path : String)
    (found : Except Fault (List UInt8)) :
    (∃ d : Dataset, d.rows = rows ∧ d.cols = cols ∧ ofFile path found rows cols = .ok d) ∨
    (∃ fault, ofFile path found rows cols = .error (.inaccessible path fault)) ∨
    ∃ context expected,
      ofFile path found rows cols = .error (.truncated .datasetFile context expected) := by
  cases found with
  | error fault => exact Or.inr (Or.inl ⟨fault, if_pos valid.countable⟩)
  | ok contents =>
    rw [ofFile_ok valid]
    split
    · exact Or.inr (Or.inr ⟨_, _, rfl⟩)
    · exact Or.inl ⟨ofBytes rows cols valid contents, rfl, rfl, rfl⟩

end Dataset

namespace Statement

/-- The dimensions in the client file size its vectors and the dataset that is read after it. -/
theorem lengthsAgree_load (find : String → Except Fault (List UInt8))
    (datasetPath clientPath : String) : LengthsAgree (load find datasetPath clientPath) := by
  rw [load_eq]
  apply (Client.lengthsAgree_ofFile clientPath (find clientPath)).bind
  intro client hclient
  obtain ⟨valid, hweights, hclaimed⟩ := (Client.made_of_ofFile hclient).sound
  obtain ⟨dataset, hrows, hcols, hdataset⟩ | ⟨fault, hfault⟩ | ⟨context, expected, hshort⟩ :=
    Dataset.ofFile_cases valid datasetPath (find datasetPath)
  · have fits : Fits ⟨dataset, client⟩ := ⟨hrows, hcols, hweights.symm, hclaimed.symm⟩
    have hparts : ofParts dataset client = .ok ⟨dataset, client⟩ := ofParts_of_fits fits
    simp [hdataset, Except.bind, hparts]
  · simp [hfault, Except.bind]
  · simp [hshort, Except.bind]

/-- The statement was joined from its parts or loaded from two files. -/
def Obtained (s : Statement) : Prop :=
  (∃ dataset client, ofParts dataset client = .ok s) ∨
    ∃ find datasetPath clientPath, load find datasetPath clientPath = .ok s

lemma Obtained.exists_parts {s : Statement} (obtained : s.Obtained) :
    ∃ dataset client, ofParts dataset client = .ok s := by
  obtain hparts | ⟨find, datasetPath, clientPath, hload⟩ := obtained
  · exact hparts
  · rw [load_eq] at hload
    obtain ⟨client, -, hload⟩ := exists_of_bind_eq_ok hload
    obtain ⟨dataset, -, hload⟩ := exists_of_bind_eq_ok hload
    exact ⟨dataset, client, hload⟩

lemma Obtained.fits {s : Statement} (obtained : s.Obtained) : s.Fits := by
  obtain ⟨dataset, client, h⟩ := obtained.exists_parts
  exact (ofParts_eq_ok h).2

end Statement

/-- The vectors of an exchange have the client's dimensions, and their balance is exact. -/
structure Client.Weighed (c : Client) (challenge response : List Word) (balance : Balance) : Prop
    where
  length_challenge : challenge.length = c.n
  length_response : response.length = c.m
  balance_eq : balance = c.exactBalance challenge response

namespace Statement

variable {s : Statement}

lemma exists_computed [Sharing] (fits : s.Fits) (parallel : Bool) :
    ∃ check, s.checkColumns parallel = .ok check ∧ check.computed.length = s.client.n ∧
      ∀ word ∈ check.computed, Residue.isReduced word = true := by
  refine ⟨_, checkColumns_eq fits parallel, ?_, ?_⟩
  · rw [Dataset.length_columnWords, fits.cols_eq]
  · intro word hword
    exact Dataset.isReduced_of_mem_columnWords hword

lemma exists_response [Sharing] (fits : s.Fits) (parallel : Bool) {challenge : List Word}
    (h : challenge.length = s.client.n) :
    ∃ response balance, s.dataset.responseWith parallel challenge = .ok response ∧
      response.length = s.client.m ∧ (∀ word ∈ response, Residue.isReduced word = true) ∧
        s.client.balance challenge response = .ok balance := by
  have hcols : challenge.length = s.dataset.cols := h.trans fits.cols_eq.symm
  refine ⟨_, _, s.dataset.responseWith_eq parallel hcols, ?_, ?_, balance_rowWords fits h⟩
  · rw [Dataset.length_rowWords, fits.rows_eq]
  · intro word hword
    exact Dataset.isReduced_of_mem_rowWords hword

/-- A verifier that is not cut off records an exchange, unless it was sent another command. -/
lemma answerAudit_concludes [Sharing] (fits : s.Fits) (parallel : Bool) :
    (s.answerAudit parallel).Concludes fun result =>
      (∃ exchange, result = .ok exchange ∧
        s.client.Weighed exchange.challenge exchange.response exchange.balance) ∨
      ∃ byte, result = .error (.unknownCommand byte) := by
  unfold answerAudit
  rw [Dialogue.concludes_ask]
  intro command _
  split
  · rw [Dialogue.concludes_remarkThat, Dialogue.concludes_ask]
    intro challenge hchallenge
    obtain ⟨response, balance, hresponse, hlength, -, hbalance⟩ :=
      exists_response fits parallel hchallenge
    have hexact := Client.balance_of_length_eq (fits.length_weights.symm.trans hlength.symm)
      (fits.length_claimed.symm.trans hchallenge.symm)
    rw [Dialogue.concludes_remarkThat, Dialogue.concludes_tell, hresponse,
      Dialogue.concludes_ofExcept_ok, Dialogue.concludes_remarkThat, Dialogue.concludes_tell,
      Dialogue.concludes_remarkThat, Dialogue.concludes_ask]
    intro timing _
    rw [Dialogue.concludes_remarkThat, hbalance, Dialogue.concludes_ofExcept_ok]
    exact Or.inl ⟨_, rfl, hchallenge, hlength, Except.ok.inj (hbalance.symm.trans hexact)⟩
  · exact Or.inr ⟨_, rfl⟩

end Statement

/-- An auditor that is not cut off reaches a verdict, unless its challenge was not acknowledged. -/
lemma Client.audit_concludes {c : Client} (hweights : c.weights.length = c.m)
    (hclaimed : c.claimed.length = c.n) {challenge : List Word} (h : challenge.length = c.n) :
    (c.audit challenge).Concludes fun result =>
      (∃ audit, result = .ok audit ∧ audit.challenge = challenge ∧
        c.Weighed challenge audit.response audit.balance) ∨
      ∃ expected got, result = .error (.wrongAcknowledgement expected got) := by
  have hlength : sameLength c.n challenge.length = .ok () := if_pos h.symm
  unfold audit
  rw [hlength, Dialogue.concludes_ofExcept_ok, Dialogue.concludes_tell, Dialogue.concludes_tell,
    Dialogue.concludes_ask]
  intro answer _
  rw [Dialogue.concludes_lastRoundTrip]
  intro elapsed
  dsimp only
  split
  · rw [Dialogue.concludes_remarkThat, Dialogue.concludes_ask]
    intro response hresponse
    rw [Dialogue.concludes_remarkThat, Dialogue.concludes_tell,
      Client.balance_of_length_eq (hweights.trans hresponse.symm) (hclaimed.trans h.symm),
      Dialogue.concludes_ofExcept_ok]
    exact Or.inl ⟨_, rfl, rfl, h, hresponse, rfl⟩
  · exact Or.inr ⟨_, _, rfl⟩

lemma Dialogue.lengthsAgree_play {α : Type} {ends : Except Failure α → Prop} {d : Dialogue α}
    (h : d.Concludes ends) (hends : ∀ result, ends result → LengthsAgree result) (elapsed : ℕ)
    (source : Source) (sink : Sink) : LengthsAgree (d.play elapsed source sink).result := by
  obtain hown | ⟨context, failure, hresult, cause, rfl⟩ :=
    play_of_concludes h elapsed source sink
  · exact hends _ hown
  · simp [hresult]

namespace Statement

lemma lengthsAgree_play_answerAudit [Sharing] {s : Statement} (fits : s.Fits) (parallel : Bool)
    (elapsed : ℕ) (source : Source) (sink : Sink) :
    LengthsAgree ((s.answerAudit parallel).play elapsed source sink).result := by
  apply Dialogue.lengthsAgree_play (answerAudit_concludes fits parallel)
  rintro result (⟨exchange, rfl, -⟩ | ⟨byte, rfl⟩)
  · exact lengthsAgree_ok exchange
  · simp

lemma lengthsAgree_play_audit {s : Statement} (fits : s.Fits) {challenge : List Word}
    (h : challenge.length = s.client.n) (elapsed : ℕ) (source : Source) (sink : Sink) :
    LengthsAgree ((s.client.audit challenge).play elapsed source sink).result := by
  have hconcludes :=
    Client.audit_concludes fits.length_weights.symm fits.length_claimed.symm h
  apply Dialogue.lengthsAgree_play hconcludes
  rintro result (⟨audit, rfl, -⟩ | ⟨expected, got, rfl⟩)
  · exact lengthsAgree_ok audit
  · simp

/-- Two parts are joined iff their lengths agree, and the first pair that does not is refused.
Behind that, no length is refused again: a statement that was joined or loaded has reduced column
sums and responses of the right lengths, and neither the loading nor either side of an exchange ends
with such a refusal, whatever the files and the channels do. -/
theorem lengthsAgree_of_obtained [Sharing] :
    (∀ (dataset : Dataset) (client : Client), ofParts dataset client =
      if dataset.rows ≠ client.m then .error (.unequalLengths dataset.rows client.m)
      else if dataset.cols ≠ client.n then .error (.unequalLengths dataset.cols client.n)
      else if client.m ≠ client.weights.length then
        .error (.unequalLengths client.m client.weights.length)
      else if client.n ≠ client.claimed.length then
        .error (.unequalLengths client.n client.claimed.length)
      else .ok ⟨dataset, client⟩) ∧
    (∀ (find : String → Except Fault (List UInt8)) (datasetPath clientPath : String),
      LengthsAgree (load find datasetPath clientPath)) ∧
    ∀ s : Statement, s.Obtained → ∀ parallel : Bool,
      (∃ check, s.checkColumns parallel = .ok check ∧ check.computed.length = s.client.n ∧
        ∀ word ∈ check.computed, Residue.isReduced word = true) ∧
      (∀ challenge : List Word, challenge.length = s.client.n →
        ∃ response balance, s.dataset.responseWith parallel challenge = .ok response ∧
          response.length = s.client.m ∧ (∀ word ∈ response, Residue.isReduced word = true) ∧
            s.client.balance challenge response = .ok balance) ∧
      (∀ (elapsed : ℕ) (source : Source) (sink : Sink),
        LengthsAgree ((s.answerAudit parallel).play elapsed source sink).result) ∧
      ∀ challenge : List Word, challenge.length = s.client.n →
        ∀ (elapsed : ℕ) (source : Source) (sink : Sink),
          LengthsAgree ((s.client.audit challenge).play elapsed source sink).result := by
  refine ⟨ofParts_eq, lengthsAgree_load, fun s obtained parallel => ?_⟩
  have fits : s.Fits := obtained.fits
  refine ⟨exists_computed fits parallel, ?_, lengthsAgree_play_answerAudit fits parallel, ?_⟩
  · intro challenge h
    exact exists_response fits parallel h
  · intro challenge h
    exact lengthsAgree_play_audit fits h

attribute [local instance] Sharing.halving

theorem lengthsAgree_of_obtained_sample :
    Obtained ⟨sampleDataset, sampleClient⟩ ∧
    (∃ check, checkColumns ⟨sampleDataset, sampleClient⟩ true = .ok check ∧
      check.computed.length = 3 ∧ ∀ word ∈ check.computed, Residue.isReduced word = true) ∧
    (∃ response balance, sampleDataset.responseWith true [5, 7, 1] = .ok response ∧
      response.length = 2 ∧ (∀ word ∈ response, Residue.isReduced word = true) ∧
        sampleClient.balance [5, 7, 1] response = .ok balance) ∧
    LengthsAgree ((answerAudit ⟨sampleDataset, sampleClient⟩ true).play 0
      { bytes := auditCommand :: LittleEndian.encodeWords wordWidth [5, 7, 1], chunk := some 3 }
      { limit := some 4 }).result ∧
    LengthsAgree ((sampleClient.audit [5, 7, 1]).play 0
      { bytes := [acknowledgement, 2, 3], fault := some .noSpace } { chunk := some 2 }).result := by
  obtain ⟨-, -, hobtained⟩ := lengthsAgree_of_obtained
  have accepted : ofParts sampleDataset sampleClient = .ok ⟨sampleDataset, sampleClient⟩ := rfl
  have obtained : Obtained ⟨sampleDataset, sampleClient⟩ := Or.inl ⟨_, _, accepted⟩
  obtain ⟨hcheck, hresponse, hanswer, haudit⟩ := hobtained _ obtained true
  exact ⟨obtained, hcheck, hresponse [5, 7, 1] rfl, hanswer 0 _ _, haudit [5, 7, 1] rfl 0 _ _⟩

end Statement

end MatrixAudit
