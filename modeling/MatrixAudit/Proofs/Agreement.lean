import MatrixAudit.Exchange
import MatrixAudit.Proofs.ColumnDefects
import MatrixAudit.Proofs.Schedule
import MatrixAudit.Proofs.Transport

/-!
# Agreement between verifier and auditor

The two sides of an exchange, joined by any channels and interleaved in any order, never wait for
each other forever and never fail. When they have ended they agree on the challenge, the response
and the timing word, and no byte is left over.
-/

namespace MatrixAudit

open Connection

/-- What the verifier and the auditor are to record about a challenge. -/
structure Agreement (s : Statement) (auditor : Client) (challenge : List Word) (e : Exchange)
    (a : Audit) : Prop where
  exchange_challenge : e.challenge = challenge
  audit_challenge : a.challenge = challenge
  exchange_response : e.response = s.dataset.rowWords challenge
  audit_response : a.response = s.dataset.rowWords challenge
  timing_eq : e.timing = a.elapsed.microsWord
  exchange_balance : s.client.balance challenge (s.dataset.rowWords challenge) = .ok e.balance
  audit_balance : auditor.balance challenge (s.dataset.rowWords challenge) = .ok a.balance

namespace Ends

variable {α β : Type} {post : α → β → Prop} {r : Side β} {coming rest held : List UInt8}
  {context : String}

lemma askByte {next : UInt8 → Dialogue α} (byte : UInt8) (hcoming : coming = byte :: rest)
    (h : Ends post ⟨next byte, rest, held⟩ r) :
    Ends post ⟨Dialogue.ask .byte context >>= next, coming, held⟩ r := by
  have hgot : coming = [byte] ++ rest := hcoming
  refine .ask hgot rfl ?_
  rwa [Request.decode_byte]

lemma askWord {next : Word → Dialogue α} (word : Word)
    (hcoming : coming = LittleEndian.encode wordWidth word.toNat ++ rest)
    (h : Ends post ⟨next word, rest, held⟩ r) :
    Ends post ⟨Dialogue.ask .word context >>= next, coming, held⟩ r := by
  refine .ask hcoming (LittleEndian.length_encode _ _) ?_
  rwa [Request.decode, LittleEndian.ofNat_decode_encode]

lemma askWords {length : ℕ} {next : List Word → Dialogue α} (words : List Word)
    (hlen : words.length = length)
    (hcoming : coming = LittleEndian.encodeWords wordWidth words ++ rest)
    (h : Ends post ⟨next words, rest, held⟩ r) :
    Ends post ⟨Dialogue.ask (.words length) context >>= next, coming, held⟩ r := by
  subst hlen
  refine .ask hcoming (LittleEndian.length_encodeWords _ _) ?_
  rwa [Request.decode_words]

end Ends

namespace Statement

variable {s : Statement} {auditor : Client} {challenge : List Word}

/-- The verifier and the auditor before their first step. -/
def opening [Sharing] (s : Statement) (parallel : Bool) (auditor : Client) (challenge : List Word) :
    Connection Exchange Audit :=
  ⟨⟨s.answerAudit parallel, [], []⟩, ⟨auditor.audit challenge, [], []⟩, [], []⟩

lemma settles_opening [Sharing] (fits : s.Fits) (parallel : Bool) (hn : auditor.n = s.client.n)
    (hm : auditor.m = s.client.m) (hweights : auditor.weights.length = auditor.m)
    (hclaimed : auditor.claimed.length = auditor.n) (hlen : challenge.length = s.client.n) :
    (s.opening parallel auditor challenge).Settles (Agreement s auditor challenge) := by
  have hrows := s.dataset.length_rowWords challenge
  have hown := balance_rowWords fits hlen
  have htheirs : auditor.balance challenge (s.dataset.rowWords challenge) = .ok _ :=
    Client.balance_of_length_eq (by rw [hrows, hweights, hm, fits.rows_eq])
      (by rw [hclaimed, hlen, hn])
  rw [Settles, opening, leftSide, leftSide]
  simp only [Connection.swap, answerAudit, Client.audit]
  rw [sameLength, if_pos (hn.trans hlen.symm)]
  -- the auditor asks, the verifier answers, the auditor closes
  refine .swap (.tell (.tell (.swap ?_)))
  refine .askByte auditCommand rfl ?_
  rw [if_pos rfl]
  refine .remarkThat (.askWords challenge hlen (List.append_nil _).symm (.remarkThat (.tell ?_)))
  rw [s.dataset.responseWith_eq parallel (hlen.trans fits.cols_eq.symm)]
  refine .remarkThat (.tell (.remarkThat (.swap ?_)))
  refine .askByte acknowledgement rfl (.lastRoundTrip fun elapsed => ?_)
  rw [if_pos rfl]
  refine .remarkThat (.askWords (s.dataset.rowWords challenge) ?_ (List.append_nil _).symm ?_)
  · rw [hrows, hm, fits.rows_eq]
  refine .remarkThat (.tell ?_)
  rw [htheirs]
  refine .swap (.askWord (Duration.microsWord ⟨elapsed⟩) (List.append_nil _).symm ?_)
  rw [hown]
  refine .remarkThat ?_
  exact .finished ⟨rfl, rfl, rfl, rfl, rfl, hown, htheirs⟩

/-- In whatever order the parties step and however their bytes travel, one of them can go on until
both have ended, and then they agree and nothing is left over. -/
theorem agreement_of_reaches [Sharing] {dataset : Dataset} {client : Client}
    (accepted : ofParts dataset client = .ok s) (parallel : Bool) (auditor : Client)
    (challenge : List Word) (hn : auditor.n = s.client.n) (hm : auditor.m = s.client.m)
    (hweights : auditor.weights.length = auditor.m)
    (hclaimed : auditor.claimed.length = auditor.n) (hlen : challenge.length = s.client.n)
    {now : Connection Exchange Audit}
    (run : Reaches (s.opening parallel auditor challenge) now) :
    (¬now.Finished → now.CanMove) ∧ ¬now.left.Failed ∧ ¬now.right.Failed ∧
      (now.Finished → ∃ exchange audit, Agreement s auditor challenge exchange audit ∧
        (auditor = s.client → exchange.balance = audit.balance) ∧
        now = ⟨⟨.done (.ok exchange), [], []⟩, ⟨.done (.ok audit), [], []⟩, [], []⟩) ∧
      ∃ final, Reaches now final ∧ final.Finished := by
  have fits : s.Fits := (ofParts_eq_ok accepted).2
  have hopening := settles_opening fits parallel hn hm hweights hclaimed hlen
  have hnow := hopening.reaches run
  refine ⟨hnow.canMove, hnow.not_failed, hnow.swap.not_failed, fun finished => ?_,
    hnow.exists_finished⟩
  obtain ⟨exchange, audit, agreement, heq⟩ := hnow.eq_of_finished finished
  refine ⟨exchange, audit, agreement, fun hclient => ?_, heq⟩
  have hown := agreement.exchange_balance
  rw [← hclient, agreement.audit_balance] at hown
  exact (Except.ok.inj hown).symm

def sampleAuditor : Client := ⟨3, 2, [1, 1], [4, 6, 9]⟩

attribute [local instance] Sharing.halving

theorem agreement_of_reaches_sample :
    ofParts sampleDataset sampleClient = .ok ⟨sampleDataset, sampleClient⟩ ∧
    sampleAuditor ≠ sampleClient ∧
    ∃ exchange audit,
      Reaches (opening ⟨sampleDataset, sampleClient⟩ true sampleAuditor [5, 7, 1])
        ⟨⟨.done (.ok exchange), [], []⟩, ⟨.done (.ok audit), [], []⟩, [], []⟩ ∧
      exchange.response = [72057594037927954, 43] ∧ audit.response = [72057594037927954, 43] ∧
      exchange.timing = audit.elapsed.microsWord := by
  have accepted : ofParts sampleDataset sampleClient = .ok ⟨sampleDataset, sampleClient⟩ := rfl
  obtain ⟨-, -, -, -, final, run, finished⟩ :=
    agreement_of_reaches accepted true sampleAuditor [5, 7, 1] rfl rfl rfl rfl rfl .refl
  obtain ⟨-, -, -, hagree, -⟩ :=
    agreement_of_reaches accepted true sampleAuditor [5, 7, 1] rfl rfl rfl rfl rfl run
  obtain ⟨exchange, audit, agreement, -, rfl⟩ := hagree finished
  have hresponse : sampleDataset.rowWords [5, 7, 1] = [72057594037927954, 43] := rfl
  refine ⟨accepted, by decide, exchange, audit, run, ?_, ?_, agreement.timing_eq⟩
  · rw [agreement.exchange_response, hresponse]
  · rw [agreement.audit_response, hresponse]

end Statement

end MatrixAudit
