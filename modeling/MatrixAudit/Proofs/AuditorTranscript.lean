import MatrixAudit.Exchange
import MatrixAudit.Proofs.InnerTotals
import MatrixAudit.Proofs.Transcript

/-!
# The auditor against an arbitrary verifier

A verifier is not trusted: it may answer a challenge with any bytes. Whatever they are, the auditor
ends in one of seven ways, and a timing word goes out only behind a complete response. The verdict
is about the words of the response as they came, reduced or not.
-/

namespace MatrixAudit

namespace Dialogue

lemma transcript_lastRoundTrip {β : Type} (elapsed : ℕ) (next : ℕ → Dialogue β)
    (input : List UInt8) :
    (lastRoundTrip >>= next).transcript elapsed input = (next elapsed).transcript elapsed input :=
  rfl

end Dialogue

namespace Client

variable (c : Client) (challenge : List Word)

/-- A balance passes iff the exact sums are congruent. -/
lemma passed_exactBalance_iff (response : List Word) :
    (c.exactBalance challenge response).passed = true ↔
      innerTotal c.weights response ≡ innerTotal c.claimed challenge [MOD Residue.modulus] := by
  unfold Balance.passed exactBalance
  rw [beq_iff_eq, Residue.ofNat_eq_ofNat_iff, ZMod.natCast_eq_natCast_iff]

/-- How the auditor ends on the bytes of a verifier: the first of these cases that applies. -/
def expectedAudit (elapsed : Duration) (input : List UInt8) : Transcript Audit :=
  let opening := auditCommand :: LittleEndian.encodeWords wordWidth challenge
  if challenge.length ≠ c.n then ⟨.error (.unequalLengths c.n challenge.length), [], input⟩
  else
    match input with
    | [] => ⟨.error (.disconnected "reading the ack" .inputEnded), opening, []⟩
    | answer :: rest =>
      let response := LittleEndian.decodeWords wordWidth c.m rest
      let timing := LittleEndian.encode wordWidth elapsed.microsWord.toNat
      let unread := rest.drop (wordWidth * c.m)
      if answer ≠ acknowledgement then
        ⟨.error (.wrongAcknowledgement acknowledgement answer), opening, rest⟩
      else if rest.length < wordWidth * c.m then
        ⟨.error (.disconnected "reading the response" .inputEnded), opening, []⟩
      else if c.weights.length ≠ c.m then
        ⟨.error (.unequalLengths c.weights.length c.m), opening ++ timing, unread⟩
      else if c.claimed.length ≠ challenge.length then
        ⟨.error (.unequalLengths c.claimed.length challenge.length), opening ++ timing, unread⟩
      else
        ⟨.ok ⟨challenge, response, elapsed, c.exactBalance challenge response⟩, opening ++ timing,
          unread⟩

theorem transcript_audit (elapsed : ℕ) (input : List UInt8) :
    (c.audit challenge).transcript elapsed input = c.expectedAudit challenge ⟨elapsed⟩ input := by
  unfold audit expectedAudit
  by_cases hlen : challenge.length = c.n
  swap
  · have hne : c.n ≠ challenge.length := fun h => hlen h.symm
    rw [sameLength, if_neg hne, Dialogue.transcript_ofExcept_error, if_pos hlen]
  rw [sameLength, if_pos hlen.symm, Dialogue.transcript_ofExcept_ok, Dialogue.transcript_tell,
    Dialogue.transcript_tell, if_neg (not_not.2 hlen)]
  obtain _ | ⟨answer, rest⟩ := input
  · have hempty : ([] : List UInt8).length < Request.byte.size := Nat.zero_lt_one
    rw [Dialogue.transcript_ask_of_lt _ _ _ hempty]
    simp only [List.append_nil, List.singleton_append]
  have hsize : Request.byte.size ≤ (answer :: rest).length := Nat.succ_le_succ (Nat.zero_le _)
  have hanswer : Request.byte.decode ((answer :: rest).take Request.byte.size) = answer :=
    Request.decode_byte answer
  have hrest : (answer :: rest).drop Request.byte.size = rest := rfl
  rw [Dialogue.transcript_ask_of_le _ _ _ hsize, hanswer, hrest, Dialogue.transcript_lastRoundTrip]
  dsimp only
  -- the round trip is over with the first byte, whatever that byte is
  by_cases hack : answer = acknowledgement
  swap
  · rw [if_neg hack, if_pos hack]
    simp only [Dialogue.fail, Dialogue.transcript, List.append_nil, List.singleton_append]
  rw [if_pos hack, if_neg (not_not.2 hack), Dialogue.transcript_remarkThat]
  by_cases hresponse : rest.length < wordWidth * c.m
  · rw [Dialogue.transcript_ask_of_lt _ _ _ hresponse, if_pos hresponse]
    simp only [List.append_nil, List.singleton_append]
  have hdecode : (Request.words c.m).decode (rest.take (Request.words c.m).size) =
      LittleEndian.decodeWords wordWidth c.m rest := LittleEndian.decodeWords_take _ _ _
  have hunread : rest.drop (Request.words c.m).size = rest.drop (wordWidth * c.m) := rfl
  have hwords := LittleEndian.length_decodeWords wordWidth c.m rest
  rw [Dialogue.transcript_ask_of_le _ _ _ (Nat.le_of_not_lt hresponse), hdecode, hunread,
    if_neg hresponse, Dialogue.transcript_remarkThat, Dialogue.transcript_tell, balance_eq, hwords]
  by_cases hweights : c.weights.length = c.m
  swap
  · rw [if_pos hweights, if_pos hweights, Dialogue.transcript_ofExcept_error]
    simp only [List.append_nil, List.cons_append, List.nil_append]
  rw [if_neg (not_not.2 hweights), if_neg (not_not.2 hweights)]
  by_cases hclaimed : c.claimed.length = challenge.length
  swap
  · rw [if_pos hclaimed, if_pos hclaimed, Dialogue.transcript_ofExcept_error]
    simp only [List.append_nil, List.cons_append, List.nil_append]
  rw [if_neg (not_not.2 hclaimed), if_neg (not_not.2 hclaimed), Dialogue.transcript_ofExcept_ok,
    Dialogue.transcript_pure]
  simp only [List.append_nil, List.cons_append, List.nil_append]

/-- A challenge of the wrong length is refused before anything is read or sent. -/
lemma play_audit_of_length_ne (elapsed : ℕ) (source : Source) (sink : Sink)
    (h : challenge.length ≠ c.n) :
    (c.audit challenge).play elapsed source sink =
      ⟨.error (.unequalLengths c.n challenge.length), source, sink, []⟩ := by
  have hne : c.n ≠ challenge.length := fun heq => h heq.symm
  unfold audit
  rw [sameLength, if_neg hne]
  rfl

variable {c challenge}

/-- A recorded audit holds the challenge and the response as they are, and its balance is theirs. -/
lemma expectedAudit_ok {elapsed : Duration} {input : List UInt8} {a : Audit}
    (h : (c.expectedAudit challenge elapsed input).result = .ok a) :
    a.challenge = challenge ∧ a.response = LittleEndian.decodeWords wordWidth c.m input.tail ∧
      a.balance = c.exactBalance a.challenge a.response := by
  unfold expectedAudit at h
  split at h
  · cases h
  split at h
  · cases h
  dsimp only at h
  split at h
  · cases h
  split at h
  · cases h
  split at h
  · cases h
  split at h
  · cases h
  cases h
  exact ⟨rfl, rfl, rfl⟩

/-- On channels that deliver all their bytes and never fail, the auditor ends as expected, sends
what is expected and leaves unread what is expected. A challenge that does not fit leaves the
channels as they were. When there is a verdict, it says whether the exact sums are congruent. -/
theorem play_audit (c : Client) (challenge : List Word) (elapsed : ℕ) {source : Source}
    {sink : Sink} (steady : source.Steady) (clean : source.fault = none)
    (tireless : sink.Tireless) :
    let play := (c.audit challenge).play elapsed source sink
    let ending := c.expectedAudit challenge ⟨elapsed⟩ source.bytes
    play.result = ending.result ∧ play.sink.bytes = sink.bytes ++ ending.sent ∧
      play.source.bytes = ending.unread ∧
      (challenge.length ≠ c.n → play.source = source ∧ play.sink = sink) ∧
      ∀ a, play.result = .ok a →
        (a.balance.passed = true ↔
          innerTotal c.weights (LittleEndian.decodeWords wordWidth c.m source.bytes.tail) ≡
            innerTotal c.claimed challenge [MOD Residue.modulus]) := by
  have hplay := (c.audit challenge).play_eq_transcript elapsed steady clean tireless
  rw [transcript_audit] at hplay
  obtain ⟨hresult, hsent, hunread⟩ := hplay
  refine ⟨hresult, hsent, hunread, ?_, ?_⟩
  · intro hne
    rw [play_audit_of_length_ne c challenge elapsed source sink hne]
    exact ⟨rfl, rfl⟩
  · intro a ha
    obtain ⟨hchallenge, hresponse, hbalance⟩ := expectedAudit_ok (hresult.symm.trans ha)
    rw [hbalance, passed_exactBalance_iff, hchallenge, hresponse]

/-- A verifier that answers the challenge `[5, 7]` with one word that is not reduced, and goes on
sending behind its response. -/
def sampleReply : Source where
  bytes := acknowledgement :: LittleEndian.encodeWords wordWidth [144115188075855878, 43] ++ [9]
  chunk := some 3
  interrupts := true

theorem play_audit_sample :
    sampleReply.Steady ∧ sampleReply.fault = none ∧ Sink.Tireless { chunk := some 2 } ∧
    let play := (audit ⟨2, 2, [1, 1], [4, 6]⟩ [5, 7]).play 1234567 sampleReply { chunk := some 2 }
    play.result = .ok ⟨[5, 7], [144115188075855878, 43], ⟨1234567⟩, ⟨62, 62⟩⟩ ∧
      play.sink.bytes = auditCommand :: LittleEndian.encodeWords wordWidth [5, 7, 1234] ∧
      play.source.bytes = [9] := by
  have steady : sampleReply.Steady := fun h => by cases h
  have tireless : Sink.Tireless { chunk := some 2 } := ⟨by decide, rfl, rfl⟩
  have haudit : expectedAudit ⟨2, 2, [1, 1], [4, 6]⟩ [5, 7] ⟨1234567⟩ sampleReply.bytes =
      ⟨.ok ⟨[5, 7], [144115188075855878, 43], ⟨1234567⟩, ⟨62, 62⟩⟩,
        auditCommand :: LittleEndian.encodeWords wordWidth [5, 7, 1234], [9]⟩ := rfl
  obtain ⟨hresult, hsent, hunread, -⟩ :=
    play_audit ⟨2, 2, [1, 1], [4, 6]⟩ [5, 7] 1234567 steady rfl tireless
  rw [haudit] at hresult hsent hunread
  exact ⟨steady, rfl, tireless, hresult, hsent, hunread⟩

end Client

end MatrixAudit
