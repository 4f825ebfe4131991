import MatrixAudit.Exchange
import MatrixAudit.Proofs.ColumnDefects
import MatrixAudit.Proofs.Transcript

/-!
# The verifier against an arbitrary peer

Whatever bytes a peer sends before it ends its output, and however the client's fields were edited,
the verifier ends in one of eight ways. Which one it is depends on the length of the input and on
the dimensions alone, and so does how much of the reply has been sent by then.
-/

namespace MatrixAudit

namespace Statement

/-- How the verifier ends on the bytes of a peer: the first of these cases that applies. -/
def expectedAnswer (s : Statement) : List UInt8 → Transcript Exchange
  | [] => ⟨.error (.disconnected "reading the command byte" .inputEnded), [], []⟩
  | command :: rest =>
    let n := s.client.n
    let challenge := LittleEndian.decodeWords wordWidth n rest
    let response := s.dataset.rowWords challenge
    let reply := acknowledgement :: LittleEndian.encodeWords wordWidth response
    let timing := UInt64.ofNat (LittleEndian.decode ((rest.drop (wordWidth * n)).take wordWidth))
    let unread := rest.drop (wordWidth * n + wordWidth)
    if command ≠ auditCommand then ⟨.error (.unknownCommand command), [], rest⟩
    else if rest.length < wordWidth * n then
      ⟨.error (.disconnected "reading the challenge" .inputEnded), [], []⟩
    else if s.dataset.cols ≠ n then
      ⟨.error (.unequalLengths s.dataset.cols n), [acknowledgement], rest.drop (wordWidth * n)⟩
    else if rest.length < wordWidth * n + wordWidth then
      ⟨.error (.disconnected "reading the timing word" .inputEnded), reply, []⟩
    else if s.client.weights.length ≠ s.dataset.rows then
      ⟨.error (.unequalLengths s.client.weights.length s.dataset.rows), reply, unread⟩
    else if s.client.claimed.length ≠ n then
      ⟨.error (.unequalLengths s.client.claimed.length n), reply, unread⟩
    else
      ⟨.ok ⟨challenge, response, timing, s.client.exactBalance challenge response⟩, reply, unread⟩

theorem transcript_answerAudit [Sharing] (s : Statement) (parallel : Bool) (elapsed : ℕ)
    (input : List UInt8) :
    (s.answerAudit parallel).transcript elapsed input = s.expectedAnswer input := by
  obtain _ | ⟨command, rest⟩ := input
  · rfl
  have hsize : Request.byte.size ≤ (command :: rest).length := Nat.succ_le_succ (Nat.zero_le _)
  have hcommand : Request.byte.decode ((command :: rest).take Request.byte.size) = command :=
    Request.decode_byte command
  have hrest : (command :: rest).drop Request.byte.size = rest := rfl
  rw [answerAudit, Dialogue.transcript_ask_of_le _ _ _ hsize, hcommand, hrest]
  simp only [expectedAnswer]
  by_cases hopen : command = auditCommand
  swap
  · rw [if_neg hopen, if_pos hopen]
    rfl
  rw [if_pos hopen, if_neg (not_not.2 hopen), Dialogue.transcript_remarkThat]
  by_cases hchallenge : rest.length < wordWidth * s.client.n
  · rw [Dialogue.transcript_ask_of_lt _ _ _ hchallenge, if_pos hchallenge]
  have hdecode : (Request.words s.client.n).decode (rest.take (Request.words s.client.n).size) =
      LittleEndian.decodeWords wordWidth s.client.n rest := LittleEndian.decodeWords_take _ _ _
  have hskip : rest.drop (Request.words s.client.n).size =
      rest.drop (wordWidth * s.client.n) := rfl
  rw [Dialogue.transcript_ask_of_le _ _ _ (Nat.le_of_not_lt hchallenge), hdecode, hskip,
    if_neg hchallenge, Dialogue.transcript_remarkThat, Dialogue.transcript_tell]
  have hlen := LittleEndian.length_decodeWords wordWidth s.client.n rest
  by_cases hcols : s.dataset.cols = s.client.n
  swap
  · rw [s.dataset.responseWith_of_length_ne parallel (by rwa [hlen, ne_comm]),
      Dialogue.transcript_ofExcept_error, if_pos hcols, hlen]
    rfl
  rw [s.dataset.responseWith_eq parallel (hlen.trans hcols.symm), Dialogue.transcript_ofExcept_ok,
    Dialogue.transcript_remarkThat, Dialogue.transcript_tell, Dialogue.transcript_remarkThat,
    if_neg (not_not.2 hcols)]
  have hunread : (rest.drop (wordWidth * s.client.n)).drop Request.word.size =
      rest.drop (wordWidth * s.client.n + wordWidth) := List.drop_drop
  by_cases htiming : rest.length < wordWidth * s.client.n + wordWidth
  · rw [Dialogue.transcript_ask_of_lt _ _ _ (by rw [List.length_drop, Request.size]; omega),
      if_pos htiming]
    simp only [List.append_nil, List.singleton_append]
  rw [Dialogue.transcript_ask_of_le _ _ _ (by rw [List.length_drop, Request.size]; omega),
    if_neg htiming, Dialogue.transcript_remarkThat, Client.balance_eq, hlen,
    s.dataset.length_rowWords, hunread]
  by_cases hweights : s.client.weights.length = s.dataset.rows
  swap
  · rw [if_pos hweights, if_pos hweights, Dialogue.transcript_ofExcept_error]
    simp only [List.append_nil, List.singleton_append]
  rw [if_neg (not_not.2 hweights), if_neg (not_not.2 hweights)]
  by_cases hclaimed : s.client.claimed.length = s.client.n
  swap
  · rw [if_pos hclaimed, if_pos hclaimed, Dialogue.transcript_ofExcept_error]
    simp only [List.append_nil, List.singleton_append]
  rw [if_neg (not_not.2 hclaimed), if_neg (not_not.2 hclaimed), Dialogue.transcript_ofExcept_ok,
    Dialogue.transcript_pure]
  simp only [List.append_nil, List.singleton_append]
  rfl

/-- On channels that deliver all their bytes and never fail, the verifier ends as expected, sends
what is expected and leaves unread what is expected. -/
theorem play_answerAudit [Sharing] (s : Statement) (parallel : Bool) (elapsed : ℕ)
    {source : Source} {sink : Sink} (steady : source.Steady) (clean : source.fault = none)
    (tireless : sink.Tireless) :
    let play := (s.answerAudit parallel).play elapsed source sink
    let ending := s.expectedAnswer source.bytes
    play.result = ending.result ∧ play.sink.bytes = sink.bytes ++ ending.sent ∧
      play.source.bytes = ending.unread := by
  have hplay := (s.answerAudit parallel).play_eq_transcript elapsed steady clean tireless
  rwa [transcript_answerAudit] at hplay

/-- A peer whose bytes come three at a time, with interruptions, and end with one too many. -/
def sampleSource : Source where
  bytes := auditCommand :: LittleEndian.encodeWords wordWidth [5, 7, 1] ++
    LittleEndian.encode wordWidth 1234 ++ [9]
  chunk := some 3
  interrupts := true

attribute [local instance] Sharing.halving

theorem play_answerAudit_sample :
    sampleSource.Steady ∧ sampleSource.fault = none ∧ Sink.Tireless { chunk := some 2 } ∧
    let play :=
      (answerAudit ⟨sampleDataset, sampleClient⟩ true).play 0 sampleSource { chunk := some 2 }
    let response := [72057594037927954, 43]
    play.result =
        .ok ⟨[5, 7, 1], response, 1234, ⟨72057594037927997, 72057594037927997⟩⟩ ∧
      play.sink.bytes = acknowledgement :: LittleEndian.encodeWords wordWidth response ∧
      play.source.bytes = [9] := by
  have steady : sampleSource.Steady := fun h => by cases h
  have tireless : Sink.Tireless { chunk := some 2 } := ⟨by decide, rfl, rfl⟩
  refine ⟨steady, rfl, tireless, ?_⟩
  have hanswer : expectedAnswer ⟨sampleDataset, sampleClient⟩ sampleSource.bytes =
      ⟨.ok ⟨[5, 7, 1], [72057594037927954, 43], 1234, ⟨72057594037927997, 72057594037927997⟩⟩,
        acknowledgement :: LittleEndian.encodeWords wordWidth [72057594037927954, 43], [9]⟩ := rfl
  have hplay := play_answerAudit ⟨sampleDataset, sampleClient⟩ true 0 steady rfl tireless
  rwa [hanswer] at hplay

end Statement

end MatrixAudit
