import MatrixAudit.Proofs.AuditorTranscript
import MatrixAudit.Proofs.SinkRoom
import MatrixAudit.Proofs.VerifierTranscript

/-!
# Dialogues on channels that break

A read, a write or a flush can fail at any byte. A dialogue then stops, and what it has sent is the
start of what it would have sent. So nothing goes out before what it waits for has come in full, and
no verdict is reached before everything has gone out.
-/

namespace MatrixAudit

/-- From `s` to `t` at least `count` flushes were made, and the first `count` of them succeeded. -/
structure Sink.Flushed (s t : Sink) (count : ℕ) : Prop where
  made : s.flushes + count ≤ t.flushes
  succeeded : ∀ k < count, s.flushFault ≠ some (s.flushes + k)

namespace Sink

variable {s t : Sink} {count : ℕ}

lemma Flushed.of_taken {taken : Array UInt8} (h : Flushed { s with taken } t count) :
    s.Flushed t count := ⟨h.made, h.succeeded⟩

lemma Flushed.succ (h : Flushed { s with flushes := s.flushes + 1 } t count)
    (hfault : s.flushFault ≠ some s.flushes) : s.Flushed t (count + 1) := by
  obtain ⟨made, succeeded⟩ := h
  dsimp only at made succeeded
  refine ⟨by omega, fun k hk => ?_⟩
  cases k with
  | zero => exact hfault
  | succ k =>
    have hlater := succeeded k (Nat.lt_of_succ_lt_succ hk)
    rwa [Nat.add_assoc, Nat.add_comm 1] at hlater

end Sink

namespace Dialogue

variable {α : Type} {source : Source} {sink : Sink}

section Steps

variable (elapsed : ℕ) {request : Request} (context : String) {next : request.Answer → Dialogue α}
  {bytes : List UInt8} {rest : Dialogue α}

lemma play_receive_of_le (steady : source.Steady) (h : request.size ≤ source.bytes.length) :
    ∃ reads, (receive request context next).play elapsed source sink =
      (next (request.decode (source.bytes.take request.size))).play elapsed
        { source with bytes := source.bytes.drop request.size, reads } sink := by
  obtain ⟨reads, hread⟩ := Request.read_of_le steady context h
  exact ⟨reads, by rw [play, hread]⟩

lemma play_receive_of_lt (steady : source.Steady) (h : source.bytes.length < request.size) :
    ∃ failure reads, (receive request context next).play elapsed source sink =
      ⟨.error failure, { source with bytes := [], reads }, sink, []⟩ := by
  obtain ⟨reads, hread⟩ := Request.read_of_lt steady context h
  exact ⟨_, reads, by rw [play, hread]⟩

lemma play_send_of_room (hchunk : sink.chunk ≠ some 0)
    (h : bytes = [] ∨ sink.HasRoom bytes.length) :
    (send bytes context rest).play elapsed source sink =
      rest.play elapsed source { sink with taken := sink.taken ++ bytes } := by
  rw [play, Writing.run_bytes_of_room hchunk context h]

lemma play_send_of_not_room (hchunk : sink.chunk ≠ some 0)
    (h : ¬(bytes = [] ∨ sink.HasRoom bytes.length)) :
    ∃ failure, (send bytes context rest).play elapsed source sink =
      ⟨.error failure, source, { sink with taken := sink.taken ++ sink.fitting bytes }, []⟩ :=
  ⟨_, by rw [play, Writing.run_bytes_of_not_room hchunk context h]⟩

lemma play_flush_of_ne (h : sink.flushFault ≠ some sink.flushes) :
    (flush context rest).play elapsed source sink =
      rest.play elapsed source { sink with flushes := sink.flushes + 1 } := by
  rw [play, Writing.run_flush_of_ne context h]

lemma play_flush_of_eq (h : sink.flushFault = some sink.flushes) :
    ∃ failure, (flush context rest).play elapsed source sink =
      ⟨.error failure, source, { sink with flushes := sink.flushes + 1 }, []⟩ :=
  ⟨_, by rw [play, Writing.run_flush_of_eq context h]⟩

end Steps

/-- However a dialogue is answered, it succeeds only behind `count` flushes. -/
def SucceedsBehind : Dialogue α → ℕ → Prop
  | done (.ok _), count => count = 0
  | done (.error _), _ => True
  | receive _ _ next, count => ∀ answer, (next answer).SucceedsBehind count
  | send _ _ next, count => next.SucceedsBehind count
  | flush _ _, 0 => False
  | flush _ next, count + 1 => next.SucceedsBehind count
  | roundTrip next, count => ∀ elapsed, (next elapsed).SucceedsBehind count
  | remark _ next, count => next.SucceedsBehind count

section Rules

variable {β : Type} {count : ℕ}

lemma succeedsBehind_ask {request : Request} {context : String}
    {next : request.Answer → Dialogue β} :
    (ask request context >>= next).SucceedsBehind count ↔
      ∀ answer, (next answer).SucceedsBehind count := Iff.rfl

lemma succeedsBehind_tell {bytes : List UInt8} {context : String} {next : Unit → Dialogue β} :
    (tell bytes context >>= next).SucceedsBehind (count + 1) ↔
      (next ()).SucceedsBehind count := Iff.rfl

lemma succeedsBehind_remarkThat {text : String} {next : Unit → Dialogue β} :
    (remarkThat text >>= next).SucceedsBehind count ↔ (next ()).SucceedsBehind count := Iff.rfl

lemma SucceedsBehind.ofExcept {result : Except Failure α} {next : α → Dialogue β}
    (h : ∀ value, (next value).SucceedsBehind count) :
    (Dialogue.ofExcept result >>= next).SucceedsBehind count := by
  cases result with
  | ok value => exact h value
  | error failure => trivial

end Rules

theorem flushed_of_succeedsBehind {d : Dialogue α} {count : ℕ} (h : d.SucceedsBehind count)
    (steady : source.Steady) (hchunk : sink.chunk ≠ some 0) {elapsed : ℕ} {value : α}
    (hok : (d.play elapsed source sink).result = .ok value) :
    sink.Flushed (d.play elapsed source sink).sink count := by
  induction d generalizing source sink count with
  | done result =>
    obtain rfl : result = .ok value := hok
    obtain rfl : count = 0 := h
    exact ⟨Nat.le_refl _, fun k hk => absurd hk (Nat.not_lt_zero k)⟩
  | receive request context next ih =>
    by_cases hsize : request.size ≤ source.bytes.length
    · obtain ⟨reads, hplay⟩ := play_receive_of_le elapsed context steady hsize
      rw [hplay] at hok ⊢
      exact ih _ (h _) steady hchunk hok
    · obtain ⟨failure, reads, hplay⟩ :=
        play_receive_of_lt elapsed context steady (Nat.lt_of_not_le hsize)
      rw [hplay] at hok
      cases hok
  | send bytes context next ih =>
    have hnext : Sink.chunk { sink with taken := sink.taken ++ bytes } ≠ some 0 := hchunk
    by_cases hroom : bytes = [] ∨ sink.HasRoom bytes.length
    · rw [play_send_of_room elapsed context hchunk hroom] at hok ⊢
      exact (ih h steady hnext hok).of_taken
    · obtain ⟨failure, hplay⟩ := play_send_of_not_room elapsed context hchunk hroom
      rw [hplay] at hok
      cases hok
  | flush context next ih =>
    have hnext : Sink.chunk { sink with flushes := sink.flushes + 1 } ≠ some 0 := hchunk
    by_cases hfault : sink.flushFault = some sink.flushes
    · obtain ⟨failure, hplay⟩ := play_flush_of_eq elapsed context hfault
      rw [hplay] at hok
      cases hok
    rw [play_flush_of_ne elapsed context hfault] at hok ⊢
    cases count with
    | zero => exact h.elim
    | succ count => exact (ih h steady hnext hok).succ hfault
  | roundTrip next ih => exact ih elapsed (h elapsed) steady hchunk hok
  | remark text next ih => exact ih h steady hchunk hok

/-- What was sent on any channels is the start of what is sent on plain bytes, and all of it if the
dialogue succeeds. -/
theorem play_isPrefix (elapsed : ℕ) (d : Dialogue α) (steady : source.Steady)
    (hchunk : sink.chunk ≠ some 0) :
    let play := d.play elapsed source sink
    let ending := d.transcript elapsed source.bytes
    ∃ sent, play.sink.bytes = sink.bytes ++ sent ∧ sent <+: ending.sent ∧
      (∀ value, play.result = .ok value → ending.result = .ok value ∧ sent = ending.sent) ∧
      sink.flushes ≤ play.sink.flushes := by
  -- a step that fails sends at most the start of its own bytes, and nothing comes behind it
  induction d generalizing source sink with
  | done result =>
    exact ⟨[], (List.append_nil _).symm, List.prefix_rfl, fun value h => ⟨h, rfl⟩, Nat.le_refl _⟩
  | receive request context next ih =>
    dsimp only
    rw [transcript]
    by_cases h : request.size ≤ source.bytes.length
    · obtain ⟨reads, hplay⟩ := play_receive_of_le elapsed context steady h
      rw [hplay, if_pos h]
      exact ih _ steady hchunk
    · obtain ⟨failure, reads, hplay⟩ :=
        play_receive_of_lt elapsed context steady (Nat.lt_of_not_le h)
      rw [hplay, if_neg h]
      refine ⟨[], (List.append_nil _).symm, List.prefix_rfl, ?_, Nat.le_refl _⟩
      intro value hok
      cases hok
  | send bytes context next ih =>
    dsimp only
    rw [transcript]
    by_cases hroom : bytes = [] ∨ sink.HasRoom bytes.length
    · have hnext : Sink.chunk { sink with taken := sink.taken ++ bytes } ≠ some 0 := hchunk
      obtain ⟨sent, hsent, hstart, hok, hflushes⟩ := ih steady hnext
      rw [play_send_of_room elapsed context hchunk hroom]
      refine ⟨bytes ++ sent, ?_, (List.prefix_append_right_inj bytes).2 hstart, ?_, hflushes⟩
      · rw [hsent, sink.bytes_take, List.append_assoc]
      · intro value hvalue
        obtain ⟨hresult, rfl⟩ := hok value hvalue
        exact ⟨hresult, rfl⟩
    · obtain ⟨failure, hplay⟩ := play_send_of_not_room elapsed context hchunk hroom
      rw [hplay]
      refine ⟨sink.fitting bytes, sink.bytes_take _, ?_, ?_, Nat.le_refl _⟩
      · exact (sink.fitting_isPrefix bytes).trans (List.prefix_append bytes _)
      intro value hok
      cases hok
  | flush context next ih =>
    dsimp only
    rw [transcript]
    by_cases hfault : sink.flushFault = some sink.flushes
    · obtain ⟨failure, hplay⟩ := play_flush_of_eq elapsed context hfault
      rw [hplay]
      refine ⟨[], (List.append_nil _).symm, List.nil_prefix, ?_, Nat.le_succ _⟩
      intro value hok
      cases hok
    · have hnext : Sink.chunk { sink with flushes := sink.flushes + 1 } ≠ some 0 := hchunk
      obtain ⟨sent, hsent, hstart, hok, hflushes⟩ := ih steady hnext
      rw [play_flush_of_ne elapsed context hfault]
      exact ⟨sent, hsent, hstart, hok, Nat.le_of_succ_le hflushes⟩
  | roundTrip next ih => exact ih elapsed steady hchunk
  | remark text next ih => exact ih steady hchunk

/-- If the source is touched behind something told, then all of that was written and flushed. -/
lemma play_tell_of_source_ne {elapsed : ℕ} {bytes : List UInt8} {context : String}
    {next : Unit → Dialogue α} (hchunk : sink.chunk ≠ some 0)
    (htouched : ((tell bytes context >>= next).play elapsed source sink).source ≠ source) :
    sink.flushFault ≠ some sink.flushes ∧
      (tell bytes context >>= next).play elapsed source sink = (next ()).play elapsed source
        { sink with taken := sink.taken ++ bytes, flushes := sink.flushes + 1 } := by
  have htell : (tell bytes context >>= next) = send bytes context (flush context (next ())) := rfl
  rw [htell] at htouched ⊢
  by_cases hroom : bytes = [] ∨ sink.HasRoom bytes.length
  swap
  · obtain ⟨failure, hplay⟩ := play_send_of_not_room elapsed context hchunk hroom
    rw [hplay] at htouched
    exact absurd rfl htouched
  rw [play_send_of_room elapsed context hchunk hroom] at htouched ⊢
  by_cases hfault : sink.flushFault = some sink.flushes
  · have hnext : Sink.flushFault { sink with taken := sink.taken ++ bytes } =
        some sink.flushes := hfault
    obtain ⟨failure, hplay⟩ := play_flush_of_eq elapsed context hnext
    rw [hplay] at htouched
    exact absurd rfl htouched
  · exact ⟨hfault, play_flush_of_ne elapsed context hfault⟩

end Dialogue

namespace Statement

lemma answerAudit_succeedsBehind [Sharing] (s : Statement) (parallel : Bool) :
    (s.answerAudit parallel).SucceedsBehind 2 := by
  unfold answerAudit
  rw [Dialogue.succeedsBehind_ask]
  intro command
  split
  · rw [Dialogue.succeedsBehind_remarkThat, Dialogue.succeedsBehind_ask]
    intro challenge
    rw [Dialogue.succeedsBehind_remarkThat, Dialogue.succeedsBehind_tell]
    apply Dialogue.SucceedsBehind.ofExcept
    intro response
    rw [Dialogue.succeedsBehind_remarkThat, Dialogue.succeedsBehind_tell,
      Dialogue.succeedsBehind_remarkThat, Dialogue.succeedsBehind_ask]
    intro timing
    rw [Dialogue.succeedsBehind_remarkThat]
    apply Dialogue.SucceedsBehind.ofExcept
    intro balance
    rfl
  · trivial

/-- On plain bytes the verifier sends its whole reply or nothing, and the reply only to a whole
challenge. -/
lemma expectedAnswer_sent {s : Statement} (fits : s.Fits) (input : List UInt8) :
    let challenge := LittleEndian.decodeWords wordWidth s.client.n input.tail
    let ending := s.expectedAnswer input
    (ending.sent = [] ∧ ∀ exchange, ending.result ≠ .ok exchange) ∨
      (∃ rest, input = auditCommand :: LittleEndian.encodeWords wordWidth challenge ++ rest) ∧
        ending.sent =
          acknowledgement :: LittleEndian.encodeWords wordWidth (s.dataset.rowWords challenge) := by
  obtain _ | ⟨command, rest⟩ := input
  · exact Or.inl ⟨rfl, fun exchange h => by cases h⟩
  simp only [expectedAnswer, List.tail_cons]
  by_cases hopen : command = auditCommand
  swap
  · rw [if_pos hopen]
    exact Or.inl ⟨rfl, fun exchange h => by cases h⟩
  by_cases hshort : rest.length < wordWidth * s.client.n
  · rw [if_neg (not_not.2 hopen), if_pos hshort]
    exact Or.inl ⟨rfl, fun exchange h => by cases h⟩
  have hwords : LittleEndian.encodeWords wordWidth
      (LittleEndian.decodeWords wordWidth s.client.n rest) = rest.take (wordWidth * s.client.n) :=
    LittleEndian.encodeWords_decodeWords (Nat.le_refl _) (Nat.le_of_not_lt hshort)
  rw [if_neg (not_not.2 hopen), if_neg hshort, if_neg (not_not.2 fits.cols_eq)]
  refine Or.inr ⟨⟨rest.drop (wordWidth * s.client.n), ?_⟩, ?_⟩
  · rw [hwords, hopen, List.cons_append, List.take_append_drop]
  -- from here on the whole reply goes out, however the exchange ends
  · split
    · rfl
    split
    · rfl
    split <;> rfl

variable {source : Source} {sink : Sink}

lemma play_answerAudit_isPrefix [Sharing] {s : Statement} (fits : s.Fits) (parallel : Bool)
    (elapsed : ℕ) (steady : source.Steady) (hchunk : sink.chunk ≠ some 0) :
    let challenge := LittleEndian.decodeWords wordWidth s.client.n source.bytes.tail
    let reply :=
      acknowledgement :: LittleEndian.encodeWords wordWidth (s.dataset.rowWords challenge)
    let play := (s.answerAudit parallel).play elapsed source sink
    ∃ sent, play.sink.bytes = sink.bytes ++ sent ∧ sent <+: reply ∧
      (sent ≠ [] → ∃ rest, source.bytes =
        auditCommand :: LittleEndian.encodeWords wordWidth challenge ++ rest) ∧
      ∀ exchange, play.result = .ok exchange → sent = reply ∧ sink.Flushed play.sink 2 := by
  intro challenge reply play
  obtain ⟨sent, hsent, hstart, hok, -⟩ :=
    (s.answerAudit parallel).play_isPrefix elapsed steady hchunk
  rw [transcript_answerAudit] at hstart hok
  refine ⟨sent, hsent, ?_⟩
  obtain ⟨hnothing, hfailed⟩ | ⟨hinput, hreply⟩ := expectedAnswer_sent fits source.bytes
  · rw [hnothing, List.prefix_nil] at hstart
    subst hstart
    refine ⟨List.nil_prefix, fun hne => absurd rfl hne, fun exchange hresult => ?_⟩
    exact absurd (hok exchange hresult).1 (hfailed exchange)
  · rw [hreply] at hstart hok
    refine ⟨hstart, fun _ => hinput, fun exchange hresult => ⟨(hok exchange hresult).2, ?_⟩⟩
    exact Dialogue.flushed_of_succeedsBehind (s.answerAudit_succeedsBehind parallel) steady hchunk
      hresult

end Statement

namespace Client

/-- On plain bytes the auditor sends its challenge, and a timing word only behind a whole
response. -/
lemma expectedAudit_sent {c : Client} {challenge : List Word} (h : challenge.length = c.n)
    (elapsed : Duration) (input : List UInt8) :
    let opening := auditCommand :: LittleEndian.encodeWords wordWidth challenge
    let timing := LittleEndian.encode wordWidth elapsed.microsWord.toNat
    let ending := c.expectedAudit challenge elapsed input
    (ending.sent = opening ∧ ∀ audit, ending.result ≠ .ok audit) ∨
      (∃ rest, input = acknowledgement :: rest ∧ wordWidth * c.m ≤ rest.length) ∧
        ending.sent = opening ++ timing := by
  unfold expectedAudit
  dsimp only
  rw [if_neg (not_not.2 h)]
  obtain _ | ⟨answer, rest⟩ := input
  · exact Or.inl ⟨rfl, fun audit h => by cases h⟩
  dsimp only
  by_cases hack : answer = acknowledgement
  swap
  · rw [if_pos hack]
    exact Or.inl ⟨rfl, fun audit h => by cases h⟩
  by_cases hshort : rest.length < wordWidth * c.m
  · rw [if_neg (not_not.2 hack), if_pos hshort]
    exact Or.inl ⟨rfl, fun audit h => by cases h⟩
  rw [if_neg (not_not.2 hack), if_neg hshort]
  refine Or.inr ⟨⟨rest, by rw [hack], Nat.le_of_not_lt hshort⟩, ?_⟩
  split
  · rfl
  split <;> rfl

variable {c : Client} {challenge : List Word} {source : Source} {sink : Sink}

/-- Nothing is read before the challenge is out. -/
lemma opening_of_source_ne (h : challenge.length = c.n) {elapsed : ℕ} (steady : source.Steady)
    (hchunk : sink.chunk ≠ some 0)
    (htouched : ((c.audit challenge).play elapsed source sink).source ≠ source) :
    ∃ later, ((c.audit challenge).play elapsed source sink).sink.bytes = sink.bytes ++
        (auditCommand :: LittleEndian.encodeWords wordWidth challenge ++ later) ∧
      sink.Flushed ((c.audit challenge).play elapsed source sink).sink 2 := by
  obtain ⟨rest, haudit⟩ : ∃ rest, c.audit challenge =
      Dialogue.tell [auditCommand] "sending the command byte" >>= fun _ =>
        Dialogue.tell (LittleEndian.encodeWords wordWidth challenge) "sending the challenge" >>=
          rest := by
    unfold audit
    rw [sameLength, if_pos h.symm]
    exact ⟨_, rfl⟩
  rw [haudit] at htouched ⊢
  let opened : Sink :=
    { sink with taken := sink.taken ++ [auditCommand], flushes := sink.flushes + 1 }
  let challenged : Sink :=
    { opened with
      taken := opened.taken ++ LittleEndian.encodeWords wordWidth challenge
      flushes := opened.flushes + 1 }
  have hopened : opened.chunk ≠ some 0 := hchunk
  have hchallenged : challenged.chunk ≠ some 0 := hchunk
  obtain ⟨hfirst, hplay⟩ := Dialogue.play_tell_of_source_ne hchunk htouched
  rw [hplay] at htouched ⊢
  obtain ⟨hsecond, hplay⟩ := Dialogue.play_tell_of_source_ne hopened htouched
  rw [hplay]
  obtain ⟨later, hlater, -, -, hflushes⟩ := (rest ()).play_isPrefix elapsed steady hchallenged
  refine ⟨later, hlater.trans ?_, hflushes, fun k hk => ?_⟩
  · simp only [challenged, opened, Sink.bytes, Array.toList_appendList, List.append_assoc,
      List.cons_append, List.nil_append]
  · obtain rfl | rfl : k = 0 ∨ k = 1 := by omega
    · exact hfirst
    · exact hsecond

lemma play_audit_isPrefix (h : challenge.length = c.n) (elapsed : ℕ) (steady : source.Steady)
    (hchunk : sink.chunk ≠ some 0) :
    let opening := auditCommand :: LittleEndian.encodeWords wordWidth challenge
    let timing := LittleEndian.encode wordWidth (Duration.microsWord ⟨elapsed⟩).toNat
    let play := (c.audit challenge).play elapsed source sink
    ∃ sent, play.sink.bytes = sink.bytes ++ sent ∧ sent <+: opening ++ timing ∧
      (1 + wordWidth * c.n < sent.length → ∃ rest, source.bytes = acknowledgement :: rest ∧
        wordWidth * c.m ≤ rest.length) ∧
      (play.source ≠ source → opening <+: sent ∧ sink.Flushed play.sink 2) ∧
      ∀ audit, play.result = .ok audit → sent = opening ++ timing := by
  intro opening timing play
  have hlength : opening.length = 1 + wordWidth * c.n := by
    rw [List.length_cons, LittleEndian.length_encodeWords, h, Nat.add_comm]
  obtain ⟨sent, hsent, hstart, hok, -⟩ := (c.audit challenge).play_isPrefix elapsed steady hchunk
  rw [transcript_audit] at hstart hok
  have hopening : play.source ≠ source → opening <+: sent ∧ sink.Flushed play.sink 2 := by
    intro htouched
    obtain ⟨later, hlater, hflushed⟩ := opening_of_source_ne h steady hchunk htouched
    rw [hsent, List.append_cancel_left_eq] at hlater
    exact ⟨⟨later, hlater.symm⟩, hflushed⟩
  obtain ⟨honly, hfailed⟩ | ⟨hinput, hwhole⟩ := expectedAudit_sent h ⟨elapsed⟩ source.bytes
  · rw [honly] at hstart
    refine ⟨sent, hsent, hstart.trans (List.prefix_append _ _), ?_, hopening, ?_⟩
    · intro hlong
      have hle : sent.length ≤ opening.length := hstart.length_le
      omega
    · intro audit hresult
      exact absurd (hok audit hresult).1 (hfailed audit)
  · rw [hwhole] at hstart hok
    exact ⟨sent, hsent, hstart, fun _ => hinput, hopening,
      fun audit hresult => (hok audit hresult).2⟩

end Client

/-- On channels that can fail at any read, write or flush, the verifier sends the start of its
reply, nothing of it before the whole challenge has come, and all of it if it records an exchange.
The auditor sends the start of its challenge and timing word, the latter only behind a whole
response; it reads nothing before the challenge is out, and has sent all if it reaches a verdict. -/
theorem exchange_prefixes [Sharing] (elapsed : ℕ) {source : Source} {sink : Sink}
    (steady : source.Steady) (hchunk : sink.chunk ≠ some 0) :
    (∀ dataset client s parallel, Statement.ofParts dataset client = .ok s →
      let challenge := LittleEndian.decodeWords wordWidth s.client.n source.bytes.tail
      let reply :=
        acknowledgement :: LittleEndian.encodeWords wordWidth (s.dataset.rowWords challenge)
      let play := (s.answerAudit parallel).play elapsed source sink
      ∃ sent, play.sink.bytes = sink.bytes ++ sent ∧ sent <+: reply ∧
        (sent ≠ [] → ∃ rest, source.bytes =
          auditCommand :: LittleEndian.encodeWords wordWidth challenge ++ rest) ∧
        ∀ exchange, play.result = .ok exchange → sent = reply ∧ sink.Flushed play.sink 2) ∧
    ∀ (c : Client) (challenge : List Word), challenge.length = c.n →
      let opening := auditCommand :: LittleEndian.encodeWords wordWidth challenge
      let timing := LittleEndian.encode wordWidth (Duration.microsWord ⟨elapsed⟩).toNat
      let play := (c.audit challenge).play elapsed source sink
      ∃ sent, play.sink.bytes = sink.bytes ++ sent ∧ sent <+: opening ++ timing ∧
        (1 + wordWidth * c.n < sent.length → ∃ rest, source.bytes = acknowledgement :: rest ∧
          wordWidth * c.m ≤ rest.length) ∧
        (play.source ≠ source → opening <+: sent ∧ sink.Flushed play.sink 2) ∧
        ∀ audit, play.result = .ok audit → sent = opening ++ timing :=
  ⟨fun _ _ _ parallel hparts =>
    Statement.play_answerAudit_isPrefix (Statement.ofParts_eq_ok hparts).2 parallel elapsed steady
      hchunk,
    fun _ _ h => Client.play_audit_isPrefix h elapsed steady hchunk⟩

/-- A sink that fails inside a word. -/
def narrowSink : Sink := { chunk := some 2, limit := some 5, fault := some ⟨false, "full"⟩ }

/-- A sink whose second flush fails. -/
def unflushableSink : Sink := { chunk := some 2, flushFault := some 1 }

/-- Two rows and two columns, with claimed sums for which the sample reply passes. -/
def sampleAuditor : Client := ⟨2, 2, [1, 1], [4, 6]⟩

attribute [local instance] Sharing.halving

theorem exchange_prefixes_sample :
    let wide : Sink := { chunk := some 2 }
    let reply := acknowledgement :: LittleEndian.encodeWords wordWidth [72057594037927954, 43]
    let answering := Statement.answerAudit ⟨sampleDataset, sampleClient⟩ true
    let auditing := sampleAuditor.audit [5, 7]
    Statement.ofParts sampleDataset sampleClient = .ok ⟨sampleDataset, sampleClient⟩ ∧
    (answering.play 0 Statement.sampleSource narrowSink).sink.bytes <+: reply ∧
    (answering.play 0 Statement.sampleSource wide).sink.bytes = reply ∧
    wide.Flushed (answering.play 0 Statement.sampleSource wide).sink 2 ∧
    (auditing.play 0 Client.sampleReply unflushableSink).source = Client.sampleReply ∧
    (auditing.play 0 Client.sampleReply wide).sink.bytes =
      auditCommand :: LittleEndian.encodeWords wordWidth [5, 7, 0] := by
  intro wide reply answering auditing
  have hparts : Statement.ofParts sampleDataset sampleClient = .ok ⟨sampleDataset, sampleClient⟩ :=
    rfl
  have asking : Statement.sampleSource.Steady := fun h => by cases h
  have replying : Client.sampleReply.Steady := fun h => by cases h
  have hwide : wide.chunk ≠ some 0 := by decide
  have hnarrow : narrowSink.chunk ≠ some 0 := by decide
  have hunflushable : unflushableSink.chunk ≠ some 0 := by decide
  have tireless : wide.Tireless := ⟨hwide, rfl, rfl⟩
  have hchallenge : LittleEndian.decodeWords wordWidth sampleClient.n
      Statement.sampleSource.bytes.tail = [5, 7, 1] := rfl
  have hwords : sampleDataset.rowWords [5, 7, 1] = [72057594037927954, 43] := rfl
  have hanswer : Statement.expectedAnswer ⟨sampleDataset, sampleClient⟩
      Statement.sampleSource.bytes = ⟨.ok ⟨[5, 7, 1], [72057594037927954, 43], 1234,
        ⟨72057594037927997, 72057594037927997⟩⟩, reply, [9]⟩ := rfl
  have hplay := answering.play_eq_transcript 0 asking rfl tireless
  rw [Statement.transcript_answerAudit, hanswer] at hplay
  have hverdict : sampleAuditor.expectedAudit [5, 7] ⟨0⟩ Client.sampleReply.bytes =
      ⟨.ok ⟨[5, 7], [144115188075855878, 43], ⟨0⟩, ⟨62, 62⟩⟩,
        auditCommand :: LittleEndian.encodeWords wordWidth [5, 7, 0], [9]⟩ := rfl
  have haudit := auditing.play_eq_transcript 0 replying rfl tireless
  rw [Client.transcript_audit, hverdict] at haudit
  obtain ⟨started, hstarted, hstart, -⟩ :=
    (exchange_prefixes 0 asking hnarrow).1 _ _ _ true hparts
  obtain ⟨sent, hsent, -, -, hok⟩ := (exchange_prefixes 0 asking hwide).1 _ _ _ true hparts
  obtain ⟨hwhole, hflushed⟩ := hok _ hplay.1
  dsimp only at hstart hwhole
  rw [hchallenge, hwords] at hstart hwhole
  refine ⟨hparts, ?_, ?_, hflushed, ?_, ?_⟩
  · rw [hstarted]
    exact hstart
  · rw [hsent, hwhole]
    rfl
  · by_contra htouched
    obtain ⟨unsent, -, -, -, hopening, -⟩ :=
      (exchange_prefixes 0 replying hunflushable).2 sampleAuditor [5, 7] rfl
    exact (hopening htouched).2.succeeded 1 (by decide) rfl
  · obtain ⟨timed, htimed, -, -, -, hdone⟩ :=
      (exchange_prefixes 0 replying hwide).2 sampleAuditor [5, 7] rfl
    rw [htimed, hdone _ haudit.1]
    rfl

end MatrixAudit
