import MatrixAudit.Proofs.Transport

/-!
# Transcripts

A transcript plays a dialogue on plain bytes. On channels that deliver all of their bytes and take
all they are given, a played dialogue ends as its transcript says, in whatever pieces the bytes
travel.
-/

namespace MatrixAudit

/-- How a dialogue ended: its result, the bytes it sent and those it left unread. -/
structure Transcript (α : Type) where
  result : Except Failure α
  sent : List UInt8
  unread : List UInt8

/-- The sink takes whatever it is offered, and every flush succeeds. -/
structure Sink.Tireless (s : Sink) : Prop where
  chunk_ne : s.chunk ≠ some 0
  limit_eq : s.limit = none
  flushFault_eq : s.flushFault = none

namespace Dialogue

variable {α : Type}

/-- Plays a dialogue on the bytes that its peer sends before it ends its output. -/
def transcript (elapsed : ℕ) : Dialogue α → List UInt8 → Transcript α
  | done result, input => ⟨result, [], input⟩
  | receive request context next, input =>
    if request.size ≤ input.length then
      (next (request.decode (input.take request.size))).transcript elapsed (input.drop request.size)
    else ⟨.error (.disconnected context .inputEnded), [], []⟩
  | send bytes _ next, input =>
    let rest := next.transcript elapsed input
    { rest with sent := bytes ++ rest.sent }
  | flush _ next, input => next.transcript elapsed input
  | roundTrip next, input => (next elapsed).transcript elapsed input
  | remark _ next, input => next.transcript elapsed input

section Equations

variable {β : Type} (elapsed : ℕ)

lemma transcript_pure (value : α) (input : List UInt8) :
    (pure value : Dialogue α).transcript elapsed input = ⟨.ok value, [], input⟩ := rfl

lemma transcript_ask_of_le {request : Request} (context : String)
    (next : request.Answer → Dialogue β) {input : List UInt8} (h : request.size ≤ input.length) :
    (ask request context >>= next).transcript elapsed input =
      (next (request.decode (input.take request.size))).transcript elapsed
        (input.drop request.size) := if_pos h

lemma transcript_ask_of_lt {request : Request} (context : String)
    (next : request.Answer → Dialogue β) {input : List UInt8} (h : input.length < request.size) :
    (ask request context >>= next).transcript elapsed input =
      ⟨.error (.disconnected context .inputEnded), [], []⟩ := if_neg (Nat.not_le_of_lt h)

lemma transcript_tell (bytes : List UInt8) (context : String) (next : Unit → Dialogue β)
    (input : List UInt8) :
    (tell bytes context >>= next).transcript elapsed input =
      let rest := (next ()).transcript elapsed input
      { rest with sent := bytes ++ rest.sent } := rfl

lemma transcript_remarkThat (text : String) (next : Unit → Dialogue β) (input : List UInt8) :
    (remarkThat text >>= next).transcript elapsed input = (next ()).transcript elapsed input := rfl

lemma transcript_ofExcept_ok (value : α) (next : α → Dialogue β) (input : List UInt8) :
    (ofExcept (.ok value) >>= next).transcript elapsed input =
      (next value).transcript elapsed input := rfl

lemma transcript_ofExcept_error (failure : Failure) (next : α → Dialogue β) (input : List UInt8) :
    (ofExcept (.error failure) >>= next).transcript elapsed input =
      ⟨.error failure, [], input⟩ := rfl

end Equations

theorem play_eq_transcript (elapsed : ℕ) (d : Dialogue α) {source : Source} {sink : Sink}
    (steady : source.Steady) (clean : source.fault = none) (tireless : sink.Tireless) :
    let play := d.play elapsed source sink
    let ending := d.transcript elapsed source.bytes
    play.result = ending.result ∧ play.sink.bytes = sink.bytes ++ ending.sent ∧
      play.source.bytes = ending.unread := by
  induction d generalizing source sink with
  | done result => exact ⟨rfl, (List.append_nil _).symm, rfl⟩
  | receive request context next ih =>
    dsimp only
    rw [play, transcript]
    by_cases h : request.size ≤ source.bytes.length
    · obtain ⟨reads, hread⟩ := Request.read_of_le steady context h
      rw [hread, if_pos h]
      exact ih _ steady clean tireless
    · obtain ⟨reads, hread⟩ := Request.read_of_lt steady context (Nat.lt_of_not_le h)
      rw [hread, if_neg h, clean]
      exact ⟨rfl, (List.append_nil _).symm, rfl⟩
  | send bytes context next ih =>
    have hroom : sink.HasRoom bytes.length := by
      intro limit hlimit
      rw [tireless.limit_eq] at hlimit
      cases hlimit
    have hwrite : (Writing.bytes context bytes).run sink =
        .ok () { sink with taken := sink.taken ++ bytes } := by
      change Writing.bytes context bytes sink = _
      rw [Writing.bytes, Sink.writeAll_of_hasRoom tireless.chunk_ne bytes hroom]
    have hnext : Sink.Tireless { sink with taken := sink.taken ++ bytes } :=
      ⟨tireless.chunk_ne, tireless.limit_eq, tireless.flushFault_eq⟩
    obtain ⟨hresult, hsent, hunread⟩ := ih steady clean hnext
    dsimp only
    rw [play, hwrite, transcript]
    refine ⟨hresult, hsent.trans ?_, hunread⟩
    simp only [Sink.bytes, Array.toList_appendList, List.append_assoc]
  | flush context next ih =>
    have hflush : (Writing.flush context).run sink =
        .ok () { sink with flushes := sink.flushes + 1 } := by
      change Writing.flush context sink = _
      rw [Writing.flush, Sink.flush, tireless.flushFault_eq, if_neg (by simp)]
    have hnext : Sink.Tireless { sink with flushes := sink.flushes + 1 } :=
      ⟨tireless.chunk_ne, tireless.limit_eq, tireless.flushFault_eq⟩
    dsimp only
    rw [play, hflush, transcript]
    exact ih steady clean hnext
  | roundTrip next ih => exact ih elapsed steady clean tireless
  | remark text next ih => exact ih steady clean tireless

end Dialogue

end MatrixAudit
