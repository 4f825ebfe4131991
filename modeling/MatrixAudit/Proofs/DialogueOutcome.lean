import MatrixAudit.Proofs.Transport

/-!
# How a played dialogue can end

Scripted channels can cut anything short, deliver nothing at all or fail at any byte. Still an
answered request has the size that was asked for, so a dialogue played on them ends in one of its
own ways, or else because the channel to the peer broke.
-/

namespace MatrixAudit

/-- The channel to the peer broke in the given context. -/
def Broken (context : String) (failure : Failure) : Prop :=
  ∃ cause, failure = .disconnected context cause

namespace Reading

variable {α β : Type}

/-- Whatever the source does, the reading brings a good value or fails in one of the given ways. -/
structure Brings (reading : Reading α) (good : α → Prop) (bad : Failure → Prop) : Prop where
  ok : ∀ {s next : Source} {value : α}, reading.run s = .ok value next → good value
  error : ∀ {s next : Source} {failure : Failure}, reading.run s = .error failure next → bad failure

variable {good : α → Prop} {bad : Failure → Prop}

lemma brings_pure {value : α} (hvalue : good value) : (pure value : Reading α).Brings good bad where
  ok h := by
    cases h
    exact hvalue
  error h := by cases h

lemma Brings.bind {reading : Reading α} {rest : α → Reading β} {good' : β → Prop}
    (first : reading.Brings good bad) (second : ∀ value, good value → (rest value).Brings good' bad) :
    (reading >>= rest).Brings good' bad := by
  constructor
  · intro s next value h
    change (reading >>= rest) s = _ at h
    cases hread : reading s with
    | ok got middle =>
      rw [bind_of_ok hread] at h
      exact (second got (first.ok hread)).ok h
    | error failure middle =>
      rw [bind_of_error hread] at h
      cases h
  · intro s next failure h
    change (reading >>= rest) s = _ at h
    cases hread : reading s with
    | ok got middle =>
      rw [bind_of_ok hread] at h
      exact (second got (first.ok hread)).error h
    | error failure' middle =>
      rw [bind_of_error hread] at h
      cases h
      exact first.error hread

variable (context : String)

lemma exactly_brings (expected count : ℕ) :
    (exactly .peer context expected count).Brings (fun _ => True) (Broken context) := by
  constructor
  · intro s next value h
    trivial
  · intro s next failure h
    change exactly .peer context expected count s = _ at h
    unfold exactly at h
    split at h
    · cases h
    · cases h
      exact ⟨_, rfl⟩

lemma wordBlocks_brings (expected : ℕ) (remaining : ℕ) (done : List Word) :
    (wordBlocks .peer context expected remaining done).Brings
      (fun values => values.length = done.length + remaining) (Broken context) := by
  induction remaining using Nat.strong_induction_on generalizing done with
  | _ remaining ih =>
    by_cases hzero : remaining = 0
    · subst hzero
      rw [wordBlocks]
      apply brings_pure
      rw [List.length_reverse, Nat.add_zero]
    · obtain ⟨first, rest, hpos, rfl, hbind⟩ :=
        wordBlocks_eq_bind .peer context expected hzero done
      rw [hbind]
      apply (exactly_brings context expected _).bind
      intro block _
      have hrest := ih rest (by omega)
        ((LittleEndian.decodeWords wordWidth first block).reverse ++ done)
      rw [List.length_append, List.length_reverse, LittleEndian.length_decodeWords,
        Nat.add_comm first, Nat.add_assoc] at hrest
      exact hrest

end Reading

namespace Request

/-- The answer is as long as was asked for. -/
def Fits : (request : Request) → request.Answer → Prop
  | byte, _ => True
  | word, _ => True
  | words length, values => values.length = length

theorem read_brings (request : Request) (context : String) :
    (request.read context).Brings request.Fits (Broken context) := by
  cases request with
  | byte =>
    exact (Reading.exactly_brings context 1 1).bind fun _ _ => Reading.brings_pure trivial
  | word =>
    exact (Reading.exactly_brings context wordWidth wordWidth).bind
      fun _ _ => Reading.brings_pure trivial
  | words length =>
    have hwords := Reading.wordBlocks_brings context
      (min (wordWidth * length) Reading.greatestCount) length []
    rw [List.length_nil, Nat.zero_add] at hwords
    exact hwords

end Request

namespace Writing

lemma broken_of_bytes {context : String} {offer : List UInt8} {s next : Sink} {failure : Failure}
    (h : (bytes context offer).run s = .error failure next) : Broken context failure := by
  change bytes context offer s = _ at h
  unfold bytes at h
  split at h
  · cases h
  · cases h
    exact ⟨_, rfl⟩

lemma broken_of_flush {context : String} {s next : Sink} {failure : Failure}
    (h : (flush context).run s = .error failure next) : Broken context failure := by
  change flush context s = _ at h
  unfold flush at h
  split at h
  · cases h
  · cases h
    exact ⟨_, rfl⟩

end Writing

namespace Dialogue

variable {α : Type}

/-- Whatever answers of the sizes asked for it gets, the dialogue ends in one of the given ways. -/
def Concludes (ends : Except Failure α → Prop) : Dialogue α → Prop
  | done result => ends result
  | receive request _ next => ∀ answer, request.Fits answer → (next answer).Concludes ends
  | send _ _ next => next.Concludes ends
  | flush _ next => next.Concludes ends
  | roundTrip next => ∀ elapsed, (next elapsed).Concludes ends
  | remark _ next => next.Concludes ends

section Rules

variable {β : Type} {ends : Except Failure β → Prop}

lemma concludes_ask {request : Request} {context : String} {next : request.Answer → Dialogue β} :
    (ask request context >>= next).Concludes ends ↔
      ∀ answer, request.Fits answer → (next answer).Concludes ends := Iff.rfl

lemma concludes_tell {bytes : List UInt8} {context : String} {next : Unit → Dialogue β} :
    (tell bytes context >>= next).Concludes ends ↔ (next ()).Concludes ends := Iff.rfl

lemma concludes_remarkThat {text : String} {next : Unit → Dialogue β} :
    (remarkThat text >>= next).Concludes ends ↔ (next ()).Concludes ends := Iff.rfl

lemma concludes_lastRoundTrip {next : ℕ → Dialogue β} :
    (lastRoundTrip >>= next).Concludes ends ↔ ∀ elapsed, (next elapsed).Concludes ends := Iff.rfl

lemma concludes_ofExcept_ok {value : α} {next : α → Dialogue β} :
    (ofExcept (.ok value) >>= next).Concludes ends ↔ (next value).Concludes ends := Iff.rfl

end Rules

/-- Played on any channels, a dialogue ends in one of its own ways or with a broken channel. -/
theorem play_of_concludes {ends : Except Failure α → Prop} {d : Dialogue α}
    (h : d.Concludes ends) (elapsed : ℕ) (source : Source) (sink : Sink) :
    ends (d.play elapsed source sink).result ∨
      ∃ context failure, (d.play elapsed source sink).result = .error failure ∧
        Broken context failure := by
  -- an answer that arrives has the size asked for, so the next step concludes as well
  induction d generalizing source sink with
  | done result => exact Or.inl h
  | receive request context next ih =>
    have hread := request.read_brings context
    rw [play]
    cases hrun : (request.read context).run source with
    | ok answer rest => exact ih answer (h answer (hread.ok hrun)) rest sink
    | error failure rest => exact Or.inr ⟨context, failure, rfl, hread.error hrun⟩
  | send bytes context next ih =>
    rw [play]
    cases hrun : (Writing.bytes context bytes).run sink with
    | ok value rest => exact ih h source rest
    | error failure rest => exact Or.inr ⟨context, failure, rfl, Writing.broken_of_bytes hrun⟩
  | flush context next ih =>
    rw [play]
    cases hrun : (Writing.flush context).run sink with
    | ok value rest => exact ih h source rest
    | error failure rest => exact Or.inr ⟨context, failure, rfl, Writing.broken_of_flush hrun⟩
  | roundTrip next ih => exact ih elapsed (h elapsed) source sink
  | remark text next ih => exact ih h source sink

lemma ends_of_play_eq_ok {ends : Except Failure α → Prop} {d : Dialogue α} (h : d.Concludes ends)
    {elapsed : ℕ} {source : Source} {sink : Sink} {value : α}
    (hplay : (d.play elapsed source sink).result = .ok value) : ends (.ok value) := by
  obtain hown | ⟨context, failure, hfailure, -⟩ := play_of_concludes h elapsed source sink
  · rwa [hplay] at hown
  · rw [hplay] at hfailure
    cases hfailure

end Dialogue

end MatrixAudit
