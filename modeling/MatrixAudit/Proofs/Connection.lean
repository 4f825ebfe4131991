import Mathlib.Logic.Relation
import Mathlib.Order.GameAdd
import MatrixAudit.Dialogue

/-!
# Connections

Two dialogues joined by two channels. Written bytes may wait until the next flush, and bytes on
their way arrive in any pieces, so a party may fetch more than it asks for. A party that has ended
closes its side, and then its peer can fail. No connection runs forever.
-/

namespace MatrixAudit

/-- A party in the course of its dialogue. -/
structure Party (α : Type) where
  dialogue : Dialogue α
  /-- The bytes it has fetched and not yet used. -/
  inbox : List UInt8 := []
  /-- The bytes it has written that are not yet on their way. -/
  outbox : List UInt8 := []

namespace Party

variable {α : Type}

def Finished (p : Party α) : Prop := ∃ result, p.dialogue = .done result

def Failed (p : Party α) : Prop := ∃ failure, p.dialogue = .done (.error failure)

end Party

/-- Two parties and the bytes on their way to each. -/
structure Connection (α β : Type) where
  left : Party α
  right : Party β
  toLeft : List UInt8 := []
  toRight : List UInt8 := []

namespace Connection

variable {α β : Type}

def swap (c : Connection α β) : Connection β α := ⟨c.right, c.left, c.toRight, c.toLeft⟩

def Finished (c : Connection α β) : Prop := c.left.Finished ∧ c.right.Finished

/-- The left party goes on with its dialogue, or fetches some of the bytes it is waiting for. An
answered request takes its bytes from the inbox as `Request.read` does from a source. -/
inductive Move : Connection α β → Connection α β → Prop where
  | send {bytes context next inbox outbox peer toLeft toRight} :
    Move ⟨⟨.send bytes context next, inbox, outbox⟩, peer, toLeft, toRight⟩
      ⟨⟨next, inbox, outbox ++ bytes⟩, peer, toLeft, toRight⟩
  | flush {context next inbox outbox peer toLeft toRight} :
    Move ⟨⟨.flush context next, inbox, outbox⟩, peer, toLeft, toRight⟩
      ⟨⟨next, inbox, []⟩, peer, toLeft, toRight ++ outbox⟩
  | fetch {request context next inbox outbox peer toLeft toRight} {piece : List UInt8}
    (short : inbox.length < request.size) (nonempty : piece ≠ []) :
    Move ⟨⟨.receive request context next, inbox, outbox⟩, peer, piece ++ toLeft, toRight⟩
      ⟨⟨.receive request context next, inbox ++ piece, outbox⟩, peer, toLeft, toRight⟩
  | receive {request context next inbox outbox peer toLeft toRight}
    (full : request.size ≤ inbox.length) :
    Move ⟨⟨.receive request context next, inbox, outbox⟩, peer, toLeft, toRight⟩
      ⟨⟨next (request.decode (inbox.take request.size)), inbox.drop request.size, outbox⟩, peer,
        toLeft, toRight⟩
  | roundTrip {next inbox outbox peer toLeft toRight} (elapsed : ℕ) :
    Move ⟨⟨.roundTrip next, inbox, outbox⟩, peer, toLeft, toRight⟩
      ⟨⟨next elapsed, inbox, outbox⟩, peer, toLeft, toRight⟩
  | remark {text next inbox outbox peer toLeft toRight} :
    Move ⟨⟨.remark text next, inbox, outbox⟩, peer, toLeft, toRight⟩
      ⟨⟨next, inbox, outbox⟩, peer, toLeft, toRight⟩

/-- The left party finds that its peer has ended. -/
inductive Break : Connection α β → Connection α β → Prop where
  | receive {request context next inbox outbox peer toRight} (ended : peer.Finished)
    (short : inbox.length < request.size) :
    Break ⟨⟨.receive request context next, inbox, outbox⟩, peer, [], toRight⟩
      ⟨⟨.done (.error (.disconnected context .inputEnded)), [], outbox⟩, peer, [], toRight⟩
  | send {bytes context next inbox outbox peer toLeft toRight} (fault : Fault)
    (ended : peer.Finished) (nonempty : outbox ++ bytes ≠ []) :
    Break ⟨⟨.send bytes context next, inbox, outbox⟩, peer, toLeft, toRight⟩
      ⟨⟨.done (.error (.disconnected context fault)), inbox, outbox⟩, peer, toLeft, toRight⟩
  | flush {context next inbox outbox peer toLeft toRight} (fault : Fault)
    (ended : peer.Finished) (nonempty : outbox ≠ []) :
    Break ⟨⟨.flush context next, inbox, outbox⟩, peer, toLeft, toRight⟩
      ⟨⟨.done (.error (.disconnected context fault)), inbox, outbox⟩, peer, toLeft, toRight⟩

/-- Some of the left party's written bytes go out before it flushes. -/
inductive Spill : Connection α β → Connection α β → Prop where
  | spill {dialogue inbox outbox peer toLeft toRight} {piece : List UInt8} (nonempty : piece ≠ []) :
    Spill ⟨⟨dialogue, inbox, piece ++ outbox⟩, peer, toLeft, toRight⟩
      ⟨⟨dialogue, inbox, outbox⟩, peer, toLeft, toRight ++ piece⟩

/-- What can happen on the left party's side. -/
def Turn (c d : Connection α β) : Prop := Move c d ∨ Break c d ∨ Spill c d

/-- What can happen on either side. -/
def Step (c d : Connection α β) : Prop := Turn c d ∨ Turn c.swap d.swap

/-- One of the parties can go on. -/
def CanMove (c : Connection α β) : Prop := (∃ d, Move c d) ∨ ∃ d, Move c.swap d

/-- Some interleaving of steps leads from the first connection to the second. -/
abbrev Reaches : Connection α β → Connection α β → Prop := Relation.ReflTransGen Step

end Connection

namespace Dialogue

variable {α : Type}

/-- A dialogue is later than another if it is what a step of the other leaves. -/
inductive Later : Dialogue α → Dialogue α → Prop where
  | receive {request context next} (answer : request.Answer) :
    Later (next answer) (receive request context next)
  | send {bytes context next} : Later next (send bytes context next)
  | flush {context next} : Later next (flush context next)
  | roundTrip {next} (elapsed : ℕ) : Later (next elapsed) (roundTrip next)
  | remark {text next} : Later next (remark text next)
  | fail {d : Dialogue α} (result : Except Failure α) (h : ∀ result, d ≠ done result) :
    Later (done result) d

theorem later_wellFounded : WellFounded (Later (α := α)) := by
  have hdone : ∀ result : Except Failure α, Acc Later (done result) := by
    refine fun result => ⟨_, fun d hd => ?_⟩
    cases hd with
    | fail _ h => exact absurd rfl (h result)
  refine ⟨fun d => ?_⟩
  induction d with
  | done result => exact hdone result
  | receive request context next ih =>
    refine ⟨_, fun d hd => ?_⟩
    cases hd with
    | receive answer => exact ih answer
    | fail result => exact hdone result
  | send bytes context next ih =>
    refine ⟨_, fun d hd => ?_⟩
    cases hd with
    | send => exact ih
    | fail result => exact hdone result
  | flush context next ih =>
    refine ⟨_, fun d hd => ?_⟩
    cases hd with
    | flush => exact ih
    | fail result => exact hdone result
  | roundTrip next ih =>
    refine ⟨_, fun d hd => ?_⟩
    cases hd with
    | roundTrip elapsed => exact ih elapsed
    | fail result => exact hdone result
  | remark text next ih =>
    refine ⟨_, fun d hd => ?_⟩
    cases hd with
    | remark => exact ih
    | fail result => exact hdone result

end Dialogue

namespace Connection

variable {α β : Type} {c d : Connection α β}

/-- Bytes that have to travel; those not yet on their way count twice. -/
def pending (c : Connection α β) : ℕ :=
  2 * c.left.outbox.length + 2 * c.right.outbox.length + c.toLeft.length + c.toRight.length

/-- A turn leaves a later dialogue, or it only carries bytes on their way. -/
lemma Turn.progress (turn : Turn c d) :
    d.right.dialogue = c.right.dialogue ∧
      (Dialogue.Later d.left.dialogue c.left.dialogue ∨
        d.left.dialogue = c.left.dialogue ∧ d.pending < c.pending) := by
  obtain move | broken | spill := turn
  · cases move with
    | send => exact ⟨rfl, .inl .send⟩
    | flush => exact ⟨rfl, .inl .flush⟩
    | fetch short nonempty =>
      have hpos := List.length_pos_of_ne_nil nonempty
      exact ⟨rfl, .inr ⟨rfl, by simp only [pending, List.length_append]; omega⟩⟩
    | receive full => exact ⟨rfl, .inl (.receive _)⟩
    | roundTrip elapsed => exact ⟨rfl, .inl (.roundTrip elapsed)⟩
    | remark => exact ⟨rfl, .inl .remark⟩
  · cases broken with
    | receive => exact ⟨rfl, .inl (.fail _ (by simp))⟩
    | send => exact ⟨rfl, .inl (.fail _ (by simp))⟩
    | flush => exact ⟨rfl, .inl (.fail _ (by simp))⟩
  · cases spill with
    | spill nonempty =>
      have hpos := List.length_pos_of_ne_nil nonempty
      exact ⟨rfl, .inr ⟨rfl, by simp only [pending, List.length_append]; omega⟩⟩

lemma pending_swap (c : Connection α β) : c.swap.pending = c.pending := by
  simp only [pending, swap]
  omega

/-- Every run ends, whatever the parties say and however the bytes travel. -/
theorem step_wellFounded : WellFounded fun d c : Connection α β => Step c d := by
  have hwf : WellFounded (Prod.Lex (Prod.GameAdd Dialogue.Later Dialogue.Later) (· < ·) :
      (Dialogue α × Dialogue β) × ℕ → _ → Prop) :=
    (Dialogue.later_wellFounded.prod_gameAdd Dialogue.later_wellFounded).prod_lex
      Nat.lt_wfRel.wf
  refine Subrelation.wf ?_ (InvImage.wf
    (fun c : Connection α β => ((c.left.dialogue, c.right.dialogue), c.pending)) hwf)
  intro d c step
  rw [InvImage, Prod.lex_def]
  obtain turn | turn := step
  · obtain ⟨hright, hleft | ⟨hleft, hpending⟩⟩ := turn.progress
    · exact .inl (hright ▸ .fst hleft)
    · exact .inr ⟨by rw [hleft, hright], hpending⟩
  · obtain ⟨hleft, hright | ⟨hright, hpending⟩⟩ := turn.progress
    · exact .inl (show Prod.GameAdd _ _ _ _ from hleft ▸ .snd hright)
    · rw [pending_swap, pending_swap] at hpending
      exact .inr ⟨Prod.ext hleft hright, hpending⟩

end Connection

end MatrixAudit
