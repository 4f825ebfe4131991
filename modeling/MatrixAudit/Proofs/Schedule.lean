import MatrixAudit.Proofs.Connection

/-!
# Schedules

A schedule plays a connection's parties in some order until both have ended well and no byte is
left. The channels are first in, first out and no party can look whether bytes have come, so the
order does not matter: if one schedule ends well, so does every run, with the same results.
-/

namespace MatrixAudit

/-- A party, the bytes that have come or are on their way to it, and those that it holds back. -/
structure Side (α : Type) where
  dialogue : Dialogue α
  coming : List UInt8
  held : List UInt8

namespace Side

variable {α : Type} {s next : Side α} {out : List UInt8}

/-- More bytes are on their way. -/
def gain (s : Side α) (bytes : List UInt8) : Side α := { s with coming := s.coming ++ bytes }

@[simp] lemma gain_nil (s : Side α) : s.gain [] = s := by
  rw [gain, List.append_nil]

@[simp] lemma gain_gain (s : Side α) (first second : List UInt8) :
    (s.gain first).gain second = s.gain (first ++ second) := by
  simp only [gain, List.append_assoc]

/-- One action of a party, and the bytes that it sets on their way. -/
inductive Act : Side α → List UInt8 → Side α → Prop where
  | send {bytes context next coming held} :
    Act ⟨.send bytes context next, coming, held⟩ [] ⟨next, coming, held ++ bytes⟩
  | flush {context next coming held} :
    Act ⟨.flush context next, coming, held⟩ held ⟨next, coming, []⟩
  | receive {request context next coming held} (full : request.size ≤ coming.length) :
    Act ⟨.receive request context next, coming, held⟩ []
      ⟨next (request.decode (coming.take request.size)), coming.drop request.size, held⟩
  | roundTrip {next coming held} (elapsed : ℕ) :
    Act ⟨.roundTrip next, coming, held⟩ [] ⟨next elapsed, coming, held⟩
  | remark {text next coming held} : Act ⟨.remark text next, coming, held⟩ [] ⟨next, coming, held⟩

def CanAct (s : Side α) : Prop := ∃ out next, s.Act out next

/-- Bytes on their way do not hinder an action. -/
lemma Act.gain (act : s.Act out next) (bytes : List UInt8) :
    (s.gain bytes).Act out (next.gain bytes) := by
  cases act with
  | send => exact .send
  | flush => exact .flush
  | @receive request context next coming held full =>
    have hfull : request.size ≤ (coming ++ bytes).length := by
      rw [List.length_append]
      omega
    have hact : Act ⟨.receive request context next, coming ++ bytes, held⟩ [] _ := .receive hfull
    rwa [List.take_append_of_le_length full, List.drop_append_of_le_length full] at hact
  | roundTrip elapsed => exact .roundTrip elapsed
  | remark => exact .remark

lemma not_canAct_done {result : Except Failure α} (h : s.dialogue = .done result) :
    ¬s.CanAct := by
  rintro ⟨_, _, act⟩
  cases act <;> cases h

lemma CanAct.gain (can : s.CanAct) (bytes : List UInt8) : (s.gain bytes).CanAct := by
  obtain ⟨out, next, act⟩ := can
  exact ⟨out, _, act.gain bytes⟩

/-- If a party can act, further bytes on their way do not change how. -/
lemma CanAct.act_of_gain (can : s.CanAct) {bytes : List UInt8} (act : (s.gain bytes).Act out next) :
    ∃ before, s.Act out before ∧ next = before.gain bytes := by
  obtain ⟨dialogue, coming, held⟩ := s
  cases act with
  | send => exact ⟨_, .send, rfl⟩
  | flush => exact ⟨_, .flush, rfl⟩
  | receive =>
    obtain ⟨_, _, hcan⟩ := can
    cases hcan with
    | receive full =>
      refine ⟨_, .receive full, ?_⟩
      rw [List.take_append_of_le_length full, List.drop_append_of_le_length full]
      rfl
  | roundTrip elapsed => exact ⟨_, .roundTrip elapsed, rfl⟩
  | remark => exact ⟨_, .remark, rfl⟩

lemma CanAct.of_spill {dialogue : Dialogue α} {coming held : List UInt8}
    (can : CanAct ⟨dialogue, coming, held⟩) (rest : List UInt8) :
    CanAct ⟨dialogue, coming, rest⟩ := by
  obtain ⟨_, _, act⟩ := can
  cases act with
  | send => exact ⟨_, _, .send⟩
  | flush => exact ⟨_, _, .flush⟩
  | receive full => exact ⟨_, _, .receive full⟩
  | roundTrip elapsed => exact ⟨_, _, .roundTrip elapsed⟩
  | remark => exact ⟨_, _, .remark⟩

/-- Bytes that went out early would have gone out with the same flush. -/
lemma Act.of_spill {dialogue : Dialogue α} {coming rest : List UInt8}
    (act : Act ⟨dialogue, coming, rest⟩ out next) (early : List UInt8) :
    (out = [] ∧ Act ⟨dialogue, coming, early ++ rest⟩ []
        ⟨next.dialogue, next.coming, early ++ next.held⟩) ∨
      Act ⟨dialogue, coming, early ++ rest⟩ (early ++ out) next := by
  cases act with
  | send => exact .inl ⟨rfl, List.append_assoc early rest _ ▸ .send⟩
  | flush => exact .inr .flush
  | receive full => exact .inl ⟨rfl, .receive full⟩
  | roundTrip elapsed => exact .inl ⟨rfl, .roundTrip elapsed⟩
  | remark => exact .inl ⟨rfl, .remark⟩

end Side

/-- Both parties end well and leave no byte behind, if at each point the party named acts, however
it acts. -/
inductive Ends {α β : Type} (post : α → β → Prop) : Side α → Side β → Prop where
  | finished {a b} (h : post a b) : Ends post ⟨.done (.ok a), [], []⟩ ⟨.done (.ok b), [], []⟩
  | left {l r} (can : l.CanAct) (all : ∀ out next, l.Act out next → Ends post next (r.gain out)) :
    Ends post l r
  | right {l r} (can : r.CanAct) (all : ∀ out next, r.Act out next → Ends post (l.gain out) next) :
    Ends post l r

namespace Ends

variable {α β : Type} {post : α → β → Prop} {l next : Side α} {r : Side β}

lemma canAct (h : Ends post l r) :
    (∃ a b, post a b ∧ l = ⟨.done (.ok a), [], []⟩ ∧ r = ⟨.done (.ok b), [], []⟩) ∨
      l.CanAct ∨ r.CanAct := by
  cases h with
  | finished h => exact .inl ⟨_, _, h, rfl, rfl⟩
  | left can => exact .inr (.inl can)
  | right can => exact .inr (.inr can)

lemma swap (h : Ends (fun b a => post a b) r l) : Ends post l r := by
  induction h with
  | finished h => exact .finished h
  | left can all ih => exact .right can ih
  | right can all ih => exact .left can ih

/-- The parties' actions commute, so the left party may act at any point. -/
theorem act {out : List UInt8} (h : Ends post l r) (act : l.Act out next) :
    Ends post next (r.gain out) := by
  induction h generalizing next out with
  | finished => cases act
  | left can all => exact all _ _ act
  | right can all ih =>
    refine .right (can.gain out) fun sent theirs reply => ?_
    obtain ⟨before, hbefore, rfl⟩ := can.act_of_gain reply
    exact ih sent before hbefore (act.gain sent)

theorem spill {dialogue : Dialogue α} {coming early rest : List UInt8}
    (h : Ends post ⟨dialogue, coming, early ++ rest⟩ r) :
    Ends post ⟨dialogue, coming, rest⟩ (r.gain early) := by
  generalize hl : (⟨dialogue, coming, early ++ rest⟩ : Side α) = l at h
  induction h generalizing dialogue coming rest with
  | finished h =>
    rw [Side.mk.injEq, List.append_eq_nil_iff] at hl
    obtain ⟨rfl, rfl, rfl, rfl⟩ := hl
    exact .finished h
  | left can all ih =>
    subst hl
    refine .left (can.of_spill rest) fun out next act => ?_
    obtain ⟨rfl, held⟩ | released := act.of_spill early
    · have hend := ih _ _ held rfl
      rwa [Side.gain_nil] at hend ⊢
    · rw [Side.gain_gain]
      exact all _ _ released
  | right can all ih =>
    subst hl
    refine .right (can.gain early) fun sent theirs reply => ?_
    obtain ⟨before, hbefore, rfl⟩ := can.act_of_gain reply
    exact ih sent before hbefore rfl

lemma not_failed (h : Ends post l r) (failure : Failure) :
    l.dialogue ≠ .done (.error failure) := by
  intro failed
  induction h with
  | finished => cases failed
  | left can => exact Side.not_canAct_done failed can
  | right can all ih =>
    obtain ⟨out, next, act⟩ := can
    exact ih out next act failed

/-- Once the right party has ended, the left one has nothing more to say. -/
lemma quiet (h : Ends post l r) {result : Except Failure β} (ended : r.dialogue = .done result) :
    r.coming = [] ∧ l.held = [] ∧
      ∀ bytes context next, l.dialogue = .send bytes context next → bytes = [] := by
  induction h with
  | finished => exact ⟨rfl, rfl, by simp⟩
  | right can => exact absurd can (Side.not_canAct_done ended)
  | @left l r can all ih =>
    obtain ⟨out, next, act⟩ := can
    obtain ⟨hgain, hnext, -⟩ := ih out next act ended
    obtain ⟨hcoming, rfl⟩ := List.append_eq_nil_iff.1 hgain
    clear hgain
    cases act with
    | send =>
      obtain ⟨hheld, rfl⟩ := List.append_eq_nil_iff.1 hnext
      refine ⟨hcoming, hheld, ?_⟩
      rintro _ _ _ ⟨⟩
      rfl
    | flush => exact ⟨hcoming, rfl, by simp⟩
    | receive => exact ⟨hcoming, hnext, by simp⟩
    | roundTrip => exact ⟨hcoming, hnext, by simp⟩
    | remark => exact ⟨hcoming, hnext, by simp⟩

section Schedule

variable {coming held : List UInt8}

lemma tell {bytes : List UInt8} {context : String} {next : Unit → Dialogue α}
    (h : Ends post ⟨next (), coming, []⟩ (r.gain (held ++ bytes))) :
    Ends post ⟨Dialogue.tell bytes context >>= next, coming, held⟩ r := by
  refine .left ⟨_, _, .send⟩ fun _ _ act => ?_
  cases act
  refine .left ⟨_, _, .flush⟩ fun _ _ act => ?_
  cases act
  rwa [Side.gain_nil]

lemma ask {request : Request} {context : String} {next : request.Answer → Dialogue α}
    {got rest : List UInt8} (hgot : coming = got ++ rest) (hsize : got.length = request.size)
    (h : Ends post ⟨next (request.decode got), rest, held⟩ r) :
    Ends post ⟨Dialogue.ask request context >>= next, coming, held⟩ r := by
  have hfull : request.size ≤ coming.length := by
    rw [hgot, List.length_append]
    omega
  refine .left ⟨_, _, .receive hfull⟩ fun _ _ act => ?_
  cases act
  rw [Side.gain_nil, hgot, ← hsize, List.take_left, List.drop_left]
  exact h

lemma lastRoundTrip {next : ℕ → Dialogue α}
    (h : ∀ elapsed, Ends post ⟨next elapsed, coming, held⟩ r) :
    Ends post ⟨Dialogue.lastRoundTrip >>= next, coming, held⟩ r := by
  refine .left ⟨_, _, .roundTrip 0⟩ fun _ _ act => ?_
  cases act with
  | roundTrip elapsed =>
    rw [Side.gain_nil]
    exact h elapsed

lemma remarkThat {text : String} {next : Unit → Dialogue α}
    (h : Ends post ⟨next (), coming, held⟩ r) :
    Ends post ⟨Dialogue.remarkThat text >>= next, coming, held⟩ r := by
  refine .left ⟨_, _, .remark⟩ fun _ _ act => ?_
  cases act
  rwa [Side.gain_nil]

end Schedule

end Ends

namespace Connection

variable {α β : Type} {post : α → β → Prop} {c d : Connection α β}

/-- What is left of a connection for the left party. -/
def leftSide (c : Connection α β) : Side α :=
  ⟨c.left.dialogue, c.left.inbox ++ c.toLeft, c.left.outbox⟩

/-- Some schedule of the connection ends well, with results that `post` relates. -/
def Settles (post : α → β → Prop) (c : Connection α β) : Prop :=
  Ends post c.leftSide c.swap.leftSide

lemma Settles.swap (h : c.Settles post) : c.swap.Settles fun b a => post a b := Ends.swap h

lemma Settles.move (h : c.Settles post) (move : Move c d) : d.Settles post := by
  cases move with
  | send =>
    have hend := Ends.act h .send
    rwa [Side.gain_nil] at hend
  | flush =>
    have hend := Ends.act h .flush
    rwa [Side.gain, leftSide, List.append_assoc] at hend
  | fetch => rwa [Settles, leftSide, List.append_assoc]
  | @receive request _ _ inbox _ _ toLeft _ full =>
    have hfull : request.size ≤ (inbox ++ toLeft).length := by
      rw [List.length_append]
      omega
    have hend := Ends.act h (.receive hfull)
    rwa [Side.gain_nil, List.take_append_of_le_length full,
      List.drop_append_of_le_length full] at hend
  | roundTrip elapsed =>
    have hend := Ends.act h (.roundTrip elapsed)
    rwa [Side.gain_nil] at hend
  | remark =>
    have hend := Ends.act h .remark
    rwa [Side.gain_nil] at hend

lemma Settles.not_break (h : c.Settles post) : ¬Break c d := by
  intro broken
  cases broken with
  | receive ended short =>
    obtain ⟨result, hresult⟩ := ended
    cases h with
    | left can =>
      obtain ⟨_, _, act⟩ := can
      cases act with
      | receive full =>
        rw [List.append_nil] at full
        exact absurd full (Nat.not_le_of_lt short)
    | right can => exact Side.not_canAct_done hresult can
  | send fault ended nonempty =>
    obtain ⟨result, hresult⟩ := ended
    obtain ⟨-, hheld, hbytes⟩ := Ends.quiet h hresult
    exact nonempty (List.append_eq_nil_iff.2 ⟨hheld, hbytes _ _ _ rfl⟩)
  | flush fault ended nonempty =>
    obtain ⟨result, hresult⟩ := ended
    exact nonempty (Ends.quiet h hresult).2.1

lemma Settles.turn (h : c.Settles post) (turn : Turn c d) : d.Settles post := by
  obtain move | broken | spill := turn
  · exact h.move move
  · exact absurd broken h.not_break
  · cases spill with
    | spill =>
      have hend := Ends.spill h
      rwa [Side.gain, leftSide, List.append_assoc] at hend

lemma Settles.step (h : c.Settles post) (step : Step c d) : d.Settles post := by
  obtain turn | turn := step
  · exact h.turn turn
  · exact (h.swap.turn turn).swap

theorem Settles.reaches (h : c.Settles post) (run : Reaches c d) : d.Settles post := by
  induction run with
  | refl => exact h
  | tail _ step ih => exact ih.step step

/-- A party that could act on the bytes on their way can act, or fetch them. -/
lemma exists_move_of_canAct (can : c.leftSide.CanAct) : ∃ d, Move c d := by
  obtain ⟨⟨dialogue, inbox, outbox⟩, peer, toLeft, toRight⟩ := c
  obtain ⟨_, _, act⟩ := can
  cases act with
  | send => exact ⟨_, .send⟩
  | flush => exact ⟨_, .flush⟩
  | @receive request context next _ _ full =>
    by_cases hfull : request.size ≤ inbox.length
    · exact ⟨_, .receive hfull⟩
    · have hne : toLeft ≠ [] := by
        rintro rfl
        rw [List.append_nil] at full
        exact hfull full
      have hfetch : Move ⟨⟨.receive request context next, inbox, outbox⟩, peer, toLeft ++ [],
          toRight⟩ _ := .fetch (Nat.lt_of_not_le hfull) hne
      rw [List.append_nil] at hfetch
      exact ⟨_, hfetch⟩
  | roundTrip => exact ⟨_, .roundTrip 0⟩
  | remark => exact ⟨_, .remark⟩

/-- Either a party can go on, or the results are there and nothing else is left. -/
theorem Settles.canMove_or_eq (h : c.Settles post) :
    c.CanMove ∨
      ∃ a b, post a b ∧ c = ⟨⟨.done (.ok a), [], []⟩, ⟨.done (.ok b), [], []⟩, [], []⟩ := by
  obtain ⟨a, b, hpost, hleft, hright⟩ | can | can := Ends.canAct h
  · obtain ⟨⟨left, inbox, outbox⟩, ⟨right, inbox', outbox'⟩, toLeft, toRight⟩ := c
    simp only [leftSide, Connection.swap, Side.mk.injEq, List.append_eq_nil_iff] at hleft hright
    obtain ⟨rfl, ⟨rfl, rfl⟩, rfl⟩ := hleft
    obtain ⟨rfl, ⟨rfl, rfl⟩, rfl⟩ := hright
    exact .inr ⟨a, b, hpost, rfl⟩
  · exact .inl (.inl (exists_move_of_canAct can))
  · exact .inl (.inr (exists_move_of_canAct can))

lemma not_move_of_finished (finished : c.left.Finished) : ¬Move c d := by
  obtain ⟨result, hresult⟩ := finished
  intro move
  cases move <;> cases hresult

theorem Settles.eq_of_finished (h : c.Settles post) (finished : c.Finished) :
    ∃ a b, post a b ∧ c = ⟨⟨.done (.ok a), [], []⟩, ⟨.done (.ok b), [], []⟩, [], []⟩ := by
  refine h.canMove_or_eq.resolve_left ?_
  rintro (⟨d, move⟩ | ⟨d, move⟩)
  · exact not_move_of_finished finished.1 move
  · exact not_move_of_finished finished.2 move

theorem Settles.canMove (h : c.Settles post) (unfinished : ¬c.Finished) : c.CanMove := by
  refine h.canMove_or_eq.resolve_right ?_
  rintro ⟨a, b, -, rfl⟩
  exact unfinished ⟨⟨_, rfl⟩, ⟨_, rfl⟩⟩

lemma Settles.not_failed (h : c.Settles post) : ¬c.left.Failed := by
  rintro ⟨failure, hfailure⟩
  exact Ends.not_failed h failure hfailure

theorem Settles.exists_finished (h : c.Settles post) :
    ∃ final, Reaches c final ∧ final.Finished := by
  induction c using step_wellFounded.induction with
  | _ c ih =>
    by_cases hfinished : c.Finished
    · exact ⟨c, .refl, hfinished⟩
    obtain ⟨d, hstep⟩ : ∃ d, Step c d := by
      obtain ⟨d, move⟩ | ⟨d, move⟩ := h.canMove hfinished
      · exact ⟨d, .inl (.inl move)⟩
      · exact ⟨d.swap, .inr (.inl move)⟩
    obtain ⟨final, run, hfinal⟩ := ih d hstep (h.step hstep)
    exact ⟨final, .head hstep run, hfinal⟩

end Connection

end MatrixAudit
