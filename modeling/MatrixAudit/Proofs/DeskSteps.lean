import Mathlib.Data.Nat.Notation
import Mathlib.Tactic.Lemma
import MatrixAudit.Command.Desk
import MatrixAudit.Command.Host

/-!
# Steps on a desk

Of what a command does on a desk, others see the files on its disk and the plain lines it printed.
Log lines leave this scene as it is, and so does looking at the clock. Behind the scene is the
network, of which some part may matter as well. A host serves a desk when its operations act on the
scene as their names say and leave that part as it is, whatever else they do; a command's steps are
then followed from one stage to the next.
-/

namespace MatrixAudit

def OutputLine.plainText? : OutputLine → Option String
  | plain text => some text
  | log _ _ => none

/-- The files, and the plain lines that were printed, first line first. -/
structure Scene where
  disk : Disk
  said : List String

def Desk.scene (desk : Desk) : Scene where
  disk := desk.disk
  said := desk.printed.reverse.filterMap OutputLine.plainText?

/-- What a desk has besides its disk and its output. -/
structure Network where
  listening : String → Except Fault String
  connecting : String → Except Fault Unit
  incoming : Source
  outgoing : Sink
  key : ChaCha.Key

def Desk.network (desk : Desk) : Network :=
  ⟨desk.listening, desk.connecting, desk.incoming, desk.outgoing, desk.key⟩

/-- A scene and a part of the network behind it. -/
structure Stage {ρ : Type} (part : Network → ρ) extends Scene where
  behind : ρ

variable {ρ : Type} {part : Network → ρ}

namespace Stage

def say (stage : Stage part) (lines : List String) : Stage part :=
  { stage with said := stage.said ++ lines }

lemma say_nil (stage : Stage part) : stage.say [] = stage := by
  unfold say
  rw [List.append_nil]

lemma say_say (stage : Stage part) (first second : List String) :
    (stage.say first).say second = stage.say (first ++ second) := by
  unfold say
  rw [List.append_assoc]

end Stage

def Desk.stage (part : Network → ρ) (desk : Desk) : Stage part := ⟨desk.scene, part desk.network⟩

/-- From every desk with this stage, the action comes to a result and a stage of the given kind. -/
structure Acts {α : Type} (action : StateM Desk α) (stage : Stage part)
    (post : α → Stage part → Prop) : Prop where
  onDesk : ∀ desk : Desk, desk.stage part = stage →
    post (action.run desk).1 ((action.run desk).2.stage part)

section Acts

variable {α β : Type} {stage : Stage part}

lemma acts_pure (a : α) (stage : Stage part) :
    Acts (pure a) stage fun value after => value = a ∧ after = stage := by
  constructor
  intro desk hdesk
  exact ⟨rfl, hdesk⟩

lemma Acts.mono {action : StateM Desk α} {post post' : α → Stage part → Prop}
    (h : Acts action stage post) (himp : ∀ value after, post value after → post' value after) :
    Acts action stage post' := by
  constructor
  intro desk hdesk
  exact himp _ _ (h.onDesk desk hdesk)

lemma Acts.bind {action : StateM Desk α} {next : α → StateM Desk β} {mid : α → Stage part → Prop}
    {post : β → Stage part → Prop} (h : Acts action stage mid)
    (hnext : ∀ value after, mid value after → Acts (next value) after post) :
    Acts (action >>= next) stage post := by
  constructor
  intro desk hdesk
  exact (hnext _ _ (h.onDesk desk hdesk)).onDesk _ rfl

end Acts

namespace Host

/-- The host works on the scene of a desk: it reads and writes the files and prints the lines, and
its logs and its clock leave no trace there. None of this changes the part of the network. -/
structure Serves (host : Host (StateM Desk)) (part : Network → ρ) : Prop where
  readFile : ∀ path (stage : Stage part), Acts (host.readFile path) stage fun found after =>
    found = stage.disk.read path ∧ after = stage
  writeFile : ∀ path contents (stage : Stage part) disk,
    stage.disk.write path contents.toUTF8.toList = .ok disk →
      Acts (host.writeFile path contents) stage fun written after =>
        written = .ok () ∧ after = { stage with disk }
  plain : ∀ text (stage : Stage part), Acts (host.put (.plain text)) stage fun _ after =>
    after = stage.say [text]
  log : ∀ level text (stage : Stage part), Acts (host.put (.log level text)) stage fun _ after =>
    after = stage
  now : ∀ stage : Stage part, Acts host.now stage fun _ after => after = stage

lemma Serves.withVerbosity {host : Host (StateM Desk)} (serves : host.Serves part)
    (verbose : Bool) : (host.withVerbosity verbose).Serves part := by
  refine ⟨serves.readFile, serves.writeFile, serves.plain, ?_, serves.now⟩
  intro level text stage
  cases level with
  | debug =>
    cases verbose with
    | true => exact serves.log .debug text stage
    | false => exact (acts_pure () stage).mono fun _ _ h => h.2
  | info => exact serves.log .info text stage
  | warn => exact serves.log .warn text stage
  | error => exact serves.log .error text stage

end Host

namespace Desk

lemma stage_put (part : Network → ρ) (line : OutputLine) (desk : Desk) :
    ((host.put line).run desk).2.stage part = (desk.stage part).say line.plainText?.toList := by
  have hsaid : (line :: desk.printed).reverse.filterMap OutputLine.plainText? =
      desk.printed.reverse.filterMap OutputLine.plainText? ++ line.plainText?.toList := by
    rw [List.reverse_cons, List.filterMap_append]
    cases line <;> rfl
  exact congrArg (fun said => Stage.mk ⟨desk.disk, said⟩ (part desk.network)) hsaid

lemma run_writeFile {path contents : String} {desk : Desk} {disk : Disk}
    (h : desk.disk.write path contents.toUTF8.toList = .ok disk) :
    (host.writeFile path contents).run desk = (.ok (), { desk with disk }) := by
  unfold host
  simp only [StateT.run_bind, StateT.run_get, pure_bind, h, StateT.run_set]
  rfl

/-- The host of a desk serves it, with any clock. -/
theorem serves_host {now : StateM Desk ℕ}
    (hnow : ∀ desk, (now.run desk).2.stage part = desk.stage part) :
    ({ host with now := now } : Host (StateM Desk)).Serves part := by
  refine ⟨?_, ?_, ?_, ?_, ?_⟩
  · refine fun path _ => ⟨?_⟩
    rintro desk rfl
    exact ⟨rfl, rfl⟩
  · refine fun path contents _ disk hwrite => ⟨?_⟩
    rintro desk rfl
    have hrun := run_writeFile hwrite
    exact ⟨congrArg Prod.fst hrun, congrArg (fun r => Desk.stage part r.2) hrun⟩
  · refine fun text _ => ⟨?_⟩
    rintro desk rfl
    exact stage_put part (.plain text) desk
  · refine fun level text _ => ⟨?_⟩
    rintro desk rfl
    have hput := stage_put part (.log level text) desk
    exact hput.trans (Stage.say_nil _)
  · refine fun _ => ⟨?_⟩
    rintro desk rfl
    exact hnow desk

end Desk

namespace Steps

variable {α β : Type} {stage : Stage part}

/-- The steps, taken from a desk with this stage, end as `post` says. -/
abbrev Leads (steps : Steps (StateM Desk) α) (stage : Stage part)
    (post : Except Trouble α → Stage part → Prop) : Prop := Acts steps.run stage post

/-- The steps lead from one stage to another, with this result. -/
abbrev EndsIn (steps : Steps (StateM Desk) α) (stage : Stage part) (result : Except Trouble α)
    (after : Stage part) : Prop := steps.Leads stage fun value last => value = result ∧ last = after

def outcome (result : Except Failure α) : Except Trouble α := result.mapError (.failed [])

lemma ends_pure (a : α) (stage : Stage part) :
    EndsIn (pure a : Steps (StateM Desk) α) stage (.ok a) stage := acts_pure _ _

lemma ends_need (result : Except Failure α) (stage : Stage part) :
    EndsIn (need result : Steps (StateM Desk) α) stage (outcome result) stage := by
  cases result with
  | ok value => exact acts_pure _ _
  | error failure => exact acts_pure _ _

lemma Leads.bind {steps : Steps (StateM Desk) α} {next : α → Steps (StateM Desk) β}
    {mid : Except Trouble α → Stage part → Prop} {post : Except Trouble β → Stage part → Prop}
    (h : steps.Leads stage mid)
    (hok : ∀ value after, mid (.ok value) after → (next value).Leads after post)
    (herror : ∀ trouble after, mid (.error trouble) after → post (.error trouble) after) :
    (steps >>= next).Leads stage post := by
  unfold Leads
  rw [ExceptT.run_bind]
  apply Acts.bind h
  intro result after hmid
  cases result with
  | ok value => exact hok value after hmid
  | error trouble =>
    apply (acts_pure (Except.error trouble) after).mono
    rintro _ _ ⟨rfl, rfl⟩
    exact herror trouble _ hmid

lemma EndsIn.then {steps : Steps (StateM Desk) α} {next : α → Steps (StateM Desk) β} {value : α}
    {mid : Stage part} {post : Except Trouble β → Stage part → Prop}
    (h : steps.EndsIn stage (.ok value) mid) (hnext : (next value).Leads mid post) :
    (steps >>= next).Leads stage post := by
  apply Leads.bind h
  · rintro _ _ ⟨hvalue, rfl⟩
    cases hvalue
    exact hnext
  · rintro _ _ ⟨hvalue, -⟩
    cases hvalue

/-- The steps stop, and what follows them is not reached. -/
lemma EndsIn.stop {steps : Steps (StateM Desk) α} {next : α → Steps (StateM Desk) β}
    {trouble : Trouble} {mid : Stage part} (h : steps.EndsIn stage (.error trouble) mid) :
    (steps >>= next).EndsIn stage (.error trouble) mid := by
  apply Leads.bind h
  · rintro _ _ ⟨hvalue, -⟩
    cases hvalue
  · rintro _ _ ⟨hvalue, rfl⟩
    cases hvalue
    exact ⟨rfl, rfl⟩

/-- Steps that only find something out, one after the other, find out what follows from it. -/
lemma EndsIn.bind_outcome {steps : Steps (StateM Desk) α} {next : α → Steps (StateM Desk) β}
    {stage : Stage part} {result : Except Failure α} {rest : α → Except Failure β}
    (h : steps.EndsIn stage (outcome result) stage)
    (hnext : ∀ value, (next value).EndsIn stage (outcome (rest value)) stage) :
    (steps >>= next).EndsIn stage (outcome (result >>= rest)) stage := by
  cases result with
  | ok value => exact h.then (hnext value)
  | error failure => exact h.stop

lemma leads_lift {action : StateM Desk α} {post : α → Stage part → Prop}
    (h : Acts action stage post) :
    (liftM action : Steps (StateM Desk) α).Leads stage fun result after =>
      ∃ value, result = .ok value ∧ post value after := by
  have hrun : (liftM action : Steps (StateM Desk) α).run =
      action >>= fun value => pure (.ok value) := rfl
  unfold Leads
  rw [hrun]
  apply Acts.bind h
  intro value after hvalue
  apply (acts_pure (Except.ok value) after).mono
  rintro _ _ ⟨rfl, rfl⟩
  exact ⟨value, rfl, hvalue⟩

lemma ends_lift {action : StateM Desk α} {value : α} {mid : Stage part}
    (h : Acts action stage fun found after => found = value ∧ after = mid) :
    EndsIn (liftM action) stage (.ok value) mid := by
  apply (leads_lift h).mono
  rintro _ _ ⟨_, rfl, rfl, rfl⟩
  exact ⟨rfl, rfl⟩

/-- An action that leaves the stage as it is gives some value to go on with. -/
lemma leads_lift_bind {action : StateM Desk α} {next : α → Steps (StateM Desk) β}
    {post : Except Trouble β → Stage part → Prop}
    (h : Acts action stage fun _ after => after = stage)
    (hnext : ∀ value, (next value).Leads stage post) :
    (liftM action >>= next).Leads stage post := by
  apply Leads.bind (leads_lift h)
  · rintro value _ ⟨_, -, rfl⟩
    exact hnext value
  · rintro trouble _ ⟨_, hvalue, -⟩
    cases hvalue

lemma run_doing (what : String) (steps : Steps (StateM Desk) α) :
    (Steps.doing what steps).run = steps.run >>= fun result =>
      pure (result.mapError (Trouble.during what)) := by
  unfold Steps.doing
  apply bind_congr
  intro result
  cases result <;> rfl

lemma EndsIn.doing {steps : Steps (StateM Desk) α} {result : Except Trouble α} {after : Stage part}
    (h : steps.EndsIn stage result after) (what : String) :
    (Steps.doing what steps).EndsIn stage (result.mapError (Trouble.during what)) after := by
  unfold EndsIn Leads
  rw [run_doing]
  apply Acts.bind h
  rintro _ _ ⟨rfl, rfl⟩
  exact acts_pure _ _

lemma EndsIn.doing_ok {steps : Steps (StateM Desk) α} {stage after : Stage part} {value : α}
    (h : steps.EndsIn stage (.ok value) after) (what : String) :
    (Steps.doing what steps).EndsIn stage (.ok value) after := h.doing what

/-- A command is passed, not passed or stopped, as its steps end. -/
def status : Except Trouble Bool → Status
  | .ok true => .passed
  | .ok false => .notPassed
  | .error _ => .stopped

lemma status_ok (passed : Bool) :
    status (.ok passed) = if passed then .passed else .notPassed := by
  cases passed <;> rfl

section Served

variable {host : Host (StateM Desk)} (serves : host.Serves part)

include serves

lemma ends_log (level : LogLevel) (text : String) (stage : Stage part) :
    EndsIn (liftM (host.put (.log level text))) stage (.ok ()) stage :=
  ends_lift ((serves.log level text stage).mono fun _ _ h => ⟨rfl, h⟩)

/-- Needing a result leaves the stage as it is, with or without a warning about the value. -/
lemma ends_needWarned (result : Except Failure α) (warns : α → Prop) [DecidablePred warns]
    (text : α → String) (stage : Stage part) :
    EndsIn (need result >>= fun value =>
      if warns value then liftM (host.warn (text value)) >>= fun _ => pure value else pure value)
      stage (outcome result) stage := by
  have hneed := ends_need result stage
  cases result with
  | error failure => exact hneed.stop
  | ok value =>
    apply hneed.then
    split
    · exact (ends_log serves .warn _ stage).then (ends_pure value stage)
    · exact ends_pure value stage

lemma ends_plain (text : String) (stage : Stage part) :
    EndsIn (liftM (host.put (.plain text))) stage (.ok ()) (stage.say [text]) :=
  ends_lift ((serves.plain text stage).mono fun _ _ h => ⟨rfl, h⟩)

lemma ends_readFile (path : String) (stage : Stage part) :
    EndsIn (liftM (host.readFile path)) stage (.ok (stage.disk.read path)) stage :=
  ends_lift (serves.readFile path stage)

lemma ends_writeFile {path contents : String} {disk : Disk}
    (h : stage.disk.write path contents.toUTF8.toList = .ok disk) :
    EndsIn (liftM (host.writeFile path contents)) stage (.ok (.ok ())) { stage with disk } :=
  ends_lift (serves.writeFile path contents stage disk h)

lemma acts_since (start : ℕ) (stage : Stage part) :
    Acts (host.since start) stage fun _ after => after = stage := by
  unfold Host.since
  apply Acts.bind (serves.now stage)
  rintro reading _ rfl
  exact (acts_pure _ _).mono fun _ _ h => h.2

lemma ends_plainLines (lines : List String) (stage : Stage part) :
    EndsIn (forIn lines PUnit.unit fun line _ => do
      liftM (host.put (.plain line))
      pure (ForInStep.yield PUnit.unit)) stage (.ok PUnit.unit) (stage.say lines) := by
  -- what was printed before is part of the stage, so the induction is over all stages
  induction lines generalizing stage with
  | nil =>
    rw [Stage.say_nil]
    exact ends_pure _ _
  | cons line lines ih =>
    have hsay : stage.say (line :: lines) = (stage.say [line]).say lines :=
      (Stage.say_say stage [line] lines).symm
    rw [List.forIn_cons, hsay]
    apply EndsIn.then
    · exact (ends_plain serves line stage).then (ends_pure _ _)
    · exact ih _

lemma acts_finish {steps : Steps (StateM Desk) Bool} {post : Status → Stage part → Prop}
    (h : steps.Leads stage fun result after => post (status result) after) :
    Acts (finish host steps) stage post := by
  unfold finish
  apply Acts.bind h
  intro result after hresult
  match result with
  | .ok true => exact (acts_pure _ _).mono (by rintro _ _ ⟨rfl, rfl⟩; exact hresult)
  | .ok false => exact (acts_pure _ _).mono (by rintro _ _ ⟨rfl, rfl⟩; exact hresult)
  | .error trouble =>
    apply Acts.bind (serves.log .error trouble.text after)
    rintro _ _ rfl
    exact (acts_pure _ _).mono (by rintro _ _ ⟨rfl, rfl⟩; exact hresult)

end Served

end Steps

end MatrixAudit
