import MatrixAudit.Proofs.DeskSteps

/-!
# Steps that meet a peer

Most of what a command does before it reports leaves the stage as it is: it loads files, listens or
connects, and it may stop at any of these. Such steps are followed by what they find, if they find
anything. A host that meets a peer answers as the network on the stage does, and a dialogue comes to
what it comes to on the channels there. After that the channels are used up, and only the scene is
still the same.
-/

namespace MatrixAudit

namespace Steps

variable {ρ : Type} {part : Network → ρ} {α β : Type} {stage : Stage part}

/-- The steps leave the stage as it is, and come to what there is to find or stop if there is
nothing. -/
abbrev Finds (steps : Steps (StateM Desk) α) (stage : Stage part) (found : Option α) : Prop :=
  steps.Leads stage fun result after => after = stage ∧ result.toOption = found

lemma toOption_mapError {ε ε' : Type} (f : ε → ε') (result : Except ε α) :
    (result.mapError f).toOption = result.toOption := by
  cases result <;> rfl

lemma EndsIn.finds {steps : Steps (StateM Desk) α} {result : Except Failure α}
    (h : steps.EndsIn stage (outcome result) stage) : steps.Finds stage result.toOption := by
  apply h.mono
  rintro _ _ ⟨rfl, rfl⟩
  exact ⟨rfl, toOption_mapError _ result⟩

lemma finds_need (result : Except Failure α) (stage : Stage part) :
    Finds (need result : Steps (StateM Desk) α) stage result.toOption :=
  (ends_need result stage).finds

lemma finds_needConnection (context : String) (result : Except Fault α) (stage : Stage part) :
    Finds (needConnection context result : Steps (StateM Desk) α) stage result.toOption := by
  have hneed := finds_need (result.mapError (.disconnected context)) stage
  rwa [toOption_mapError] at hneed

lemma Finds.then {steps : Steps (StateM Desk) α} {next : α → Steps (StateM Desk) β}
    {found : Option α} {post : Except Trouble β → Stage part → Prop} (h : steps.Finds stage found)
    (hnext : ∀ value, found = some value → (next value).Leads stage post)
    (hstop : found = none → ∀ trouble, post (.error trouble) stage) :
    (steps >>= next).Leads stage post := by
  apply Leads.bind h
  · rintro value _ ⟨rfl, hvalue⟩
    exact hnext value hvalue.symm
  · rintro trouble _ ⟨rfl, hnone⟩
    exact hstop hnone.symm trouble

/-- To name what is being done changes nothing but the troubles. -/
lemma Leads.doing {steps : Steps (StateM Desk) α} (post : Option α → Stage part → Prop)
    (h : steps.Leads stage fun result after => post result.toOption after) (what : String) :
    (Steps.doing what steps).Leads stage fun result after => post result.toOption after := by
  unfold Leads
  rw [run_doing]
  apply Acts.bind h
  intro result after hpost
  apply (acts_pure _ after).mono
  rintro _ _ ⟨rfl, rfl⟩
  cases result <;> exact hpost

lemma Finds.doing {steps : Steps (StateM Desk) α} {found : Option α} (h : steps.Finds stage found)
    (what : String) : (Steps.doing what steps).Finds stage found :=
  Leads.doing (fun value after => after = stage ∧ value = found) h what

end Steps

namespace Host

/-- The host also reaches the network on the stage, which somebody connects to. A dialogue comes to
what it comes to on the channels of the network, and leaves the scene as it is. -/
structure Meets (host : Host (StateM Desk)) : Prop extends
    host.Serves (id : Network → Network) where
  writeFails : ∀ path contents (stage : Stage id) fault,
    stage.disk.write path contents.toUTF8.toList = .error fault →
      Acts (host.writeFile path contents) stage fun written after =>
        written = .error fault ∧ after = stage
  freshKey : ∀ stage : Stage id, Acts host.freshKey stage fun key after =>
    key = stage.behind.key ∧ after = stage
  listen : ∀ address (stage : Stage id), Acts (host.listen address) stage fun listening after =>
    listening = stage.behind.listening address ∧ after = stage
  accept : ∀ deadline (stage : Stage id), Acts (host.accept deadline) stage fun accepted after =>
    (∃ peer, accepted = .ok peer) ∧ after = stage
  connect : ∀ address deadline (stage : Stage id),
    Acts (host.connect address deadline) stage fun connected after =>
      connected = stage.behind.connecting address ∧ after = stage
  converse : ∀ {α : Type} (remark : String → StateM Desk Unit) (dialogue : Dialogue α)
    (stage : Stage id),
    (∀ text (stage : Stage id), Acts (remark text) stage fun _ after => after = stage) →
      Acts (host.converse remark dialogue) stage fun result after =>
        result = (dialogue.play 0 stage.behind.incoming stage.behind.outgoing).result ∧
          after.toScene = stage.toScene

lemma Meets.withVerbosity {host : Host (StateM Desk)} (meets : host.Meets) (verbose : Bool) :
    (host.withVerbosity verbose).Meets where
  toServes := meets.toServes.withVerbosity verbose
  writeFails := meets.writeFails
  freshKey := meets.freshKey
  listen := meets.listen
  accept := meets.accept
  connect := meets.connect
  converse := meets.converse

end Host

namespace Desk

variable {ρ : Type} {part : Network → ρ}

lemma acts_remarks {remark : String → StateM Desk Unit}
    (hremark : ∀ text (stage : Stage part), Acts (remark text) stage fun _ after => after = stage)
    (texts : List String) (stage : Stage part) : Acts (forIn texts PUnit.unit fun text _ => do
      remark text
      pure (ForInStep.yield PUnit.unit)) stage fun _ after => after = stage := by
  induction texts with
  | nil => exact (acts_pure _ _).mono fun _ _ h => h.2
  | cons text texts ih =>
    have hfirst : Acts (remark text >>= fun _ => pure (ForInStep.yield PUnit.unit)) stage
        fun value after => value = .yield PUnit.unit ∧ after = stage := by
      apply (hremark text stage).bind
      rintro _ _ rfl
      exact acts_pure _ _
    rw [List.forIn_cons]
    apply hfirst.bind
    rintro _ _ ⟨rfl, rfl⟩
    exact ih

lemma run_writeFile_error {path contents : String} {desk : Desk} {fault : Fault}
    (h : desk.disk.write path contents.toUTF8.toList = .error fault) :
    (host.writeFile path contents).run desk = (.error fault, desk) := by
  unfold host
  simp only [StateT.run_bind, StateT.run_get, pure_bind, h]
  rfl

lemma acts_converse {α : Type} {remark : String → StateM Desk Unit} (dialogue : Dialogue α)
    (stage : Stage id)
    (hremark : ∀ text (stage : Stage id), Acts (remark text) stage fun _ after => after = stage) :
    Acts (host.converse remark dialogue) stage fun result after =>
      result = (dialogue.play 0 stage.behind.incoming stage.behind.outgoing).result ∧
        after.toScene = stage.toScene := by
  constructor
  rintro desk rfl
  let play := dialogue.play 0 desk.incoming desk.outgoing
  let spent : Desk := { desk with incoming := play.source, outgoing := play.sink }
  have hremarks := (acts_remarks hremark play.remarks (spent.stage id)).onDesk spent rfl
  have hscene := congrArg Stage.toScene hremarks
  exact ⟨rfl, hscene⟩

/-- The host of a desk also meets a peer, whose bytes come in and who takes what goes out. -/
theorem meets_host {now : StateM Desk ℕ}
    (hnow : ∀ desk, (now.run desk).2.stage id = desk.stage id) :
    ({ host with now := now } : Host (StateM Desk)).Meets where
  toServes := serves_host hnow
  writeFails := by
    refine fun path contents _ fault hwrite => ⟨?_⟩
    rintro desk rfl
    have hrun := run_writeFile_error hwrite
    exact ⟨congrArg Prod.fst hrun, congrArg (fun r => Desk.stage id r.2) hrun⟩
  freshKey := fun _ => ⟨fun _ hdesk => ⟨congrArg (fun stage => stage.behind.key) hdesk, hdesk⟩⟩
  listen := fun address _ =>
    ⟨fun _ hdesk => ⟨congrArg (fun stage => stage.behind.listening address) hdesk, hdesk⟩⟩
  accept := fun _ _ => ⟨fun _ hdesk => ⟨⟨_, rfl⟩, hdesk⟩⟩
  connect := fun address _ _ =>
    ⟨fun _ hdesk => ⟨congrArg (fun stage => stage.behind.connecting address) hdesk, hdesk⟩⟩
  converse := fun _ dialogue stage hremark => acts_converse dialogue stage hremark

end Desk

end MatrixAudit
