import MatrixAudit.Proofs.Findings

/-!
# The status of a command

A command that finds a report publishes it, and its status is the verdict in it. The command stops
if it finds nothing, or if the report cannot be saved. As what it finds is true, so is what it
publishes: whatever is on the disk, whatever the network answers and whatever the peer sends.
-/

namespace MatrixAudit

namespace Command
open Steps

/-- How a command ends that found a report, apart from the time it took, or nothing. It stops
without a trace if it found nothing. It publishes the report if this can be saved, and the status is
the verdict in it; otherwise it only prints the report and stops. -/
structure Concludes (found : Option (ℕ → Report)) (good : Report → Prop) (before : Scene)
    (title : String) (path : Option String) (status : Status) (after : Scene) : Prop where
  stopped : found = none → status.code = 2 ∧ after = before
  reported : ∀ report, found = some report → ∃ millis, good (report millis) ∧
    (before.Saves (report millis) path →
      before.Publishes after title (report millis) path ∧
        (status.code = 0 ↔ (report millis).passed = true) ∧
        (status.code = 1 ↔ (report millis).passed = false)) ∧
    (¬before.Saves (report millis) path →
      before.Publishes after title (report millis) none ∧ status.code = 2)

/-- The code for a verdict, or for none. -/
def codeOf : Option Bool → UInt32
  | some true => 0
  | some false => 1
  | none => 2

namespace Concludes

variable {found : Option (ℕ → Report)} {good : Report → Prop} {before after : Scene}
  {title : String} {path : Option String} {report : ℕ → Report} {millis : ℕ}

lemma of_nothing (h : found = none) : Concludes found good before title path .stopped before := by
  refine ⟨fun _ => ⟨rfl, rfl⟩, fun report hreport => ?_⟩
  rw [h] at hreport
  cases hreport

lemma of_published (h : found = some report) (hgood : good (report millis))
    (saves : before.Saves (report millis) path)
    (hpublished : before.Publishes after title (report millis) path) :
    Concludes found good before title path
      (if (report millis).passed then .passed else .notPassed) after := by
  refine ⟨fun hnothing => ?_, fun other hother => ?_⟩
  · rw [h] at hnothing
    cases hnothing
  · obtain rfl : report = other := Option.some.inj (h.symm.trans hother)
    refine ⟨millis, hgood, fun _ => ⟨hpublished, ?_⟩, fun unsaved => absurd saves unsaved⟩
    cases (report millis).passed <;> decide

lemma of_unsaved (h : found = some report) (hgood : good (report millis))
    (unsaved : ¬before.Saves (report millis) path)
    (hprinted : before.Publishes after title (report millis) none) :
    Concludes found good before title path .stopped after := by
  refine ⟨fun hnothing => ?_, fun other hother => ?_⟩
  · rw [h] at hnothing
    cases hnothing
  · obtain rfl : report = other := Option.some.inj (h.symm.trans hother)
    exact ⟨millis, hgood, fun saves => absurd saves unsaved, fun _ => ⟨hprinted, rfl⟩⟩

/-- Without a report to save, the status is decided by what was found. -/
lemma code_eq {α : Type} {value : Option α} {make : α → ℕ → Report} {passed : α → Bool}
    {status : Status} (h : Concludes (value.map make) good before title none status after)
    (hpassed : ∀ a millis, (make a millis).passed = passed a) :
    status.code = codeOf (value.map passed) := by
  cases value with
  | none => exact (h.stopped rfl).1
  | some a =>
    obtain ⟨millis, -, hsaved, -⟩ := h.reported _ rfl
    obtain ⟨-, hzero, hone⟩ := hsaved nofun
    rw [hpassed] at hzero hone
    rw [Option.map_some]
    cases hverdict : passed a with
    | true => exact hzero.2 hverdict
    | false => exact hone.2 hverdict

end Concludes

section Met

variable {host : Host (StateM Desk)} (meets : host.Meets) (stage : Stage (id : Network → Network))

include meets

/-- A report that cannot be saved is printed, and the command stops. -/
lemma publish_leads_stops (title : String) {report : Report} {path : Option String}
    (unsaved : ¬stage.Saves report path) :
    (publish host title report path).Leads stage fun result after =>
      stage.Publishes after.toScene title report none ∧ ∃ trouble, result = .error trouble := by
  have serves := meets.toServes
  unfold Scene.Saves at unsaved
  push Not at unsaved
  obtain ⟨name, rfl, hfails⟩ := unsaved
  apply publish_leads_of_save serves stage
  let shown := stage.say ("" :: s!"=== {title} ===" :: report.lines)
  cases hdisk : shown.disk.write name report.fileText.toUTF8.toList with
  | ok disk => exact absurd hdisk (hfails disk)
  | error fault =>
    have hwrite : EndsIn (liftM (host.writeFile name report.fileText)) shown
        (.ok (.error fault)) shown := ends_lift (meets.writeFails _ _ shown fault hdisk)
    have hsave : EndsIn (do
        let written ← liftM (host.writeFile name report.fileText)
        need (written.mapError (.inaccessible name))) shown
        (outcome (.error (.inaccessible name fault))) shown := hwrite.then (ends_need _ shown)
    apply (hsave.doing _).stop.mono
    rintro _ _ ⟨rfl, rfl⟩
    exact ⟨⟨rfl, rfl⟩, _, rfl⟩

/-- The last steps of a command publish the report that was found, and give its verdict. -/
lemma publish_concludes {found : Option (ℕ → Report)} {good : Report → Prop}
    {report : ℕ → Report} (h : found = some report) {millis : ℕ} (hgood : good (report millis))
    (title : String) (path : Option String) :
    (publish host title (report millis) path >>= fun _ => pure (report millis).passed).Leads stage
      fun result after =>
        Concludes found good stage.toScene title path (status result) after.toScene := by
  by_cases saves : stage.Saves (report millis) path
  · apply (publish_leads meets.toServes stage title (report millis) saves).bind
    · rintro _ after ⟨-, hpublished⟩
      apply (ends_pure (report millis).passed after).mono
      rintro _ _ ⟨rfl, rfl⟩
      rw [status_ok]
      exact .of_published h hgood saves hpublished
    · rintro trouble after ⟨hvalue, -⟩
      cases hvalue
  · apply (publish_leads_stops meets stage title saves).bind
    · rintro _ after ⟨-, trouble, hvalue⟩
      cases hvalue
    · rintro trouble after ⟨hprinted, -⟩
      exact .of_unsaved h hgood saves hprinted

/-- A command whose steps come to a report or stop concludes with it. -/
lemma timed_concludes {found : Option (ℕ → Report)} {good : Report → Prop}
    (hgood : ∀ report, found = some report → ∀ millis, good (report millis))
    {steps : Steps (StateM Desk) Report}
    (h : steps.Leads stage fun result after => after.toScene = stage.toScene ∧ Timed found result)
    (title : String) (path : Option String) :
    (steps >>= fun report => publish host title report path >>= fun _ =>
      pure report.passed).Leads stage fun result after =>
        Concludes found good stage.toScene title path (status result) after.toScene := by
  apply h.bind
  · rintro report middle ⟨hscene, hfound⟩
    rw [← hscene]
    cases hfound with
    | found hreport millis =>
      exact publish_concludes meets middle hreport (hgood _ hreport millis) title path
  · rintro trouble after ⟨hscene, hfound⟩
    cases hfound with
    | nothing hnothing =>
      rw [hscene]
      exact .of_nothing hnothing

theorem verify_concludes [Sharing] (arguments : VerifierArguments) :
    Acts (verify host arguments) stage fun status after =>
      Concludes (verification stage.disk stage.behind arguments) (TrueToFiles stage.disk arguments)
        stage.toScene "Verification Result" arguments.report status after.toScene := by
  have meets' := meets.withVerbosity arguments.verbose
  have serves' := meets'.toServes
  have hgood := fun report hreport =>
    @trueToFiles_of_verification stage.disk stage.behind report _ arguments hreport
  unfold verify
  apply acts_finish serves'
  unfold verifySteps
  apply (finds_need arguments.settings.validate stage).then
  swap
  · intro hinvalid trouble
    exact .of_nothing (by rw [verification, hinvalid]; rfl)
  intro _ hvalid
  apply (ends_log serves' .info _ stage).then
  apply (ends_log serves' .info _ stage).then
  apply (ends_log serves' .info _ stage).then
  apply (ends_log serves' .info _ stage).then
  apply leads_lift_bind (serves'.now stage)
  intro start
  apply ((loadStatement_ends serves' stage arguments.dataset arguments.client).finds.doing _).then
  swap
  · intro hunloaded trouble
    exact .of_nothing (by rw [verification, hvalid, hunloaded]; rfl)
  intro s hloaded
  have fits : s.Fits := Statement.Obtained.fits (Or.inr ⟨_, _, _, eq_ok_of_toOption hloaded⟩)
  have hfound : verification stage.disk stage.behind arguments =
      completed stage.behind s arguments.settings := by
    rw [verification, hvalid, hloaded]
    rfl
  rw [hfound] at hgood ⊢
  apply leads_lift_bind (acts_since serves' _ stage)
  intro loading
  apply (ends_log serves' .info _ stage).then
  dsimp only
  cases hmode : arguments.settings.mode with
  | offline =>
    exact timed_concludes meets' stage hgood (checkOffline_timed meets' stage fits hmode) _ _
  | interactive =>
    exact timed_concludes meets' stage hgood (serveOnce_timed meets' stage s hmode) _ _

theorem audit_concludes (arguments : AuditorArguments) :
    Acts (audit host arguments) stage fun status after =>
      Concludes (auditing stage.disk stage.behind arguments) (TrueToClient stage.disk arguments)
        stage.toScene "Audit Result" arguments.report status after.toScene := by
  have meets' := meets.withVerbosity arguments.verbose
  have serves' := meets'.toServes
  have hgood := fun report hreport =>
    @trueToClient_of_auditing stage.disk stage.behind report arguments hreport
  unfold audit
  apply acts_finish serves'
  unfold auditSteps
  apply (finds_need arguments.settings.validate stage).then
  swap
  · intro hinvalid trouble
    exact .of_nothing (by rw [auditing, hinvalid]; rfl)
  intro _ hvalid
  apply (ends_log serves' .info _ stage).then
  apply (ends_log serves' .info _ stage).then
  apply (ends_log serves' .info _ stage).then
  apply ((loadClient_ends serves' stage arguments.client).finds.doing _).then
  swap
  · intro hunloaded trouble
    exact .of_nothing (by rw [auditing, hvalid, hunloaded]; rfl)
  intro c hloaded
  have hfound : auditing stage.disk stage.behind arguments =
      (challenged stage.behind c arguments.settings).bind fun audit =>
        some (.ofAudit c.n c.m audit) := by
    rw [auditing, hvalid, hloaded]
    rfl
  rw [hfound] at hgood ⊢
  apply (ends_log serves' .info _ stage).then
  apply leads_lift_bind (serves'.now stage)
  intro start
  apply (Leads.doing (fun value after =>
    value = challenged stage.behind c arguments.settings ∧ after.toScene = stage.toScene)
    (challengeVerifier_leads meets' stage c arguments.settings) _).bind
  · rintro audit after ⟨haudit, hscene⟩
    have hreport : (challenged stage.behind c arguments.settings).bind
        (fun audit => some (Report.ofAudit c.n c.m audit)) = some (.ofAudit c.n c.m audit) := by
      rw [← haudit]
      rfl
    apply leads_lift_bind (acts_since serves' _ after)
    intro elapsed
    apply (ends_log serves' .info _ after).then
    apply (ends_log serves' .info _ after).then
    have hend := publish_concludes meets' after hreport
      (hgood _ hreport (Duration.mk elapsed).millis) "Audit Result" arguments.report
    rwa [hscene] at hend
  · rintro trouble after ⟨hnothing, hscene⟩
    rw [hscene]
    exact .of_nothing (by rw [← hnothing]; rfl)

end Met

/-- The reports of an accepted statement are true. Every check of its columns has a report in which
the verdict, the count and the columns agree, and nothing is said of an exchange. Every exchange
that either party completes, whatever its peer sent, has a report with both sides and all ends,
which passes iff the sides agree. Any report can be read in its two texts. A command that completes
its check or exchange has such a report of it; unless the report cannot be saved, it is published
and the status is zero if it passed and one if it did not. In every other case the status is two. -/
theorem reports_are_true [Sharing] :
    (∀ (dataset : Dataset) (client : Client) (s : Statement),
      Statement.ofParts dataset client = .ok s →
      (∀ parallel, (∃ check, s.checkColumns parallel = .ok check) ∧
        ∀ check millis, s.checkColumns parallel = .ok check →
          (Report.ofColumnCheck s.client.n s.client.m check millis).TrueToColumns s.client.n) ∧
      (∀ parallel elapsed source sink exchange millis,
        ((s.answerAudit parallel).play elapsed source sink).result = .ok exchange →
          (Report.ofExchange s.client.n s.client.m exchange millis).TrueToExchange s.client
            exchange.challenge exchange.response) ∧
      ∀ challenge elapsed source sink audit millis,
        ((s.client.audit challenge).play elapsed source sink).result = .ok audit →
          audit.challenge = challenge ∧
          (Report.ofAudit s.client.n s.client.m audit millis).TrueToExchange s.client
            audit.challenge audit.response) ∧
    (∀ report : Report, report.Legible) ∧
    ∀ now : StateM Desk ℕ,
      (∀ desk, (now.run desk).2.scene = desk.scene ∧ (now.run desk).2.network = desk.network) →
      ∀ desk : Desk,
        (∀ arguments : VerifierArguments,
          let run := (verify ({ Desk.host with now := now } : Host (StateM Desk)) arguments).run
            desk
          Concludes (verification desk.disk desk.network arguments)
            (TrueToFiles desk.disk arguments) desk.scene "Verification Result" arguments.report
            run.1 run.2.scene) ∧
        ∀ arguments : AuditorArguments,
          let run := (audit ({ Desk.host with now := now } : Host (StateM Desk)) arguments).run desk
          Concludes (auditing desk.disk desk.network arguments) (TrueToClient desk.disk arguments)
            desk.scene "Audit Result" arguments.report run.1 run.2.scene := by
  refine ⟨fun dataset client s accepted => ?_, Report.legible, fun now hnow desk => ?_⟩
  · have fits : s.Fits := (Statement.ofParts_eq_ok accepted).2
    refine ⟨fun parallel => ⟨?_, fun check millis h => ?_⟩, ?_, ?_⟩
    · obtain ⟨check, hcheck, -⟩ := Statement.exists_computed fits parallel
      exact ⟨check, hcheck⟩
    · exact Statement.trueToColumns_of_checkColumns fits h millis
    · intro parallel elapsed source sink exchange millis h
      exact Statement.trueToExchange_of_play fits h millis
    · intro challenge elapsed source sink audit millis h
      exact Client.trueToExchange_of_play fits.validDimensions fits.length_weights.symm
        fits.length_claimed.symm h millis
  · have meets := Desk.meets_host fun desk =>
      congrArg₂ (fun scene network => (⟨scene, network⟩ : Stage id)) (hnow desk).1 (hnow desk).2
    exact ⟨fun arguments => (verify_concludes meets (desk.stage id) arguments).onDesk desk rfl,
      fun arguments => (audit_concludes meets (desk.stage id) arguments).onDesk desk rfl⟩

section Sample

/-- A desk with some files, where a peer sends some bytes and takes all it gets. -/
def peeredDesk (f : Files) (sent : List UInt8) : Desk where
  disk.files := [(["d"], f.dataset), (["c"], f.client)]
  listening := .ok
  connecting := fun _ => .ok ()
  incoming := { bytes := sent, chunk := some 3, interrupts := true }

lemma steady_peeredDesk (f : Files) (sent : List UInt8) : (peeredDesk f sent).incoming.Steady :=
  fun hchunk => by cases hchunk

def servingArguments : VerifierArguments where
  dataset := "d"
  client := "c"
  settings := {}
  report := none
  verbose := false

def auditingArguments : AuditorArguments where
  client := "c"
  settings := { seed := some 7 }
  report := none
  verbose := false

/-- The challenge that the auditor in the sample draws. -/
def sampleChallenge : List Word := [3363017077986441, 77045091216920356, 137109181175951438]

/-- An acknowledgement and a response whose last word is zero. -/
def sampleAnswer (first : Word) : List UInt8 :=
  acknowledgement :: LittleEndian.encodeWords wordWidth [first, 0]

/-- The sample's files with a wrong client. -/
def wrongSampleFiles : Files :=
  { longSampleFiles with client := Statement.sampleWrong.client.contents }

lemma sound_wrongSampleFiles : wrongSampleFiles.Sound :=
  ⟨⟨by decide +kernel, by decide +kernel, by decide +kernel⟩, by decide +kernel⟩

attribute [local instance] Sharing.halving

lemma verification_sampleDesk : verification sampleDesk.disk sampleDesk.network sampleArguments =
    some longSampleFiles.report := by
  have hvalid : sampleArguments.settings.validate.toOption = some () := by decide +kernel
  obtain ⟨hdataset, hclient⟩ := read_sampleNames longSampleFiles.dataset longSampleFiles.client
  have hload := Files.load_eq_ok sound_longSampleFiles hdataset hclient
  have hcheck := Files.checkColumns_statement sound_longSampleFiles true
  rw [verification, hvalid]
  refine (congrArg (Option.bind · fun s => completed _ s _)
    (congrArg Except.toOption hload)).trans ?_
  exact congrArg (Option.bind · fun check => some (Report.ofColumnCheck _ _ check))
    (congrArg Except.toOption hcheck)

lemma verification_peeredDesk {f : Files} (sound : f.Sound) (sent : List UInt8) :
    verification (peeredDesk f sent).disk (peeredDesk f sent).network servingArguments =
      ((Files.statement sound).expectedAnswer sent).result.toOption.map
        (.ofExchange f.cols f.rows) := by
  have hvalid : servingArguments.settings.validate.toOption = some () := by decide +kernel
  obtain ⟨hdataset, hclient⟩ := read_sampleNames f.dataset f.client
  have hload := Files.load_eq_ok sound hdataset hclient
  have hplay : (((Files.statement sound).answerAudit true).play 0 (peeredDesk f sent).incoming
      {}).result = ((Files.statement sound).expectedAnswer sent).result := by
    rw [← Statement.transcript_answerAudit _ true 0]
    exact (Dialogue.play_eq_transcript 0 _ (steady_peeredDesk f sent) rfl ⟨by decide, rfl, rfl⟩).1
  rw [verification, hvalid]
  refine (congrArg (Option.bind · fun s => completed _ s _)
    (congrArg Except.toOption hload)).trans ?_
  rw [Option.map_eq_bind, ← hplay]
  rfl

lemma auditing_peeredDesk {f : Files} (file : Client.IsFile f.client) (hcols : f.cols = 3)
    (sent : List UInt8) :
    auditing (peeredDesk f sent).disk (peeredDesk f sent).network auditingArguments =
      ((Client.spelled f.client).expectedAudit sampleChallenge ⟨0⟩ sent).result.toOption.map
        (.ofAudit f.cols f.rows) := by
  have hvalid : auditingArguments.settings.validate.toOption = some () := by decide +kernel
  obtain ⟨-, hclient⟩ := read_sampleNames f.dataset f.client
  have hfile := (Files.clientFile_eq_ok_iff hclient).2 ⟨file, rfl⟩
  have hdraws : ((Sampler.ofKey (Sampler.seedKey 7)).sampleMany 3).map Prod.fst =
      some sampleChallenge := by decide +kernel
  obtain ⟨⟨_, rest⟩, hdrawn, rfl⟩ := Option.map_eq_some_iff.1 hdraws
  have hplay := (((Client.spelled f.client).audit sampleChallenge).play_eq_transcript 0
    (steady_peeredDesk f sent) rfl (⟨by decide, rfl, rfl⟩ : Sink.Tireless {})).1
  rw [Client.transcript_audit] at hplay
  have hchallenged : challenged (peeredDesk f sent).network (Client.spelled f.client)
      auditingArguments.settings =
        ((Client.spelled f.client).expectedAudit sampleChallenge ⟨0⟩ sent).result.toOption := by
    have hn : (Client.spelled f.client).n = 3 := hcols
    have hkey : auditingArguments.settings.keyOn (peeredDesk f sent).network =
        Sampler.seedKey 7 := rfl
    rw [challenged, hkey, hn, hdrawn]
    exact congrArg Except.toOption hplay
  rw [auditing, hvalid]
  refine (congrArg (Option.bind · fun c => (challenged _ c _).bind fun audit =>
    some (Report.ofAudit c.n c.m audit)) (congrArg Except.toOption hfile)).trans ?_
  rw [Option.map_eq_bind, ← hchallenged]
  rfl

theorem reports_are_true_sample :
    Statement.ofParts sampleDataset Statement.sampleWrong.client = .ok Statement.sampleWrong ∧
    (∃ check, Statement.sampleWrong.checkColumns true = .ok check ∧
      (Report.ofColumnCheck 3 2 check 7).TrueToColumns 3 ∧ check.passed = false) ∧
    (∃ exchange, ((Statement.sampleWrong.answerAudit true).play 0 Statement.sampleSource
        { chunk := some 2 }).result = .ok exchange ∧
      (Report.ofExchange 3 2 exchange 7).TrueToExchange Statement.sampleWrong.client [5, 7, 1]
        exchange.response) ∧
    (∃ audit, ((Statement.sampleWrong.client.audit [5, 7, 1]).play 0 Client.sampleReply
        {}).result = .ok audit ∧
      (Report.ofAudit 3 2 audit 7).TrueToExchange Statement.sampleWrong.client [5, 7, 1]
        [144115188075855878, 43]) ∧
    let host : Host (StateM Desk) := { Desk.host with now := pure 5 }
    let offline := (verify host sampleArguments).run sampleDesk
    let served := fun f =>
      (verify host servingArguments).run (peeredDesk f Statement.sampleSource.bytes)
    let audited := fun sent =>
      (audit host auditingArguments).run (peeredDesk longSampleFiles sent)
    (offline.1.code = 0 ∧ ∃ millis, sampleDesk.scene.Publishes offline.2.scene
      "Verification Result" (longSampleFiles.report millis) (some "r")) ∧
    (served longSampleFiles).1.code = 0 ∧ (served wrongSampleFiles).1.code = 1 ∧
    (audited (sampleAnswer 76901607474353937)).1.code = 0 ∧
    (audited (sampleAnswer 5)).1.code = 1 ∧
    (audited []).1.code = 2 ∧ (audited []).2.scene = (peeredDesk longSampleFiles []).scene := by
  have accepted : Statement.ofParts sampleDataset Statement.sampleWrong.client =
    .ok Statement.sampleWrong := rfl
  have hclock : ∀ desk : Desk, ((pure 5 : StateM Desk ℕ).run desk).2.scene = desk.scene ∧
    ((pure 5 : StateM Desk ℕ).run desk).2.network = desk.network := fun _ => ⟨rfl, rfl⟩
  obtain ⟨htrue, -, hcommands⟩ := reports_are_true
  obtain ⟨hcheck, hexchange, haudit⟩ := htrue _ _ _ accepted
  refine ⟨accepted, ?_, ?_, ?_, ?_⟩
  · have hfound : Statement.sampleWrong.checkColumns true =
        .ok ⟨[4, 6, 72057594037927935], [0, 1], 2, false⟩ := rfl
    exact ⟨_, hfound, (hcheck true).2 _ 7 hfound, rfl⟩
  · have steady : Statement.sampleSource.Steady := fun h => by cases h
    have hplay := ((Statement.sampleWrong.answerAudit true).play_eq_transcript 0 steady rfl
      (⟨by decide, rfl, rfl⟩ : Sink.Tireless { chunk := some 2 })).1
    rw [Statement.transcript_answerAudit] at hplay
    exact ⟨_, hplay, hexchange true 0 _ _ _ 7 hplay⟩
  · have steady : Client.sampleReply.Steady := fun h => by cases h
    have hplay := ((Statement.sampleWrong.client.audit [5, 7, 1]).play_eq_transcript 0 steady rfl
      (⟨by decide, rfl, rfl⟩ : Sink.Tireless {})).1
    rw [Client.transcript_audit] at hplay
    exact ⟨_, hplay, (haudit [5, 7, 1] 0 _ _ _ 7 hplay).2⟩
  · intro host offline served audited
    obtain ⟨millis, -, hsaved, -⟩ :=
      ((hcommands _ hclock sampleDesk).1 sampleArguments).reported _ verification_sampleDesk
    obtain ⟨hpublished, hzero, -⟩ := hsaved fun name hname => writable_sampleDesk name hname _
    have hserved : ∀ {f : Files} (sound : f.Sound), (served f).1.code =
        codeOf (((Files.statement sound).expectedAnswer
          Statement.sampleSource.bytes).result.toOption.map (·.balance.passed)) := by
      intro f sound
      have hends := (hcommands _ hclock
        (peeredDesk f Statement.sampleSource.bytes)).1 servingArguments
      rw [verification_peeredDesk sound] at hends
      exact hends.code_eq fun _ _ => rfl
    have haudited : ∀ sent, (audited sent).1.code =
        codeOf (((Client.spelled longSampleFiles.client).expectedAudit sampleChallenge ⟨0⟩
          sent).result.toOption.map (·.balance.passed)) := by
      intro sent
      have hends := (hcommands _ hclock (peeredDesk longSampleFiles sent)).2 auditingArguments
      rw [auditing_peeredDesk sound_longSampleFiles.client (by decide +kernel)] at hends
      exact hends.code_eq fun _ _ => rfl
    have hsilent := (hcommands _ hclock (peeredDesk longSampleFiles [])).2 auditingArguments
    rw [auditing_peeredDesk sound_longSampleFiles.client (by decide +kernel)] at hsilent
    have hpassed : longSampleFiles.check.passed = true := by decide +kernel
    refine ⟨⟨hzero.2 hpassed, millis, hpublished⟩, ?_, ?_, ?_, ?_,
      hsilent.stopped rfl⟩
    · rw [hserved sound_longSampleFiles]
      decide +kernel
    · rw [hserved sound_wrongSampleFiles]
      decide +kernel
    · rw [haudited]
      decide +kernel
    · rw [haudited]
      decide +kernel

end Sample

end Command

end MatrixAudit
