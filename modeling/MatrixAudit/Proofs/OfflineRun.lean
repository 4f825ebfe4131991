import MatrixAudit.Command.Run
import MatrixAudit.Proofs.DeskSteps
import MatrixAudit.Proofs.FileRelation

/-!
# The offline verifier

Run on two files that can be read, the offline verifier passes when the files are sound and every
column is balanced, does not pass when they are sound and some column is wrong, and stops when they
are not sound. The files also decide the report that it publishes, apart from the measured time.
-/

namespace MatrixAudit

/-- A report was printed under a title, and it was saved where a path is named. -/
structure Scene.Publishes (before after : Scene) (title : String) (report : Report)
    (path : Option String) : Prop where
  said : after.said = before.said ++ "" :: s!"=== {title} ===" :: report.lines
  saved : match path with
    | none => after.disk = before.disk
    | some path => before.disk.write path report.fileText.toUTF8.toList = .ok after.disk

/-- A report can be saved where a path is named. -/
def Scene.Saves (scene : Scene) (report : Report) (path : Option String) : Prop :=
  ∀ name ∈ path, ∃ disk, scene.disk.write name report.fileText.toUTF8.toList = .ok disk

/-- Whatever is written to the named path can be written there. -/
def Scene.Writable (scene : Scene) (path : Option String) : Prop :=
  ∀ name ∈ path, ∀ contents, ∃ disk, scene.disk.write name contents = .ok disk

namespace Files

/-- The report of an offline run on the files that took some time. -/
def report (f : Files) (millis : ℕ) : Report := .ofColumnCheck f.cols f.rows f.check millis

variable {f : Files} {dataset : List UInt8}
  (same : dataset.take (entryWidth * (f.rows * f.cols)) =
    f.dataset.take (entryWidth * (f.rows * f.cols)))

include same

/-- Only the entries of a dataset file decide whether it has them all. -/
lemma sound_iff_of_take_eq : Sound { f with dataset } ↔ f.Sound := by
  have hlen := congrArg List.length same
  rw [List.length_take, List.length_take] at hlen
  constructor
  · rintro ⟨file, hdataset⟩
    have hdataset' : entryWidth * (f.rows * f.cols) ≤ dataset.length := hdataset
    exact ⟨file, by omega⟩
  · rintro ⟨file, hdataset⟩
    have hdataset' : entryWidth * (f.rows * f.cols) ≤ dataset.length := by omega
    exact ⟨file, hdataset'⟩

/-- What follows the entries of a dataset file is not looked at. -/
lemma check_of_take_eq (sound : f.Sound) : check { f with dataset } = f.check := by
  have sound' : Sound { f with dataset } := (sound_iff_of_take_eq same).2 sound
  have hstatement : statement sound' = statement sound := by
    have hbytes : Dataset.ofBytes f.rows f.cols sound.valid dataset =
        Dataset.ofBytes f.rows f.cols sound.valid f.dataset := by
      rw [← Dataset.ofBytes_take, same, Dataset.ofBytes_take]
    exact congrArg (Statement.mk · (Client.spelled f.client)) hbytes
  -- a statement has one check, however the work is shared, and both files spell the same statement
  let _ := Sharing.halving
  have hcheck := checkColumns_statement sound' true
  rw [hstatement, checkColumns_statement sound] at hcheck
  exact (Except.ok.inj hcheck).symm

end Files

namespace Command
open Steps

/-- How an offline run on some files ends: with the verdict of their check and its report, or, when
they are not sound, without a trace. -/
def OfflineEnd (f : Files) (before : Scene) (path : Option String) (status : Status)
    (after : Scene) : Prop :=
  (f.Sound → status = (if f.check.passed then .passed else .notPassed) ∧
    ∃ millis, before.Publishes after "Verification Result" (f.report millis) path) ∧
  (¬f.Sound → status = .stopped ∧ after = before)

namespace OfflineEnd

variable {f : Files} {before after : Scene} {path : Option String} {status : Status}

lemma of_publishes (sound : f.Sound) {millis : ℕ}
    (h : before.Publishes after "Verification Result" (f.report millis) path) :
    OfflineEnd f before path (if f.check.passed then .passed else .notPassed) after :=
  ⟨fun _ => ⟨rfl, millis, h⟩, fun unsound => absurd sound unsound⟩

lemma of_take_eq {dataset : List UInt8}
    (same : dataset.take (entryWidth * (f.rows * f.cols)) =
      f.dataset.take (entryWidth * (f.rows * f.cols)))
    (h : OfflineEnd { f with dataset } before path status after) :
    OfflineEnd f before path status after := by
  have hsound := Files.sound_iff_of_take_eq same
  refine ⟨fun sound => ?_, fun unsound => h.2 (mt hsound.1 unsound)⟩
  obtain ⟨hstatus, millis, hpublished⟩ := h.1 (hsound.2 sound)
  have hcheck := Files.check_of_take_eq same sound
  have hreport : Files.report { f with dataset } millis = f.report millis :=
    congrArg (Report.ofColumnCheck f.cols f.rows · millis) hcheck
  rw [hcheck] at hstatus
  rw [hreport] at hpublished
  exact ⟨hstatus, millis, hpublished⟩

/-- The files decide the status. -/
lemma code_iff (h : OfflineEnd f before path status after) :
    (status.code = 0 ↔ f.Sound ∧ ∀ k < f.cols, f.Balanced k) ∧
    (status.code = 1 ↔ f.Sound ∧ ∃ k < f.cols, ¬f.Balanced k) ∧
    (status.code = 2 ↔ ¬f.Sound) := by
  have hsome : (∃ k < f.cols, ¬f.Balanced k) ↔ ¬∀ k < f.cols, f.Balanced k := by
    simp only [not_forall, exists_prop]
  rw [hsome, ← f.check_passed_iff]
  by_cases sound : f.Sound
  · rw [(h.1 sound).1]
    cases f.check.passed <;> simp [sound, Status.code]
  · rw [(h.2 sound).1]
    simp [sound, Status.code]

lemma status_eq {before' after' : Scene} {status' : Status}
    (h : OfflineEnd f before path status after) (h' : OfflineEnd f before' path status' after') :
    status' = status := by
  by_cases sound : f.Sound
  · rw [(h.1 sound).1, (h'.1 sound).1]
  · rw [(h.2 sound).1, (h'.2 sound).1]

end OfflineEnd

/-- Saves a report where a path is named. -/
def saveReport (host : Host (StateM Desk)) (report : Report) (path : Option String) :
    Steps (StateM Desk) Unit := do
  if let some path := path then
    Steps.doing s!"Failed to write report: {path}" do
      let written ← host.writeFile path report.fileText
      Steps.need (written.mapError (.inaccessible path))
    host.info s!"Report saved to {path}"

section Served

variable {ρ : Type} {part : Network → ρ} {host : Host (StateM Desk)} (serves : host.Serves part)
  (stage : Stage part)

include serves

lemma loadClient_ends (path : String) :
    (loadClient host path).EndsIn stage (outcome (Client.ofFile path (stage.disk.read path)))
      stage := by
  unfold loadClient
  apply (ends_readFile serves path stage).then
  dsimp only
  split
  · split
    · apply (ends_log serves .debug _ stage).then
      exact ends_needWarned serves _ _ _ stage
    · exact ends_needWarned serves _ _ _ stage
  · exact ends_needWarned serves _ _ _ stage

lemma loadDataset_ends (path : String) (rows cols : ℕ) :
    (loadDataset host path rows cols).EndsIn stage
      (outcome (Dataset.ofFile path (stage.disk.read path) rows cols)) stage := by
  unfold loadDataset
  apply (ends_readFile serves path stage).then
  dsimp only
  split
  · split
    · exact (ends_log serves .warn _ stage).then (ends_need _ stage)
    · exact ends_need _ stage
  · exact ends_need _ stage

/-- Loading ends as the files on the disk decide, and only logs. -/
theorem loadStatement_ends (datasetPath clientPath : String) :
    (loadStatement host datasetPath clientPath).EndsIn stage
      (outcome (Statement.load stage.disk.read datasetPath clientPath)) stage := by
  unfold loadStatement Statement.load
  apply (ends_log serves .info _ stage).then
  apply (loadClient_ends serves stage clientPath).bind_outcome
  intro client
  apply (ends_log serves .info _ stage).then
  apply (ends_log serves .info _ stage).then
  apply (loadDataset_ends serves stage datasetPath client.m client.n).bind_outcome
  intro dataset
  exact ends_need _ stage

/-- A check that reaches a verdict is reported with the time it took. -/
lemma checkOffline_leads [Sharing] {s : Statement} {settings : VerifierSettings}
    {check : ColumnCheck} (hcheck : s.checkColumns settings.parallel = .ok check) :
    (checkOffline host s settings).Leads stage fun result after => after = stage ∧
      ∃ millis, result = .ok (.ofColumnCheck s.client.n s.client.m check millis) := by
  unfold checkOffline
  apply leads_lift_bind (serves.now stage)
  intro start
  have hneed :=
    (ends_need (s.checkColumns settings.parallel) stage).doing "Dual check failed to run"
  rw [hcheck] at hneed ⊢
  apply hneed.then
  apply (ends_log serves .debug _ stage).then
  apply leads_lift_bind (acts_since serves _ stage)
  intro elapsed
  apply (ends_log serves .info _ stage).then
  apply (ends_pure _ stage).mono
  rintro _ _ ⟨rfl, rfl⟩
  exact ⟨rfl, _, rfl⟩

lemma saveReport_ends {report : Report} {path : String} {disk : Disk}
    (h : stage.disk.write path report.fileText.toUTF8.toList = .ok disk) :
    (saveReport host report (some path)).EndsIn stage (.ok ()) { stage with disk } := by
  let saved : Stage part := { stage with disk }
  have hwrite : EndsIn (liftM (host.writeFile path report.fileText)) stage (.ok (.ok ())) saved :=
    ends_writeFile serves h
  have hneed : EndsIn (need ((Except.ok () : Except Fault Unit).mapError (.inaccessible path)))
      saved (.ok ()) saved := ends_need _ saved
  apply EndsIn.then
  · apply EndsIn.doing_ok
    exact hwrite.then hneed
  · exact ends_log serves .info _ _

/-- Publishing prints the report, and goes on to save it. -/
lemma publish_leads_of_save (title : String) {report : Report} {path : Option String}
    {post : Except Trouble Unit → Stage part → Prop}
    (hsave : (saveReport host report path).Leads
      (stage.say ("" :: s!"=== {title} ===" :: report.lines)) post) :
    (publish host title report path).Leads stage post := by
  have hsay : ((stage.say [""]).say [s!"=== {title} ==="]).say report.lines =
      stage.say ("" :: s!"=== {title} ===" :: report.lines) := by
    rw [Stage.say_say, Stage.say_say]
    rfl
  unfold publish
  apply (ends_plain serves "" stage).then
  apply (ends_plain serves _ _).then
  apply (ends_plainLines serves report.lines _).then
  rw [hsay]
  exact hsave

lemma publish_leads (title : String) (report : Report) {path : Option String}
    (saves : stage.Saves report path) :
    (publish host title report path).Leads stage fun result after =>
      result = .ok () ∧ stage.Publishes after.toScene title report path := by
  apply publish_leads_of_save serves stage
  cases path with
  | none =>
    apply (ends_pure () _).mono
    rintro _ _ ⟨rfl, rfl⟩
    exact ⟨rfl, rfl, rfl⟩
  | some path =>
    obtain ⟨disk, hdisk⟩ := saves path rfl
    apply (saveReport_ends serves (stage.say _) hdisk).mono
    rintro _ _ ⟨rfl, rfl⟩
    exact ⟨rfl, rfl, hdisk⟩

theorem verify_acts [Sharing] {arguments : VerifierArguments} {f : Files}
    (offline : arguments.settings.mode = .offline)
    (named : isBlank arguments.settings.bind = false)
    (hdataset : stage.disk.read arguments.dataset = .ok f.dataset)
    (hclient : stage.disk.read arguments.client = .ok f.client)
    (hpath : stage.Writable arguments.report) :
    Acts (verify host arguments) stage fun status after =>
      OfflineEnd f stage.toScene arguments.report status after.toScene := by
  have serves' := serves.withVerbosity arguments.verbose
  have hvalid : arguments.settings.validate = .ok () := by
    unfold VerifierSettings.validate
    rw [named]
    rfl
  have hneed := ends_need arguments.settings.validate stage
  rw [hvalid] at hneed
  unfold verify
  apply acts_finish serves'
  unfold verifySteps
  dsimp only
  rw [hvalid, offline]
  apply hneed.then
  apply (ends_log serves' .info _ stage).then
  apply (ends_log serves' .info _ stage).then
  apply (ends_log serves' .info _ stage).then
  apply (ends_log serves' .info _ stage).then
  apply leads_lift_bind (serves'.now stage)
  intro start
  -- so far only log lines were printed, and whether loading succeeds is whether the files are sound
  have hload := (loadStatement_ends serves' stage arguments.dataset arguments.client).doing
    "Failed to load inputs"
  by_cases sound : f.Sound
  · rw [Files.load_eq_ok sound hdataset hclient] at hload
    apply hload.then
    apply leads_lift_bind (acts_since serves' _ stage)
    intro loading
    apply (ends_log serves' .info _ stage).then
    apply (checkOffline_leads serves' stage (Files.checkColumns_statement sound _)).bind
    · rintro report after ⟨hafter, millis, hreport⟩
      rw [hafter]
      cases hreport
      apply (publish_leads serves' stage "Verification Result" (f.report millis)
        fun name hname => hpath name hname _).bind
      · rintro _ after ⟨-, hpublished⟩
        apply (ends_pure f.check.passed after).mono
        rintro _ _ ⟨rfl, rfl⟩
        rw [status_ok]
        exact OfflineEnd.of_publishes sound hpublished
      · rintro trouble _ ⟨hvalue, -⟩
        cases hvalue
    · rintro trouble _ ⟨-, millis, hvalue⟩
      cases hvalue
  · cases hstatement : Statement.load stage.disk.read arguments.dataset arguments.client with
    | ok s => exact absurd (Files.sound_of_load hdataset hclient hstatement) sound
    | error failure =>
      rw [hstatement] at hload
      apply hload.stop.mono
      rintro _ _ ⟨rfl, rfl⟩
      exact ⟨fun h => absurd h sound, fun _ => ⟨rfl, rfl⟩⟩

end Served

/-- Run offline on two files that can be read, whatever the clock says, the verifier gives zero when
the files are sound and every column is balanced, one when they are sound and some column is not,
and two otherwise. Of sound files it publishes the report of their check; of others it says nothing.
Bytes behind the entries of the dataset file change neither the status nor the report. -/
theorem verify_offline [Sharing] {now : StateM Desk ℕ}
    (hnow : ∀ desk, (now.run desk).2.scene = desk.scene) {arguments : VerifierArguments}
    (offline : arguments.settings.mode = .offline)
    (named : isBlank arguments.settings.bind = false) (f : Files) {desk : Desk}
    (hdataset : desk.disk.read arguments.dataset = .ok f.dataset)
    (hclient : desk.disk.read arguments.client = .ok f.client)
    (hpath : desk.scene.Writable arguments.report) :
    let run := (verify ({ Desk.host with now := now } : Host (StateM Desk)) arguments).run desk
    (run.1.code = 0 ↔ f.Sound ∧ ∀ k < f.cols, f.Balanced k) ∧
    (run.1.code = 1 ↔ f.Sound ∧ ∃ k < f.cols, ¬f.Balanced k) ∧
    (run.1.code = 2 ↔ ¬f.Sound) ∧
    (f.Sound → ∃ millis, desk.scene.Publishes run.2.scene "Verification Result" (f.report millis)
      arguments.report) ∧
    (¬f.Sound → run.2.scene = desk.scene) ∧
    ∀ (now' : StateM Desk ℕ) (desk' : Desk) (dataset' : List UInt8),
      (∀ desk, (now'.run desk).2.scene = desk.scene) →
      dataset'.take (entryWidth * (f.rows * f.cols)) =
        f.dataset.take (entryWidth * (f.rows * f.cols)) →
      desk'.disk.read arguments.dataset = .ok dataset' →
      desk'.disk.read arguments.client = .ok f.client → desk'.scene.Writable arguments.report →
      let run' := (verify ({ Desk.host with now := now' } : Host (StateM Desk)) arguments).run desk'
      run'.1 = run.1 ∧
      (f.Sound → ∃ millis, desk'.scene.Publishes run'.2.scene "Verification Result"
        (f.report millis) arguments.report) := by
  intro run
  -- nothing of the network matters, so a clock may change what lies there
  have serves : ∀ {now : StateM Desk ℕ}, (∀ desk, (now.run desk).2.scene = desk.scene) →
      ({ Desk.host with now := now } : Host (StateM Desk)).Serves fun _ => () :=
    fun hnow => Desk.serves_host fun desk => congrArg (Stage.mk · ()) (hnow desk)
  have hend : OfflineEnd f desk.scene arguments.report run.1 run.2.scene :=
    (verify_acts (serves hnow) (desk.stage _) offline named hdataset hclient hpath).onDesk desk rfl
  obtain ⟨hpassed, hfailed, hstopped⟩ := hend.code_iff
  refine ⟨hpassed, hfailed, hstopped, fun sound => (hend.1 sound).2,
    fun unsound => (hend.2 unsound).2, ?_⟩
  intro now' desk' dataset' hnow' same hdataset' hclient' hpath' run'
  let g : Files := { f with dataset := dataset' }
  have hend' : OfflineEnd g desk'.scene arguments.report run'.1 run'.2.scene :=
    (verify_acts (serves hnow') (desk'.stage _) (f := g) offline named hdataset' hclient'
      hpath').onDesk desk' rfl
  have hsame := hend'.of_take_eq same
  exact ⟨hend.status_eq hsame, fun sound => (hsame.1 sound).2⟩

/-- The sample's files with bytes behind the entries. -/
def longSampleFiles : Files := { sampleFiles with dataset := sampleFiles.dataset ++ [1, 2, 3] }

def sampleDesk : Desk where
  disk.files := [(["d"], longSampleFiles.dataset), (["c"], longSampleFiles.client)]

def sampleArguments : VerifierArguments where
  dataset := "d"
  client := "c"
  settings := { mode := .offline }
  report := some "r"
  verbose := true

lemma splitOn_sampleNames : ∀ name ∈ ["d", "c", "r"], name.splitOn "/" = [name] := by
  -- splitting recurses on a measure that the kernel does not evaluate, so it is unfolded by hand
  unfold String.splitOn
  simp only [List.forall_mem_cons]
  refine ⟨?_, ?_, ?_, ?_⟩
  · rw [if_neg (by decide), String.splitOnAux, String.splitOnAux]
    decide +kernel
  · rw [if_neg (by decide), String.splitOnAux, String.splitOnAux]
    decide +kernel
  · rw [if_neg (by decide), String.splitOnAux, String.splitOnAux]
    decide +kernel
  · exact fun _ h => absurd h List.not_mem_nil

lemma read_sampleNames (dataset client : List UInt8) :
    let disk : Disk := { files := [(["d"], dataset), (["c"], client)] }
    disk.read "d" = .ok dataset ∧ disk.read "c" = .ok client := by
  intro disk
  have hdataset : disk.read "d" = .ok dataset := by
    unfold Disk.read Disk.route
    rw [splitOn_sampleNames "d" (by decide)]
    rfl
  have hclient : disk.read "c" = .ok client := by
    unfold Disk.read Disk.route
    rw [splitOn_sampleNames "c" (by decide)]
    rfl
  exact ⟨hdataset, hclient⟩

lemma writable_sampleDesk : sampleDesk.scene.Writable (some "r") := by
  intro name hname contents
  cases hname
  have htarget : sampleDesk.disk.target "r" = .ok ["r"] := by
    unfold Disk.target Disk.route
    rw [splitOn_sampleNames "r" (by decide)]
    decide +kernel
  unfold Disk.write
  exact ⟨_, congrArg (Except.bind · _) htarget⟩

lemma sound_longSampleFiles : longSampleFiles.Sound :=
  ⟨⟨by decide +kernel, by decide +kernel, by decide +kernel⟩, by decide +kernel⟩

attribute [local instance] Sharing.halving

theorem verify_offline_sample :
    sampleDesk.disk.read "d" = .ok longSampleFiles.dataset ∧
    sampleDesk.disk.read "c" = .ok longSampleFiles.client ∧
    let run := (verify ({ Desk.host with now := pure 5 } : Host (StateM Desk)) sampleArguments).run
      sampleDesk
    run.1.code = 0 ∧ ∃ millis, sampleDesk.scene.Publishes run.2.scene "Verification Result"
      (longSampleFiles.report millis) (some "r") := by
  obtain ⟨hreadData, hreadClient⟩ :=
    read_sampleNames longSampleFiles.dataset longSampleFiles.client
  have sound := sound_longSampleFiles
  have hpassed : longSampleFiles.check.passed = true := by decide +kernel
  have hbind : isBlank sampleArguments.settings.bind = false := by decide +kernel
  have hclock : ∀ desk, ((pure 5 : StateM Desk ℕ).run desk).2.scene = desk.scene := fun _ => rfl
  obtain ⟨hzero, -, -, hpublished, -⟩ :=
    verify_offline hclock rfl hbind longSampleFiles hreadData hreadClient writable_sampleDesk
  exact ⟨hreadData, hreadClient, hzero.2 ⟨sound, longSampleFiles.check_passed_iff.1 hpassed⟩,
    hpublished sound⟩

end Command

end MatrixAudit
