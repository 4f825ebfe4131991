import MatrixAudit.Proofs.OfflineRun
import MatrixAudit.Proofs.PeerSteps
import MatrixAudit.Proofs.ReportTruth
import MatrixAudit.Proofs.VerifierTranscript

/-!
# What a command finds

The arguments, the files on the disk and the network decide what a command finds: a report of the
check or of the exchange that it completes, apart from the time this takes, or nothing. Such a
report is true. The steps of a command on a desk come to just this, and leave the scene as it is.
-/

namespace MatrixAudit

/-- The key that the auditor draws its challenge with. -/
def AuditorSettings.keyOn (settings : AuditorSettings) (network : Network) : ChaCha.Key :=
  match settings.seed with
  | some seed => Sampler.seedKey seed
  | none => network.key

namespace Command
open Steps

section Findings

/-- The report of the check or of the exchange that the verifier completes, apart from the time it
takes. -/
def completed [Sharing] (network : Network) (s : Statement) (settings : VerifierSettings) :
    Option (ℕ → Report) :=
  match settings.mode with
  | .offline => do
    let check ← (s.checkColumns settings.parallel).toOption
    return .ofColumnCheck s.client.n s.client.m check
  | .interactive => do
    let _ ← (network.listening settings.address).toOption
    let exchange ←
      ((s.answerAudit settings.parallel).play 0 network.incoming network.outgoing).result.toOption
    return .ofExchange s.client.n s.client.m exchange

/-- What the verifier finds. -/
def verification [Sharing] (disk : Disk) (network : Network) (arguments : VerifierArguments) :
    Option (ℕ → Report) := do
  arguments.settings.validate.toOption
  let s ← (Statement.load disk.read arguments.dataset arguments.client).toOption
  completed network s arguments.settings

/-- The auditor's side of the exchange that it completes. -/
def challenged (network : Network) (c : Client) (settings : AuditorSettings) : Option Audit := do
  let (challenge, _) ← (Sampler.ofKey (settings.keyOn network)).sampleMany c.n
  (network.connecting settings.address).toOption
  ((c.audit challenge).play 0 network.incoming network.outgoing).result.toOption

/-- What the auditor finds. -/
def auditing (disk : Disk) (network : Network) (arguments : AuditorArguments) :
    Option (ℕ → Report) := do
  arguments.settings.validate.toOption
  let c ← (Client.ofFile arguments.client (disk.read arguments.client)).toOption
  let audit ← challenged network c arguments.settings
  return .ofAudit c.n c.m audit

/-- The report tells the truth about the statement in the files that the verifier was given. -/
def TrueToFiles (disk : Disk) (arguments : VerifierArguments) (report : Report) : Prop :=
  ∃ s, Statement.load disk.read arguments.dataset arguments.client = .ok s ∧
    match arguments.settings.mode with
    | .offline => report.TrueToColumns s.client.n
    | .interactive => ∃ challenge response, report.TrueToExchange s.client challenge response

/-- The report tells the truth about the client in the file that the auditor was given. -/
def TrueToClient (disk : Disk) (arguments : AuditorArguments) (report : Report) : Prop :=
  ∃ c challenge response, Client.ofFile arguments.client (disk.read arguments.client) = .ok c ∧
    report.TrueToExchange c challenge response

variable {disk : Disk} {network : Network} {report : ℕ → Report}

lemma eq_ok_of_toOption {ε α : Type} {result : Except ε α} {value : α}
    (h : result.toOption = some value) : result = .ok value := by
  cases result with
  | ok found =>
    cases h
    rfl
  | error failure => cases h

lemma trueToFiles_of_verification [Sharing] {arguments : VerifierArguments}
    (h : verification disk network arguments = some report) (millis : ℕ) :
    TrueToFiles disk arguments (report millis) := by
  obtain ⟨-, -, h⟩ := Option.bind_eq_some_iff.1 h
  obtain ⟨s, hs, h⟩ := Option.bind_eq_some_iff.1 h
  have hload := eq_ok_of_toOption hs
  have fits : s.Fits := Statement.Obtained.fits (Or.inr ⟨_, _, _, hload⟩)
  refine ⟨s, hload, ?_⟩
  unfold completed at h
  split at h
  · obtain ⟨check, hcheck, hreport⟩ := Option.bind_eq_some_iff.1 h
    cases hreport
    exact Statement.trueToColumns_of_checkColumns fits (eq_ok_of_toOption hcheck) millis
  · obtain ⟨-, -, h⟩ := Option.bind_eq_some_iff.1 h
    obtain ⟨exchange, hexchange, hreport⟩ := Option.bind_eq_some_iff.1 h
    cases hreport
    exact ⟨_, _, Statement.trueToExchange_of_play fits (eq_ok_of_toOption hexchange) millis⟩

lemma trueToClient_of_auditing {arguments : AuditorArguments}
    (h : auditing disk network arguments = some report) (millis : ℕ) :
    TrueToClient disk arguments (report millis) := by
  obtain ⟨-, -, h⟩ := Option.bind_eq_some_iff.1 h
  obtain ⟨c, hc, h⟩ := Option.bind_eq_some_iff.1 h
  obtain ⟨audit, haudit, hreport⟩ := Option.bind_eq_some_iff.1 h
  obtain ⟨⟨challenge, rest⟩, -, haudit⟩ := Option.bind_eq_some_iff.1 haudit
  obtain ⟨-, -, hplay⟩ := Option.bind_eq_some_iff.1 haudit
  cases hreport
  have hfile := eq_ok_of_toOption hc
  obtain ⟨valid, hweights, hclaimed⟩ := (Client.made_of_ofFile hfile).sound
  exact ⟨c, _, _, hfile, (Client.trueToExchange_of_play valid hweights hclaimed
    (eq_ok_of_toOption hplay) millis).2⟩

end Findings

/-- Connects to the verifier and audits it about the challenge. -/
def auditOn (host : Host (StateM Desk)) (c : Client) (settings : AuditorSettings)
    (challenge : List Word) : Steps (StateM Desk) Audit := do
  let connected ← host.connect settings.address (deadline? settings.timeoutSeconds)
  needConnection s!"connecting to {settings.address}" connected
  host.info s!"Connected to {settings.address}"
  let ended ← host.converse host.debug (c.audit challenge)
  need ended

/-- The steps came to what there was to find, and took some time; or they stopped because there was
nothing. -/
inductive Timed {α : Type} (found : Option (ℕ → α)) : Except Trouble α → Prop where
  | found {value : ℕ → α} (h : found = some value) (millis : ℕ) : Timed found (.ok (value millis))
  | nothing (h : found = none) (trouble : Trouble) : Timed found (.error trouble)

section Met

variable {host : Host (StateM Desk)} (meets : host.Meets) (stage : Stage (id : Network → Network))

include meets

lemma checkOffline_timed [Sharing] {s : Statement} (fits : s.Fits) {settings : VerifierSettings}
    (offline : settings.mode = .offline) : (checkOffline host s settings).Leads stage
      fun result after => after.toScene = stage.toScene ∧
        Timed (completed stage.behind s settings) result := by
  obtain ⟨check, hcheck, -⟩ := Statement.exists_computed fits settings.parallel
  have hfound : completed stage.behind s settings =
      some (.ofColumnCheck s.client.n s.client.m check) := by
    rw [completed, offline]
    dsimp only
    rw [hcheck]
    rfl
  apply (checkOffline_leads meets.toServes stage hcheck).mono
  rintro _ _ ⟨rfl, millis, rfl⟩
  exact ⟨rfl, .found hfound millis⟩

/-- A conversation comes to what the dialogue comes to on the network. -/
lemma converse_bind {α β : Type} (dialogue : Dialogue α)
    {next : Except Failure α → Steps (StateM Desk) β} {post : Except Trouble β → Stage id → Prop}
    (hnext : ∀ after : Stage id, after.toScene = stage.toScene → Leads
      (next (dialogue.play 0 stage.behind.incoming stage.behind.outgoing).result) after post) :
    (liftM (host.converse host.debug dialogue) >>= next).Leads stage post := by
  have hconverse := meets.converse host.debug dialogue stage (meets.log .debug)
  apply Leads.bind (leads_lift hconverse)
  · rintro ended after ⟨_, ⟨⟩, rfl, hscene⟩
    exact hnext after hscene
  · rintro trouble after ⟨_, hvalue, -⟩
    cases hvalue

lemma serveOnce_timed [Sharing] (s : Statement) {settings : VerifierSettings}
    (interactive : settings.mode = .interactive) : (serveOnce host s settings).Leads stage
      fun result after => after.toScene = stage.toScene ∧
        Timed (completed stage.behind s settings) result := by
  have serves := meets.toServes
  let play := (s.answerAudit settings.parallel).play 0 stage.behind.incoming stage.behind.outgoing
  have hfound : completed stage.behind s settings =
      (stage.behind.listening settings.address).toOption.bind fun _ =>
        play.result.toOption.bind fun exchange =>
          some (.ofExchange s.client.n s.client.m exchange) := by
    rw [completed, interactive]
    rfl
  have hlisten : Finds (doing "Failed to start listener" do
      let listening ← liftM (host.listen settings.address)
      needConnection s!"binding {settings.address}" listening) stage
        (stage.behind.listening settings.address).toOption :=
    Finds.doing ((ends_lift (meets.listen _ stage)).then (finds_needConnection _ _ stage)) _
  have hexchange : Leads (doing "Audit exchange failed" do
      let accepted ← liftM (host.accept (deadline? settings.timeoutSeconds))
      let peer ← needConnection "accepting a connection" accepted
      liftM (host.info s!"Connection from {peer}")
      let ended ← liftM (host.converse host.debug (s.answerAudit settings.parallel))
      let exchange ← need ended
      liftM (host.debug "connection closed")
      return exchange) stage fun result after =>
        result.toOption = play.result.toOption ∧ after.toScene = stage.toScene := by
    apply Leads.doing (fun value after =>
      value = play.result.toOption ∧ after.toScene = stage.toScene)
    apply Leads.bind (leads_lift (meets.accept _ stage))
    swap
    · rintro trouble after ⟨_, hvalue, -⟩
      cases hvalue
    rintro accepted after ⟨_, ⟨⟩, ⟨peer, rfl⟩, hafter⟩
    rw [hafter]
    apply (ends_pure peer stage).then
    apply (ends_log serves .info _ _).then
    apply converse_bind meets stage
    intro after hscene
    apply (finds_need play.result after).then
    · intro exchange hresult
      apply (ends_log serves .debug _ after).then
      apply (ends_pure exchange after).mono
      rintro _ _ ⟨rfl, rfl⟩
      exact ⟨hresult.symm, hscene⟩
    · intro hnone trouble
      exact ⟨hnone.symm, hscene⟩
  unfold serveOnce
  rw [hfound]
  apply hlisten.then
  · intro address haddress
    rw [haddress, Option.bind_some]
    apply (ends_log serves .info _ stage).then
    apply leads_lift_bind (serves.now stage)
    intro start
    apply hexchange.bind
    · rintro exchange after ⟨hresult, hscene⟩
      apply leads_lift_bind (acts_since serves _ after)
      intro elapsed
      apply (ends_log serves .info _ after).then
      apply (ends_pure _ after).mono
      rintro _ _ ⟨rfl, rfl⟩
      exact ⟨hscene, .found (by rw [← hresult]; rfl) _⟩
    · rintro trouble after ⟨hresult, hscene⟩
      exact ⟨hscene, .nothing (by rw [← hresult]; rfl) trouble⟩
  · intro hnone trouble
    exact ⟨rfl, .nothing (by rw [hnone]; rfl) trouble⟩

lemma auditOn_leads (c : Client) (settings : AuditorSettings) (challenge : List Word) :
    (auditOn host c settings challenge).Leads stage fun result after =>
      result.toOption = ((stage.behind.connecting settings.address).toOption.bind fun _ =>
        ((c.audit challenge).play 0 stage.behind.incoming
          stage.behind.outgoing).result.toOption) ∧ after.toScene = stage.toScene := by
  unfold auditOn
  apply (ends_lift (meets.connect _ _ stage)).then
  apply (finds_needConnection _ _ stage).then
  · intro _ hconnected
    rw [hconnected, Option.bind_some]
    apply (ends_log meets.toServes .info _ stage).then
    apply converse_bind meets stage
    intro after hscene
    apply (finds_need _ after).mono
    rintro _ _ ⟨rfl, hresult⟩
    exact ⟨hresult, hscene⟩
  · intro hnone trouble
    rw [hnone]
    exact ⟨rfl, rfl⟩

lemma challengeVerifier_leads (c : Client) (settings : AuditorSettings) :
    (challengeVerifier host c settings).Leads stage fun result after =>
      result.toOption = challenged stage.behind c settings ∧ after.toScene = stage.toScene := by
  have hundrawn : Leads (throw Trouble.endlessSampling : Steps (StateM Desk) Audit) stage
      fun result after => result.toOption = none ∧ after.toScene = stage.toScene := by
    apply (acts_pure (Except.error Trouble.endlessSampling) stage).mono
    rintro _ _ ⟨rfl, rfl⟩
    exact ⟨rfl, rfl⟩
  unfold challengeVerifier challenged AuditorSettings.keyOn
  cases settings.seed with
  | some seed =>
    apply (ends_pure (Sampler.seedKey seed) stage).then
    dsimp only
    cases (Sampler.ofKey (Sampler.seedKey seed)).sampleMany c.n with
    | none => exact hundrawn
    | some drawn => exact auditOn_leads meets stage c settings drawn.1
  | none =>
    apply (ends_lift (meets.freshKey stage)).then
    dsimp only
    cases (Sampler.ofKey stage.behind.key).sampleMany c.n with
    | none => exact hundrawn
    | some drawn => exact auditOn_leads meets stage c settings drawn.1

end Met

end Command

end MatrixAudit
