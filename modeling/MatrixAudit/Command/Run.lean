import MatrixAudit.Command.Arguments
import MatrixAudit.Command.Host
import MatrixAudit.Report
import MatrixAudit.Sampler

/-!
# The commands

`verify` checks a statement offline or answers one auditor; `audit` challenges a verifier. Each ends
in a verdict or stops in trouble. The verdict is printed, and saved when a file is named for it.
-/

namespace MatrixAudit

variable {m : Type → Type} [Monad m]

namespace Command

def loadClient (host : Host m) (path : String) : Steps m Client := do
  let found ← host.readFile path
  if let .ok contents := found then
    if let .ok header := Client.readHeader.onBytes contents then
      host.debug s!"client header: n={header.1}, m={header.2}"
  let client ← Steps.need (Client.ofFile path found)
  if 0 < client.unreducedCount then
    host.warn (s!"{client.unreducedCount} client vector entries are >= P and will be " ++
      "reduced during arithmetic")
  return client

/-- Reads a dataset file; bytes beyond the entries are only remarked on. -/
def loadDataset (host : Host m) (path : String) (rows cols : Nat) : Steps m Dataset := do
  let found ← host.readFile path
  let expected := entryWidth * (rows * cols)
  if let .ok contents := found then
    if expected < contents.length then
      host.warn (s!"dataset has {contents.length - expected} bytes beyond the " ++
        s!"{rows} x {cols} matrix; ignoring them")
  Steps.need (Dataset.ofFile path found rows cols)

/-- Reads the client file and the dataset that it describes. -/
def loadStatement (host : Host m) (datasetPath clientPath : String) : Steps m Statement := do
  host.info s!"Loading client file {clientPath}"
  let client ← loadClient host clientPath
  host.info s!"Dimensions: n={client.n}, m={client.m}"
  host.info s!"Loading dataset {datasetPath}"
  let dataset ← loadDataset host datasetPath client.m client.n
  Steps.need (Statement.ofParts dataset client)

/-- Prints a report, and saves it where a file is named. -/
def publish (host : Host m) (title : String) (report : Report) (path : Option String) :
    Steps m Unit := do
  host.put (.plain "")
  host.put (.plain s!"=== {title} ===")
  for line in report.lines do
    host.put (.plain line)
  if let some path := path then
    Steps.doing s!"Failed to write report: {path}" do
      let written ← host.writeFile path report.fileText
      Steps.need (written.mapError (.inaccessible path))
    host.info s!"Report saved to {path}"

def checkOffline [Sharing] (host : Host m) (statement : Statement) (settings : VerifierSettings) :
    Steps m Report := do
  let start ← host.now
  let check ← Steps.doing "Dual check failed to run"
    (Steps.need (statement.checkColumns settings.parallel))
  host.debug s!"dual check: {check.mismatchCount} of {check.computed.length} columns differ"
  let elapsed : Duration := ⟨← host.since start⟩
  host.info s!"Dual check time: {elapsed.text}"
  return .ofColumnCheck statement.client.n statement.client.m check elapsed.millis

/-- Answers one auditor. -/
def serveOnce [Sharing] (host : Host m) (statement : Statement) (settings : VerifierSettings) :
    Steps m Report := do
  let address ← Steps.doing "Failed to start listener" do
    let listening ← host.listen settings.address
    Steps.needConnection s!"binding {settings.address}" listening
  host.info s!"Listening on {address}"
  let start ← host.now
  let exchange ← Steps.doing "Audit exchange failed" do
    let accepted ← host.accept (deadline? settings.timeoutSeconds)
    let peer ← Steps.needConnection "accepting a connection" accepted
    host.info s!"Connection from {peer}"
    let ended ← host.converse host.debug (statement.answerAudit settings.parallel)
    let exchange ← Steps.need ended
    host.debug "connection closed"
    return exchange
  let elapsed : Duration := ⟨← host.since start⟩
  host.info s!"Exchange time: {elapsed.text}"
  return .ofExchange statement.client.n statement.client.m exchange elapsed.millis

def verifySteps [Sharing] (host : Host m) (arguments : VerifierArguments) : Steps m Bool := do
  let settings := arguments.settings
  Steps.need settings.validate
  host.info "dualcheck verifier"
  host.info s!"Dataset: {arguments.dataset}"
  host.info s!"Client file: {arguments.client}"
  host.info s!"Mode: {settings.mode.title}"
  let start ← host.now
  let statement ← Steps.doing "Failed to load inputs"
    (loadStatement host arguments.dataset arguments.client)
  let loading : Duration := ⟨← host.since start⟩
  host.info s!"Load time: {loading.text}"
  let report ← match settings.mode with
    | .offline => checkOffline host statement settings
    | .interactive => serveOnce host statement settings
  publish host "Verification Result" report arguments.report
  return report.passed

def challengeVerifier (host : Host m) (client : Client) (settings : AuditorSettings) :
    Steps m Audit := do
  let key ← match settings.seed with
    | some seed => pure (Sampler.seedKey seed)
    | none => host.freshKey
  match (Sampler.ofKey key).sampleMany client.n with
  | none => throw .endlessSampling
  | some (challenge, _) =>
    let connected ← host.connect settings.address (deadline? settings.timeoutSeconds)
    Steps.needConnection s!"connecting to {settings.address}" connected
    host.info s!"Connected to {settings.address}"
    let ended ← host.converse host.debug (client.audit challenge)
    Steps.need ended

def auditSteps (host : Host m) (arguments : AuditorArguments) : Steps m Bool := do
  let settings := arguments.settings
  Steps.need settings.validate
  host.info "dualcheck auditor"
  host.info s!"Client file: {arguments.client}"
  host.info s!"Verifier: {settings.address}"
  let client ← Steps.doing s!"Failed to load client file: {arguments.client}"
    (loadClient host arguments.client)
  host.info s!"Dimensions: n={client.n}, m={client.m}"
  let start ← host.now
  let audit ← Steps.doing "Audit exchange failed" (challengeVerifier host client settings)
  let elapsed : Duration := ⟨← host.since start⟩
  host.info s!"One-way communication time: {audit.elapsed.text}"
  host.info s!"Audit time: {elapsed.text}"
  let report := Report.ofAudit client.n client.m audit elapsed.millis
  publish host "Audit Result" report arguments.report
  return report.passed

def verify [Sharing] (host : Host m) (arguments : VerifierArguments) : m Status :=
  let host := host.withVerbosity arguments.verbose
  Steps.finish host (verifySteps host arguments)

def audit (host : Host m) (arguments : AuditorArguments) : m Status :=
  let host := host.withVerbosity arguments.verbose
  Steps.finish host (auditSteps host arguments)

end Command

end MatrixAudit
