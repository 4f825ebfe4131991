import MatrixAudit.Command.Address
import MatrixAudit.Command.Run
import MatrixAudit.SystemError
import Std.Async.DNS
import Std.Async.TCP
import Std.Async.Timer

/-!
# The command line

`verify DATASET CLIENT [PORT]` checks a statement, `audit CLIENT` challenges a verifier. The
commands run on the real machine here: its files, its clock and its TCP sockets.
-/

namespace MatrixAudit

namespace Machine

open Std.Async Std.Net

/-- The open socket and the seconds after which a silent peer is given up. -/
structure Connection where
  socket : TCP.Socket.Client
  deadline : Option UInt64

structure Sockets where
  listener : IO.Ref (Option TCP.Socket.Server)
  connection : IO.Ref (Option Connection)

/-- The number of a system error; some operations report it negated. -/
def errorNumber (code : UInt32) : Nat :=
  if code.toNat < UInt32.size / 2 then code.toNat else UInt32.size - code.toNat

/-- The fault that an error of the system amounts to. -/
def faultOf : IO.Error → Fault
  | .alreadyExists _ code details | .noFileOrDirectory _ code details
  | .invalidArgument _ code details | .permissionDenied _ code details
  | .resourceExhausted _ code details | .inappropriateType _ code details
  | .noSuchThing _ code details | .interrupted _ code details =>
    .ofSystem (errorNumber code) details
  | .otherError code details | .resourceBusy code details | .resourceVanished code details
  | .unsupportedOperation code details | .hardwareFault code details
  | .unsatisfiedConstraints code details | .illegalOperation code details
  | .protocolError code details | .timeExpired code details =>
    .ofSystem (errorNumber code) details
  | error => ⟨false, toString error⟩

/-- Runs a system operation and turns its error into a fault. -/
def attempt {α : Type} (operation : IO α) : IO (Except Fault α) := do
  try
    return .ok (← operation)
  catch error => return .error (faultOf error)

/-- The contents of a file. A directory can be opened, but there is nothing in it to read. -/
def readFile (path : String) : IO (Except Fault (List UInt8)) := do
  if path.toList.contains '\x00' then return .error .nulInName
  else
    match ← attempt (IO.FS.readBinFile path) with
    | .ok contents => return .ok contents.toList
    | .error fault => return .error (if fault = .isADirectory then .noDevice else fault)

def writeFile (path contents : String) : IO (Except Fault Unit) :=
  if path.toList.contains '\x00' then return .error .nulInName
  else attempt (IO.FS.writeFile path contents)

def lookUp (address : String) : IO SocketAddress := do
  let (name, service) := Address.split address
  let port := UInt16.ofNat (Nat.ofDigitChars 10 service.toList 0)
  let found : Array IPAddr ← (DNS.getAddrInfo name service).block
  match found[0]? with
  | some (IPAddr.v4 addr) => return .v4 { addr, port }
  | some (IPAddr.v6 addr) => return .v6 { addr, port }
  | none => throw (IO.userError "no address found")

def addressText : SocketAddress → String
  | .v4 address => toString address
  | .v6 address => toString address

def listen (sockets : Sockets) (address : String) : IO (Except Fault String) := attempt do
  let server ← TCP.Socket.Server.mk
  server.bind (← lookUp address)
  server.listen 128
  sockets.listener.set (some server)
  return addressText (← server.getSockName)

def accept (sockets : Sockets) (deadline : Option UInt64) : IO (Except Fault String) := attempt do
  match ← sockets.listener.get with
  | none => throw (IO.userError "nothing listens")
  | some server =>
    let socket ← (server.accept).block
    sockets.listener.set none
    sockets.connection.set (some ⟨socket, deadline⟩)
    return addressText (← socket.getPeerName)

def connect (sockets : Sockets) (address : String) (deadline : Option UInt64) :
    IO (Except Fault Unit) := attempt do
  let socket ← TCP.Socket.Client.mk
  (socket.connect (← lookUp address)).block
  sockets.connection.set (some ⟨socket, deadline⟩)

def receiveRoom : Nat := 65536

/-- The longest wait for some bytes, in milliseconds. -/
def longestWait : Nat := 1 <<< 40

/-- Some bytes of the peer, or nothing when it has closed its side. -/
def receive (connection : Connection) (most : Nat) : IO (Option ByteArray) :=
  let room := UInt64.ofNat (min most receiveRoom)
  match connection.deadline with
  | none => (connection.socket.recv? room).block
  | some seconds => do
    let wait := Std.Time.Millisecond.Offset.ofNat (min (seconds.toNat * 1000) longestWait)
    let race : Async (Option (Option ByteArray)) := do
      let alarm ← Selector.sleep wait
      Selectable.one #[
        .case (connection.socket.recvSelector room) fun piece => return some piece,
        .case alarm fun _ => return none]
    match ← race.block with
    | some piece => return piece
    | none => throw (IO.Error.otherError 11 "Resource temporarily unavailable")

partial def gather (connection : Connection) (need : Nat) (got : ByteArray) :
    IO (Except Fault (List UInt8)) := do
  if need = 0 then return .ok got.toList
  else
    match ← attempt (receive connection need) with
    | .error fault => return .error fault
    | .ok none => return .error .inputEnded
    | .ok (some piece) => gather connection (need - piece.size) (got ++ piece)

/-- Plays a dialogue on a connection. Bytes are kept until a flush. -/
def converse {α : Type} (remark : String → IO Unit) (connection : Connection) :
    Dialogue α → ByteArray → Nat → Nat → IO (Except Failure α)
  | .done result, _, _, _ => return result
  | .receive request context next, kept, sent, _ => do
    match ← gather connection request.size ByteArray.empty with
    | .ok bytes =>
      converse remark connection (next (request.decode bytes)) kept sent (← IO.monoNanosNow)
    | .error fault => return .error (.disconnected context fault)
  | .send bytes _ next, kept, _, got => do
    converse remark connection next (kept ++ bytes.toByteArray) (← IO.monoNanosNow) got
  | .flush context next, kept, sent, got => do
    match ← attempt (connection.socket.send kept).block with
    | .ok () => converse remark connection next ByteArray.empty sent got
    | .error fault => return .error (.disconnected context fault)
  | .roundTrip next, kept, sent, got =>
    converse remark connection (next (got - sent)) kept sent got
  | .remark text next, kept, sent, got => do
    remark text
    converse remark connection next kept sent got

def converseOnce {α : Type} (sockets : Sockets) (remark : String → IO Unit)
    (dialogue : Dialogue α) : IO (Except Failure α) := do
  match ← sockets.connection.get with
  | none => return .error (.disconnected "cloning the socket" .notFound)
  | some connection =>
    let result ← converse remark connection dialogue ByteArray.empty 0 0
    discard (attempt (connection.socket.shutdown).block)
    return result

def put (line : OutputLine) : IO Unit := do
  IO.println line.shown
  (← IO.getStdout).flush

def freshKey : IO ChaCha.Key := do
  let bytes := (← IO.getRandomBytes 32).toList
  let part (i : Nat) : UInt32 :=
    UInt32.ofNat (LittleEndian.decode ((bytes.drop (4 * i)).take 4))
  return ⟨part 0, part 1, part 2, part 3, part 4, part 5, part 6, part 7⟩

def host (sockets : Sockets) : Host IO where
  readFile := readFile
  writeFile := writeFile
  put := put
  now := IO.monoNanosNow
  freshKey := freshKey
  listen := listen sockets
  accept := accept sockets
  connect := connect sockets
  converse := converseOnce sockets

end Machine

def usageText : String :=
  "usage: verify DATASET CLIENT [PORT] [--mode interactive|offline] [--bind ADDRESS]\n" ++
  "              [--io-timeout SECONDS] [--sequential] [--report PATH] [-v|--verbose]\n" ++
  "       audit CLIENT [--host HOST] [--port PORT] [--seed SEED]\n" ++
  "             [--io-timeout SECONDS] [--report PATH] [-v|--verbose]"

def start {α : Type} (arguments : Except Stop α) (command : Host IO → α → IO Status) :
    IO UInt32 := do
  match arguments with
  | .error .help =>
    IO.println usageText
    return 0
  | .error .usage =>
    IO.eprintln usageText
    return 2
  | .ok arguments =>
    let sockets : Machine.Sockets := ⟨← IO.mkRef none, ← IO.mkRef none⟩
    return (← command (Machine.host sockets) arguments).code

end MatrixAudit

open MatrixAudit in
/-- The first argument names the command. -/
def main (arguments : List String) : IO UInt32 :=
  let _ := Sharing.halving
  match arguments with
  | "verify" :: rest => start (VerifierArguments.ofArguments rest) Command.verify
  | "audit" :: rest => start (AuditorArguments.ofArguments rest) Command.audit
  | _ => start (.error .usage) Command.verify
