import MatrixAudit.Command.Address
import MatrixAudit.Command.Host
import MatrixAudit.Disk

/-!
# Commands on a desk

A desk stands in for a machine: a disk in memory, a clock that stands still, a network that gives
the same answer each time, and a script of what the peer sends. Commands on a desk are pure
functions. A desk has no links unless it is given some.
-/

namespace MatrixAudit

/-- What a command finds around it and what it leaves behind. -/
structure Desk where
  disk : Disk := {}
  /-- What the command printed, last line first. -/
  printed : List OutputLine := []
  listening : String → Except Fault String := Address.listenAlone
  connecting : String → Except Fault Unit := Address.connectAlone
  incoming : Source := { bytes := [] }
  outgoing : Sink := {}
  key : ChaCha.Key := ⟨0, 0, 0, 0, 0, 0, 0, 0⟩

namespace Desk

def host : Host (StateM Desk) where
  readFile path := return (← get).disk.read path
  writeFile path contents := do
    let desk ← get
    match desk.disk.write path contents.toUTF8.toList with
    | .ok disk =>
      set { desk with disk }
      return .ok ()
    | .error fault => return .error fault
  put line := modify fun desk => { desk with printed := line :: desk.printed }
  now := return 0
  freshKey := return (← get).key
  listen address := return (← get).listening address
  accept _ := return .ok "peer"
  connect address _ := return (← get).connecting address
  converse remark dialogue := do
    let desk ← get
    let play := dialogue.play 0 desk.incoming desk.outgoing
    set { desk with incoming := play.source, outgoing := play.sink }
    for text in play.remarks do
      remark text
    return play.result

end Desk

end MatrixAudit
