import MatrixAudit.Bytes
import MatrixAudit.Channel.Reading
import MatrixAudit.Channel.Sink

/-!
# Exact writes to the peer

Each operation offers all the bytes of its value at once and succeeds only if every one was taken.
-/

namespace MatrixAudit

/-- A computation that writes to a sink and may fail. -/
abbrev Writing := EStateM Failure Sink

namespace Writing

def bytes (context : String) (offer : List UInt8) : Writing Unit := fun sink =>
  match sink.writeAll offer with
  | .ok () next => .ok () next
  | .error fault next => .error (.disconnected context fault) next

def byte (context : String) (value : UInt8) : Writing Unit := bytes context [value]

def word (context : String) (value : Word) : Writing Unit :=
  bytes context (LittleEndian.encode wordWidth value.toNat)

def words (context : String) (values : List Word) : Writing Unit :=
  bytes context (LittleEndian.encodeWords wordWidth values)

def flush (context : String) : Writing Unit := fun sink =>
  match sink.flush with
  | .ok () next => .ok () next
  | .error fault next => .error (.disconnected context fault) next

end Writing

end MatrixAudit
