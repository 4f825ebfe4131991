/-!
# What can go wrong

One constructor for each cause, with the data its message needs. The wording is in
`Failure.message` alone.
-/

namespace MatrixAudit

/-- Where the bytes being read come from. -/
inductive Origin where
  | clientFile
  | datasetFile
  | peer
deriving DecidableEq

def Origin.label : Origin → String
  | .clientFile => "client file"
  | .datasetFile => "dataset file"
  | .peer => "peer"

/-- A failed input or output operation: whether it means that the input ended, and its text. -/
structure Fault where
  endsInput : Bool
  text : String
deriving DecidableEq

namespace Fault

/-- A read met the end of its input before it was complete. -/
def inputEnded : Fault := ⟨true, "failed to fill whole buffer"⟩

/-- A write was offered bytes and took none of them. -/
def nothingTaken : Fault := ⟨false, "failed to write whole buffer"⟩

def flushFailed : Fault := ⟨false, "flush failed"⟩

def notFound : Fault := ⟨false, "No such file or directory (os error 2)"⟩

/-- A path, or a name on it, is longer than the system takes. -/
def nameTooLong : Fault := ⟨false, "File name too long (os error 36)"⟩

def noSpace : Fault := ⟨false, "No space left on device (os error 28)"⟩

/-- A device that nothing stands behind. -/
def noSuchDevice : Fault := ⟨false, "No such device or address (os error 6)"⟩

def noDevice : Fault := ⟨false, "No such device (os error 19)"⟩

def notADirectory : Fault := ⟨false, "Not a directory (os error 20)"⟩

def isADirectory : Fault := ⟨false, "Is a directory (os error 21)"⟩

def refused : Fault := ⟨false, "Connection refused (os error 111)"⟩

def unreachable : Fault := ⟨false, "Network is unreachable (os error 101)"⟩

def addressUnavailable : Fault := ⟨false, "Cannot assign requested address (os error 99)"⟩

/-- No name server answers. -/
def lookupInterrupted : Fault :=
  ⟨false, "failed to lookup address information: Temporary failure in name resolution"⟩

/-- A host that no name server would be asked for. -/
def lookupRefused : Fault :=
  ⟨false, "failed to lookup address information: Name or service not known"⟩

def nulInName : Fault := ⟨false, "file name contained an unexpected NUL byte"⟩

end Fault

/-- The causes for which a run stops without a verdict. -/
inductive Failure where
  /-- A file ended before `expected` bytes of `context` were read. -/
  | truncated (origin : Origin) (context : String) (expected : Nat)
  /-- A file goes on after its last field. -/
  | overlong (origin : Origin) (extra : Nat)
  /-- A file could not be read for a reason other than its end. -/
  | unreadable (origin : Origin) (context : String) (cause : Fault)
  /-- A file could not be opened, or could not be created. -/
  | inaccessible (path : String) (cause : Fault)
  /-- The channel to the peer failed. -/
  | disconnected (context : String) (cause : Fault)
  /-- The peer opened the exchange with a byte that is no command. -/
  | unknownCommand (byte : UInt8)
  /-- The peer answered the challenge with something else than an acknowledgement. -/
  | wrongAcknowledgement (expected got : UInt8)
  | unequalLengths (left right : Nat)
  /-- `n` columns and `m` rows describe no dataset. -/
  | impossibleDimensions (n m : Nat)
  /-- A matrix entry needs more than seven bytes. -/
  | wideEntry (value : UInt64)
  | emptyBindAddress
  | emptyHost
  | zeroPort
  /-- No buffer of so many bytes can be had. Nobody answers this: the whole run breaks off. -/
  | noRoom (bytes : Nat)
deriving DecidableEq

def hexByte (byte : UInt8) : String :=
  String.ofList [Nat.digitChar (byte.toNat / 16), Nat.digitChar (byte.toNat % 16)]

namespace Failure

/-- What a failed read of `expected` bytes from `origin` amounts to: for a peer a broken connection,
for a file either its early end or a read error. -/
def ofRead (origin : Origin) (context : String) (expected : Nat) (cause : Fault) : Failure :=
  match origin with
  | .peer => disconnected context cause
  | _ => if cause.endsInput then truncated origin context expected
    else unreadable origin context cause

def message : Failure → String
  | truncated origin context expected =>
    s!"short read from {origin.label}: {context} needs {expected} bytes"
  | overlong origin extra =>
    s!"trailing data in {origin.label}: {extra} unexpected bytes"
  | unreadable origin context cause =>
    s!"read error in {origin.label} while reading {context}: {cause.text}"
  | inaccessible path cause => s!"cannot read {path}: {cause.text}"
  | disconnected context cause => s!"connection error while {context}: {cause.text}"
  | unknownCommand byte => s!"protocol error: unrecognized command byte 0x{hexByte byte}"
  | wrongAcknowledgement expected got =>
    s!"protocol error: expected ack 0x{hexByte expected}, got 0x{hexByte got}"
  | unequalLengths left right => s!"dimension mismatch: {left} vs {right}"
  | impossibleDimensions n m => s!"invalid dimensions n={n}, m={m}"
  | wideEntry value => s!"invalid configuration: matrix entry {value} does not fit in 7 bytes"
  | emptyBindAddress => "invalid configuration: bind address is empty"
  | emptyHost => "invalid configuration: host is empty"
  | zeroPort => "invalid configuration: port must be non-zero"
  | noRoom bytes => s!"memory allocation of {bytes} bytes failed"

/-- The fault beneath a failure, where there is one. -/
def cause? : Failure → Option Fault
  | unreadable _ _ cause | inaccessible _ cause | disconnected _ cause => some cause
  | _ => none

end Failure

end MatrixAudit
