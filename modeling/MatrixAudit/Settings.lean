import MatrixAudit.Failure
import MatrixAudit.Json.Parser
import MatrixAudit.Json.Printer
import MatrixAudit.Residue
import MatrixAudit.Text.Blank

/-!
# Settings

The settings of the verifier and of the auditor, their defaults and their JSON form. A text that
spells settings is an object with each member once, in any order and among others that are ignored,
or an array of all the values in order.
-/

namespace MatrixAudit

/-- How the verifier checks a statement. -/
inductive Mode where
  /-- Answers one auditor. -/
  | interactive
  /-- Checks the columns without a peer. -/
  | offline
deriving DecidableEq

def Mode.label : Mode → String
  | interactive => "interactive"
  | offline => "offline"

def Mode.title : Mode → String
  | interactive => "Interactive"
  | offline => "Offline"

def Mode.ofLabel? : String → Option Mode
  | "interactive" => some .interactive
  | "offline" => some .offline
  | _ => none

structure VerifierSettings where
  mode : Mode := .interactive
  bind : String := "0.0.0.0"
  port : UInt16 := 2020
  /-- Seconds after which the peer is given up; zero means never. -/
  timeoutSeconds : Word := 60
  parallel : Bool := true
deriving DecidableEq

structure AuditorSettings where
  host : String := "127.0.0.1"
  port : UInt16 := 2020
  /-- Seconds after which the peer is given up; zero means never. -/
  timeoutSeconds : Word := 60
  /-- The seed of the challenge, for one that can be repeated. -/
  seed : Option Word := none
deriving DecidableEq

def deadline? (seconds : Word) : Option Word := if seconds = 0 then none else some seconds

namespace Json

/-- The value of the only member with the given key. -/
def only? (key : String) (members : List (Option String × Json)) : Option Json :=
  match members.filter fun member => member.1 == some key with
  | [member] => some member.2
  | _ => none

/-- The value of the only member with the given key, or null if there is none. -/
def onlyOrNull? (key : String) (members : List (Option String × Json)) : Option Json :=
  match members.filter fun member => member.1 == some key with
  | [] => some .null
  | [member] => some member.2
  | _ => none

/-- The members of an object, if each of its keys denotes a text. -/
def members? : Json → Option (List (Option String × Json))
  | .object members => if members.all fun member => member.1.isSome then some members else none
  | _ => none

def text? : Json → Option String
  | .string text => text
  | _ => none

def bool? : Json → Option Bool
  | .bool value => some value
  | _ => none

/-- A number written as an integer without a sign, if it is at most `greatest`. -/
def nat? (greatest : Nat) : Json → Option Nat
  | .number (.integer false value) => if value ≤ greatest then some value else none
  | _ => none

def word? (value : Json) : Option Word := (value.nat? (UInt64.size - 1)).map UInt64.ofNat

def port? (value : Json) : Option UInt16 := (value.nat? (UInt16.size - 1)).map UInt16.ofNat

/-- A word, or nothing in the place of null. -/
def wordOrNull? : Json → Option (Option Word)
  | .null => some none
  | value => value.word?.map some

/-- A mode, by its label or as an object whose only member has the label as its key and null as its
value. -/
def mode? : Json → Option Mode
  | .string (some label) => Mode.ofLabel? label
  | .object [(some label, .null)] => Mode.ofLabel? label
  | _ => none

end Json

namespace VerifierSettings

def toJson (s : VerifierSettings) : Json :=
  .record [("mode", .text s.mode.label), ("bind", .text s.bind), ("port", .nat s.port.toNat),
    ("io_timeout_secs", .nat s.timeoutSeconds.toNat), ("parallel", .bool s.parallel)]

def ofValues? (mode bind port timeout parallel : Json) : Option VerifierSettings := do
  return ⟨← mode.mode?, ← bind.text?, ← port.port?, ← timeout.word?, ← parallel.bool?⟩

def ofJson? (value : Json) : Option VerifierSettings :=
  match value with
  | .array [mode, bind, port, timeout, parallel] => ofValues? mode bind port timeout parallel
  | value => do
    let members ← value.members?
    ofValues? (← Json.only? "mode" members) (← Json.only? "bind" members)
      (← Json.only? "port" members) (← Json.only? "io_timeout_secs" members)
      (← Json.only? "parallel" members)

def parse? (text : String) : Option VerifierSettings := (Json.parse? text).bind ofJson?

def address (s : VerifierSettings) : String := s!"{s.bind}:{s.port}"

def validate (s : VerifierSettings) : Except Failure Unit :=
  if isBlank s.bind then .error .emptyBindAddress else .ok ()

end VerifierSettings

namespace AuditorSettings

def toJson (s : AuditorSettings) : Json :=
  .record [("host", .text s.host), ("port", .nat s.port.toNat),
    ("io_timeout_secs", .nat s.timeoutSeconds.toNat),
    ("seed", match s.seed with
      | some seed => .nat seed.toNat
      | none => .null)]

def ofValues? (host port timeout seed : Json) : Option AuditorSettings := do
  return ⟨← host.text?, ← port.port?, ← timeout.word?, ← seed.wordOrNull?⟩

/-- Only the seed may be left out. -/
def ofJson? (value : Json) : Option AuditorSettings :=
  match value with
  | .array [host, port, timeout, seed] => ofValues? host port timeout seed
  | value => do
    let members ← value.members?
    ofValues? (← Json.only? "host" members) (← Json.only? "port" members)
      (← Json.only? "io_timeout_secs" members) (← Json.onlyOrNull? "seed" members)

def parse? (text : String) : Option AuditorSettings := (Json.parse? text).bind ofJson?

def address (s : AuditorSettings) : String := s!"{s.host}:{s.port}"

def validate (s : AuditorSettings) : Except Failure Unit :=
  if isBlank s.host then .error .emptyHost
  else if s.port = 0 then .error .zeroPort
  else .ok ()

end AuditorSettings

end MatrixAudit
