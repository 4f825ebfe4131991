import MatrixAudit.Failure

/-!
# What a command prints

Log lines have a level, and control characters that could steer a terminal are spelled out in them;
other lines are printed as they are. A command that stops early leaves one log line with everything
that led to it.
-/

namespace MatrixAudit

inductive LogLevel where
  | debug
  | info
  | warn
  | error
deriving DecidableEq

def LogLevel.label : LogLevel → String
  | debug => "DEBUG"
  | info => "INFO"
  | warn => "WARN"
  | error => "ERROR"

inductive OutputLine where
  | log (level : LogLevel) (text : String)
  | plain (text : String)
deriving DecidableEq

/-- The seven-bit control characters that are spelled out: bell, backspace, form feed, escape and
delete. -/
def steeringCharacters : List Char := ['\x07', '\x08', '\x0c', '\x1b', '\x7f']

/-- A character of a log line as it is printed. All control characters of eight bits are spelled
out; line ends and tabs are left as they are. -/
def logged (c : Char) : List Char :=
  let digits := [Nat.digitChar (c.toNat / 16), Nat.digitChar (c.toNat % 16)]
  if c ∈ steeringCharacters then '\\' :: 'x' :: digits
  else if 0x80 ≤ c.toNat ∧ c.toNat ≤ 0x9f then '\\' :: 'u' :: '\x7b' :: digits ++ ['\x7d']
  else [c]

def OutputLine.shown : OutputLine → String
  | log level text => level.label ++ " " ++ String.ofList (text.toList.flatMap logged)
  | plain text => text

/-- Why a command stopped, and what it was doing, outermost first. -/
inductive Trouble where
  | failed (doing : List String) (failure : Failure)
  /-- The stream of draws holds no challenge. -/
  | endlessSampling
deriving DecidableEq

namespace Trouble

def during (doing : String) : Trouble → Trouble
  | failed inner failure => failed (doing :: inner) failure
  | endlessSampling => endlessSampling

/-- The chain of causes. The fault beneath a failure comes last, though the failure names it too. -/
def text : Trouble → String
  | failed doing failure =>
    ": ".intercalate (doing ++ [failure.message] ++ failure.cause?.toList.map (·.text))
  | endlessSampling => "no challenge can be drawn"

end Trouble

inductive Status where
  | passed
  | notPassed
  | stopped
deriving DecidableEq

def Status.code : Status → UInt32
  | passed => 0
  | notPassed => 1
  | stopped => 2

end MatrixAudit
