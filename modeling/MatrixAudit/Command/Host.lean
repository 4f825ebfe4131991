import MatrixAudit.Command.Output
import MatrixAudit.Dialogue
import MatrixAudit.Sampler.ChaCha

/-!
# The surroundings of a command

A command reaches files, the network, the clock and its output through a host. The same command runs
on the real machine and on a desk in memory.
-/

namespace MatrixAudit

/-- What a command can do to its surroundings. -/
structure Host (m : Type → Type) where
  readFile : String → m (Except Fault (List UInt8))
  writeFile : String → String → m (Except Fault Unit)
  put : OutputLine → m Unit
  now : m Nat
  freshKey : m ChaCha.Key
  /-- Listens at an address; gives the address as the network knows it. -/
  listen : String → m (Except Fault String)
  /-- Accepts one peer, gives its address and stops listening. -/
  accept : Option UInt64 → m (Except Fault String)
  connect : String → Option UInt64 → m (Except Fault Unit)
  /-- Plays a dialogue with the peer and passes on its remarks. -/
  converse : {α : Type} → (String → m Unit) → Dialogue α → m (Except Failure α)

/-- A command's steps: they use a host and may stop. -/
abbrev Steps (m : Type → Type) := ExceptT Trouble m

namespace Host

variable {m : Type → Type} [Monad m] {α : Type}

/-- A host that leaves debug lines out unless they are wanted. -/
def withVerbosity (verbose : Bool) (host : Host m) : Host m :=
  { host with
    put := fun line =>
      match line with
      | .log .debug _ => if verbose then host.put line else pure ()
      | _ => host.put line }

def debug (host : Host m) (text : String) : m Unit := host.put (.log .debug text)

def info (host : Host m) (text : String) : m Unit := host.put (.log .info text)

def warn (host : Host m) (text : String) : m Unit := host.put (.log .warn text)

def since (host : Host m) (start : Nat) : m Nat := return (← host.now) - start

end Host

namespace Steps

variable {m : Type → Type} [Monad m] {α : Type}

def need (result : Except Failure α) : Steps m α :=
  match result with
  | .ok value => pure value
  | .error failure => throw (.failed [] failure)

def needConnection (context : String) (result : Except Fault α) : Steps m α :=
  need (result.mapError (.disconnected context))

/-- Names what is being done in every trouble on the way. -/
def doing (what : String) (steps : Steps m α) : Steps m α :=
  ExceptT.mk do
    match ← steps.run with
    | .ok value => return .ok value
    | .error trouble => return .error (trouble.during what)

/-- Runs a command to its status; a trouble is logged. -/
def finish (host : Host m) (steps : Steps m Bool) : m Status := do
  match ← steps.run with
  | .ok true => return .passed
  | .ok false => return .notPassed
  | .error trouble =>
    host.put (.log .error trouble.text)
    return .stopped

end Steps

end MatrixAudit
