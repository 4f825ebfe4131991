import MatrixAudit.Channel.Writing

/-!
# Dialogues

A dialogue is one party's side of a conversation: what it asks of its peer, what it sends, where it
flushes, and how it ends. It does not say how the bytes travel, so one text can be played on
scripted channels, on a network or against another dialogue.
-/

namespace MatrixAudit

/-- What a party can ask for in one read. -/
inductive Request where
  | byte
  | word
  | words (length : Nat)
deriving DecidableEq

namespace Request

/-- What an answered request brings. -/
abbrev Answer : Request → Type
  | byte => UInt8
  | word => Word
  | words _ => List Word

def size : Request → Nat
  | byte => 1
  | word => wordWidth
  | words length => wordWidth * length

/-- The answer that some bytes spell. -/
def decode : (request : Request) → List UInt8 → request.Answer
  | byte, bytes => UInt8.ofNat (LittleEndian.decode bytes)
  | word, bytes => UInt64.ofNat (LittleEndian.decode bytes)
  | words length, bytes => LittleEndian.decodeWords wordWidth length bytes

def read (context : String) : (request : Request) → Reading request.Answer
  | byte => Reading.byte .peer context
  | word => Reading.word .peer context
  | words length => Reading.words .peer context length

end Request

/-- One party's side of a conversation that ends in an `α` or in a failure. -/
inductive Dialogue (α : Type) where
  | done (result : Except Failure α)
  | receive (request : Request) (context : String) (next : request.Answer → Dialogue α)
  | send (bytes : List UInt8) (context : String) (next : Dialogue α)
  | flush (context : String) (next : Dialogue α)
  /-- Asks how many nanoseconds passed between the start of the last send and the end of the last
  read. -/
  | roundTrip (next : Nat → Dialogue α)
  /-- Remarks on the progress made; the peer sees nothing of it. -/
  | remark (text : String) (next : Dialogue α)

namespace Dialogue

variable {α β : Type}

/-- Goes on with the result, unless the dialogue failed. -/
def bind : Dialogue α → (α → Dialogue β) → Dialogue β
  | done (.ok value), rest => rest value
  | done (.error failure), _ => done (.error failure)
  | receive request context next, rest =>
    receive request context fun answer => (next answer).bind rest
  | send bytes context next, rest => send bytes context (next.bind rest)
  | flush context next, rest => flush context (next.bind rest)
  | roundTrip next, rest => roundTrip fun elapsed => (next elapsed).bind rest
  | remark text next, rest => remark text (next.bind rest)

instance : Monad Dialogue where
  pure value := done (.ok value)
  bind := bind

/-- Ends in the given result, or goes on with it. -/
def ofExcept (result : Except Failure α) : Dialogue α := done result

def fail (failure : Failure) : Dialogue α := done (.error failure)

def ask (request : Request) (context : String) : Dialogue request.Answer :=
  receive request context pure

/-- Sends some bytes and flushes them. -/
def tell (bytes : List UInt8) (context : String) : Dialogue Unit :=
  send bytes context (flush context (pure ()))

def lastRoundTrip : Dialogue Nat := roundTrip pure

def remarkThat (text : String) : Dialogue Unit := remark text (pure ())

/-- A dialogue played to its end: the result, the channels as it left them and its remarks. -/
structure Play (α : Type) where
  result : Except Failure α
  source : Source
  sink : Sink
  remarks : List String

/-- Plays a dialogue on scripted channels; every round trip takes `elapsed` nanoseconds. -/
def play (elapsed : Nat) : Dialogue α → Source → Sink → Play α
  | done result, source, sink => ⟨result, source, sink, []⟩
  | receive request context next, source, sink =>
    match (request.read context).run source with
    | .ok answer source => (next answer).play elapsed source sink
    | .error failure source => ⟨.error failure, source, sink, []⟩
  | send bytes context next, source, sink =>
    match (Writing.bytes context bytes).run sink with
    | .ok () sink => next.play elapsed source sink
    | .error failure sink => ⟨.error failure, source, sink, []⟩
  | flush context next, source, sink =>
    match (Writing.flush context).run sink with
    | .ok () sink => next.play elapsed source sink
    | .error failure sink => ⟨.error failure, source, sink, []⟩
  | roundTrip next, source, sink => (next elapsed).play elapsed source sink
  | remark text next, source, sink =>
    let rest := next.play elapsed source sink
    { rest with remarks := text :: rest.remarks }

end Dialogue

end MatrixAudit
