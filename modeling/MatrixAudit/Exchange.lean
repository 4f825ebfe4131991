import MatrixAudit.Dialogue
import MatrixAudit.Duration
import MatrixAudit.Products
import MatrixAudit.Balance
import MatrixAudit.Statement
import MatrixAudit.Text.Scientific

/-!
# The exchange

The auditor sends a command byte and a challenge of one word for each column. The verifier
acknowledges it, computes the response of one word for each row and sends it. The auditor closes
with a timing word, which the verifier records and does not judge. Both then balance on their own.
-/

namespace MatrixAudit

/-- Opens an exchange: the letter `A`. -/
def auditCommand : UInt8 := 65

/-- Acknowledges a challenge: the digit `1`. -/
def acknowledgement : UInt8 := 49

/-- What the verifier saw of an exchange. -/
structure Exchange where
  challenge : List Word
  response : List Word
  /-- The timing word as the peer sent it. Some peers count microseconds, others send the bits of a
  number of seconds. -/
  timing : Word
  balance : Balance
deriving DecidableEq

namespace Exchange

def micros (e : Exchange) : Word := e.timing

/-- The timing word as the bits of a number of seconds. -/
def seconds (e : Exchange) : Float := Float.ofBits e.timing

end Exchange

/-- What the auditor saw of an exchange. -/
structure Audit where
  challenge : List Word
  response : List Word
  /-- From sending the challenge to its acknowledgement. -/
  elapsed : Duration
  balance : Balance
deriving DecidableEq

/-- A word as sixteen lowercase hexadecimal digits. -/
def hexWord (word : Word) : String :=
  String.join ((LittleEndian.encode 8 word.toNat).reverse.map hexByte)

namespace Statement

def answerAudit [Sharing] (s : Statement) (parallel : Bool) : Dialogue Exchange := do
  let command ← Dialogue.ask .byte "reading the command byte"
  if command = auditCommand then
    Dialogue.remarkThat "audit command received"
    let challenge ← Dialogue.ask (.words s.client.n) "reading the challenge"
    Dialogue.remarkThat s!"challenge received ({challenge.length} values)"
    Dialogue.tell [acknowledgement] "sending the ack"
    let response ← Dialogue.ofExcept (s.dataset.responseWith parallel challenge)
    Dialogue.remarkThat s!"response computed ({response.length} values)"
    Dialogue.tell (LittleEndian.encodeWords wordWidth response) "sending the response"
    Dialogue.remarkThat "response sent"
    let timing ← Dialogue.ask .word "reading the timing word"
    Dialogue.remarkThat (s!"peer timing word 0x{hexWord timing} ({timing} us as u64, " ++
      s!"{Scientific.text timing} s as f64)")
    let balance ← Dialogue.ofExcept (s.client.balance challenge response)
    return ⟨challenge, response, timing, balance⟩
  else Dialogue.fail (.unknownCommand command)

end Statement

namespace Client

/-- The auditor's side of an exchange about the given challenge. The timing word says how long the
challenge took to be acknowledged, in microseconds. -/
def audit (c : Client) (challenge : List Word) : Dialogue Audit := do
  Dialogue.ofExcept (sameLength c.n challenge.length)
  Dialogue.tell [auditCommand] "sending the command byte"
  Dialogue.tell (LittleEndian.encodeWords wordWidth challenge) "sending the challenge"
  let answer ← Dialogue.ask .byte "reading the ack"
  let elapsed : Duration := ⟨← Dialogue.lastRoundTrip⟩
  if answer = acknowledgement then
    Dialogue.remarkThat s!"ack received after {elapsed.text}"
    let response ← Dialogue.ask (.words c.m) "reading the response"
    Dialogue.remarkThat s!"response received ({response.length} values)"
    Dialogue.tell (LittleEndian.encode wordWidth elapsed.microsWord.toNat) "sending the timing word"
    let balance ← Dialogue.ofExcept (c.balance challenge response)
    return ⟨challenge, response, elapsed, balance⟩
  else Dialogue.fail (.wrongAcknowledgement acknowledgement answer)

end Client

end MatrixAudit
