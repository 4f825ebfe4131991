import MatrixAudit.Client
import MatrixAudit.InnerProduct

/-!
# Balancing a response against a claim

The weights applied to the response and the claimed sums applied to the challenge agree whenever the
client's claim holds and the response is honest.
-/

namespace MatrixAudit

/-- The two inner products that an exchange compares. -/
structure Balance where
  /-- The weights times the response. -/
  weighed : Word
  /-- The claimed sums times the challenge. -/
  claimed : Word
deriving DecidableEq

def Balance.passed (r : Balance) : Bool := r.weighed == r.claimed

/-- Weighs a response and a challenge against the client's vectors. -/
def Client.balance (c : Client) (challenge response : List Word) :
    Except Failure Balance := do
  let weighed ← innerProduct c.weights response
  let claimed ← innerProduct c.claimed challenge
  return ⟨weighed, claimed⟩

end MatrixAudit
