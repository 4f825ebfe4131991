import MatrixAudit.ColumnCheck
import MatrixAudit.Exchange
import MatrixAudit.Settings

/-!
# Reports

A report says what one run checked and how it ended. It is printed for people and written as JSON,
where absent values and an empty list of columns leave no trace.
-/

namespace MatrixAudit

inductive Role where
  | verifier
  | auditor
deriving DecidableEq

def Role.label : Role → String
  | verifier => "verifier"
  | auditor => "auditor"

@[ext] structure Report where
  role : Role
  mode : Mode
  n : Nat
  m : Nat
  passed : Bool
  weighed : Option Word
  claimed : Option Word
  challengeEnds : Option (Word × Word)
  responseEnds : Option (Word × Word)
  mismatchedColumns : List Nat
  mismatchCount : Nat
  elapsedMillis : Nat
deriving DecidableEq

/-- The first and the last word of a vector that has any. -/
def vectorEnds (words : List Word) : Option (Word × Word) :=
  match words.head?, words.getLast? with
  | some first, some last => some (first, last)
  | _, _ => none

def Balance.toJson (r : Balance) : Json :=
  .record [("rxr", .nat r.weighed.toNat), ("sxc", .nat r.claimed.toNat)]

def ColumnCheck.toJson (c : ColumnCheck) : Json :=
  .record [("mismatches", .array (c.mismatches.map .nat)), ("mismatch_count", .nat c.mismatchCount),
    ("passed", .bool c.passed)]

namespace Report

def ofColumnCheck (n m : Nat) (check : ColumnCheck) (elapsedMillis : Nat) : Report where
  role := .verifier
  mode := .offline
  n := n
  m := m
  passed := check.passed
  weighed := none
  claimed := none
  challengeEnds := none
  responseEnds := none
  mismatchedColumns := check.mismatches
  mismatchCount := check.mismatchCount
  elapsedMillis := elapsedMillis

/-- The report of either party of an exchange. A failed balance counts as one mismatch. -/
def interactive (role : Role) (n m : Nat) (challenge response : List Word)
    (balance : Balance) (elapsedMillis : Nat) : Report where
  role := role
  mode := .interactive
  n := n
  m := m
  passed := balance.passed
  weighed := some balance.weighed
  claimed := some balance.claimed
  challengeEnds := vectorEnds challenge
  responseEnds := vectorEnds response
  mismatchedColumns := []
  mismatchCount := if balance.passed then 0 else 1
  elapsedMillis := elapsedMillis

def ofExchange (n m : Nat) (e : Exchange) (elapsedMillis : Nat) : Report :=
  interactive .verifier n m e.challenge e.response e.balance elapsedMillis

def ofAudit (n m : Nat) (a : Audit) (elapsedMillis : Nat) : Report :=
  interactive .auditor n m a.challenge a.response a.balance elapsedMillis

def wordMember (key : String) : Option Word → List (String × Json)
  | some word => [(key, .nat word.toNat)]
  | none => []

def endsMember (key : String) : Option (Word × Word) → List (String × Json)
  | some (first, last) => [(key, .array [.nat first.toNat, .nat last.toNat])]
  | none => []

def columnsMember (key : String) : List Nat → List (String × Json)
  | [] => []
  | columns => [(key, .array (columns.map .nat))]

def toJson (r : Report) : Json :=
  .record (
    [("role", .text r.role.label), ("mode", .text r.mode.label), ("n", .nat r.n), ("m", .nat r.m),
      ("passed", .bool r.passed)] ++
    wordMember "rxr" r.weighed ++ wordMember "sxc" r.claimed ++
    endsMember "challenge_ends" r.challengeEnds ++ endsMember "response_ends" r.responseEnds ++
    columnsMember "mismatched_columns" r.mismatchedColumns ++
    [("mismatch_count", .nat r.mismatchCount), ("elapsed_ms", .nat r.elapsedMillis)])

/-- Two lines about the ends of a vector whose last place has the given name. -/
def endsLines (name last : String) : Option (Word × Word) → List String
  | some (a, b) => [s!"{name}[0] = {a}", s!"{name}[{last}] = {b}"]
  | none => []

def sidesLines : Option Word → Option Word → List String
  | some weighed, some claimed => [s!"rxr = {weighed}", s!"sxc = {claimed}"]
  | _, _ => []

def columnsLines (count : Nat) : List Nat → List String
  | [] => []
  | columns =>
    [s!"mismatched columns ({count} total): [" ++ ", ".intercalate (columns.map toString) ++ "]"]

/-- The lines for a reader; the last one is the verdict. -/
def lines (r : Report) : List String :=
  [s!"n = {r.n}", s!"m = {r.m}"] ++ endsLines "challenge" "n-1" r.challengeEnds ++
    endsLines "response" "m-1" r.responseEnds ++ sidesLines r.weighed r.claimed ++
    columnsLines r.mismatchCount r.mismatchedColumns ++ [if r.passed then "PASSED" else "FAILED"]

/-- The report for a reader, without a line end behind the verdict. -/
def display (r : Report) : String := "\n".intercalate r.lines

/-- The contents of the file that a report is saved in. -/
def fileText (r : Report) : String := r.toJson.pretty

end Report

end MatrixAudit
