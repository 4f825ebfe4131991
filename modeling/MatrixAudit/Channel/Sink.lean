import MatrixAudit.Failure

/-!
# Byte sinks

A sink keeps the bytes it has taken and a script of how it takes more: at most `chunk` at a time and
`limit` in all, with an optional fault beyond the limit and one flush that may fail. `writeAll`
offers the rest again after every partial write, so what a failed write leaves behind is a prefix of
what it was given.
-/

namespace MatrixAudit

structure Sink where
  taken : Array UInt8 := #[]
  chunk : Option Nat := none
  limit : Option Nat := none
  fault : Option Fault := none
  /-- The number, from zero, of the flush that fails. -/
  flushFault : Option Nat := none
  flushes : Nat := 0
deriving DecidableEq

namespace Sink

def bytes (s : Sink) : List UInt8 := s.taken.toList

def isFull (s : Sink) : Bool :=
  match s.limit with
  | none => false
  | some limit => limit ≤ s.taken.size

/-- The most bytes that the next write may take, if there is a bound. -/
def room? (s : Sink) : Option Nat :=
  match s.chunk, s.limit with
  | none, none => none
  | some most, none => some most
  | none, some limit => some (limit - s.taken.size)
  | some most, some limit => some (min most (limit - s.taken.size))

/-- The bytes that the next write takes out of those it is offered. -/
def portion (s : Sink) (offer : List UInt8) : List UInt8 :=
  match s.room? with
  | none => offer
  | some most => offer.take most

/-- One write of some bytes: how many of them were taken. A full sink fails, or takes none. -/
def write (s : Sink) (offer : List UInt8) : Except Fault Nat × Sink :=
  match s.isFull, s.fault with
  | true, some fault => (.error fault, s)
  | _, _ =>
    (.ok (s.portion offer).length, { s with taken := s.taken ++ s.portion offer })

/-- Writes until everything is taken. With nothing to write the sink is not touched. -/
def writeAll (s : Sink) (offer : List UInt8) : EStateM.Result Fault Sink Unit :=
  match offer with
  | [] => .ok () s
  | byte :: rest =>
    match s.write (byte :: rest) with
    | (.error fault, next) => .error fault next
    | (.ok 0, next) => .error .nothingTaken next
    | (.ok (count + 1), next) => writeAll next (rest.drop count)
termination_by offer.length
decreasing_by simp only [List.length_drop, List.length_cons]; omega

/-- One flush; it is counted whether it fails or not. -/
def flush (s : Sink) : EStateM.Result Fault Sink Unit :=
  let next := { s with flushes := s.flushes + 1 }
  if s.flushFault = some s.flushes then .error .flushFailed next else .ok () next

end Sink

end MatrixAudit
