import MatrixAudit.Failure

/-!
# Byte sources

A source holds the bytes still to come and a script of how it hands them out: at most `chunk` at a
time, with or without interruptions, and with an optional fault after the last byte. `fill` reads
until a count is complete, `drain` reads to the end. Both retry after an interruption, and both are
total because an interruption is never followed by another one.
-/

namespace MatrixAudit

/-- A scripted source of bytes. With `interrupts`, every other read, the first included, is
interrupted before it delivers anything. -/
structure Source where
  bytes : List UInt8
  chunk : Option Nat := none
  interrupts : Bool := false
  fault : Option Fault := none
  reads : Nat := 0
deriving DecidableEq

/-- What a single read brings. -/
inductive Arrival where
  | interrupted
  | failed (fault : Fault)
  /-- The bytes that came; none of them means the end of the input. -/
  | bytes (piece : List UInt8)

namespace Source

/-- The number of bytes a read with this much room may bring. -/
def allowance (s : Source) (room : Nat) : Nat :=
  match s.chunk with
  | none => room
  | some most => min most room

/-- One read with room for `room` bytes. The fault shows only once the bytes are used up. -/
def read (s : Source) (room : Nat) : Arrival × Source :=
  if s.interrupts && s.reads % 2 == 0 then
    (.interrupted, { s with reads := s.reads + 1 })
  else
    match s.bytes, s.fault with
    | [], some fault => (.failed fault, { s with reads := s.reads + 1 })
    | _, _ =>
      (.bytes (s.bytes.take (s.allowance room)),
        { s with bytes := s.bytes.drop (s.allowance room), reads := s.reads + 1 })

theorem read_interrupted {s next : Source} {room : Nat} (h : s.read room = (.interrupted, next)) :
    s.reads % 2 = 0 ∧ next = { s with reads := s.reads + 1 } := by
  unfold read at h
  split at h
  · rename_i flag
    simp only [Bool.and_eq_true, beq_iff_eq] at flag
    simp only [Prod.mk.injEq, true_and] at h
    exact ⟨flag.2, h.symm⟩
  · split at h <;> simp at h

theorem read_bytes {s next : Source} {room : Nat} {piece : List UInt8}
    (h : s.read room = (.bytes piece, next)) :
    piece = s.bytes.take (s.allowance room) ∧
      next = { s with bytes := s.bytes.drop (s.allowance room), reads := s.reads + 1 } := by
  unfold read at h
  split at h
  · simp at h
  · split at h
    · simp at h
    · simp only [Prod.mk.injEq, Arrival.bytes.injEq] at h
      exact ⟨h.1.symm, h.2.symm⟩

theorem read_bytes_length {s next : Source} {room : Nat} {piece : List UInt8}
    (h : s.read room = (.bytes piece, next)) :
    next.bytes.length + piece.length = s.bytes.length := by
  obtain ⟨rfl, rfl⟩ := read_bytes h
  simp only [List.length_drop, List.length_take]
  omega

/-- Reads until `need` more bytes have come, on top of those already `got`, last first. A source
that ends early has given all it had. With nothing needed the source is not touched. -/
def fill (s : Source) (need : Nat) (got : List UInt8) :
    EStateM.Result Fault Source (List UInt8) :=
  if need = 0 then .ok got.reverse s
  else
    match _arrival : s.read need with
    | (.interrupted, next) => fill next need got
    | (.failed fault, next) => .error fault next
    | (.bytes [], next) => .error .inputEnded next
    | (.bytes (byte :: piece), next) =>
      fill next (need - (piece.length + 1)) ((byte :: piece).reverse ++ got)
termination_by (need, 1 - s.reads % 2)
decreasing_by
  · obtain ⟨even, rfl⟩ := read_interrupted _arrival
    exact Prod.Lex.right _ (by simp only; omega)
  · exact Prod.Lex.left _ _ (by omega)

/-- Room of a read whose bytes are only counted. -/
def drainRoom : Nat := 8192

/-- Reads to the end and counts the bytes, on top of `count`. -/
def drain (s : Source) (count : Nat) : EStateM.Result Fault Source Nat :=
  match _arrival : s.read drainRoom with
  | (.interrupted, next) => drain next count
  | (.failed fault, next) => .error fault next
  | (.bytes [], next) => .ok count next
  | (.bytes (byte :: piece), next) => drain next (count + (byte :: piece).length)
termination_by (s.bytes.length, 1 - s.reads % 2)
decreasing_by
  · obtain ⟨even, rfl⟩ := read_interrupted _arrival
    exact Prod.Lex.right _ (by simp only; omega)
  · have := read_bytes_length _arrival
    exact Prod.Lex.left _ _ (by simp only [List.length_cons] at this; omega)

end Source

end MatrixAudit
