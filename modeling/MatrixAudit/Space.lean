import MatrixAudit.Bytes
import MatrixAudit.Failure

/-!
# Sizes and space

A size is counted in 64 bits, and a buffer is one piece of memory, of which there is a largest that
can be had. A buffer that grows asks for twice the room that it has, or for what it needs if that is
more.
-/

namespace MatrixAudit

/-- What becomes of a size that cannot be counted in 64 bits: the program stops, or goes on with
what is left of it. -/
inductive Overflow where
  | stops
  | wraps
deriving DecidableEq

def Overflow.count? (overflow : Overflow) (size : Nat) : Option Nat :=
  if size < UInt64.size then some size
  else
    match overflow with
    | stops => none
    | wraps => some (size % UInt64.size)

/-- The memory that buffers are taken from: the size of the largest one in bytes, if there is a
largest. -/
structure Space where
  largest : Option Nat
deriving DecidableEq

namespace Space

def endless : Space := ⟨none⟩

/-- The size of a buffer is counted in 63 bits, and nothing else limits it. -/
def signed : Space := ⟨some (UInt64.size / 2 - 1)⟩

/-- A buffer of so many bytes can be had. -/
def Holds (space : Space) (bytes : Nat) : Prop := space.largest.all (bytes ≤ ·) = true

instance (space : Space) (bytes : Nat) : Decidable (space.Holds bytes) :=
  inferInstanceAs (Decidable (_ = true))

theorem holds_iff {space : Space} {bytes : Nat} :
    space.Holds bytes ↔ ∀ most ∈ space.largest, bytes ≤ most := by
  obtain ⟨_ | most⟩ := space <;> simp [Holds]

theorem holds_endless (bytes : Nat) : endless.Holds bytes := rfl

theorem Holds.of_le {space : Space} {bytes fewer : Nat} (h : space.Holds bytes)
    (hle : fewer ≤ bytes) : space.Holds fewer := by
  rw [holds_iff] at h ⊢
  intro most mem
  have := h most mem
  omega

/-- Asks for a buffer of so many bytes. -/
def allot (space : Space) (bytes : Nat) : Except Failure Unit :=
  if space.Holds bytes then .ok () else .error (.noRoom bytes)

/-- A buffer that grows has room for at least so many words. -/
def leastWords : Nat := 4

/-- The capacity of a buffer that needs room for `needed` words and has room for `capacity`. -/
def grown (capacity needed : Nat) : Nat :=
  if needed ≤ capacity then capacity else max leastWords (max (2 * capacity) needed)

/-- Makes room for `needed` words in a buffer that has room for `capacity`. -/
def grow (space : Space) (capacity needed : Nat) : Except Failure Nat := do
  if capacity < needed then space.allot (wordWidth * grown capacity needed)
  return grown capacity needed

end Space

end MatrixAudit
