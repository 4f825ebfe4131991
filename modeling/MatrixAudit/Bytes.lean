import MatrixAudit.Residue

/-!
# Words as bytes

Fixed-width little-endian numbers, and vectors of them laid end to end. `encode` and `decode` are
inverse on numbers that fit the width.
-/

namespace MatrixAudit

/-- Bytes of one entry of the dataset file. -/
def entryWidth : Nat := 7

/-- Bytes of one word of the client file and of the wire. -/
def wordWidth : Nat := 8

/-- The first `count` consecutive pieces of `size` items each. -/
def pieces {α : Type} (size count : Nat) (items : List α) : List (List α) :=
  go count items []
where
  go : Nat → List α → List (List α) → List (List α)
    | 0, _, done => done.reverse
    | count + 1, items, done => go count (items.drop size) (items.take size :: done)

/-- The bytes with `patch` in the place of those from `start` on. -/
def overwrite (start : Nat) (patch bytes : List UInt8) : List UInt8 :=
  bytes.take start ++ patch ++ bytes.drop (start + patch.length)

/-- Writes `patch` over the bytes from place `start` up to place `stop`. They have to be a range of
the bytes, and exactly as many. -/
def writeAt? (start stop : Nat) (patch bytes : List UInt8) : Option (List UInt8) :=
  if start ≤ stop ∧ stop ≤ bytes.length ∧ patch.length = stop - start then
    some (overwrite start patch bytes)
  else none

namespace LittleEndian

/-- The low `width` bytes of a number, least significant first. -/
def encode : Nat → Nat → List UInt8
  | 0, _ => []
  | width + 1, value => UInt8.ofNat value :: encode width (value / 256)

/-- The number whose bytes, least significant first, are given. -/
def decode : List UInt8 → Nat
  | [] => 0
  | byte :: rest => byte.toNat + 256 * decode rest

def encodeWords (width : Nat) (words : List Word) : List UInt8 :=
  words.flatMap fun word => encode width word.toNat

def decodeWords (width count : Nat) (bytes : List UInt8) : List Word :=
  (pieces width count bytes).map fun piece => UInt64.ofNat (decode piece)

end LittleEndian

theorem length_pieces_go {α : Type} (size count : Nat) (items : List α) (done : List (List α)) :
    (pieces.go size count items done).length = done.length + count := by
  induction count generalizing items done with
  | zero => simp [pieces.go]
  | succ count ih => simp [pieces.go, ih]; omega

theorem mem_pieces_go {α : Type} {size count : Nat} {items : List α} {done : List (List α)}
    (bound : ∀ piece ∈ done, piece.length ≤ size) :
    ∀ piece ∈ pieces.go size count items done, piece.length ≤ size := by
  induction count generalizing items done with
  | zero => simpa [pieces.go] using bound
  | succ count ih =>
    refine ih fun piece mem => ?_
    rcases List.mem_cons.1 mem with rfl | mem
    · rw [List.length_take]
      exact Nat.min_le_left _ _
    · exact bound piece mem

@[simp] theorem length_pieces {α : Type} (size count : Nat) (items : List α) :
    (pieces size count items).length = count := by
  simp [pieces, length_pieces_go]

theorem length_le_of_mem_pieces {α : Type} {size count : Nat} {items piece : List α}
    (mem : piece ∈ pieces size count items) : piece.length ≤ size :=
  mem_pieces_go (by simp) piece mem

namespace LittleEndian

@[simp] theorem length_encode (width value : Nat) : (encode width value).length = width := by
  induction width generalizing value with
  | zero => rfl
  | succ width ih => simp [encode, ih]

theorem decode_lt (bytes : List UInt8) : decode bytes < Nat.pow 256 bytes.length := by
  induction bytes with
  | nil => simp [decode]
  | cons byte rest ih =>
    have := byte.toNat_lt
    have hpow : Nat.pow 256 (rest.length + 1) = Nat.pow 256 rest.length * 256 := rfl
    simp only [decode, List.length_cons, hpow]
    omega

@[simp] theorem length_decodeWords (width count : Nat) (bytes : List UInt8) :
    (decodeWords width count bytes).length = count := by
  simp [decodeWords]

theorem toNat_lt_of_mem_decodeWords {width count : Nat} {bytes : List UInt8} {word : Word}
    (mem : word ∈ decodeWords width count bytes) : word.toNat < Nat.pow 256 width := by
  obtain ⟨piece, memPiece, rfl⟩ := List.mem_map.1 mem
  calc (UInt64.ofNat (decode piece)).toNat
      ≤ decode piece := by simp only [UInt64.toNat_ofNat']; exact Nat.mod_le _ _
    _ < Nat.pow 256 piece.length := decode_lt piece
    _ ≤ Nat.pow 256 width := Nat.pow_le_pow_right (by decide) (length_le_of_mem_pieces memPiece)

end LittleEndian

end MatrixAudit
