/-!
# The ChaCha20 keystream

Blocks of sixteen 32-bit words, numbered by a 64-bit counter and keyed by eight words. The stream
number is zero.
-/

namespace MatrixAudit

namespace ChaCha

structure Block where
  x0 : UInt32
  x1 : UInt32
  x2 : UInt32
  x3 : UInt32
  x4 : UInt32
  x5 : UInt32
  x6 : UInt32
  x7 : UInt32
  x8 : UInt32
  x9 : UInt32
  xa : UInt32
  xb : UInt32
  xc : UInt32
  xd : UInt32
  xe : UInt32
  xf : UInt32
deriving DecidableEq

structure Key where
  k0 : UInt32
  k1 : UInt32
  k2 : UInt32
  k3 : UInt32
  k4 : UInt32
  k5 : UInt32
  k6 : UInt32
  k7 : UInt32
deriving DecidableEq

namespace Block

def add (a b : Block) : Block where
  x0 := a.x0 + b.x0
  x1 := a.x1 + b.x1
  x2 := a.x2 + b.x2
  x3 := a.x3 + b.x3
  x4 := a.x4 + b.x4
  x5 := a.x5 + b.x5
  x6 := a.x6 + b.x6
  x7 := a.x7 + b.x7
  x8 := a.x8 + b.x8
  x9 := a.x9 + b.x9
  xa := a.xa + b.xa
  xb := a.xb + b.xb
  xc := a.xc + b.xc
  xd := a.xd + b.xd
  xe := a.xe + b.xe
  xf := a.xf + b.xf

end Block

/-- A word rotated left by `count` bits, for a count between 1 and 31. -/
def rotateLeft (word count : UInt32) : UInt32 := (word <<< count) ||| (word >>> (32 - count))

def quarterRound (a b c d : UInt32) : UInt32 × UInt32 × UInt32 × UInt32 :=
  let a := a + b
  let d := rotateLeft (d ^^^ a) 16
  let c := c + d
  let b := rotateLeft (b ^^^ c) 12
  let a := a + b
  let d := rotateLeft (d ^^^ a) 8
  let c := c + d
  let b := rotateLeft (b ^^^ c) 7
  (a, b, c, d)

/-- A column round followed by a diagonal round. -/
def doubleRound (s : Block) : Block :=
  let (x0, x4, x8, xc) := quarterRound s.x0 s.x4 s.x8 s.xc
  let (x1, x5, x9, xd) := quarterRound s.x1 s.x5 s.x9 s.xd
  let (x2, x6, xa, xe) := quarterRound s.x2 s.x6 s.xa s.xe
  let (x3, x7, xb, xf) := quarterRound s.x3 s.x7 s.xb s.xf
  let (x0, x5, xa, xf) := quarterRound x0 x5 xa xf
  let (x1, x6, xb, xc) := quarterRound x1 x6 xb xc
  let (x2, x7, x8, xd) := quarterRound x2 x7 x8 xd
  let (x3, x4, x9, xe) := quarterRound x3 x4 x9 xe
  ⟨x0, x1, x2, x3, x4, x5, x6, x7, x8, x9, xa, xb, xc, xd, xe, xf⟩

/-- The block that the rounds start from: four constants, the key and the counter. -/
def start (key : Key) (counter : UInt64) : Block where
  x0 := 0x61707865
  x1 := 0x3320646e
  x2 := 0x79622d32
  x3 := 0x6b206574
  x4 := key.k0
  x5 := key.k1
  x6 := key.k2
  x7 := key.k3
  x8 := key.k4
  x9 := key.k5
  xa := key.k6
  xb := key.k7
  xc := counter.toUInt32
  xd := (counter >>> 32).toUInt32
  xe := 0
  xf := 0

/-- The keystream block of the given number: twenty rounds, added to their start. -/
def block (key : Key) (counter : UInt64) : Block :=
  (Nat.repeat doubleRound 10 (start key counter)).add (start key counter)

end ChaCha

end MatrixAudit
