import MatrixAudit.Residue
import MatrixAudit.Sampler.ChaCha

/-!
# Sampling challenges

A sampler turns a stream of 64-bit draws into residues. A draw `v` stands for the high word of
`v * modulus`; it is accepted when the low word is small enough for every residue to have equally
many accepted draws, and otherwise skipped. The stream is a keystream whose blocks are numbered by
64 bits. It repeats after `2 ^ 67` draws, so a search that has skipped so many will never end.
-/

namespace MatrixAudit

/-- The largest low word of an accepted draw. -/
def acceptedLow : Word := 128 * Residue.modulusWord - 1

/-- The residue that a draw stands for, if it is accepted. -/
def accept? (draw : Word) : Option Word :=
  let wide := draw.toNat * Residue.modulus
  if UInt64.ofNat wide ≤ acceptedLow then some (UInt64.ofNat (wide / UInt64.size)) else none

structure Sampler where
  key : ChaCha.Key
  counter : UInt64
  ready : List Word

/-- A draw is two words of the keystream, the low one first. -/
def joinWords (low high : UInt32) : Word := high.toUInt64 <<< 32 ||| low.toUInt64

namespace ChaCha.Block

def firstDraw (b : Block) : Word := joinWords b.x0 b.x1

def laterDraws (b : Block) : List Word :=
  [joinWords b.x2 b.x3, joinWords b.x4 b.x5, joinWords b.x6 b.x7, joinWords b.x8 b.x9,
    joinWords b.xa b.xb, joinWords b.xc b.xd, joinWords b.xe b.xf]

end ChaCha.Block

namespace Sampler

def ofKey (key : ChaCha.Key) : Sampler := ⟨key, 0, []⟩

/-- The generator that expands a seed: its next state, and the word it gives in that state. -/
def expandStep (state : Word) : Word × UInt32 :=
  let next := state * 6364136223846793005 + 11634580027462260723
  let folded := (((next >>> 18) ^^^ next) >>> 27).toUInt32
  let turn := (next >>> 59).toUInt32
  (next, (folded >>> turn) ||| (folded <<< ((32 - turn) % 32)))

def seedKey (seed : Word) : ChaCha.Key :=
  let (s, k0) := expandStep seed
  let (s, k1) := expandStep s
  let (s, k2) := expandStep s
  let (s, k3) := expandStep s
  let (s, k4) := expandStep s
  let (s, k5) := expandStep s
  let (s, k6) := expandStep s
  let (_, k7) := expandStep s
  ⟨k0, k1, k2, k3, k4, k5, k6, k7⟩

def ofSeed (seed : Word) : Sampler := ofKey (seedKey seed)

def draw (s : Sampler) : Word × Sampler :=
  match s.ready with
  | word :: rest => (word, { s with ready := rest })
  | [] =>
    let block := ChaCha.block s.key s.counter
    (block.firstDraw, ⟨s.key, s.counter + 1, block.laterDraws⟩)

/-- The number of draws after which the stream repeats. -/
def period : Nat := 8 * UInt64.size

/-- The value of the first one of the next `limit` draws that is accepted by some rule. -/
def searchBy (accept : Word → Option Word) : Nat → Sampler → Option (Word × Sampler)
  | 0, _ => none
  | limit + 1, s =>
    match accept s.draw.1 with
    | some value => some (value, s.draw.2)
    | none => searchBy accept limit s.draw.2

def search : Nat → Sampler → Option (Word × Sampler) := searchBy accept?

/-- The next residue. There is none only if every draw of the stream would be skipped. -/
def sample (s : Sampler) : Option (Word × Sampler) := search period s

/-- `count` further values, each drawn by some rule for one, behind those already `done`, last
first. -/
def collectBy (one : Sampler → Option (Word × Sampler)) :
    Nat → List Word → Sampler → Option (List Word × Sampler)
  | 0, done, s => some (done.reverse, s)
  | count + 1, done, s =>
    match one s with
    | some (value, s) => collectBy one count (value :: done) s
    | none => none

def sampleOnto : Nat → List Word → Sampler → Option (List Word × Sampler) := collectBy sample

def sampleMany (count : Nat) (s : Sampler) : Option (List Word × Sampler) := sampleOnto count [] s

end Sampler

end MatrixAudit
