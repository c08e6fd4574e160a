/-! Sources of random words. A source is a pure state; drawing a word returns the next state, so a
statement about every random stream is a statement about every source and every state. -/

namespace CircuitCloak.Random

/-- Something that yields words of 32 and of 64 bits. -/
class WordSource (σ : Type) where
  next32 : σ → UInt32 × σ
  next64 : σ → UInt64 × σ

abbrev Block := Vector UInt32 16

def rotateLeft (word : UInt32) (count : UInt32) : UInt32 :=
  (word <<< count) ||| (word >>> (32 - count))

def rotateRight (word : UInt32) (count : UInt32) : UInt32 :=
  if count == 0 then word else (word >>> count) ||| (word <<< (32 - count))

/-- The step that mixes four words of a block. -/
def quarterRound (block : Block) (a b c d : Fin 16) : Block :=
  let block := block.set a (block[a] + block[b])
  let block := block.set d (rotateLeft (block[d] ^^^ block[a]) 16)
  let block := block.set c (block[c] + block[d])
  let block := block.set b (rotateLeft (block[b] ^^^ block[c]) 12)
  let block := block.set a (block[a] + block[b])
  let block := block.set d (rotateLeft (block[d] ^^^ block[a]) 8)
  let block := block.set c (block[c] + block[d])
  block.set b (rotateLeft (block[b] ^^^ block[c]) 7)

/-- A round over the columns and one over the diagonals. -/
def doubleRound (block : Block) : Block :=
  let block := quarterRound block 0 4 8 12
  let block := quarterRound block 1 5 9 13
  let block := quarterRound block 2 6 10 14
  let block := quarterRound block 3 7 11 15
  let block := quarterRound block 0 5 10 15
  let block := quarterRound block 1 6 11 12
  let block := quarterRound block 2 7 8 13
  quarterRound block 3 4 9 14

/-- The stream cipher with twelve rounds, as a source of words. -/
structure ChaCha where
  key : Vector UInt32 8
  counter : UInt64
  /-- Words of the current block that are still to be handed out. -/
  pending : List UInt32

def ChaCha.blockWords (key : Vector UInt32 8) (counter : UInt64) : List UInt32 :=
  let start : Block := #v[0x61707865, 0x3320646e, 0x79622d32, 0x6b206574,
    key[0], key[1], key[2], key[3], key[4], key[5], key[6], key[7],
    counter.toUInt32, (counter >>> 32).toUInt32, 0, 0]
  let mixed := (List.range 6).foldl (fun block _ => doubleRound block) start
  (Vector.zipWith (· + ·) mixed start).toList

def ChaCha.next32 (source : ChaCha) : UInt32 × ChaCha :=
  match source.pending with
  | word :: rest => (word, { source with pending := rest })
  | [] =>
    let words := blockWords source.key source.counter
    (words.headD 0, ⟨source.key, source.counter + 1, words.tail⟩)

/-- Two words, the low half first. -/
def ChaCha.next64 (source : ChaCha) : UInt64 × ChaCha :=
  let (low, source) := source.next32
  let (high, source) := source.next32
  (high.toUInt64 <<< 32 ||| low.toUInt64, source)

instance : WordSource ChaCha := ⟨ChaCha.next32, ChaCha.next64⟩

/-- One step of the generator that spreads a seed over the key. -/
def spreadSeed (state : UInt64) : UInt32 × UInt64 :=
  let state := state * 6364136223846793005 + 11634580027462260723
  let word := (((state >>> 18) ^^^ state) >>> 27).toUInt32
  (rotateRight word (state >>> 59).toUInt32, state)

/-- The source that a seed stands for. -/
def ChaCha.ofSeed (seed : UInt64) : ChaCha :=
  let (k0, s) := spreadSeed seed
  let (k1, s) := spreadSeed s
  let (k2, s) := spreadSeed s
  let (k3, s) := spreadSeed s
  let (k4, s) := spreadSeed s
  let (k5, s) := spreadSeed s
  let (k6, s) := spreadSeed s
  let (k7, _) := spreadSeed s
  ⟨#v[k0, k1, k2, k3, k4, k5, k6, k7], 0, []⟩

/-- A counter with a strong output mix: a small source for reproducible tests. -/
structure SplitMix where
  state : UInt64

def SplitMix.next64 (source : SplitMix) : UInt64 × SplitMix :=
  let state := source.state + 0x9E3779B97F4A7C15
  let z := (state ^^^ (state >>> 30)) * 0xBF58476D1CE4E5B9
  let z := (z ^^^ (z >>> 27)) * 0x94D049BB133111EB
  (z ^^^ (z >>> 31), ⟨state⟩)

/-- The high half of a long word. -/
def SplitMix.next32 (source : SplitMix) : UInt32 × SplitMix :=
  let (word, source) := source.next64
  ((word >>> 32).toUInt32, source)

instance : WordSource SplitMix := ⟨SplitMix.next32, SplitMix.next64⟩

inductive Source where
  | chaCha (source : ChaCha)
  | splitMix (source : SplitMix)

instance : WordSource Source where
  next32
    | .chaCha source => let (word, next) := source.next32; (word, .chaCha next)
    | .splitMix source => let (word, next) := source.next32; (word, .splitMix next)
  next64
    | .chaCha source => let (word, next) := source.next64; (word, .chaCha next)
    | .splitMix source => let (word, next) := source.next64; (word, .splitMix next)

end CircuitCloak.Random
