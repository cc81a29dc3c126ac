/-!
# Reproducible random words

A seeded generator of 32-bit words: the key stream of a block cipher with eight
rounds, whose key is expanded from a 64-bit seed.
-/

namespace RelationalSolver.Random

/-- The sixteen words that one round of the cipher works on. -/
abbrev Block := Vector UInt32 16

/-- Turn a word to the left. -/
def rotateLeft (x : UInt32) (amount : UInt32) : UInt32 := (x <<< amount) ||| (x >>> (32 - amount))

/-- Turn a word to the right; a turn by nothing leaves it alone. -/
def rotateRight (x : UInt32) (amount : UInt32) : UInt32 := (x >>> amount) ||| (x <<< (32 - amount))

/-- Mix four words of a block. -/
def quarterRound (s : Block) (a b c d : Fin 16) : Block :=
  let s := s.set a (s[a] + s[b])
  let s := s.set d (rotateLeft (s[d] ^^^ s[a]) 16)
  let s := s.set c (s[c] + s[d])
  let s := s.set b (rotateLeft (s[b] ^^^ s[c]) 12)
  let s := s.set a (s[a] + s[b])
  let s := s.set d (rotateLeft (s[d] ^^^ s[a]) 8)
  let s := s.set c (s[c] + s[d])
  s.set b (rotateLeft (s[b] ^^^ s[c]) 7)

/-- A round over the columns and one over the diagonals. -/
def doubleRound (s : Block) : Block :=
  let s := quarterRound s 0 4 8 12
  let s := quarterRound s 1 5 9 13
  let s := quarterRound s 2 6 10 14
  let s := quarterRound s 3 7 11 15
  let s := quarterRound s 0 5 10 15
  let s := quarterRound s 1 6 11 12
  let s := quarterRound s 2 7 8 13
  quarterRound s 3 4 9 14

/-- A position in the stream of random words. -/
structure Generator where
  key : Vector UInt32 8
  /-- Number of the next block. -/
  counter : UInt64
  /-- Words of the current block that are not used yet. -/
  ready : List UInt32

/-- The words of one block: eight rounds, added to what they started from. -/
def keyBlock (key : Vector UInt32 8) (counter : UInt64) : List UInt32 :=
  let start : Block := #v[0x61707865, 0x3320646e, 0x79622d32, 0x6b206574,
    key[0], key[1], key[2], key[3], key[4], key[5], key[6], key[7],
    counter.toUInt32, (counter >>> 32).toUInt32, 0, 0]
  let mixed := doubleRound (doubleRound (doubleRound (doubleRound start)))
  (Vector.zipWith (· + ·) mixed start).toList

/-- Draw the next word of a seed expander. -/
def expandSeed (state : UInt64) : UInt32 × UInt64 :=
  let state := state * 6364136223846793005 + 11634580027462260723
  let folded := (((state >>> 18) ^^^ state) >>> 27).toUInt32
  let turn := (state >>> 59).toUInt32
  (rotateRight folded turn, state)

namespace Generator

/-- The generator of a seed. -/
def ofSeed (seed : UInt64) : Generator :=
  let (a, s) := expandSeed seed
  let (b, s) := expandSeed s
  let (c, s) := expandSeed s
  let (d, s) := expandSeed s
  let (e, s) := expandSeed s
  let (f, s) := expandSeed s
  let (g, s) := expandSeed s
  let (h, _) := expandSeed s
  ⟨#v[a, b, c, d, e, f, g, h], 0, []⟩

/-- The next word. -/
def word (gen : Generator) : UInt32 × Generator :=
  match gen.ready with
  | w :: rest => (w, { gen with ready := rest })
  | [] =>
      let block := keyBlock gen.key gen.counter
      (block.headD 0, { gen with counter := gen.counter + 1, ready := block.tail })

/-- Two words as one, the first as the low half. -/
def doubleWord (gen : Generator) : UInt64 × Generator :=
  let (low, gen) := gen.word
  let (high, gen) := gen.word
  (low.toUInt64 ||| (high.toUInt64 <<< 32), gen)

/-- A number below a bound: the high half of a word times the bound, carried
over from a second word where the low half could make a difference. -/
def below (gen : Generator) (bound : UInt32) : UInt32 × Generator :=
  let (w, gen) := gen.word
  let product := w.toUInt64 * bound.toUInt64
  let high := (product >>> 32).toUInt32
  let low := product.toUInt32
  if low > 0 - bound then
    let (w, gen) := gen.word
    let carry := low.toUInt64 + ((w.toUInt64 * bound.toUInt64) >>> 32)
    (if carry ≥ 0x100000000 then high + 1 else high, gen)
  else (high, gen)

end Generator

end RelationalSolver.Random
