import Handheld.Expr.Basic

namespace Handheld

-- A stream of random numbers: the key it was seeded with and the count of numbers drawn.
structure RandomStream where
  key : Vector UInt32 8
  drawn : Nat
  deriving DecidableEq

namespace RandomStream

-- The key is filled by a congruential generator with permuted output.
def nextSeed (seed : UInt64) : UInt64 := seed * 6364136223846793005 + 11634580027462260723

def rotateRight (word : UInt32) (count : UInt32) : UInt32 :=
  (word >>> count) ||| (word <<< (32 - count))

def rotateLeft (word : UInt32) (count : UInt32) : UInt32 :=
  (word <<< count) ||| (word >>> (32 - count))

def keyWord (seed : UInt64) : UInt32 :=
  rotateRight (((seed >>> 18) ^^^ seed) >>> 27).toUInt32 (seed >>> 59).toUInt32

def keyWords : (count : Nat) → UInt64 → List UInt32
  | 0, _ => []
  | count + 1, seed =>
    let seed := nextSeed seed
    keyWord seed :: keyWords count seed

theorem length_keyWords (count : Nat) (seed : UInt64) : (keyWords count seed).length = count := by
  induction count generalizing seed with
  | zero => rfl
  | succ count ih => simp [keyWords, ih]

def ofSeed (seed : UInt64) : RandomStream :=
  ⟨⟨(keyWords 8 seed).toArray, by simp [length_keyWords]⟩, 0⟩

-- The numbers come from the ChaCha stream cipher with twelve rounds.

abbrev Block := Vector UInt32 16

def quarterRound (a b c d : Fin 16) (s : Block) : Block :=
  let s := s.set a (s[a] + s[b])
  let s := s.set d (rotateLeft (s[d] ^^^ s[a]) 16)
  let s := s.set c (s[c] + s[d])
  let s := s.set b (rotateLeft (s[b] ^^^ s[c]) 12)
  let s := s.set a (s[a] + s[b])
  let s := s.set d (rotateLeft (s[d] ^^^ s[a]) 8)
  let s := s.set c (s[c] + s[d])
  s.set b (rotateLeft (s[b] ^^^ s[c]) 7)

-- One round over the columns, one over the diagonals.
def doubleRound (s : Block) : Block :=
  let s := quarterRound 0 4 8 12 s
  let s := quarterRound 1 5 9 13 s
  let s := quarterRound 2 6 10 14 s
  let s := quarterRound 3 7 11 15 s
  let s := quarterRound 0 5 10 15 s
  let s := quarterRound 1 6 11 12 s
  let s := quarterRound 2 7 8 13 s
  quarterRound 3 4 9 14 s

def initialBlock (key : Vector UInt32 8) (counter : Nat) : Block :=
  (#v[0x61707865, 0x3320646e, 0x79622d32, 0x6b206574] : Vector UInt32 4) ++ key ++
    (#v[.ofNat counter, .ofNat (counter >>> 32), 0, 0] : Vector UInt32 4)

def block (key : Vector UInt32 8) (counter : Nat) : Block :=
  let start := initialBlock key counter
  start.zipWith (· + ·) (Nat.repeat doubleRound 6 start)

-- The number at a place of the stream: two words of a block, the low one first.
def number (key : Vector UInt32 8) (place : Nat) : UInt64 :=
  let words := block key (place / 8)
  let low := words[2 * (place % 8)]
  let high := words[2 * (place % 8) + 1]
  low.toUInt64 ||| (high.toUInt64 <<< 32)

def next (stream : RandomStream) : UInt64 × RandomStream :=
  (number stream.key stream.drawn, ⟨stream.key, stream.drawn + 1⟩)

-- The block counter has 64 bits, and a block holds eight numbers. Later draws would bring nothing new.
def period : Nat := 8 * UInt64.size

-- A number below `range`: the high half of a draw times the range. A draw whose low half lies past the
-- largest multiple of the range that fits is drawn again, else some numbers would come up more often.
def below (range : Nat) : (draws : Nat) → RandomStream → Nat × RandomStream
  | 0, stream => (0, stream)
  | draws + 1, stream =>
    let (v, stream) := stream.next
    let product := v.toNat * range
    let zone := (range <<< (63 - range.log2)) - 1
    if product % UInt64.size ≤ zone then (product / UInt64.size, stream) else below range draws stream

def draw (low high : Value) (stream : RandomStream) : Value × RandomStream :=
  let range := (high.toInt - low.toInt + 1).toNat
  if range = UInt64.size then
    let (v, stream) := stream.next
    (v.toInt64, stream)
  else
    let (offset, stream) := below range period stream
    (.ofInt (low.toInt + offset), stream)

instance : RandomSource RandomStream := ⟨draw⟩

end RandomStream

end Handheld
