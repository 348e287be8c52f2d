/-! The word stream behind index construction: the ChaCha block function with twelve rounds in
counter mode, keyed from a 64-bit seed. -/
namespace CopyPatch

namespace Keystream

def rotateLeft (x : UInt32) (n : UInt32) : UInt32 := (x <<< n) ||| (x >>> (32 - n))

def rotateRight (x : UInt32) (n : UInt32) : UInt32 :=
  if n = 0 then x else (x >>> n) ||| (x <<< (32 - n))

/-- Four words of a block's row of columns or diagonals. -/
structure Quad where
  a : UInt32
  b : UInt32
  c : UInt32
  d : UInt32

/-- The quarter round. -/
def quarter (q : Quad) : Quad :=
  let a := q.a + q.b
  let d := rotateLeft (q.d ^^^ a) 16
  let c := q.c + d
  let b := rotateLeft (q.b ^^^ c) 12
  let a := a + b
  let d := rotateLeft (d ^^^ a) 8
  let c := c + d
  let b := rotateLeft (b ^^^ c) 7
  ⟨a, b, c, d⟩

/-- A block as its four columns. -/
structure Block where
  q0 : Quad
  q1 : Quad
  q2 : Quad
  q3 : Quad

namespace Block

/-- A round on the columns. -/
def columns (x : Block) : Block := ⟨quarter x.q0, quarter x.q1, quarter x.q2, quarter x.q3⟩

/-- Turn diagonals into columns. -/
def skew (x : Block) : Block :=
  ⟨⟨x.q0.a, x.q1.b, x.q2.c, x.q3.d⟩, ⟨x.q1.a, x.q2.b, x.q3.c, x.q0.d⟩,
    ⟨x.q2.a, x.q3.b, x.q0.c, x.q1.d⟩, ⟨x.q3.a, x.q0.b, x.q1.c, x.q2.d⟩⟩

/-- Turn columns back into diagonals. -/
def unskew (x : Block) : Block :=
  ⟨⟨x.q0.a, x.q3.b, x.q2.c, x.q1.d⟩, ⟨x.q1.a, x.q0.b, x.q3.c, x.q2.d⟩,
    ⟨x.q2.a, x.q1.b, x.q0.c, x.q3.d⟩, ⟨x.q3.a, x.q2.b, x.q1.c, x.q0.d⟩⟩

/-- A column round and a diagonal round. -/
def doubleRound (x : Block) : Block := x.columns.skew.columns.unskew

def doubleRounds : Nat → Block → Block
  | 0, x => x
  | n + 1, x => doubleRounds n x.doubleRound

def addQuad (x y : Quad) : Quad := ⟨x.a + y.a, x.b + y.b, x.c + y.c, x.d + y.d⟩

def add (x y : Block) : Block :=
  ⟨addQuad x.q0 y.q0, addQuad x.q1 y.q1, addQuad x.q2 y.q2, addQuad x.q3 y.q3⟩

/-- The sixteen words row by row. -/
def words (x : Block) : List UInt32 :=
  [x.q0.a, x.q1.a, x.q2.a, x.q3.a, x.q0.b, x.q1.b, x.q2.b, x.q3.b,
    x.q0.c, x.q1.c, x.q2.c, x.q3.c, x.q0.d, x.q1.d, x.q2.d, x.q3.d]

end Block

/-- The eight words of a key. -/
structure Key where
  low : Quad
  high : Quad

/-- The block for a key and a counter before any round. -/
def initial (key : Key) (counter : UInt64) : Block :=
  ⟨⟨0x61707865, key.low.a, key.high.a, counter.toUInt32⟩,
    ⟨0x3320646e, key.low.b, key.high.b, (counter >>> 32).toUInt32⟩,
    ⟨0x79622d32, key.low.c, key.high.c, 0⟩,
    ⟨0x6b206574, key.low.d, key.high.d, 0⟩⟩

/-- Twelve rounds and the feed-forward addition. -/
def block (key : Key) (counter : UInt64) : List UInt32 :=
  let start := initial key counter
  (start.add (start.doubleRounds 6)).words

/-- One step of the generator that spreads a seed: the word and the next state. -/
def seedStep (state : UInt64) : UInt32 × UInt64 :=
  let state := state * 6364136223846793005 + 11634580027462260723
  let mixed := (((state >>> 18) ^^^ state) >>> 27).toUInt32
  (rotateRight mixed (state >>> 59).toUInt32, state)

/-- Four words of key material and the state after them. -/
def seedQuad (s : UInt64) : Quad × UInt64 :=
  let (a, s) := seedStep s
  let (b, s) := seedStep s
  let (c, s) := seedStep s
  let (d, s) := seedStep s
  (⟨a, b, c, d⟩, s)

def keyOfSeed (seed : UInt64) : Key :=
  let (low, s) := seedQuad seed
  ⟨low, (seedQuad s).1⟩

end Keystream

/-- A position in the word stream of a key: the words left of the current block, and the counter
of the next. -/
structure Keystream where
  key : Keystream.Key
  counter : UInt64
  pending : List UInt32

namespace Keystream

def ofSeed (seed : UInt64) : Keystream := ⟨keyOfSeed seed, 0, []⟩

/-- The next word of the stream. -/
def next (stream : Keystream) : UInt32 × Keystream :=
  match stream.pending with
  | word :: rest => (word, { stream with pending := rest })
  | [] => match block stream.key stream.counter with
    | word :: rest => (word, { stream with counter := stream.counter + 1, pending := rest })
    | [] => (0, stream)

end Keystream

end CopyPatch
