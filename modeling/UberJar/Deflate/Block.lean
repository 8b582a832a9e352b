import UberJar.Deflate.History

namespace UberJar.Deflate

/-- The tokens of one block. -/
structure Block where
  tokens : List Token
  /-- Where its data starts. -/
  start : Nat
  /-- The number of bytes of its data. -/
  length : Nat
  /-- Whether its data still lies within the window when the block ends. -/
  inWindow : Bool
  deriving Repr, Inhabited

/-- The data cut so far. -/
structure Cutting where
  history : History
  /-- The blocks that are complete, latest first. -/
  blocks : List Block
  /-- The tokens of the block being filled, latest first. -/
  tokens : List Token
  /-- The number of tokens of the block being filled. -/
  count : Nat
  /-- The room that these tokens take: one byte a literal, three a copy. -/
  room : Nat
  /-- Where the block being filled starts. -/
  start : Nat
  /-- The number of bytes its tokens stand for. -/
  length : Nat
  /-- A match at the byte before the next one, put off. -/
  delayed : Option Match

namespace Cutting

/-- Nothing cut yet. -/
def empty : Cutting := ⟨.empty, [], [], 0, 0, 0, 0, none⟩

/-- Adds a token to the block being filled. -/
def add (token : Token) (c : Cutting) : Cutting :=
  { c with
    tokens := token :: c.tokens
    count := c.count + 1
    room := c.room + match token with | .literal _ => 1 | .copy .. => 3
    length := c.length + token.span }

/-- Chooses what to do at a position, and how many bytes that moves on. -/
def choose (data : Array UInt8) (position : Nat) (c : Cutting) : Nat × Cutting :=
  let byte := Token.literal (data.getD position 0)
  match c.delayed with
  | none =>
    match c.history.find? data position 2 with
    | none => (1, c.add byte)
    | some found =>
      if found.length ≥ 128 then (found.length, c.add (.copy found.length found.distance))
      else (1, { c with delayed := some found })
  | some delayed =>
    match c.history.find? data position delayed.length with
    | none => (delayed.length - 1, { c.add (.copy delayed.length delayed.distance) with delayed := none })
    | some found =>
      let c := c.add (.literal (data.getD (position - 1) 0))
      if found.length ≥ 128 then
        (found.length, { c.add (.copy found.length found.distance) with delayed := none })
      else (1, { c with delayed := some found })

/-- Completes the block being filled; the data up to `position` has been seen, and `reach` of it is in the
    window. -/
def close (position reach : Nat) (c : Cutting) : Cutting :=
  { c with
    blocks := ⟨c.tokens.reverse, c.start, c.length, decide (position - c.start ≤ reach)⟩ :: c.blocks
    tokens := []
    count := 0
    room := 0
    start := c.start + c.length
    length := 0 }

/-- The room a block takes in its buffer: its tokens, and a byte of marks for every eight of them. -/
def buffered (c : Cutting) : Nat := 1 + c.room + c.count / 8

/-- Whether the block being filled has to end. -/
def isFull (c : Cutting) : Bool :=
  decide (c.buffered > 65528) || (decide (c.length > 31744) && decide (c.buffered * 115 / 128 ≥ c.length))

/-- Cuts the data from a position on. The first argument bounds the number of choices. -/
def run (data : Array UInt8) : (fuel : Nat) → (position reach : Nat) → Cutting → Cutting
  | 0, position, reach, c => c.close position reach
  | fuel + 1, position, reach, c =>
    if position ≥ data.size then c.close position reach
    else
      let ahead := min maxLength (data.size - position)
      let { history, blocks, tokens, count, room, start, length, delayed } := c
      let c : Cutting := ⟨history.insert data position, blocks, tokens, count, room, start, length, delayed⟩
      let (step, c) := choose data position c
      let { history, blocks, tokens, count, room, start, length, delayed } := c
      let c : Cutting :=
        ⟨history.insertAll data (position + 1) (step - 1), blocks, tokens, count, room, start, length, delayed⟩
      let reach := min windowSize (min reach (windowSize - ahead) + step)
      let position := position + step
      run data fuel position reach (if c.isFull then c.close position reach else c)

end Cutting

/-- The blocks of data; the last one may be empty. -/
def Block.ofData (data : Array UInt8) : List Block :=
  (Cutting.run data (data.size + 1) 0 0 .empty).blocks.reverse

end UberJar.Deflate
