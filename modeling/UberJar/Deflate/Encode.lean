import UberJar.Deflate.Block
import UberJar.Deflate.Inflate
import UberJar.Deflate.WordLengths

namespace UberJar.Deflate

namespace Token

/-- Counts the symbols of a token: literals and lengths first, distances second. -/
def count (counts : Array Nat × Array Nat) : Token → Array Nat × Array Nat
  | literal byte => (counts.1.modify byte.toNat (· + 1), counts.2)
  | copy length distance =>
    (counts.1.modify (endOfBlock + 1 + lengthClass length) (· + 1), counts.2.modify (distanceClass distance) (· + 1))

/-- The bits of a token in the given codes. -/
def bits (literals distances : Array Bits) : Token → Bits
  | literal byte => literals.getD byte.toNat []
  | copy length distance =>
    let kind := lengthClass length
    let far := distanceClass distance
    literals.getD (endOfBlock + 1 + kind) [] ++ Bits.ofNat (lengthExtra kind) (length - lengthBase kind)
      ++ distances.getD far [] ++ Bits.ofNat (distanceExtra far) (distance - distanceBase far)

end Token

/-- A symbol of the code for word lengths, and the number in its extra bits with their width. -/
structure LengthSymbol where
  symbol : Nat
  extra : Nat × Nat
  deriving Repr, Inhabited

namespace LengthSymbol

/-- A word length by itself. -/
def plain (length : Nat) : LengthSymbol := ⟨length, 0, 0⟩

/-- A run of zeros. The first argument bounds the number of symbols. -/
def zeros : Nat → (count : Nat) → List LengthSymbol
  | 0, _ => []
  | fuel + 1, count =>
    if count < 3 then List.replicate count (plain 0)
    else if count ≤ 10 then [⟨17, 3, count - 3⟩]
    else if count ≤ 138 then [⟨18, 7, count - 11⟩]
    else ⟨18, 7, 127⟩ :: zeros fuel (count - 138)

/-- Repetitions of a length that has just been given. The first argument bounds the number of symbols. -/
def repeats (length : Nat) : Nat → (count : Nat) → List LengthSymbol
  | 0, _ => []
  | fuel + 1, count =>
    if count < 3 then List.replicate count (plain length)
    else if count ≤ 6 then [⟨16, 2, count - 3⟩]
    else ⟨16, 2, 3⟩ :: repeats length fuel (count - 6)

/-- A run of one length. -/
def ofRun (run : List Nat) : List LengthSymbol :=
  match run with
  | [] => []
  | 0 :: _ => zeros run.length run.length
  | length :: rest => plain length :: repeats length rest.length rest.length

/-- The symbols for word lengths. -/
def ofLengths (lengths : List Nat) : List LengthSymbol := (lengths.splitBy (· == ·)).flatMap ofRun

end LengthSymbol

/-- A list without the zeros at its end, but with its first `least` entries. -/
def dropZeros (least : Nat) (lengths : List Nat) : List Nat :=
  lengths.take (max least (lengths.reverse.dropWhile (· == 0)).length)

/-- The bits that give a block's codes. -/
def codeBits (literals distances : List Nat) : Bits :=
  let literals := dropZeros 257 literals
  let distances := dropZeros 1 distances
  let symbols := LengthSymbol.ofLengths (literals ++ distances)
  let counts := symbols.foldl (fun (counts : Array Nat) s => counts.modify s.symbol (· + 1)) (Array.replicate 19 0)
  let lengths := wordLengths 7 counts.toList
  let code := (words lengths).toArray
  let given := dropZeros 4 (lengthOrder.map fun n => lengths.getD n 0)
  Bits.ofNat 5 (literals.length - 257) ++ Bits.ofNat 5 (distances.length - 1) ++ Bits.ofNat 4 (given.length - 4)
    ++ given.flatMap (Bits.ofNat 3)
    ++ symbols.flatMap fun s => code.getD s.symbol [] ++ Bits.ofNat s.extra.1 s.extra.2

namespace Block

/-- The tokens of a block in the given codes, and the end of the block. -/
def body (b : Block) (literals distances : List Nat) : Bits :=
  let literals := (words literals).toArray
  let distances := (words distances).toArray
  b.tokens.flatMap (Token.bits literals distances) ++ literals.getD endOfBlock []

/-- A block in the fixed codes. -/
def fixedBits (b : Block) : Bits := Bits.ofNat 2 1 ++ b.body fixedLengths fixedDistances

/-- A block in codes of its own. -/
def ownBits (b : Block) : Bits :=
  let none := ((Array.replicate 288 0).set! endOfBlock 1, Array.replicate 32 0)
  let (literals, distances) := b.tokens.foldl Token.count none
  let literals := wordLengths 15 literals.toList
  let distances := wordLengths 15 distances.toList
  Bits.ofNat 2 2 ++ codeBits (literals.take 286) (distances.take 30) ++ b.body literals distances

/-- The data of a block as it is. The first argument is the number of bits before the block. -/
def storedBits (before : Nat) (data : Array UInt8) (b : Block) : Bits :=
  let bytes := (data.extract b.start (b.start + b.length)).toList
  Bits.ofNat 2 0 ++ Bits.padding (before + 2) ++ Bits.ofNat 16 b.length ++ Bits.ofNat 16 (0xFFFF - b.length)
    ++ bytes.flatMap fun byte => Bits.ofNat 8 byte.toNat

/-- The bits of a block after the mark for the last one. The first argument is the number of bits before. -/
def bits (before : Nat) (data : Array UInt8) (b : Block) : Bits :=
  let coded := if b.length < 48 then b.fixedBits else b.ownBits
  if b.length > 32 ∧ (before % 8 + coded.length) / 8 + 1 ≥ b.length ∧ b.inWindow then b.storedBits before data
  else coded

/-- Appends the bits of blocks, each with the mark that says whether it is the last one. -/
def appendBits (data : Array UInt8) : (blocks : List Block) → (pieces : List Bits) → (before : Nat) → List Bits
  | [], pieces, _ => pieces.reverse
  | b :: rest, pieces, before =>
    let piece := rest.isEmpty :: b.bits (before + 1) data
    appendBits data rest (piece :: pieces) (before + piece.length)

end Block

/-- Compressed data for a byte string. -/
def deflate (bytes : Bytes) : Bytes :=
  let data := bytes.toArray
  Bits.toBytes (Block.appendBits data (Block.ofData data) [] 0).flatten

end UberJar.Deflate
