import UberJar.Deflate.PrefixCode
import UberJar.Deflate.Token

namespace UberJar.Deflate

/-- What is left to read and what has been read. -/
structure InflateState where
  source : BitSource
  output : Array UInt8

/-- Reading compressed data, which may fail. -/
abbrev Inflater := StateT InflateState Option

/-- The word lengths of the code that blocks without a code of their own use for literals and lengths. -/
def fixedLengths : List Nat :=
  List.replicate 144 8 ++ List.replicate 112 9 ++ List.replicate 24 7 ++ List.replicate 8 8

/-- The word lengths of the code that blocks without a code of their own use for distances. -/
def fixedDistances : List Nat := List.replicate 32 5

/-- The order in which a block gives the word lengths of the code for word lengths. -/
def lengthOrder : List Nat := [16, 17, 18, 0, 8, 7, 9, 6, 10, 5, 11, 4, 12, 3, 13, 2, 14, 1, 15]

namespace Inflater

/-- The next bit. -/
def bit : Inflater Bool := do
  let (b, source) ← (← get).source.bit?
  modify fun s => { s with source }
  return b

/-- The number held by the next `width` bits. -/
def number (width : Nat) : Inflater Nat := do
  let (n, source) ← (← get).source.number? width
  modify fun s => { s with source }
  return n

/-- The next symbol of a code. -/
def symbol : CodeTree → Inflater Nat
  | .empty => failure
  | .symbol n => return n
  | .fork zero one => do if ← bit then symbol one else symbol zero

/-- Appends a byte to the output. -/
def emit (b : UInt8) : Inflater Unit := modify fun s => { s with output := s.output.push b }

/-- Appends `length` bytes, each a copy of the one `distance` bytes before it. The bytes before the first one
    count as zeros. -/
def copyBytes (distance : Nat) : (length : Nat) → Inflater Unit
  | 0 => return ()
  | length + 1 => do
    let output := (← get).output
    emit (if distance ≤ output.size then output.getD (output.size - distance) 0 else 0)
    copyBytes distance length

/-- Reads symbols up to the end of the block. The first argument bounds their number. -/
def symbols (literals distances : CodeTree) : Nat → Inflater Unit
  | 0 => failure
  | fuel + 1 => do
    let n ← symbol literals
    if n < endOfBlock then
      emit (UInt8.ofNat n)
      symbols literals distances fuel
    else if n = endOfBlock then return ()
    else
      let kind := n - endOfBlock - 1
      guard (kind ≤ 28)
      let length := lengthBase kind + (← number (lengthExtra kind))
      let kind ← symbol distances
      guard (kind ≤ 29)
      let distance := distanceBase kind + (← number (distanceExtra kind))
      copyBytes distance length
      symbols literals distances fuel

/-- Reads a block of bytes as they are. -/
def stored : Inflater Unit := do
  modify fun s => { s with source := s.source.align }
  let length ← number 16
  let check ← number 16
  guard (length + check = 0xFFFF)
  let s ← get
  let (front, rest) ← s.source.rest.take? length
  set { s with source := ⟨[], rest⟩, output := s.output ++ front : InflateState }

/-- Reads word lengths, written with a code of their own and with marks for runs, up to `count` of them. The
    first argument bounds the number of steps. -/
def wordLengths (code : CodeTree) (count : Nat) : Nat → (lengths : Array Nat) → Inflater (Array Nat)
  | 0, _ => failure
  | fuel + 1, lengths => do
    if lengths.size ≥ count then
      guard (lengths.size = count)
      return lengths
    else
      let n ← symbol code
      if n < 16 then wordLengths code count fuel (lengths.push n)
      else
        let (value, times) ←
          if n = 16 then
            pure (← lengths.back?, 3 + (← number 2))
          else if n = 17 then pure (0, 3 + (← number 3))
          else pure (0, 11 + (← number 7))
        wordLengths code count fuel (lengths ++ Array.replicate times value)

/-- The code with the given word lengths, which has to be complete; `few` also admits a code without symbols,
    and one of a single symbol whose word is a single bit. -/
def code (few : Bool) (lengths : List Nat) : Inflater CodeTree := do
  guard (isComplete lengths || (few && lengths.foldr Nat.add 0 ≤ 1))
  return CodeTree.ofLengths lengths

/-- Reads the codes of a block: the one for literals and lengths and the one for distances. -/
def codes : Inflater (CodeTree × CodeTree) := do
  let literalCount := 257 + (← number 5)
  let distanceCount := 1 + (← number 5)
  guard (literalCount ≤ 286 ∧ distanceCount ≤ 30)
  let given ← (List.range (4 + (← number 4))).mapM fun _ => number 3
  let placed := lengthOrder.zip given
  let lengthCode ← code false ((List.range 19).map fun n => (placed.lookup n).getD 0)
  let count := literalCount + distanceCount
  let lengths := (← wordLengths lengthCode count (count + 1) #[]).toList
  return (← code true (lengths.take literalCount), ← code true (lengths.drop literalCount))

/-- Reads blocks up to the last one. The first argument bounds their number. -/
def blocks : Nat → Inflater Unit
  | 0 => failure
  | fuel + 1 => do
    let last ← bit
    let kind ← number 2
    let bound := (← get).source.size + 1
    if kind = 0 then stored
    else if kind = 1 then symbols (.ofLengths fixedLengths) (.ofLengths fixedDistances) bound
    else if kind = 2 then
      let (literals, distances) ← codes
      symbols literals distances bound
    else failure
    if last then return () else blocks fuel

end Inflater

/-- The data that compressed data stands for, if it is well formed. -/
def inflate? (bytes : Bytes) : Option Bytes :=
  let source := BitSource.ofBytes bytes
  ((Inflater.blocks (source.size + 1)).run { source, output := #[] }).map fun (_, s) => s.output.toList

end UberJar.Deflate
