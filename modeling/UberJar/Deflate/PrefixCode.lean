import UberJar.Deflate.Bits

namespace UberJar.Deflate

/-- The first word of a length, as a number: it follows the words that are one bit shorter. -/
def firstWord (lengths : List Nat) : Nat → Nat
  | 0 => 0
  | length + 1 => 2 * (firstWord lengths length + if length = 0 then 0 else lengths.count length)

/-- Gives each symbol the next word of its length; `next` holds these words. -/
def assignWords : (next : Array Nat) → (lengths : List Nat) → List Bits
  | _, [] => []
  | next, length :: rest =>
    if length = 0 then [] :: assignWords next rest
    else (Bits.ofNat length (next.getD length 0)).reverse :: assignWords (next.modify length (· + 1)) rest

/-- The words of the symbols, most significant bit first; a symbol of length zero has the empty word. -/
def words (lengths : List Nat) : List Bits :=
  assignWords ((List.range (lengths.foldl max 0 + 1)).map (firstWord lengths)).toArray lengths

/-- A prefix code as a tree of decisions. -/
inductive CodeTree
  | empty
  | symbol (n : Nat)
  | fork (zero one : CodeTree)
  deriving Repr, Inhabited

namespace CodeTree

/-- The tree with symbol `n` at the end of a word. -/
def insert (n : Nat) : Bits → CodeTree → CodeTree
  | [], _ => symbol n
  | true :: word, fork zero one => fork zero (insert n word one)
  | false :: word, fork zero one => fork (insert n word zero) one
  | true :: word, _ => fork empty (insert n word empty)
  | false :: word, _ => fork (insert n word empty) empty

/-- The tree of the code with the given word lengths. -/
def ofLengths (lengths : List Nat) : CodeTree :=
  (words lengths).zipIdx.foldl (fun t (word, n) => if word.isEmpty then t else t.insert n word) empty

end CodeTree

/-- Whether words of these lengths fill a code of words of up to 15 bits, so that no bit string is without a
    meaning and none has two. -/
def isComplete (lengths : List Nat) : Bool :=
  (lengths.map fun length => if length = 0 then 0 else Nat.pow 2 (15 - length)).foldr Nat.add 0 == Nat.pow 2 15

end UberJar.Deflate
