import UberJar.Deflate.PrefixCode

namespace UberJar.Deflate

/-- A tree under construction: its weight, and how many leaves it has at each depth. -/
structure WeightedTree where
  weight : Nat
  depths : List Nat
  deriving Repr, Inhabited

namespace WeightedTree

/-- A single symbol. -/
def leaf (weight : Nat) : WeightedTree := ⟨weight, [1]⟩

/-- Adds two lists entry by entry; the longer one's end stays. -/
def addDepths : List Nat → List Nat → List Nat
  | a :: as, b :: bs => (a + b) :: addDepths as bs
  | [], bs => bs
  | as, [] => as

/-- The tree with two trees below its root. -/
def join (a b : WeightedTree) : WeightedTree := ⟨a.weight + b.weight, 0 :: addDepths a.depths b.depths⟩

/-- Takes the lightest tree from two queues, each lightest first; a single symbol comes before a joined tree
    of the same weight. -/
def lightest? : (leaves joined : List WeightedTree) → Option (WeightedTree × List WeightedTree × List WeightedTree)
  | a :: leaves, b :: joined =>
    if b.weight < a.weight then some (b, a :: leaves, joined) else some (a, leaves, b :: joined)
  | a :: leaves, [] => some (a, leaves, [])
  | [], b :: joined => some (b, [], joined)
  | [], [] => none

/-- Joins the two lightest trees until one is left. The first argument bounds the number of joins. -/
def joinAll : Nat → (leaves joined : List WeightedTree) → Option WeightedTree
  | 0, leaves, joined => (lightest? leaves joined).map Prod.fst
  | fuel + 1, leaves, joined => do
    let (a, leaves, joined) ← lightest? leaves joined
    match lightest? leaves joined with
    | none => some a
    | some (b, leaves, joined) => joinAll fuel leaves (joined ++ [join a b])

end WeightedTree

/-- Moves a word one bit down, from the longest length below `length` that has any, to make room for two words
    of the next length. -/
def lengthenOne : (length : Nat) → (counts : Array Nat) → Array Nat
  | 0, counts => counts
  | length + 1, counts =>
    if counts.getD length 0 ≠ 0 then (counts.modify length (· - 1)).modify (length + 1) (· + 2)
    else lengthenOne length counts

/-- Takes `excess` words off the greatest length and makes room for them elsewhere. -/
def relieve (limit : Nat) : (excess : Nat) → (counts : Array Nat) → Array Nat
  | 0, counts => counts
  | excess + 1, counts => relieve limit excess (lengthenOne limit (counts.modify limit (· - 1)))

/-- How many words have each length, with lengths above `limit` brought down to it. -/
def limitCounts (limit : Nat) (depths : List Nat) : Array Nat :=
  let counts := ((List.range limit).map fun n => depths.getD n 0) ++ [(depths.drop limit).foldr Nat.add 0]
  let weights := (counts.drop 1).zipIdx.map fun (count, n) => count * Nat.pow 2 (limit - 1 - n)
  relieve limit (weights.foldr Nat.add 0 - Nat.pow 2 limit) counts.toArray

/-- Gives the symbols, rarest first, their lengths: the longest words go to the rarest symbols. -/
def deal (symbols : List Nat) : (lengths : List (Nat × Nat)) → List (Nat × Nat)
  | [] => []
  | (length, count) :: shorter =>
    (symbols.take count).map (·, length) ++ deal (symbols.drop count) shorter

/-- The word lengths, of at most `limit` bits, for symbols that occur with the given frequencies. Symbols that do
    not occur have length zero. -/
def wordLengths (limit : Nat) (frequencies : List Nat) : List Nat :=
  let used := (frequencies.zipIdx.filter (·.1 ≠ 0)).mergeSort (fun a b => a.1 ≤ b.1)
  match used with
  | [] => frequencies.map fun _ => 0
  | [(_, n)] => (List.range frequencies.length).map fun m => if m = n then 1 else 0
  | _ =>
    let tree := (WeightedTree.joinAll used.length (used.map (WeightedTree.leaf ·.1)) []).getD default
    let counts := limitCounts limit tree.depths
    let dealt := deal (used.map Prod.snd)
      ((List.range limit).reverse.map fun n => (n + 1, counts.getD (n + 1) 0))
    let lengths := dealt.foldl (fun (lengths : Array Nat) (n, length) => lengths.set! n length)
      (Array.replicate frequencies.length 0)
    lengths.toList

end UberJar.Deflate
