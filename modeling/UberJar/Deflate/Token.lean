import UberJar.Bytes

namespace UberJar.Deflate

/-- A piece of data: a byte, or `length` bytes that stand `distance` bytes earlier. -/
inductive Token
  | literal (byte : UInt8)
  | copy (length distance : Nat)
  deriving DecidableEq, Repr, Inhabited

/-- The number of bytes a token stands for. -/
def Token.span : Token → Nat
  | literal _ => 1
  | copy length _ => length

/-- The longest copy. -/
def maxLength : Nat := 258

/-- The symbol that ends a block. -/
def endOfBlock : Nat := 256

/-- The least length of a class of lengths. -/
def lengthBase (kind : Nat) : Nat :=
  if kind < 8 then kind + 3 else if kind = 28 then maxLength else 3 + (4 + kind % 4) * Nat.pow 2 (kind / 4 - 1)

/-- The number of extra bits of a class of lengths. -/
def lengthExtra (kind : Nat) : Nat := if kind < 8 ∨ kind = 28 then 0 else kind / 4 - 1

/-- The class of a length. -/
def lengthClass (length : Nat) : Nat :=
  let n := length - 3
  if n < 8 then n
  else if length = maxLength then 28
  else
    let extra := n.log2 - 2
    4 * extra + n / Nat.pow 2 extra

/-- The least distance of a class of distances. -/
def distanceBase (kind : Nat) : Nat :=
  if kind < 4 then kind + 1 else 1 + (2 + kind % 2) * Nat.pow 2 (kind / 2 - 1)

/-- The number of extra bits of a class of distances. -/
def distanceExtra (kind : Nat) : Nat := if kind < 4 then 0 else kind / 2 - 1

/-- The class of a distance. -/
def distanceClass (distance : Nat) : Nat :=
  let n := distance - 1
  if n < 4 then n
  else
    let extra := n.log2 - 1
    2 * extra + n / Nat.pow 2 extra

end UberJar.Deflate
