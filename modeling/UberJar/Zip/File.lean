import UberJar.Bytes

namespace UberJar.Zip

/-- The bytes of a file. -/
abbrev File := Array UInt8

namespace File

/-- `count` bytes from a position on, if there are that many. -/
def slice? (file : File) (start count : Nat) : Option Bytes :=
  if start + count ≤ file.size then some (file.extract start (start + count)).toList else none

/-- The number in `width` bytes at a position. -/
def number? (file : File) (start width : Nat) : Option Nat := (file.slice? start width).map Bytes.toNatLE

/-- Whether a mark stands at a position. -/
def isMark (file : File) (mark position : Nat) : Bool := file.number? position 4 == some mark

/-- The first position of a mark that lies in `count` positions from `start` on. -/
def findMark? (file : File) (mark : Nat) : (count start : Nat) → Option Nat
  | 0, _ => none
  | count + 1, start => if file.isMark mark start then some start else findMark? file mark count (start + 1)

end File
end UberJar.Zip
