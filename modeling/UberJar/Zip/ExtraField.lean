import UberJar.Digest.Crc32
import UberJar.Text.Utf8
import UberJar.Zip.Member

namespace UberJar.Zip

/-- A directory entry while its extra fields are read. -/
structure Draft where
  member : Member
  /-- The bytes of the name. -/
  rawName : Bytes
  /-- The comment, in UTF-8. -/
  comment : Bytes
  deriving Repr

/-- Why reading extra fields stops. -/
inductive ExtraStop
  | truncated
  | malformed
  deriving DecidableEq, Repr

/-- What is left of the extra fields, and the entry so far. -/
structure ExtraState where
  rest : Bytes
  draft : Draft

/-- Reading extra fields, with the entry so far kept when it stops. -/
abbrev ExtraReader := ExceptT ExtraStop (StateM ExtraState)

namespace ExtraReader

/-- The next `count` bytes. -/
def bytes (count : Nat) : ExtraReader Bytes := do
  match (← get).rest.take? count with
  | some (front, rest) =>
    modify fun s => { s with rest }
    return front
  | none => throw .truncated

/-- The number in the next `width` bytes. -/
def number (width : Nat) : ExtraReader Nat := return (← bytes width).toNatLE

/-- Stops unless a condition holds. -/
def require (condition : Bool) : ExtraReader Unit := unless condition do throw .malformed

/-- Amends the entry. -/
def amend (change : Member → Member) : ExtraReader Unit :=
  modify fun s => { s with draft := { s.draft with member := change s.draft.member } }

/-- Reads a wide number into the place of a number of the entry. Only a field of full length has it for a number
    that is not the largest that fits. Gives the number of bytes read. -/
def widen (isFull : Bool) (narrow : Member → Nat) (put : Nat → Member → Member) : ExtraReader Nat := do
  if isFull || narrow (← get).draft.member == 0xFFFFFFFF then
    let n ← number 8
    amend (put n)
    return 8
  else return 0

/-- Reads wide sizes and a wide offset. -/
def wideNumbers (length : Nat) : ExtraReader Unit := do
  let isFull := length ≥ 24
  let size ← widen isFull Member.size fun n m => { m with size := n }
  let keptSize ← widen isFull Member.keptSize fun n m => { m with keptSize := n }
  let offset ← widen isFull Member.offset fun n m => { m with offset := n }
  let used := size + keptSize + offset
  require (used ≤ length)
  let _ ← bytes (length - used)

/-- Reads three points in time, as attributes of a file. -/
def fileTimes (length : Nat) : ExtraReader Unit := do
  require (length = 32)
  let _ ← bytes 4
  require ((← number 2) = 1)
  require ((← number 2) = 24)
  let _ ← bytes 24

/-- Reads the points in time that the bits of a first byte announce. The bits count for all headers, so that a
    length of five, which has room for one point, also fits more of them. -/
def markedTimes (length : Nat) : ExtraReader Unit := do
  let marks ← number 1
  let isMarked (k : Nat) : Bool := marks.testBit k
  require (length = 5 || length = 1 + 4 * (List.range 8).countP isMarked)
  if isMarked 0 || length = 5 then let _ ← bytes 4
  if isMarked 1 && length > 5 then let _ ← bytes 4
  if isMarked 2 && length > 5 then let _ ← bytes 4

/-- Reads a text in UTF-8 that replaces `replaced`, whose checksum stands before it. -/
def replacement (length : Nat) (replaced : Bytes) : ExtraReader Bytes := do
  let _ ← bytes 1
  let checksum ← number 4
  require (5 ≤ length)
  let text ← bytes (length - 5)
  require (Digest.crc32 replaced = UInt32.ofNat checksum)
  return text

/-- Reads another name. -/
def name (length : Nat) : ExtraReader Unit := do
  let rawName ← replacement length (← get).draft.rawName
  match Text.Utf8.decode? rawName with
  | some name =>
    modify fun s => { s with draft := { s.draft with rawName } }
    amend fun m => { m with name := String.ofList name }
  | none => throw .malformed

/-- Reads another comment. -/
def comment (length : Nat) : ExtraReader Unit := do
  let comment ← replacement length (← get).draft.comment
  require (Text.Utf8.decode? comment).isSome
  modify fun s => { s with draft := { s.draft with comment } }

/-- Reads the cipher of the data, and the method by which it was kept before it was encrypted. -/
def cipher (length : Nat) : ExtraReader Unit := do
  require (length = 7)
  let version ← number 2
  let vendor ← number 2
  let strength ← number 1
  let method ← number 2
  require (vendor = 0x4541 && (version = 1 || version = 2) && 1 ≤ strength && strength ≤ 3)
  amend fun m => { m with method, hasCipher := true }

/-- Reads a field. -/
def field : ExtraReader Unit := do
  let kind ← number 2
  let length ← number 2
  match kind with
  | 0x0001 => wideNumbers length
  | 0x000A => fileTimes length
  | 0x5455 => markedTimes length
  | 0x6375 => comment length
  | 0x7075 => name length
  | 0x9901 => cipher length
  | _ => let _ ← bytes length

/-- Reads fields to the end. The first argument bounds their number. -/
def fields : Nat → ExtraReader Unit
  | 0 => return ()
  | fuel + 1 => do
    unless (← get).rest.isEmpty do
      field
      fields fuel

end ExtraReader

/-- A directory entry as its extra fields amend it; none if one of them is malformed. -/
def Draft.amend? (draft : Draft) (extra : Bytes) : Option Member :=
  match (ExtraReader.fields extra.length).run.run { rest := extra, draft } with
  | (.error .malformed, _) => none
  | (_, s) => some s.draft.member

end UberJar.Zip
