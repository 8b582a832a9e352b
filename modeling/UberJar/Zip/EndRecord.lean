import UberJar.Zip.File
import UberJar.Zip.Member

namespace UberJar.Zip

/-- Where the directory stands. -/
structure DirectoryPlace where
  start : Nat
  /-- The number of its entries. -/
  count : Nat
  /-- The number of bytes before the archive. -/
  shift : Nat
  deriving DecidableEq, Repr

/-- The last record of an archive. -/
structure EndRecord where
  /-- The part of the archive that the record is in. -/
  part : Nat
  /-- The part in which the directory starts. -/
  directoryPart : Nat
  /-- The number of directory entries in this part. -/
  count : Nat
  /-- The number of directory entries. -/
  total : Nat
  /-- Where the directory stands. -/
  offset : Nat
  deriving DecidableEq, Repr

namespace EndRecord

/-- The last record at a position. The comment of the archive, which follows it, ends within the file. -/
def read? (file : File) (position : Nat) : Option EndRecord := do
  guard (file.isMark endMark position)
  let part ← file.number? (position + 4) 2
  let directoryPart ← file.number? (position + 6) 2
  let count ← file.number? (position + 8) 2
  let total ← file.number? (position + 10) 2
  let offset ← file.number? (position + 16) 4
  let comment ← file.number? (position + 20) 2
  guard (position + 22 + comment ≤ file.size)
  return { part, directoryPart, count, total, offset }

/-- Whether a number of the record is the largest that fits, which stands for a number of the wide record. -/
def mayBeWide (r : EndRecord) : Bool := r.total == 0xFFFF || r.offset == 0xFFFFFFFF

/-- The place of the directory by the last record alone, which stands at a position. The directory opens with
    its mark unless it is empty. -/
def place? (file : File) (position : Nat) (r : EndRecord) : Option DirectoryPlace := do
  guard (r.part = r.directoryPart)
  if r.total = 0 then
    let shift := position - r.offset
    return { start := r.offset + shift, count := r.count, shift }
  else
    guard (r.offset < position)
    let start ← file.findMark? Member.directoryMark (position - r.offset - 3) r.offset
    return { start, count := r.count, shift := start - r.offset }

end EndRecord

/-- The record that leads to the wide record. -/
structure WideLocator where
  /-- The part in which the directory starts. -/
  directoryPart : Nat
  /-- Where the wide record stands. -/
  offset : Nat
  /-- The number of parts of the archive. -/
  parts : Nat
  deriving DecidableEq, Repr

namespace WideLocator

/-- The number that opens a locator. -/
def mark : Nat := 0x07064b50

/-- The number of bytes of a locator. -/
def length : Nat := 20

/-- The locator at a position. -/
def read? (file : File) (position : Nat) : Option WideLocator := do
  guard (file.isMark mark position)
  return {
    directoryPart := ← file.number? (position + 4) 4
    offset := ← file.number? (position + 8) 8
    parts := ← file.number? (position + 16) 4 }

end WideLocator

/-- The wide record of an archive. -/
structure WideRecord where
  /-- The version of the format with the system that the archive was written by. -/
  writerVersion : Nat
  /-- The version of the format that a reader has to know. -/
  readerVersion : Nat
  part : Nat
  directoryPart : Nat
  count : Nat
  total : Nat
  offset : Nat
  deriving DecidableEq, Repr

namespace WideRecord

/-- The number that opens a wide record. -/
def mark : Nat := 0x06064b50

/-- The wide record at a position. It ends where its locator stands and agrees with it, and there is room for
    the directory before it. -/
def read? (file : File) (locator : WideLocator) (locatorPosition position : Nat) : Option WideRecord := do
  guard (file.isMark mark position)
  let length ← file.number? (position + 4) 8
  guard (44 ≤ length ∧ position + 12 + length = locatorPosition)
  let record : WideRecord := {
    writerVersion := ← file.number? (position + 12) 2
    readerVersion := ← file.number? (position + 14) 2
    part := ← file.number? (position + 16) 4
    directoryPart := ← file.number? (position + 20) 4
    count := ← file.number? (position + 24) 8
    total := ← file.number? (position + 32) 8
    offset := ← file.number? (position + 48) 8 }
  guard (record.directoryPart = locator.directoryPart)
  guard (record.total * Member.directoryEntryLength + record.offset ≤ position)
  return record

/-- The first wide record in `count` positions from one on, with its position. -/
def find? (file : File) (locator : WideLocator) (locatorPosition : Nat) :
    (count position : Nat) → Option (WideRecord × Nat)
  | 0, _ => none
  | count + 1, position =>
    match read? file locator locatorPosition position with
    | some record => some (record, position)
    | none => find? file locator locatorPosition count (position + 1)

/-- The place of the directory by the wide record to which a locator leads. -/
def place? (file : File) (locator : WideLocator) (locatorPosition : Nat) : Option DirectoryPlace := do
  guard (locator.offset < locatorPosition ∧ locator.parts ≤ 1)
  let (record, position) ← find? file locator locatorPosition (locatorPosition - locator.offset) locator.offset
  guard (record.count ≤ record.total ∧ record.readerVersion ≤ record.writerVersion)
  guard (record.part = record.directoryPart)
  let shift := position - locator.offset
  return { start := record.offset + shift, count := record.total, shift }

end WideRecord

/-- The place of the directory by the last record at a position, or by the wide record to which a locator right
    before it leads. -/
def DirectoryPlace.ofEnd? (file : File) (position : Nat) : Option DirectoryPlace := do
  let record ← EndRecord.read? file position
  let locatorPosition := position - WideLocator.length
  let locator? :=
    if record.mayBeWide ∧ WideLocator.length ≤ position then WideLocator.read? file locatorPosition else none
  match locator? with
  | some locator => WideRecord.place? file locator locatorPosition
  | none => record.place? file position

end UberJar.Zip
