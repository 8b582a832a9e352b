import UberJar.Deflate.Inflate
import UberJar.Entry
import UberJar.Zip.CodePage
import UberJar.Zip.EndRecord
import UberJar.Zip.ExtraField

namespace UberJar.Zip

/-- Where the data of the member whose header stands at a position starts. -/
def dataStart? (file : File) (header : Nat) : Option Nat := do
  guard (file.isMark Member.headerMark header)
  let name ← file.number? (header + 26) 2
  let extra ← file.number? (header + 28) 2
  return header + 30 + name + extra

/-- A name or a comment. -/
def decodeText (isUtf8 : Bool) (bytes : Bytes) : String :=
  if isUtf8 then String.ofList (Text.Utf8.decodeLossy bytes) else decodeCodePage bytes

/-- Reads the directory entry at a position; gives the member and the position after the entry. -/
def Member.ofDirectory? (file : File) (place : DirectoryPlace) (position : Nat) : Option (Member × Nat) := do
  guard (file.isMark directoryMark position)
  let flags ← file.number? (position + 8) 2
  let time ← file.number? (position + 12) 2
  let date ← file.number? (position + 14) 2
  let checksum ← file.number? (position + 16) 4
  let nameLength ← file.number? (position + 28) 2
  let extraLength ← file.number? (position + 30) 2
  let commentLength ← file.number? (position + 32) 2
  let namePosition := position + directoryEntryLength
  let rawName ← file.slice? namePosition nameLength
  let extra ← file.slice? (namePosition + nameLength) extraLength
  let comment ← file.slice? (namePosition + nameLength + extraLength) commentLength
  let isUtf8 := flags &&& utf8Flag != 0
  let member : Member := {
    name := decodeText isUtf8 rawName
    flags
    method := ← file.number? (position + 10) 2
    stamp := .ofNumbers date time
    checksum := UInt32.ofNat checksum
    keptSize := ← file.number? (position + 20) 4
    size := ← file.number? (position + 24) 4
    attributes := ← file.number? (position + 38) 4
    offset := ← file.number? (position + 42) 4 }
  let member ← Draft.amend? { member, rawName, comment := Text.Utf8.ofString (decodeText isUtf8 comment) } extra
  guard (member.method = cipherMethod → member.hasCipher)
  let offset := member.offset + place.shift
  guard (offset < Nat.pow 2 64)
  return ({ member with offset }, namePosition + nameLength + extraLength + commentLength)

/-- Reads `count` entries of the directory from a position on. -/
def readMembers? (file : File) (place : DirectoryPlace) : (count position : Nat) → Option (List Member)
  | 0, _ => some []
  | count + 1, position => do
    let (m, next) ← Member.ofDirectory? file place position
    return m :: (← readMembers? file place count next)

/-- Puts a member in the place of an earlier one of its name, or else at the end. -/
def putMember (members : List Member) (m : Member) : List Member :=
  if members.any (·.name == m.name) then members.map fun other => if other.name == m.name then m else other
  else members ++ [m]

/-- The members of the archive whose last record is the latest one, of the first `count` positions, that leads
    to a directory. -/
def findMembers? (file : File) : (count : Nat) → Option (List Member)
  | 0 => none
  | position + 1 =>
    match (do
      let place ← DirectoryPlace.ofEnd? file position
      readMembers? file place place.count place.start) with
    | some members => some (members.foldl putMember [])
    | none => findMembers? file position

/-- The data of a member that starts at a position. -/
def Member.read (file : File) (start : Nat) (method : Method) (m : Member) : Except Fault Bytes := do
  let kept := (file.extract start (start + m.keptSize)).toList
  let data ← match method with
    | .stored => pure kept
    | .deflated => (Deflate.inflate? kept).elim (.error (.corruptData m.name)) .ok
  if Digest.crc32 data = m.checksum then return data else .error (.wrongChecksum m.name)

/-- Reads a member into an entry; a directory is none, but it has to have a header like any member. -/
def Member.entry? (file : File) (m : Member) : Except Fault (Option Entry) := do
  if m.isEncrypted then .error (.encrypted m.name)
  let start ← (dataStart? file m.offset).elim (.error (.noHeader m.name)) .ok
  let method ← (Method.ofCode? m.method).elim (.error (.unknownMethod m.name)) .ok
  if m.isDirectory then return none else return some ⟨m.name, ← m.read file start method⟩

/-- The members of an archive. -/
def members (bytes : Bytes) : Except Fault (List Member) :=
  let file : File := bytes.toArray
  (findMembers? file file.size).elim (.error .noDirectory) .ok

/-- The entries of an archive, without its directories. -/
def entries (bytes : Bytes) : Except Fault (List Entry) := do
  let file : File := bytes.toArray
  return (← (← members bytes).mapM (Member.entry? file)).filterMap id

end UberJar.Zip
