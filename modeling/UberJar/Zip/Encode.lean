import UberJar.Deflate.Encode
import UberJar.Digest.Crc32
import UberJar.Entry
import UberJar.Zip.Member

namespace UberJar.Zip

/-- How the entries of an archive are written. -/
structure Options where
  method : Method
  stamp : Stamp
  /-- The mode of every file. -/
  mode : Nat
  deriving DecidableEq, Repr

/-- An archive being written. -/
structure Building where
  /-- What has been written, latest piece first. -/
  pieces : List Bytes
  /-- How long it is. -/
  length : Nat
  /-- The members written, latest first. -/
  members : List Member

namespace Building

/-- Adds an entry. -/
def add (options : Options) (b : Building) (e : Entry) : Building :=
  let kept := match options.method with
    | .stored => e.data
    | .deflated => Deflate.deflate e.data
  let member : Member := {
    name := e.path
    flags := if e.path.toList.all (·.toNat < 128) then 0 else Member.utf8Flag
    method := options.method.code
    stamp := options.stamp
    checksum := Digest.crc32 e.data
    keptSize := kept.length
    size := e.data.length
    attributes := options.mode <<< 16
    offset := b.length }
  let header := member.header
  { pieces := kept :: header :: b.pieces, length := b.length + header.length + kept.length,
    members := member :: b.members }

/-- The archive with its directory. -/
def finish (b : Building) : Bytes :=
  let directory := b.members.reverse.flatMap Member.directoryEntry
  (b.pieces.reverse ++ [directory, endRecord b.members.length directory.length b.length]).flatten

end Building

/-- The first name that an earlier entry has too. -/
def duplicate? : (seen : List String) → List Entry → Option String
  | _, [] => none
  | seen, e :: rest => if seen.contains e.path then some e.path else duplicate? (e.path :: seen) rest

/-- The bytes of an archive. -/
def encode (options : Options) (entries : List Entry) : Except Fault Bytes :=
  match entries.find? (·.path.utf8ByteSize > 0xFFFF) with
  | some e => .error (.nameTooLong e.path)
  | none =>
    match duplicate? [] entries with
    | some name => .error (.duplicateName name)
    | none => .ok (entries.foldl (Building.add options) ⟨[], 0, []⟩).finish

end UberJar.Zip
