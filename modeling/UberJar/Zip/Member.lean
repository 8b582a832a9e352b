import UberJar.Bytes
import UberJar.Text.Utf8

namespace UberJar.Zip

/-- How the data of a file is kept. -/
inductive Method
  | stored
  | deflated
  deriving DecidableEq, Repr, Inhabited

namespace Method

/-- The number of a method in headers. -/
def code : Method → Nat
  | stored => 0
  | deflated => 8

/-- The method with a number, if it is one of these. -/
def ofCode? : Nat → Option Method
  | 0 => some stored
  | 8 => some deflated
  | _ => none

@[simp] theorem ofCode?_code (m : Method) : ofCode? m.code = some m := by cases m <;> rfl

end Method

/-- A date and time as headers keep it: years from 1980 on, seconds in steps of two. -/
structure Stamp where
  year : Nat
  month : Nat
  day : Nat
  hour : Nat
  minute : Nat
  second : Nat
  deriving DecidableEq, Repr, Inhabited

namespace Stamp

/-- The number that keeps the date. -/
def date (s : Stamp) : Nat := (s.year - 1980) * 512 + s.month * 32 + s.day

/-- The number that keeps the time of day. -/
def time (s : Stamp) : Nat := s.hour * 2048 + s.minute * 32 + s.second / 2

/-- The date and time kept by two numbers. -/
def ofNumbers (date time : Nat) : Stamp where
  year := 1980 + date / 512
  month := date / 32 % 16
  day := date % 32
  hour := time / 2048
  minute := time / 32 % 64
  second := time % 32 * 2

end Stamp

/-- What the directory says of a file. -/
structure Member where
  name : String
  flags : Nat
  /-- The number of the method. -/
  method : Nat
  stamp : Stamp
  checksum : UInt32
  /-- The number of bytes of the data as it is kept. -/
  keptSize : Nat
  /-- The number of bytes of the file. -/
  size : Nat
  /-- The attributes of the file: its mode is in the upper half. -/
  attributes : Nat
  /-- Where its header stands. -/
  offset : Nat
  /-- Whether an extra field names a cipher for the data. -/
  hasCipher : Bool := false
  deriving Repr, Inhabited

namespace Member

/-- The flag of data that is encrypted. -/
def encryptedFlag : Nat := 1

/-- The flag of a name in UTF-8. -/
def utf8Flag : Nat := 0x800

/-- Whether the data is encrypted. -/
def isEncrypted (m : Member) : Bool := m.flags &&& encryptedFlag != 0 || m.hasCipher

/-- The number that stands for a method named by the cipher of the data. -/
def cipherMethod : Nat := 99

/-- The mode of the file. -/
def mode (m : Member) : Nat := m.attributes >>> 16

/-- Whether a member is a directory: its name ends in a separator. -/
def isDirectory (m : Member) : Bool := m.name.toList.getLast?.any fun c => c == '/' || c == '\\'

/-- The version of the format that a reader has to know. -/
def formatVersion : Nat := 20

/-- The version of the format with the system whose modes are in the attributes. -/
def writerVersion : Nat := 0x300 + formatVersion

/-- The number that opens a header. -/
def headerMark : Nat := 0x04034b50

/-- The number that opens an entry of the directory. -/
def directoryMark : Nat := 0x02014b50

/-- The number of bytes of a directory entry before the name. -/
def directoryEntryLength : Nat := 46

/-- The fields that a header and a directory entry share. -/
private def sharedFields (m : Member) : Bytes :=
  Bytes.ofNatLE 2 formatVersion ++ Bytes.ofNatLE 2 m.flags ++ Bytes.ofNatLE 2 m.method
    ++ Bytes.ofNatLE 2 m.stamp.time ++ Bytes.ofNatLE 2 m.stamp.date ++ Bytes.ofNatLE 4 m.checksum.toNat
    ++ Bytes.ofNatLE 4 m.keptSize ++ Bytes.ofNatLE 4 m.size ++ Bytes.ofNatLE 2 m.name.utf8ByteSize
    ++ Bytes.ofNatLE 2 0

/-- The header before the data. -/
def header (m : Member) : Bytes :=
  Bytes.ofNatLE 4 headerMark ++ sharedFields m ++ Text.Utf8.ofString m.name

/-- The entry of the directory. -/
def directoryEntry (m : Member) : Bytes :=
  Bytes.ofNatLE 4 directoryMark ++ Bytes.ofNatLE 2 writerVersion ++ sharedFields m
    ++ Bytes.ofNatLE 6 0 ++ Bytes.ofNatLE 4 m.attributes ++ Bytes.ofNatLE 4 m.offset ++ Text.Utf8.ofString m.name

end Member

/-- The number that opens the last record. -/
def endMark : Nat := 0x06054b50

/-- The last record: how many entries the directory has, how long it is and where it stands. -/
def endRecord (count length offset : Nat) : Bytes :=
  Bytes.ofNatLE 4 endMark ++ Bytes.ofNatLE 4 0 ++ Bytes.ofNatLE 2 count ++ Bytes.ofNatLE 2 count
    ++ Bytes.ofNatLE 4 length ++ Bytes.ofNatLE 4 offset ++ Bytes.ofNatLE 2 0

/-- Why a byte string is no archive that can be read, or a list of entries none that can be written. -/
inductive Fault
  | noDirectory
  | noHeader (name : String)
  | encrypted (name : String)
  | unknownMethod (name : String)
  | corruptData (name : String)
  | wrongChecksum (name : String)
  | duplicateName (name : String)
  | nameTooLong (name : String)
  deriving DecidableEq, Repr

/-- The wording of a fault. -/
def Fault.message : Fault → String
  | noDirectory => "no directory of a zip archive found"
  | noHeader name => s!"{name}: no header where the directory says"
  | encrypted name => s!"{name}: encrypted"
  | unknownMethod name => s!"{name}: unknown compression method"
  | corruptData name => s!"{name}: corrupt compressed data"
  | wrongChecksum name => s!"{name}: checksum does not match"
  | duplicateName name => s!"{name}: duplicate name"
  | nameTooLong name => s!"{name}: name too long"

end UberJar.Zip
