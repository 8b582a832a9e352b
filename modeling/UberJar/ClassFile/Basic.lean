import UberJar.ClassFile.Constant

namespace UberJar

/-- A class file. Slot 0 holds nothing, so `count` is one more than the number of slots in use. -/
structure ClassFile where
  minor : UInt16
  major : UInt16
  count : UInt16
  constants : List ClassFile.Constant
  tail : Bytes
  deriving DecidableEq, Repr

namespace ClassFile

/-- The bytes that open every class file. -/
def magic : UInt32 := 0xCAFEBABE

/-- The distance from a release to the version of its class files. -/
def releaseOffset : UInt16 := 44

/-- The version of the class files of a release; none if 16 bits do not hold it. -/
def versionOf? (release : UInt16) : Option UInt16 :=
  if release.toNat + releaseOffset.toNat < UInt16.size then some (release + releaseOffset) else none

/-- Reads a big-endian number of `width` bytes at byte `offset` of the file. -/
def readNat (width offset : Nat) (bytes : Bytes) : Except FormatError (Nat × Bytes) :=
  match Bytes.take? width bytes with
  | some (front, rest) => .ok (Bytes.toNatBE front, rest)
  | none => .error (.truncated offset)

/-- Reads the magic number and both versions. -/
def readVersions (bytes : Bytes) : Except FormatError (UInt16 × UInt16 × Bytes) := do
  let (found, rest) ← readNat 4 0 bytes
  if found ≠ magic.toNat then .error (.badMagic (UInt32.ofNat found))
  else
    let (minor, rest) ← readNat 2 4 rest
    let (major, rest) ← readNat 2 6 rest
    return (UInt16.ofNat minor, UInt16.ofNat major, rest)

/-- The version of a class file, read from its header alone. -/
def majorVersion (bytes : Bytes) : Except FormatError UInt16 := do
  let (_, major, _) ← readVersions bytes
  return major

/-- Reads a class file. -/
def parse (bytes : Bytes) : Except FormatError ClassFile := do
  let (minor, major, rest) ← readVersions bytes
  let (count, rest) ← readNat 2 8 rest
  let (constants, tail) ← Constant.readOnto [] count 1 10 rest
  return { minor, major, count := UInt16.ofNat count, constants := constants.reverse, tail }

/-- The bytes of a class file. -/
def encode (c : ClassFile) : Bytes :=
  Bytes.ofNatBE 4 magic.toNat ++ Bytes.ofNatBE 2 c.minor.toNat ++ Bytes.ofNatBE 2 c.major.toNat ++
    Bytes.ofNatBE 2 c.count.toNat ++ c.constants.flatMap Constant.encode ++ c.tail

/-- The slots that the constants take, with slot 0. -/
def slotCount (c : ClassFile) : Nat := c.constants.foldl (fun n constant => n + constant.slots) 1

/-- The texts among the constants. -/
def texts (c : ClassFile) : List Bytes := c.constants.filterMap Constant.text?

/-- Passes every text through `f`. -/
def mapTexts (f : Bytes → Bytes) (c : ClassFile) : ClassFile :=
  { c with constants := c.constants.map (Constant.mapText f) }

/-- The slot and the length of the first text, from slot `index` on, that is too long. -/
def tooLong? (index : Nat) : List Constant → Option (Nat × Nat)
  | [] => none
  | .utf8 text :: rest =>
    if text.length > Constant.maxLength then some (index, text.length) else tooLong? (index + 1) rest
  | constant :: rest => tooLong? (index + constant.slots) rest

/-- Passes every text through `f`, which gives nothing for a text that stays. The result is none if nothing
    changes, so that the bytes at hand can be kept. -/
def replaceTexts (f : Bytes → Option Bytes) (c : ClassFile) : Except FormatError (Option ClassFile) :=
  let renamed := c.mapTexts fun text => (f text).getD text
  if renamed.constants = c.constants then .ok none
  else
    match tooLong? 1 renamed.constants with
    | some (index, length) => .error (.constantTooLong index length)
    | none => .ok (some renamed)

end ClassFile
end UberJar
