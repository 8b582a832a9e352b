import UberJar.Bytes
import UberJar.ClassFile.FormatError

namespace UberJar.ClassFile

/-- A constant of the pool. -/
inductive Constant
  | utf8 (text : Bytes)
  | other (tag : UInt8) (payload : Bytes)
  deriving DecidableEq, Repr, Inhabited

/-- The payload length behind a tag, for all constants but texts. -/
def payloadLength? (tag : UInt8) : Option Nat :=
  match tag.toNat with
  | 3 | 4 => some 4
  | 5 | 6 => some 8
  | 7 | 8 | 16 | 19 | 20 => some 2
  | 9 | 10 | 11 | 12 | 17 | 18 => some 4
  | 15 => some 3
  | _ => none

namespace Constant

/-- The tag of texts. -/
def utf8Tag : UInt8 := 1

/-- The longest text that a class file can hold. -/
def maxLength : Nat := 65535

/-- The slots that a constant takes: two for `long` and `double`. -/
def slots : Constant → Nat
  | utf8 _ => 1
  | other tag _ => if tag == 5 || tag == 6 then 2 else 1

/-- The bytes of a constant. -/
def encode : Constant → Bytes
  | utf8 text => utf8Tag :: Bytes.ofNatBE 2 text.length ++ text
  | other tag payload => tag :: payload

/-- The text of a text constant. -/
def text? : Constant → Option Bytes
  | utf8 text => some text
  | other _ _ => none

/-- Passes a text through `f`. -/
def mapText (f : Bytes → Bytes) : Constant → Constant
  | utf8 text => utf8 (f text)
  | other tag payload => other tag payload

theorem one_le_slots (c : Constant) : 1 ≤ c.slots := by
  cases c <;> simp only [slots] <;> (try split) <;> omega

/-- Reads the constant for slot `index`, at byte `offset` of the file. -/
def read (index offset : Nat) : Bytes → Except FormatError (Constant × Bytes)
  | [] => .error (.truncated offset)
  | tag :: rest =>
    if tag = utf8Tag then
      match Bytes.take? 2 rest with
      | none => .error (.truncated (offset + 1))
      | some (length, rest) =>
        match Bytes.take? (Bytes.toNatBE length) rest with
        | none => .error (.truncated (offset + 3))
        | some (text, rest) => .ok (utf8 text, rest)
    else
      match payloadLength? tag with
      | none => .error (.unknownTag tag index)
      | some length =>
        match Bytes.take? length rest with
        | none => .error (.truncated (offset + 1))
        | some (payload, rest) => .ok (other tag payload, rest)

/-- Reads constants for the slots from `index` up to `count`, last constant first, on top of `constants`. -/
def readOnto (constants : List Constant) (count index offset : Nat) (bytes : Bytes) :
    Except FormatError (List Constant × Bytes) :=
  if index < count then
    match read index offset bytes with
    | .error e => .error e
    | .ok (constant, rest) =>
      readOnto (constant :: constants) count (index + constant.slots) (offset + constant.encode.length) rest
  else .ok (constants, bytes)
termination_by count - index
decreasing_by
  have := one_le_slots constant
  omega

end Constant
end UberJar.ClassFile
