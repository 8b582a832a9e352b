namespace UberJar.ClassFile

/-- Why bytes are no class file, or cannot become one again when its texts are replaced. -/
inductive FormatError
  | badMagic (found : UInt32)
  | truncated (offset : Nat)
  | unknownTag (tag : UInt8) (index : Nat)
  | constantTooLong (index length : Nat)
  deriving DecidableEq, Repr

namespace FormatError

/-- Eight hexadecimal digits. -/
private def hex8 (n : UInt32) : String :=
  String.ofList ((List.range 8).map fun i => Nat.digitChar ((n.toNat >>> (4 * (7 - i))) % 16))

/-- The wording of an error. -/
def message : FormatError → String
  | badMagic found => s!"bad magic number 0x{hex8 found}"
  | truncated offset => s!"truncated at offset {offset}"
  | unknownTag tag index => s!"unknown constant pool tag {tag} at index {index}"
  | constantTooLong index length => s!"constant #{index} is {length} bytes after rewriting, over the 65535 limit"

end FormatError
end UberJar.ClassFile
