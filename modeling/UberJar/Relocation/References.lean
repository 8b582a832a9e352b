import UberJar.Relocation.Relocator
import UberJar.Text.Utf8

namespace UberJar.Relocation

/-- One form of a rule: the bytes to find, the bytes to write, and the byte that separates segments. -/
structure Form where
  source : Bytes
  destination : Bytes
  separator : UInt8
  deriving DecidableEq, Repr

/-- The forms of a rule: with slashes, then with dots. -/
def Rule.forms (r : Rule) : List Form :=
  [⟨Text.Utf8.encode r.sourcePath, Text.Utf8.encode r.destinationPath, 0x2F⟩,
    ⟨Text.Utf8.encode r.source, Text.Utf8.encode r.destination, 0x2E⟩]

/-- The forms of all rules, in the order in which they are tried. -/
def Relocator.forms (relocator : Relocator) : List Form := relocator.rules.flatMap Rule.forms

namespace Reference

/-- Whether a byte may be part of a qualified name, in slash form or in dotted form. -/
def isNamePart (b : UInt8) : Bool :=
  (0x30 ≤ b && b ≤ 0x39) || (0x41 ≤ b && b ≤ 0x5A) || (0x61 ≤ b && b ≤ 0x7A) ||
    b == 0x5F || b == 0x24 || b == 0x2F || b == 0x2E || b ≥ 0x80

/-- The primitive types of a descriptor, which may stand before an object type: `BCDFIJSZ`. -/
def isPrimitive (b : UInt8) : Bool :=
  b == 0x42 || b == 0x43 || b == 0x44 || b == 0x46 || b == 0x49 || b == 0x4A || b == 0x53 || b == 0x5A

/-- Whether a reference may start behind `before`, whose bytes are given last byte first: at the beginning,
    behind a byte that is in no name, and in slash form also behind the slash of an absolute resource name
    and behind the `L` of an object type, with primitive types before it. -/
def startsAfter (separator : UInt8) (before : Bytes) : Bool :=
  match before with
  | [] => true
  | last :: earlier =>
    if !isNamePart last then true
    else if separator != 0x2F then false
    else if last == 0x2F then earlier.isEmpty
    else if last == 0x4C then
      match earlier.dropWhile isPrimitive with
      | [] => true
      | b :: _ => !isNamePart b
    else false

/-- Whether a package may end before `rest`: at the end, or before a separator, a `$` or a byte that is in no
    name. -/
def endsBefore (separator : UInt8) (rest : Bytes) : Bool :=
  match rest with
  | [] => true
  | b :: _ => b == separator || b == 0x24 || !isNamePart b

/-- Whether a form occurs, as a reference, between `before` and what follows. -/
def matchesForm (before rest : Bytes) (form : Form) : Bool :=
  form.source.isPrefixOf rest && startsAfter form.separator before &&
    endsBefore form.separator (rest.drop form.source.length)

/-- The first form that occurs as a reference between `before` and what follows. -/
def matching? (forms : List Form) (before rest : Bytes) : Option Form := forms.find? (matchesForm before rest)

/-- A part of a byte string: a byte that stays, or a reference in the source form. -/
inductive Piece
  | kept (b : UInt8)
  | moved (form : Form)
  deriving DecidableEq, Repr

/-- The bytes that a piece stands for before the move. -/
def Piece.input : Piece → Bytes
  | kept b => [b]
  | moved form => form.source

/-- The bytes that a piece stands for after the move. -/
def Piece.output : Piece → Bytes
  | kept b => [b]
  | moved form => form.destination

/-- Whether a piece is a reference. -/
def Piece.isMoved : Piece → Bool
  | kept _ => false
  | moved _ => true

/-- Cuts `rest` into pieces, from left to right, and puts them on `pieces`, which are given last piece first.
    `before` holds the bytes before `rest`, last byte first. -/
def scanOnto (forms : List Form) (pieces : List Piece) (before : Bytes) : Bytes → List Piece
  | [] => pieces
  | b :: rest =>
    match matching? forms before (b :: rest) with
    | some form =>
      scanOnto forms (.moved form :: pieces) (form.source.reverse ++ before) (rest.drop (form.source.length - 1))
    | none => scanOnto forms (.kept b :: pieces) (b :: before) rest
termination_by rest => rest.length
decreasing_by
  all_goals (simp only [List.length_drop, List.length_cons]; omega)

/-- The pieces of a byte string. -/
def pieces (forms : List Form) (bytes : Bytes) : List Piece := (scanOnto forms [] [] bytes).reverse

end Reference

/-- Moves the references in a byte string; none if there are none. -/
def Relocator.moveReferences? (relocator : Relocator) (bytes : Bytes) : Option Bytes :=
  let pieces := Reference.pieces relocator.forms bytes
  if pieces.any Reference.Piece.isMoved then some (pieces.flatMap Reference.Piece.output) else none

end UberJar.Relocation
