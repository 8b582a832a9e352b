import UberJar.Text.Split

namespace UberJar

/-- A file path, as written. -/
structure Path where
  text : String
  deriving DecidableEq, Repr, Inhabited

namespace Path

instance : ToString Path := ⟨Path.text⟩

/-- Whether a path starts at the root. -/
def isAbsolute (p : Path) : Bool := p.text.toList.head? == some '/'

/-- Whether a path starts at the working directory. -/
def isRelative (p : Path) : Bool := !p.isAbsolute

/-- `p / q`: an absolute `q` replaces `p`. -/
def join (p q : Path) : Path :=
  if q.isAbsolute || p.text.isEmpty then q
  else if p.text.toList.getLast? == some '/' then ⟨p.text ++ q.text⟩
  else ⟨p.text ++ "/" ++ q.text⟩

/-- The pieces between slashes, after the root's slash. -/
def pieces (p : Path) : List (List Char) :=
  (if p.isAbsolute then p.text.toList.tail else p.text.toList).splitOn '/'

/-- Whether the piece at a position names nothing: it is empty, or a dot that does not open the path. -/
def isTrivial (p : Path) (index : Nat) (piece : List Char) : Bool :=
  piece.isEmpty || (piece == ['.'] && (p.isAbsolute || index != 0))

/-- The pieces up to the last one that names something, latest first. -/
def significant (p : Path) (reversed : List (List Char)) : List (List Char) :=
  match reversed with
  | [] => []
  | piece :: earlier => if isTrivial p earlier.length piece then significant p earlier else piece :: earlier

/-- The path whose pieces are given, latest first. -/
def ofReversed (p : Path) (reversed : List (List Char)) : Path :=
  let body := String.ofList (['/'].intercalate reversed.reverse)
  ⟨if p.isAbsolute then "/" ++ body else body⟩

/-- The path without its last component; none for the root and the empty path. -/
def parent? (p : Path) : Option Path :=
  match significant p p.pieces.reverse with
  | [] => none
  | _ :: earlier => some (ofReversed p (significant p earlier))

/-- The last component, if it is a name. -/
def fileName? (p : Path) : Option String :=
  match significant p p.pieces.reverse with
  | piece :: _ => if piece = ['.'] ∨ piece = ['.', '.'] then none else some (String.ofList piece)
  | [] => none

/-- The sibling of `p` called `name`; a path without a name gets it as a child. -/
def withFileName (p : Path) (name : String) : Path :=
  match p.fileName? with
  | some _ => (p.parent?.getD p).join ⟨name⟩
  | none => p.join ⟨name⟩

/-- A name without what follows its last dot; a name's first character is never cut off. -/
def stem (name : List Char) : List Char :=
  match Text.splitLast? '.' name with
  | some (front, _) => if front.isEmpty then name else front
  | none => name

/-- The path with the last component's extension replaced, or added where there is none. -/
def withExtension (p : Path) (extension : String) : Path :=
  match significant p p.pieces.reverse with
  | piece :: earlier =>
    if piece = ['.'] ∨ piece = ['.', '.'] then p
    else ofReversed p ((stem piece ++ '.' :: extension.toList) :: earlier)
  | [] => p

end Path
end UberJar
