import UberJar.Error
import UberJar.Text.Blank
import UberJar.Text.Split

namespace UberJar.Relocation

/-- Whether a character may begin a segment of a package name. -/
def isSegmentStart (c : Char) : Bool := c.isAlpha || c == '_' || c == '$'

/-- Whether a text is one segment of a package name. -/
def isSegment : List Char → Bool
  | [] => false
  | c :: rest => isSegmentStart c && rest.all fun d => d.isAlphanum || d == '_' || d == '$'

/-- Whether a text is a package name: segments separated by dots. -/
def isPackage (text : List Char) : Bool := (text.splitOn '.').all isSegment

/-- Whether a package is another one or lies under it. -/
def isUnder (inner outer : List Char) : Bool :=
  match Text.dropPrefix? outer inner with
  | some [] => true
  | some (c :: _) => c == '.'
  | none => false

/-- A package and the package it moves to. The destination does not lie under the source, so what was moved
    is not moved again by its own rule. -/
structure Rule where
  source : List Char
  destination : List Char
  source_valid : isPackage source = true
  destination_valid : isPackage destination = true
  not_under : isUnder destination source = false
  deriving DecidableEq, Repr

namespace Rule

/-- A package as written, in dotted form: `org/apache/` stands for `org.apache`. -/
def normalize (text : List Char) : List Char :=
  Text.replaceChar '/' '.' (Text.dropAround (fun c => c == '.' || c == '/') (Text.trim text))

/-- A rule from two packages as written. -/
def make (source destination : List Char) : Except ConfigError Rule :=
  let source := normalize source
  let destination := normalize destination
  if hs : isPackage source = true then
    if hd : isPackage destination = true then
      if hu : isUnder destination source = false then .ok ⟨source, destination, hs, hd, hu⟩
      else .error (.destinationUnderSource (String.ofList source) (String.ofList destination))
    else .error (.invalidPackage (String.ofList destination))
  else .error (.invalidPackage (String.ofList source))

/-- The rule that moves a package under a prefix. -/
def underRoot (root package : List Char) : Except ConfigError Rule :=
  let package := normalize package
  make package (normalize root ++ '.' :: package)

/-- The source as a directory. -/
def sourcePath (r : Rule) : List Char := Text.replaceChar '.' '/' r.source

/-- The destination as a directory. -/
def destinationPath (r : Rule) : List Char := Text.replaceChar '.' '/' r.destination

/-- Moves a path that is the source directory or lies below it. -/
def movePath? (r : Rule) (path : List Char) : Option (List Char) :=
  match Text.dropPrefix? r.sourcePath path with
  | some [] => some r.destinationPath
  | some (c :: rest) => if c = '/' then some (r.destinationPath ++ c :: rest) else none
  | none => none

/-- Moves a dotted name that is the source package or lies under it. -/
def moveName? (r : Rule) (name : List Char) : Option (List Char) :=
  match Text.dropPrefix? r.source name with
  | some [] => some r.destination
  | some (c :: rest) => if c = '.' ∨ c = '$' then some (r.destination ++ c :: rest) else none
  | none => none

/-- The text form of a rule. -/
def render (r : Rule) : String := String.ofList r.source ++ " -> " ++ String.ofList r.destination

end Rule
end UberJar.Relocation
