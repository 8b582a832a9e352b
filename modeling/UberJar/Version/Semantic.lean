import UberJar.Text.Split

namespace UberJar.Version

/-- The largest number a version may hold. -/
def maxNumber : Nat := Nat.pow 2 64 - 1

/-- The value of a row of digits, if it is not too large. -/
def number? (digits : List Char) : Option Nat :=
  if digits.isEmpty || !digits.all Char.isDigit then none
  else
    let n := digits.foldl (fun n d => n * 10 + (d.toNat - '0'.toNat)) 0
    if n ≤ maxNumber then some n else none

/-- A semantic version. Identifiers are kept as written; no identifiers stand for an absent part. -/
structure Semantic where
  major : Nat
  minor : Nat
  patch : Nat
  preRelease : List (List Char) := []
  build : List (List Char) := []
  deriving DecidableEq, Repr, Inhabited

namespace Semantic

/-- Whether all characters are digits. -/
def isNumeric (identifier : List Char) : Bool := identifier.all Char.isDigit

/-- Whether a row of digits has a leading zero that it does not need. -/
def hasLeadingZero : List Char → Bool
  | '0' :: _ :: _ => true
  | _ => false

/-- Whether a text may be an identifier: letters, digits and hyphens, at least one. -/
def isIdentifier (identifier : List Char) : Bool :=
  !identifier.isEmpty && identifier.all fun c => c.isAlphanum || c == '-'

/-- The identifiers of a pre-release part; numbers among them have no leading zeros. -/
def preRelease? (part : List Char) : Option (List (List Char)) :=
  let identifiers := part.splitOn '.'
  if identifiers.all fun i => isIdentifier i && !(isNumeric i && hasLeadingZero i) then some identifiers else none

/-- The identifiers of a build part. -/
def build? (part : List Char) : Option (List (List Char)) :=
  let identifiers := part.splitOn '.'
  if identifiers.all isIdentifier then some identifiers else none

/-- A version from its three numbers and the text behind them. -/
def ofParts? (major minor patch : List Char) (suffix : List Char) : Option Semantic := do
  if [major, minor, patch].any hasLeadingZero then none
  let v : Semantic := { major := ← number? major, minor := ← number? minor, patch := ← number? patch }
  match suffix with
  | [] => some v
  | '+' :: build => return { v with build := ← build? build }
  | '-' :: rest =>
    match Text.splitFirst? '+' rest with
    | none => return { v with preRelease := ← preRelease? rest }
    | some (preRelease, build) => return { v with preRelease := ← preRelease? preRelease, build := ← build? build }
  | _ => none

/-- Compares two rows by their first difference; a row is less than its extensions. -/
def compareRows {α : Type} (compareItems : α → α → Ordering) : List α → List α → Ordering
  | [], [] => .eq
  | [], _ :: _ => .lt
  | _ :: _, [] => .gt
  | a :: as, b :: bs => (compareItems a b).then (compareRows compareItems as bs)

/-- Compares texts character by character. -/
def compareText (a b : List Char) : Ordering := compareRows (fun c d => compare c.toNat d.toNat) a b

/-- Compares pre-release identifiers: numbers by value, and below other identifiers. -/
def comparePreRelease (a b : List Char) : Ordering :=
  match isNumeric a, isNumeric b with
  | true, true => (compare a.length b.length).then (compareText a b)
  | true, false => .lt
  | false, true => .gt
  | false, false => compareText a b

/-- Compares build identifiers: numbers by value, then by length, and below other identifiers. -/
def compareBuild (a b : List Char) : Ordering :=
  match isNumeric a, isNumeric b with
  | true, true =>
    let a' := a.dropWhile (· == '0')
    let b' := b.dropWhile (· == '0')
    ((compare a'.length b'.length).then (compareText a' b')).then (compare a.length b.length)
  | true, false => .lt
  | false, true => .gt
  | false, false => compareText a b

/-- Compares pre-release parts: a release is above its pre-releases. -/
def comparePreReleases : List (List Char) → List (List Char) → Ordering
  | [], [] => .eq
  | [], _ :: _ => .gt
  | _ :: _, [] => .lt
  | as, bs => compareRows comparePreRelease as bs

/-- Compares two versions. -/
def compare (v w : Semantic) : Ordering :=
  ((((Ord.compare v.major w.major).then (Ord.compare v.minor w.minor)).then (Ord.compare v.patch w.patch)).then
    (comparePreReleases v.preRelease w.preRelease)).then (compareRows compareBuild v.build w.build)

end Semantic
end UberJar.Version
