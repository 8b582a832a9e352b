import UberJar.Text.Blank
import UberJar.Version.Semantic

namespace UberJar.Version

/-- Drops one leading `v`. -/
def dropV : List Char → List Char
  | 'v' :: rest => rest
  | text => text

/-- Reads a version text as a semantic version; minor and patch numbers may be missing. -/
def semantic? (text : List Char) : Option Semantic :=
  let text := dropV (Text.trim text)
  let core := text.takeWhile fun c => c != '-' && c != '+'
  let suffix := text.dropWhile fun c => c != '-' && c != '+'
  match core.splitOn '.' with
  | [major] => Semantic.ofParts? major ['0'] ['0'] suffix
  | [major, minor] => Semantic.ofParts? major minor ['0'] suffix
  | [major, minor, patch] => Semantic.ofParts? major minor patch suffix
  | _ => none

/-- The numbers among the pieces of a version text. -/
def numbers (text : List Char) : List Nat :=
  ((dropV text).splitOnP fun c => c == '.' || c == '-' || c == '+' || c == '_').filterMap number?

/-- Compares version texts: as semantic versions if both are, else by their numbers. -/
def compareTexts (a b : List Char) : Ordering :=
  match semantic? a, semantic? b with
  | some v, some w => v.compare w
  | _, _ => Semantic.compareRows Ord.compare (numbers a) (numbers b)

/-- Compares versions. -/
def compare (a b : String) : Ordering := compareTexts a.toList b.toList

/-- Whether a version is strictly newer than another. -/
def isAbove (candidate current : String) : Bool := compare candidate current == .gt

end UberJar.Version
