import Std.Data.TreeMap
import UberJar.Bytes
import UberJar.Files.OsError
import UberJar.Files.Path

namespace UberJar

/-- A place in the tree: the names from the root down. -/
abbrev Location := List String

/-- What stands at a location. -/
inductive Content
  | directory
  | file (data : Bytes)
  deriving DecidableEq, Repr, Inhabited

/-- The files and directories below the root, and the directory that relative paths start from. -/
structure FileTree where
  contents : Std.TreeMap Location Content compare
  workingDirectory : Location

namespace FileTree

/-- What stands at a location; the root is always a directory. -/
def at? (t : FileTree) (place : Location) : Option Content :=
  if place = [] then some .directory else t.contents[place]?

/-- The tree with `content` at `place`. -/
def put (t : FileTree) (place : Location) (content : Content) : FileTree :=
  { t with contents := t.contents.insert place content }

/-- The tree without what stands at `place`. -/
def erase (t : FileTree) (place : Location) : FileTree :=
  { t with contents := t.contents.erase place }

/-- An empty tree whose working directory exists. -/
def empty (workingDirectory : Location) : FileTree :=
  let parents := (List.range workingDirectory.length).map fun n => workingDirectory.take (n + 1)
  { contents := parents.foldl (fun m place => m.insert place .directory) ∅, workingDirectory }

/-- The longest name a directory admits, in bytes. -/
def maxName : Nat := 255

/-- The longest path an operation admits, in bytes. -/
def maxPath : Nat := 4095

/-- Follows the pieces of a path from `place`. Every place that is left must be a directory; the place that
    is reached need not exist. -/
def walk (t : FileTree) (place : Location) : List (List Char) → Except OsError Location
  | [] => .ok place
  | piece :: rest =>
    match t.at? place with
    | none => .error .notFound
    | some (.file _) => .error .notADirectory
    | some .directory =>
      if piece = [] ∨ piece = ['.'] then walk t place rest
      else if piece = ['.', '.'] then walk t place.dropLast rest
      else if (String.ofList piece).utf8ByteSize > maxName then .error .nameTooLong
      else walk t (place ++ [String.ofList piece]) rest

/-- The location a path leads to. -/
def locate (t : FileTree) (p : Path) : Except OsError Location :=
  if p.text.toList.contains '\x00' then .error .nulInName
  else if p.text.isEmpty then .error .notFound
  else if p.text.utf8ByteSize > maxPath then .error .nameTooLong
  else walk t (if p.isAbsolute then [] else t.workingDirectory) p.pieces

/-- What a path leads to. -/
def content (t : FileTree) (p : Path) : Except OsError Content := do
  match t.at? (← t.locate p) with
  | some content => .ok content
  | none => .error .notFound

/-- The bytes of a file. -/
def readFile (t : FileTree) (p : Path) : Except OsError Bytes := do
  match ← t.content p with
  | .file data => .ok data
  | .directory => .error .isADirectory

/-- The names in a directory. -/
def listDirectory (t : FileTree) (p : Path) : Except OsError (List String) := do
  let place ← t.locate p
  match t.at? place with
  | some .directory =>
    .ok (t.contents.keys.filterMap fun other =>
      if other.length = place.length + 1 ∧ place.isPrefixOf other then other.getLast? else none)
  | some (.file _) => .error .notADirectory
  | none => .error .notFound

/-- Makes one directory. -/
def makeDirectory (t : FileTree) (p : Path) : Except OsError FileTree := do
  let place ← t.locate p
  match t.at? place with
  | none => .ok (t.put place .directory)
  | some _ => .error .alreadyExists

/-- Writes a file, replacing an older one. -/
def writeFile (t : FileTree) (p : Path) (data : Bytes) : Except OsError FileTree := do
  let place ← t.locate p
  match t.at? place with
  | some .directory => .error .isADirectory
  | _ => .ok (t.put place (.file data))

/-- Removes a file. -/
def removeFile (t : FileTree) (p : Path) : Except OsError FileTree := do
  let place ← t.locate p
  match t.at? place with
  | some (.file _) => .ok (t.erase place)
  | some .directory => .error .isADirectory
  | none => .error .notFound

/-- Moves a file, replacing a file at its new path. -/
def renameFile (t : FileTree) (source target : Path) : Except OsError FileTree := do
  let start ← t.locate source
  match t.at? start with
  | none => .error .notFound
  | some .directory => .error .isADirectory
  | some (.file data) =>
    let place ← t.locate target
    match t.at? place with
    | some .directory => .error .isADirectory
    | _ => .ok ((t.erase start).put place (.file data))

/-- The locations of all files below a location, as paths relative to it. -/
def filesBelow (t : FileTree) (place : Location) : List String :=
  (t.contents.toList.filterMap fun
    | (other, .file _) => if place.isPrefixOf other then some ("/".intercalate (other.drop place.length)) else none
    | (_, .directory) => none).mergeSort (fun a b => decide (a ≤ b))

end FileTree
end UberJar
