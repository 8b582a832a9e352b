import UberJar.Error
import UberJar.Files.System
import UberJar.Zip.Encode

namespace UberJar.Jar

/-- Whether one path comes before another, or is the same: the manifest comes first. -/
def precedes (a b : String) : Bool :=
  if a = EntryPath.manifest then true
  else if b = EntryPath.manifest then false
  else decide (a ≤ b)

/-- The entries in the order in which they are written. -/
def arrange (entries : List Entry) : List Entry := entries.mergeSort fun a b => precedes a.path b.path

/-- The date of every entry. -/
def stamp : Zip.Stamp where
  year := 1980
  month := 2
  day := 1
  hour := 0
  minute := 0
  second := 0

/-- The mode of every file: a plain file that its owner may write and all may read. -/
def fileMode : Nat := 0o100644

/-- The bytes of a jar. -/
def encode (method : Zip.Method) (entries : List Entry) : Except Zip.Fault Bytes :=
  Zip.encode { method, stamp, mode := fileMode } (arrange entries)

/-- The path of the file that a jar is written to before it is moved to its place. -/
def draftPath (path : Path) : Path :=
  let name := path.fileName?.getD "output.jar"
  path.withFileName ("." ++ name ++ ".tmp")

variable {m : Type → Type} [Monad m] [FileSystem m]

/-- Removes the draft and gives up. -/
def abandon (draft : Path) (error : ArchiveError) : ExceptT ArchiveError m Unit := do
  let _ ← ExceptT.lift (FileSystem.removeFile draft)
  throw error

/-- Gives the draft of a jar its bytes, and moves it to the place of the jar. -/
def complete (method : Zip.Method) (path : Path) (entries : List Entry) : ExceptT ArchiveError m Unit := do
  let draft := draftPath path
  match encode method entries with
  | .error fault => abandon draft (.unwritable path fault.message)
  | .ok bytes =>
    match ← ExceptT.lift (FileSystem.writeFile draft bytes) with
    | .error e => abandon draft (.unwritable path e.message)
    | .ok () =>
      match ← ExceptT.lift (FileSystem.renameFile draft path) with
      | .error e => abandon draft (.unwritable path e.message)
      | .ok () => return ()

/-- Writes a jar with the given method. -/
def writeWith (method : Zip.Method) (path : Path) (entries : List Entry) : ExceptT ArchiveError m Unit := do
  let unwritable (place : Path) (e : OsError) := ArchiveError.unwritable place e.message
  if let some parent := path.parent? then
    FileSystem.orElseThrow (m := m) (unwritable path) (FileSystem.makeDirectories parent)
  let draft := draftPath path
  FileSystem.orElseThrow (m := m) (unwritable draft) (FileSystem.writeFile draft [])
  complete method path entries

/-- Writes a jar, compressed. -/
def write (path : Path) (entries : List Entry) : ExceptT ArchiveError m Unit := writeWith .deflated path entries

end UberJar.Jar
