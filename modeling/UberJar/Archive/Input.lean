import UberJar.Error
import UberJar.Files.System
import UberJar.Zip.Directory

namespace UberJar.Archive

variable {m : Type → Type} [Monad m] [FileSystem m]

/-- Reads a file for an archive. -/
def readBytes (path : Path) : ExceptT ArchiveError m Bytes :=
  FileSystem.orElseThrow (fun e => .unreadable path e.message) (FileSystem.readFile path)

/-- Reads a jar. Its directories are passed over. -/
def fromJar (path : Path) (label : String) : ExceptT ArchiveError m Archive := do
  let bytes ← readBytes path
  match Zip.entries bytes with
  | .ok entries => return { label, path, entries }
  | .error fault => throw (.unreadable path fault.message)

/-- The files below a directory, with names relative to the place where the reading started; `parents` is what
    leads from there to the directory. The first argument bounds the depth of directories. -/
def filesWithin : (depth : Nat) → (directory : Path) → (parents : String) → ExceptT ArchiveError m (List Entry)
  | 0, directory, _ => throw (.unreadable directory OsError.nameTooLong.message)
  | depth + 1, directory, parents => do
    let names ← FileSystem.orElseThrow (m := m) (fun e => ArchiveError.unreadable directory e.message)
      (FileSystem.listDirectory directory)
    let found ← names.mapM fun name => do
      let path := directory.join ⟨name⟩
      if ← ExceptT.lift (FileSystem.isDirectory path) then filesWithin depth path (parents ++ name ++ "/")
      else return [Entry.mk (parents ++ name) (← readBytes path)]
    return found.flatten

/-- Reads the files below a directory, in the order of their paths. -/
def fromDirectory (path : Path) (label : String) : ExceptT ArchiveError m Archive := do
  let entries ← filesWithin FileTree.maxPath path ""
  return { label, path, entries := entries.mergeSort fun a b => decide (a.path ≤ b.path) }

/-- Reads a jar or a directory. -/
def read (path : Path) (label : String) : ExceptT ArchiveError m Archive := do
  if ← ExceptT.lift (FileSystem.isDirectory path) then fromDirectory path label else fromJar path label

end UberJar.Archive
