import UberJar.Files.Tree

namespace UberJar

/-- File operations. A refused operation changes nothing, but a write may break off before its end. -/
class FileSystem (m : Type → Type) where
  /-- Whether a path leads to a directory (`some true`), a file (`some false`) or nothing. -/
  isDirectory? : Path → m (Option Bool)
  readFile : Path → m (Except OsError Bytes)
  listDirectory : Path → m (Except OsError (List String))
  makeDirectory : Path → m (Except OsError Unit)
  writeFile : Path → Bytes → m (Except OsError Unit)
  renameFile : Path → Path → m (Except OsError Unit)
  removeFile : Path → m (Except OsError Unit)

namespace FileTree

/-- Applies a change to the tree, which stays as it is when the change is refused. -/
def change (f : FileTree → Except OsError FileTree) : StateM FileTree (Except OsError Unit) := fun t =>
  match f t with
  | .ok t' => (.ok (), t')
  | .error e => (.error e, t)

instance : FileSystem (StateM FileTree) where
  isDirectory? p := return match (← get).content p with
    | .ok .directory => some true
    | .ok (.file _) => some false
    | .error _ => none
  readFile p := return (← get).readFile p
  listDirectory p := return (← get).listDirectory p
  makeDirectory p := change (·.makeDirectory p)
  writeFile p data := change (·.writeFile p data)
  renameFile p q := change (·.renameFile p q)
  removeFile p := change (·.removeFile p)

end FileTree

namespace FileSystem

variable {m : Type → Type} [Monad m] [FileSystem m]

/-- Turns the refusal of a file operation into an error of another kind. -/
def orElseThrow {ε α : Type} (error : OsError → ε) (operation : m (Except OsError α)) : ExceptT ε m α :=
  ExceptT.mk do return (← operation).mapError error

/-- Whether a path leads to a file. -/
def isFile (p : Path) : m Bool := return (← isDirectory? p) == some false

/-- Whether a path leads to a directory. -/
def isDirectory (p : Path) : m Bool := return (← isDirectory? p) == some true

/-- Whether a path leads to anything. -/
def pathExists (p : Path) : m Bool := return (← isDirectory? p).isSome

/-- Makes a directory and the directories above it that are missing. The first argument bounds the number
    of directories above it. -/
def makeDirectoriesWithin : Nat → Path → m (Except OsError Unit)
  | depth, p => do
    if p.text.isEmpty then return .ok ()
    match ← makeDirectory p with
    | .ok () => return .ok ()
    | .error e =>
      if e ≠ .notFound then return if ← isDirectory p then .ok () else .error e
      match depth, p.parent? with
      | depth + 1, some parent =>
        match ← makeDirectoriesWithin depth parent with
        | .error e => return .error e
        | .ok () =>
          match ← makeDirectory p with
          | .ok () => return .ok ()
          | .error e => return if ← isDirectory p then .ok () else .error e
      | _, _ => return .error (.other "failed to create whole tree")

/-- Makes a directory and the directories above it that are missing. -/
def makeDirectories (p : Path) : m (Except OsError Unit) :=
  makeDirectoriesWithin p.text.length p

end FileSystem
end UberJar
