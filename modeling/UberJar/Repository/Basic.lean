import UberJar.Error
import UberJar.Files.System

namespace UberJar

/-- A repository, and how it is asked for a file. -/
structure Repository (m : Type → Type) where
  name : String
  /-- Whether asking it takes a network. -/
  isRemote : Bool
  fetch : (path : String) → m (Except ResolveError (Option Bytes))

/-- The path below a directory that a repository path leads to. -/
def placeBelow (root : Path) (path : String) : Path :=
  (path.toList.splitOn '/').foldl (fun place piece => place.join ⟨String.ofList piece⟩) root

namespace Repository

variable {m : Type → Type} [Monad m]

/-- A directory that is laid out as a repository. -/
def directory [FileSystem m] (root : Path) : Repository m where
  name := root.text
  isRemote := false
  fetch path := do
    let place := placeBelow root path
    match ← FileSystem.readFile place with
    | .ok data => return .ok (some data)
    | .error .notFound => return .ok none
    | .error e => return .error (.network place.text (.other e.message))

end Repository
end UberJar
