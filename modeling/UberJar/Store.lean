import UberJar.Coordinate
import UberJar.Digest.Sha1
import UberJar.Repository.Basic

namespace UberJar

/-- A cache directory, and the repositories behind it. -/
structure Store (m : Type → Type) where
  cacheDir : Path
  repositories : List (Repository m)

namespace Store

/-- The sum that a checksum file gives: its first word. -/
def expectedSum? (sidecar : Bytes) : Option String :=
  match (Text.Utf8.decodeLossy sidecar).splitOnP Text.isBlank |>.filter (· ≠ []) with
  | word :: _ => some (String.ofList (word.map Char.toLower))
  | [] => none

variable {m : Type → Type} [Monad m]

/-- The names of the repositories. -/
def searched (store : Store m) : List String := store.repositories.map (·.name)

/-- The place of a file in the cache. -/
def pathOf (store : Store m) (c : Coordinate) : Path := placeBelow store.cacheDir c.repositoryPath

/-- Checks data against the sum that its repository publishes. A sum that is missing or cannot be fetched is no
    objection. -/
def verify (repository : Repository m) (c : Coordinate) (data : Bytes) : ExceptT ResolveError m Unit := do
  match ← ExceptT.lift (repository.fetch (c.repositoryPath ++ ".sha1")) with
  | .ok (some sidecar) =>
    match expectedSum? sidecar with
    | some expected =>
      let actual := Digest.sha1Text data
      if expected ≠ actual then throw (.checksumMismatch c.render expected actual)
    | none => return ()
  | _ => return ()

/-- Asks repositories for a file. The first one that has it decides; if none has it, the last error counts. -/
def ask (c : Coordinate) : (repositories : List (Repository m)) → (last : Option ResolveError) →
    ExceptT ResolveError m (Option Bytes)
  | [], none => return none
  | [], some e => throw e
  | repository :: rest, last => do
    match ← ExceptT.lift (repository.fetch c.repositoryPath) with
    | .ok (some data) =>
      verify repository c data
      return some data
    | .ok none => ask c rest last
    | .error e => ask c rest (some e)

variable [FileSystem m]

/-- Puts a file into the cache: it is written beside its place and moved there. -/
def keep (place : Path) (data : Bytes) : ExceptT ResolveError m Unit := do
  let refused := FileSystem.orElseThrow (m := m) (α := Unit) (ResolveError.cacheWrite place)
  if let some parent := place.parent? then refused (FileSystem.makeDirectories parent)
  let draft := place.withExtension "part"
  refused (FileSystem.writeFile draft data)
  refused (FileSystem.renameFile draft place)

/-- The cached file of a coordinate, fetched if it is not there yet; none if no repository has it. -/
def fetch (store : Store m) (c : Coordinate) : ExceptT ResolveError m (Option Path) := do
  let place := store.pathOf c
  if ← FileSystem.isFile (m := m) place then return some place
  match ← ask c store.repositories none with
  | some data =>
    keep place data
    return some place
  | none => return none

end Store
end UberJar
