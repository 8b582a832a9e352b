import UberJar.Pom.Document
import UberJar.Pom.Effective
import UberJar.Store

namespace UberJar
namespace Resolution

/-- Where files and POMs are looked up. -/
structure Library (m : Type → Type) where
  /-- Whether a path leads to a file. -/
  isFile : Path → m Bool
  /-- The path of a coordinate's file, if there is one. -/
  file : Coordinate → m (Except ResolveError (Option Path))
  /-- The POM at a coordinate of one, if there is one. -/
  document : Coordinate → m (Except ResolveError (Option Pom.Document))
  /-- The names of the places that are searched. -/
  searched : List String

/-- The most POMs that an effective POM is made of. -/
def maxChain : Nat := 16

namespace Library

variable {m : Type → Type} [Monad m]

/-- The POM at a coordinate and its ancestors, nearest first, at most `depth` of them. A missing ancestor ends
    the chain. -/
def chain (library : Library m) (origin : Coordinate) :
    (depth : Nat) → (current : Coordinate) → ExceptT ResolveError m (List Pom.Document)
  | 0, _ => throw (.parentChainTooDeep origin.render)
  | depth + 1, current => do
    match ← library.document current with
    | none => return []
    | some document =>
      match document.parentPom? with
      | none => return [document]
      | some parent => return document :: (← chain library origin depth parent)

/-- The effective POM of a coordinate; none if it has no POM. -/
def effective? (library : Library m) (c : Coordinate) : ExceptT ResolveError m (Option Pom.Effective) := do
  match ← library.chain c maxChain c.pom with
  | [] => return none
  | documents => return some (.ofChain documents)

/-- The requirements of a coordinate; none are known without a POM. -/
def requirementsOf (library : Library m) (c : Coordinate) : ExceptT ResolveError m (List Pom.Requirement) := do
  match ← library.effective? c with
  | none => return []
  | some pom => return pom.requirements

end Library
end Resolution

/-- The library of the files that a store fetches. -/
def Store.library {m : Type → Type} [Monad m] [FileSystem m] (store : Store m) : Resolution.Library m where
  isFile := FileSystem.isFile
  file c := store.fetch c
  searched := store.searched
  document c := ExceptT.run do
    match ← store.fetch c with
    | none => return none
    | some path =>
      let unreadable e := ResolveError.malformedPom c.render (OsError.message e)
      let data ← FileSystem.orElseThrow (m := m) unreadable (FileSystem.readFile path)
      return some (← ExceptT.mk (pure (Pom.Document.parse (Text.Utf8.decodeLossy data) c.render)))

end UberJar
