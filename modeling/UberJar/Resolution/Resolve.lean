import UberJar.Resolution.Library
import UberJar.Resolution.Walk

namespace UberJar

/-- The files to bundle, and the labels of the declarations that are not bundled. -/
structure Resolution where
  artifacts : List Artifact
  skipped : List String
  deriving DecidableEq, Repr, Inhabited

namespace Resolution

/-- The most nodes that a walk follows. -/
def maxFollowed : Nat := Nat.pow 10 18

/-- The place that files are searched in. -/
def fileSystemName : String := "local file system"

namespace Library

variable {m : Type → Type} [Monad m]

/-- Takes in a declaration. A local file has to be there. -/
def declare (library : Library m) (w : Walk) (d : Declaration) : ExceptT ResolveError m Walk := do
  match d.source with
  | .maven c => return w.declare d c
  | .file path =>
    if ← ExceptT.lift (library.isFile path) then return w.declareFile d path
    else throw (.missingDependency d.label [fileSystemName])

/-- The file of what is selected; none for a module that is only a POM. -/
def artifact? (library : Library m) (selected : Selected) : ExceptT ResolveError m (Option Artifact) := do
  match selected with
  | .file artifact => return some artifact
  | .module c requestedBy =>
    if c.isPom then return none
    match ← library.file c with
    | some path => return some ⟨some c, path, requestedBy⟩
    | none =>
      if (← library.effective? c).any (·.hasNoJar) then return none
      else throw (.missingDependency c.render library.searched)

/-- Resolves declarations. -/
def resolve (library : Library m) (declarations : List Declaration) : ExceptT ResolveError m Resolution := do
  let (bundled, skipped) := declarations.partition (·.isBundled)
  let walk ← bundled.foldlM library.declare Walk.empty
  match ← walk.run library.requirementsOf maxFollowed with
  | none => throw .endlessRequirements
  | some selection =>
    return { artifacts := (← selection.mapM library.artifact?).filterMap id
             skipped := skipped.map (·.label) }

end Library
end Resolution
end UberJar
