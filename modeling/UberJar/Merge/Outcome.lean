namespace UberJar

/-- Why an entry is never carried over. -/
inductive DropCause
  | dependencyManifest
  | moduleDescriptor
  | unsafePath
  deriving DecidableEq, Repr

/-- The words for a reason. -/
def DropCause.label : DropCause → String
  | dependencyManifest => "dependency manifest"
  | moduleDescriptor => "module descriptor"
  | unsafePath => "unsafe path"

/-- What becomes of an entry. -/
inductive Outcome
  | kept
  | relocated (pathMoved contentChanged : Bool)
  | excluded (pattern : String)
  | duplicate
  | serviceMerged
  | dropped (reason : DropCause)
  deriving DecidableEq, Repr

namespace Outcome

/-- The words for an outcome. -/
def describe : Outcome → String
  | kept => "kept"
  | relocated _ _ => "relocated"
  | excluded pattern => "excluded by " ++ pattern
  | duplicate => "duplicate"
  | serviceMerged => "service merged"
  | dropped reason => "dropped (" ++ reason.label ++ ")"

/-- Whether the entry gets a place of its own in the jar. -/
def takesPlace : Outcome → Bool
  | kept | relocated _ _ => true
  | _ => false

end Outcome
end UberJar
