import UberJar.Declaration
import UberJar.Version.Order

namespace UberJar

/-- A module at its selected version, or a local file. -/
inductive Selected
  /-- The label is that of the declaration that first asked for the module. -/
  | module (coordinate : Coordinate) (requestedBy : String)
  | file (artifact : Artifact)
  deriving DecidableEq, Repr, Inhabited

/-- Whether the module with a key is selected here. -/
def Selected.holds (key : String) : Selected → Bool
  | module c _ => c.moduleId == key
  | file _ => false

/-- What is selected, first asked for first. -/
abbrev Selection := List Selected

namespace Selection

/-- The selected coordinate of a module. -/
def find? (key : String) : Selection → Option Coordinate
  | [] => none
  | .module c _ :: rest => if c.moduleId = key then some c else find? key rest
  | .file _ :: rest => find? key rest

/-- Whether a coordinate is the selected one of its module. -/
def selects (s : Selection) (c : Coordinate) : Bool := s.find? c.moduleId == some c

/-- Puts a coordinate in the place of the one selected for its module. -/
def upgrade (c : Coordinate) (s : Selection) : Selection :=
  s.map fun
    | .module current requestedBy =>
      if current.moduleId = c.moduleId then .module c requestedBy else .module current requestedBy
    | .file artifact => .file artifact

/-- Asks for a coordinate; none if it is not selected, because its module is selected at this version or at one
    that is not older. -/
def request? (s : Selection) (c : Coordinate) (requestedBy : String) : Option Selection :=
  match s.find? c.moduleId with
  | none => some (s ++ [.module c requestedBy])
  | some current => if Version.isAbove c.version current.version then some (s.upgrade c) else none

/-- The selected coordinates. -/
def coordinates (s : Selection) : List Coordinate :=
  s.filterMap fun
    | .module c _ => some c
    | .file _ => none

end Selection
end UberJar
