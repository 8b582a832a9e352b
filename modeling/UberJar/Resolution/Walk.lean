import UberJar.Pom.Effective
import UberJar.Resolution.Selection

namespace UberJar.Resolution

/-- A coordinate whose requirements may have to be followed. -/
structure Node where
  coordinate : Coordinate
  /-- The exclusions of the path to it. -/
  exclusions : List ModulePattern
  /-- The label of the declaration that the path starts from. -/
  requestedBy : String
  /-- Whether its requirements count. -/
  transitive : Bool
  deriving DecidableEq, Repr, Inhabited

/-- Whether a node's path leaves a coordinate out. -/
def Node.excludes (node : Node) (c : Coordinate) : Bool := node.exclusions.any (·.excludes c.group c.artifact)

/-- The node of a requirement below another node. -/
def Node.below (node : Node) (r : Pom.Requirement) : Node where
  coordinate := r.coordinate
  exclusions := node.exclusions ++ r.exclusions
  requestedBy := node.requestedBy
  transitive := true

/-- A walk under way. -/
structure Walk where
  selection : Selection
  queue : List Node
  /-- The coordinates whose requirements have been followed, as texts. -/
  followed : List String
  deriving DecidableEq, Repr

namespace Walk

/-- A walk before its first declaration. -/
def empty : Walk := ⟨[], [], []⟩

/-- Declares a coordinate. It joins the queue whether or not it is selected. -/
def declare (w : Walk) (d : Declaration) (c : Coordinate) : Walk :=
  { w with
    selection := (w.selection.request? c d.label).getD w.selection
    queue := w.queue ++ [⟨c, d.exclusions, d.label, d.transitive⟩] }

/-- Declares a local file. -/
def declareFile (w : Walk) (d : Declaration) (path : Path) : Walk :=
  { w with selection := w.selection ++ [.file ⟨none, path, d.label⟩] }

/-- Whether a node's requirements are to be followed. -/
def isDue (w : Walk) (node : Node) : Bool :=
  node.transitive && w.selection.selects node.coordinate && !w.followed.contains node.coordinate.render

/-- The first node whose requirements are to be followed, and the walk without it and those before it. -/
def next? (w : Walk) : Option (Node × Walk) :=
  match w.queue.dropWhile (!w.isDue ·) with
  | [] => none
  | node :: queue => some (node, { w with queue, followed := node.coordinate.render :: w.followed })

/-- Asks for a requirement of a node. -/
def follow (node : Node) (w : Walk) (r : Pom.Requirement) : Walk :=
  if node.excludes r.coordinate then w
  else
    match w.selection.request? r.coordinate node.requestedBy with
    | none => w
    | some selection => { w with selection, queue := w.queue ++ [node.below r] }

/-- Asks for all requirements of a node. -/
def followAll (node : Node) (w : Walk) (requirements : List Pom.Requirement) : Walk :=
  requirements.foldl (follow node) w

/-- Walks on until no node is due, with the requirements that `requirementsOf` gives. The first argument bounds
    the number of nodes followed; none if that does not suffice. -/
def run {m : Type → Type} [Monad m] (requirementsOf : Coordinate → m (List Pom.Requirement)) :
    (fuel : Nat) → Walk → m (Option Selection)
  | 0, w => return if w.next?.isNone then some w.selection else none
  | fuel + 1, w => do
    match w.next? with
    | none => return some w.selection
    | some (node, w) =>
      let requirements ← requirementsOf node.coordinate
      run requirementsOf fuel (w.followAll node requirements)

end Walk
end UberJar.Resolution
