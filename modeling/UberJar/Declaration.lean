import UberJar.Coordinate

namespace UberJar

/-- Modules to leave out below a dependency: those of a group, or one of them. `*` stands for any. -/
structure ModulePattern where
  group : String
  module : Option String := none
  deriving DecidableEq, Repr, Inhabited

/-- Whether an exclusion names a module. -/
def ModulePattern.excludes (e : ModulePattern) (group artifact : String) : Bool :=
  (e.group == "*" || e.group == group) &&
    match e.module with
    | none => true
    | some module => module == "*" || module == artifact

/-- Whether a dependency goes into the jar. -/
inductive Scope
  | implementation
  | compileOnly
  deriving DecidableEq, Repr, Inhabited

/-- The word for a scope in a configuration. -/
def Scope.key : Scope → String
  | implementation => "implementation"
  | compileOnly => "compile_only"

/-- The word for a scope in a description. -/
def Scope.label : Scope → String
  | implementation => "implementation"
  | compileOnly => "compile-only"

/-- Where a dependency comes from. -/
inductive Source
  | maven (coordinate : Coordinate)
  | file (path : Path)
  deriving DecidableEq, Repr, Inhabited

/-- A declared dependency. -/
structure Declaration where
  source : Source
  scope : Scope := .implementation
  transitive : Bool
  exclusions : List ModulePattern := []
  deriving DecidableEq, Repr, Inhabited

namespace Declaration

/-- A declaration with a source's defaults: a coordinate brings its own dependencies, a file does not. -/
def ofSource : Source → Declaration
  | .maven coordinate => { source := .maven coordinate, transitive := true }
  | .file path => { source := .file path, transitive := false }

/-- Whether the dependency goes into the jar. -/
def isBundled (d : Declaration) : Bool := d.scope == .implementation

/-- The name of a declaration in reports. -/
def label (d : Declaration) : String :=
  match d.source with
  | .maven coordinate => coordinate.render
  | .file path => path.text

/-- A declaration with its scope. -/
def describe (d : Declaration) : String := d.label ++ " [" ++ d.scope.label ++ "]"

end Declaration

/-- A file to bundle, and the label of the declaration that asked for it. -/
structure Artifact where
  coordinate : Option Coordinate
  path : Path
  requestedBy : String
  deriving DecidableEq, Repr, Inhabited

/-- The name of a resolved file in reports. -/
def Artifact.label (a : Artifact) : String :=
  match a.coordinate with
  | some coordinate => coordinate.render
  | none => a.path.text

end UberJar
