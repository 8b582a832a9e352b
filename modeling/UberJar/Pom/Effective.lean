import Std.Data.TreeMap
import UberJar.Pom.Document

namespace UberJar.Pom

/-- Texts by name. -/
abbrev Table := Std.TreeMap String String compare

/-- A dependency that a module needs at run time. -/
structure Requirement where
  coordinate : Coordinate
  exclusions : List ModulePattern := []
  deriving DecidableEq, Repr, Inhabited

/-- A POM merged with its ancestors. -/
structure Effective where
  group : String := ""
  artifact : String := ""
  version : String := ""
  packaging : String := ""
  properties : Table := ∅
  /-- The managed versions, by `group:artifact` as written. -/
  managed : Table := ∅
  /-- The dependencies of the ancestors, then those of the document itself. -/
  dependencies : List Dependency := []
  deriving Inhabited

namespace Effective

/-- Adds the properties of a document: those of its parent reference, then its own. -/
def extendProperties (table : Table) (d : Document) : Table :=
  let inherited := match d.parent with
    | some p => (table.insert "project.parent.version" p.version).insert "project.parent.groupId" p.group
    | none => table
  (d.properties.getD []).foldl (fun t (name, value) => t.insert name value) inherited

/-- Adds the managed versions of a document. Imported bills of materials are not followed. -/
def extendManaged (table : Table) (d : Document) : Table :=
  (d.managed.getD []).foldl
    (fun t m =>
      match m.version with
      | some version => if m.scope = some "import" then t else t.insert (m.group ++ ":" ++ m.artifact) version
      | none => t)
    table

/-- Puts a document on top of its ancestors. -/
def extend (e : Effective) (d : Document) : Effective :=
  { group := (d.group <|> d.parent.map (·.group)).getD e.group
    artifact := d.artifact.getD e.artifact
    version := (d.version <|> d.parent.map (·.version)).getD e.version
    packaging := d.packaging.getD "jar"
    properties := extendProperties e.properties d
    managed := extendManaged e.managed d
    dependencies := e.dependencies ++ d.dependencies.getD [] }

/-- The properties that every POM has, unless it defines them otherwise. -/
def builtIn (e : Effective) : List (String × String) :=
  [("project.groupId", e.group), ("project.artifactId", e.artifact), ("project.version", e.version),
    ("pom.groupId", e.group), ("pom.version", e.version), ("version", e.version)]

/-- Merges a chain of documents, child first. -/
def ofChain (chain : List Document) : Effective :=
  let merged := chain.reverse.foldl extend {}
  { merged with
    properties := merged.builtIn.foldl (fun t (name, value) => t.insertIfNew name value) merged.properties }

/-- Whether the module has no jar of its own. -/
def hasNoJar (e : Effective) : Bool := e.packaging == "pom"

/-- How many references are replaced in one text. -/
def maxReplacements : Nat := 10

/-- The characters that open a reference to a property. -/
def opening : List Char := ['$', '\x7b']

/-- Replaces the first reference in a text; none if there is none or its property is unknown. -/
def replaceFirst? (e : Effective) (text : List Char) : Option (List Char) := do
  let (front, rest) ← Text.splitAtWord? opening text
  let (name, back) ← Text.splitFirst? '\x7d' rest
  let value ← e.properties[String.ofList name]?
  return front ++ value.toList ++ back

/-- Replaces references, first ones first, up to a number of them. -/
def replaceUpTo (e : Effective) : Nat → List Char → List Char
  | 0, text => text
  | n + 1, text =>
    match e.replaceFirst? text with
    | some text => replaceUpTo e n text
    | none => text

/-- Replaces the references to properties in a text, without the blanks around it. -/
def interpolate (e : Effective) (text : String) : String :=
  String.ofList (e.replaceUpTo maxReplacements (Text.trim text.toList))

/-- Whether a character bounds a range of versions. -/
def isBracket (c : Char) : Bool := c == '[' || c == ']' || c == '(' || c == ')'

/-- The lower bound of a range of versions, or the version itself. -/
def lowerBound (version : String) : String :=
  let text := Text.trim version.toList
  match text.head? with
  | some c =>
    if c = '[' ∨ c = '(' then String.ofList (Text.trim (Text.before ',' (Text.dropAround isBracket text)))
    else String.ofList text
  | none => ""

/-- Whether a dependency with this scope is on the class path at run time. -/
def isRuntimeScope (e : Effective) (scope : Option String) : Bool :=
  match scope.map e.interpolate with
  | none => true
  | some scope => scope == "compile" || scope == "runtime"

/-- The version that a dependency asks for: its own, or the managed one. There is none if it is empty or a
    property in it is unknown. -/
def versionOf? (e : Effective) (d : Dependency) (key : String) : Option String :=
  ((d.version <|> e.managed[key]?).map e.interpolate).filter fun v =>
    !v.isEmpty && !Text.contains opening v.toList

/-- What a dependency comes to at run time, if anything. -/
def requirement? (e : Effective) (d : Dependency) : Option Requirement := do
  guard (e.isRuntimeScope d.scope)
  guard (d.optional.map e.interpolate != some "true")
  let group := e.interpolate d.group
  let artifact := e.interpolate d.artifact
  let version ← e.versionOf? d (group ++ ":" ++ artifact)
  guard (d.type != some "test-jar")
  let extension := match d.type with
    | none | some "jar" | some "bundle" => "jar"
    | some other => other
  return {
    coordinate :=
      { group, artifact, version := lowerBound version, classifier := d.classifier.map e.interpolate, extension }
    exclusions := d.exclusions.getD [] }

/-- Adds a requirement in place of an earlier one for the module. -/
def addRequirement (requirements : List Requirement) (r : Requirement) : List Requirement :=
  requirements.filter (·.coordinate.moduleId != r.coordinate.moduleId) ++ [r]

/-- The dependencies that the module needs at run time, at most one for each module: the last that counts. -/
def requirements (e : Effective) : List Requirement :=
  (e.dependencies.filterMap e.requirement?).foldl addRequirement []

end Effective
end UberJar.Pom
