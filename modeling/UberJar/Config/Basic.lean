import UberJar.Declaration
import UberJar.Manifest.Basic
import UberJar.Toml.Reader
import UberJar.Toml.Record

namespace UberJar

/-- A declared dependency as written. It has either a coordinate or a path. -/
structure DependencyEntry where
  coordinate : Option String := none
  path : Option Path := none
  scope : Scope := .implementation
  transitive : Option Bool := none
  exclude : List ModulePattern := []
  deriving DecidableEq, Repr, Inhabited

/-- The packages to relocate: those that go under a common root, and those with a destination of their own. -/
structure RelocationTable where
  root : Option String := none
  packages : List String := []
  rules : List (String × String) := []
  deriving DecidableEq, Repr, Inhabited

/-- A configuration. -/
structure Config where
  input : Option Path := none
  output : Option Path := none
  cacheDir : Option Path := none
  offline : Bool := false
  relocatePrimary : Bool := false
  mergeServiceFiles : Bool := false
  targetRelease : Option UInt16 := none
  repositories : List String := []
  exclude : List String := []
  relocation : RelocationTable := {}
  /-- The manifest attributes by their names. -/
  manifest : List Attribute := []
  dependencies : List DependencyEntry := []
  deriving DecidableEq, Repr, Inhabited

open Toml (Value Fault Entries)

/-- Reads a path. -/
def Path.ofToml (value : Value) : Except Fault Path := do return ⟨← value.asString⟩

/-- Reads a scope: its word, or a table whose only key is the word and holds nothing. -/
def Scope.ofToml (value : Value) : Except Fault Scope :=
  let word? := match value with
    | .string word => some word
    | .table _ [(word, .table _ [])] => some word
    | .table _ [(word, .array _ [])] => some word
    | _ => none
  match [Scope.implementation, .compileOnly].find? fun scope => word? = some scope.key with
  | some scope => .ok scope
  | none => .error (.wrongType "a scope")

/-- Reads a module to leave out. -/
def ModulePattern.ofToml (value : Value) : Except Fault ModulePattern := do
  let fields ← value.fields ["group", "module"] false
  return { group := ← fields.required "group" Value.asString, module := ← fields.optional "module" Value.asString }

/-- Reads a dependency. -/
def DependencyEntry.ofToml (value : Value) : Except Fault DependencyEntry := do
  let fields ← value.fields ["coordinate", "path", "scope", "transitive", "exclude"] true
  return {
    coordinate := ← fields.optional "coordinate" Value.asString
    path := ← fields.optional "path" Path.ofToml
    scope := ← fields.withDefault "scope" Scope.ofToml .implementation
    transitive := ← fields.optional "transitive" Value.asBool
    exclude := ← fields.withDefault "exclude" (Value.asList ModulePattern.ofToml) [] }

namespace RelocationTable

/-- Reads a package and its destination. -/
def ruleOfToml (value : Value) : Except Fault (String × String) := do
  let fields ← value.fields ["from", "to"] true
  return (← fields.required "from" Value.asString, ← fields.required "to" Value.asString)

/-- Reads the packages to relocate. -/
def ofToml (value : Value) : Except Fault RelocationTable := do
  let fields ← value.fields ["prefix", "packages", "rules"] true
  return {
    root := ← fields.optional "prefix" Value.asString
    packages := ← fields.withDefault "packages" (Value.asList Value.asString) []
    rules := ← fields.withDefault "rules" (Value.asList ruleOfToml) [] }

end RelocationTable

namespace Config

/-- The keys of a configuration. -/
def keys : List String :=
  ["input", "output", "cache_dir", "offline", "relocate_primary", "merge_service_files", "target_release",
    "repositories", "exclude", "relocation", "manifest", "dependencies"]

/-- Reads manifest attributes. -/
def manifestOfToml (value : Value) : Except Fault (List Attribute) := do
  return (← value.asStrings).map fun (name, value) => ⟨name.toList, value.toList⟩

/-- Reads a configuration from the entries of a document. -/
def ofToml (document : Entries) : Except Fault Config := do
  let fields ← (Value.table .headed document).fields keys true
  return {
    input := ← fields.optional "input" Path.ofToml
    output := ← fields.optional "output" Path.ofToml
    cacheDir := ← fields.optional "cache_dir" Path.ofToml
    offline := ← fields.withDefault "offline" Value.asBool false
    relocatePrimary := ← fields.withDefault "relocate_primary" Value.asBool false
    mergeServiceFiles := ← fields.withDefault "merge_service_files" Value.asBool false
    targetRelease := ← fields.optional "target_release" Value.asUInt16
    repositories := ← fields.withDefault "repositories" (Value.asList Value.asString) []
    exclude := ← fields.withDefault "exclude" (Value.asList Value.asString) []
    relocation := ← fields.withDefault "relocation" RelocationTable.ofToml {}
    manifest := ← fields.withDefault "manifest" manifestOfToml []
    dependencies := ← fields.withDefault "dependencies" (Value.asList DependencyEntry.ofToml) [] }

/-- Reads the text of a configuration file. -/
def parse (text : List Char) (origin : Path) : Except ConfigError Config :=
  match Toml.parse text >>= ofToml with
  | .ok config => .ok config
  | .error fault => .error (.malformedToml origin fault.message)

end Config
end UberJar
