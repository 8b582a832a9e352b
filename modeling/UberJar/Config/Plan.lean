import UberJar.Config.Overlay
import UberJar.Merge.Disposition

namespace UberJar

/-- A run that is ready to go. -/
structure Plan where
  input : Path
  output : Path
  cacheDir : Path
  offline : Bool
  repositories : List String
  dependencies : List Declaration
  relocator : Relocation.Relocator
  merge : MergePolicy
  dryRun : Bool

/-- The repository that is asked if none is configured. -/
def defaultRepository : String := "https://repo1.maven.org/maven2"

/-- The declaration that a configured dependency makes. -/
def DependencyEntry.declaration (d : DependencyEntry) : Except ConfigError Declaration := do
  let source ← match d.coordinate, d.path with
    | some coordinate, none => pure (Source.maven (← Coordinate.parse coordinate))
    | none, some path => pure (Source.file path)
    | some coordinate, some _ => .error (.invalidDependency (some coordinate))
    | none, none => .error (.invalidDependency none)
  let base := Declaration.ofSource source
  return { base with scope := d.scope, transitive := d.transitive.getD base.transitive, exclusions := d.exclude }

namespace Config

/-- The configured rules: packages under the root, then those with a destination of their own. -/
def makeRules (c : Config) : Except ConfigError (List Relocation.Rule) := do
  let moved ← c.relocation.packages.mapM fun package =>
    match c.relocation.root with
    | some root => Relocation.Rule.underRoot root.toList package.toList
    | none => .error (.missingOption "relocation.prefix")
  let explicit ← c.relocation.rules.mapM fun (source, destination) =>
    Relocation.Rule.make source.toList destination.toList
  return moved ++ explicit

/-- The options of the merge. -/
def mergePolicy (c : Config) (filter : EntryFilter) : MergePolicy :=
  { filter
    mergeServiceFiles := c.mergeServiceFiles
    relocatePrimary := c.relocatePrimary
    targetRelease := c.targetRelease
    manifestAttributes := c.manifest }

/-- A path that must be configured. -/
def requirePath (name : String) (path : Option Path) : Except ConfigError Path :=
  match path with
  | some path => .ok path
  | none => .error (.missingOption name)

/-- The parts of a plan that are checked before the input is looked for. -/
def prepare (c : Config) : Except ConfigError (Relocation.Relocator × MergePolicy × Path) := do
  let relocator ← Relocation.Relocator.ofRules (← c.makeRules)
  let filter ← EntryFilter.parse c.exclude
  return (relocator, c.mergePolicy filter, ← requirePath "input" c.input)

/-- The plan of a configuration whose input has been found. -/
def complete (c : Config) (defaultCache : Path) (dryRun : Bool)
    (parts : Relocation.Relocator × MergePolicy × Path) : Except ConfigError Plan := do
  let (relocator, merge, input) := parts
  let output ← requirePath "output" c.output
  return {
    input, output, relocator, merge, dryRun
    cacheDir := c.cacheDir.getD defaultCache
    offline := c.offline
    repositories := if c.repositories.isEmpty then [defaultRepository] else c.repositories
    dependencies := ← c.dependencies.mapM DependencyEntry.declaration }

/-- Checks a configuration and makes a plan of it. -/
def plan {m : Type → Type} [Monad m] [FileSystem m] (c : Config) (defaultCache : Path) (dryRun : Bool) :
    m (Except ConfigError Plan) := do
  match c.prepare with
  | .error e => return .error e
  | .ok parts =>
    if ← FileSystem.pathExists parts.2.2 then return c.complete defaultCache dryRun parts
    else return .error (.inputNotFound parts.2.2)

end Config
end UberJar
