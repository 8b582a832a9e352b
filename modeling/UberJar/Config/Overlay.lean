import UberJar.CommandLine
import UberJar.Config.Basic
import UberJar.Files.System
import UberJar.Text.Utf8

namespace UberJar.Config

/-- Makes a relative path relative to `base`. -/
def rebase (base path : Path) : Path := if path.isRelative then base.join path else path

/-- Makes a repository relative to `base`, if it is a relative directory and no address. -/
def rebaseRepository (base : Path) (repository : String) : String :=
  if Text.contains "://".toList repository.toList then repository else (rebase base ⟨repository⟩).text

/-- Makes the relative paths of a configuration relative to `base`. -/
def rebasePaths (base : Path) (c : Config) : Config :=
  { c with
    input := c.input.map (rebase base)
    output := c.output.map (rebase base)
    cacheDir := c.cacheDir.map (rebase base)
    repositories := c.repositories.map (rebaseRepository base)
    dependencies := c.dependencies.map fun d => { d with path := d.path.map (rebase base) } }

/-- Reads a configuration file. Its relative paths start from its directory. -/
def load {m : Type → Type} [Monad m] [FileSystem m] (path : Path) : m (Except ConfigError Config) := do
  match ← FileSystem.readFile path with
  | .error e => return .error (.unreadable path (.os e))
  | .ok data =>
    match Text.Utf8.decode? data with
    | none => return .error (.unreadable path .notUtf8)
    | some text => return (parse text path).map fun c =>
        match path.parent? with
        | some base => c.rebasePaths base
        | none => c

/-- Lays arguments over a configuration: lists are extended, single values replaced. -/
def overlay (c : Config) (a : Arguments) : Config :=
  { c with
    input := a.input <|> c.input
    output := a.output <|> c.output
    cacheDir := a.cacheDir <|> c.cacheDir
    targetRelease := a.targetRelease <|> c.targetRelease
    offline := c.offline || a.offline
    relocatePrimary := c.relocatePrimary || a.relocatePrimary
    mergeServiceFiles := c.mergeServiceFiles || a.mergeServiceFiles
    repositories := c.repositories ++ a.repositories
    exclude := c.exclude ++ a.exclude
    relocation :=
      { root := a.destinationRoot <|> c.relocation.root
        packages := c.relocation.packages ++
          (a.relocations.filter (·.destination.isNone)).map (·.source)
        rules := c.relocation.rules ++ a.relocations.filterMap fun r => r.destination.map fun d => (r.source, d) }
    dependencies := c.dependencies ++ (a.dependencies.map fun coordinate => { coordinate := some coordinate }) ++
      (a.jars.map fun path => { path := some path }) }

end UberJar.Config
