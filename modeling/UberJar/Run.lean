import UberJar.Archive.Input
import UberJar.Archive.Jar
import UberJar.Config.Plan
import UberJar.Merge.Staging
import UberJar.Report.Basic
import UberJar.Repository.Http
import UberJar.Resolution.Resolve

namespace UberJar

/-- What a run needs besides the files. -/
structure Environment (m : Type → Type) where
  transport : Transport m
  clock : m Timestamp
  /-- The cache directory that is used if none is configured. -/
  cacheDir : Path
  /-- Whether what is printed may be coloured. -/
  color : Bool

namespace Plan

/-- The name of the application's archive in reports: that of its file or directory. -/
def inputLabel (p : Plan) : String := p.input.fileName?.getD p.input.text

variable {m : Type → Type} [Monad m] [FileSystem m]

/-- The store of a plan. -/
def store (transport : Transport m) (p : Plan) : Store m where
  cacheDir := p.cacheDir
  repositories := Repository.ofLocations transport p.offline p.repositories

/-- Resolves the dependencies of a plan. -/
def resolve (transport : Transport m) (p : Plan) : ExceptT Failure m Resolution :=
  ((p.store transport).library.resolve p.dependencies).adapt .resolve

/-- Adds an archive to the jar in the making. -/
def addArchive (s : Staging) (role : Role) (archive : Archive) (requestedBy : Option String) :
    Except Failure Staging :=
  match s.add role archive requestedBy with
  | (s, .ok ()) => .ok s
  | (_, .error e) => .error e

/-- Reads the archive of a dependency and adds it. -/
def addArtifact (s : Staging) (a : Artifact) : ExceptT Failure m Staging := do
  let archive ← (Archive.fromJar a.path a.label).adapt .archive
  ExceptT.mk (pure (addArchive s .dependency archive (some a.requestedBy)))

/-- Makes the jar of a plan, without writing it; gives the labels of what is not bundled besides. -/
def makeJar (transport : Transport m) (p : Plan) : ExceptT Failure m (MergedJar × List String) := do
  let resolution ← p.resolve transport
  let application ← (Archive.read p.input p.inputLabel).adapt .archive
  ExceptT.mk (pure ((p.relocator.requireFreeDestinations application.entries).mapError .config))
  let s ← ExceptT.mk (pure (addArchive (.start p.relocator p.merge) .primary application none))
  let s ← resolution.artifacts.foldlM addArtifact s
  return (s.finish, resolution.skipped)

/-- The report of a run that has made a jar. -/
def report (p : Plan) (jar : MergedJar) (skipped : List String) (finishedAt : Timestamp) : Report where
  output := p.output
  dryRun := p.dryRun
  artifacts := jar.summaries
  skipped
  entriesWritten := jar.entries.length
  exclusions := jar.tallies
  finishedAt

/-- Runs a plan. -/
def run (env : Environment m) (p : Plan) : ExceptT Failure m Report := do
  let (jar, skipped) ← p.makeJar env.transport
  if !p.dryRun then (Jar.write p.output jar.entries).adapt .archive
  return p.report jar skipped (← ExceptT.lift env.clock)

end Plan
end UberJar
