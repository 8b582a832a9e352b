import UberJar.Merge.Summary
import UberJar.Report.Timestamp

namespace UberJar

/-- The report of a run. -/
structure Report where
  output : Path
  /-- Whether the jar was left unwritten. -/
  dryRun : Bool
  /-- The archives, the application first. -/
  artifacts : List Summary
  /-- The declarations that are not bundled. -/
  skipped : List String
  entriesWritten : Nat
  /-- How many entries each pattern left out, by the patterns. -/
  exclusions : List (String × Nat)
  finishedAt : Timestamp
  deriving DecidableEq, Repr, Inhabited

namespace Report

/-- The archives of dependencies. -/
def dependencies (r : Report) : List Summary := r.artifacts.filter (!·.isPrimary)

/-- The sum of a counter over the archives. -/
def total (r : Report) (counter : Summary → Nat) : Nat := (r.artifacts.map counter).foldr Nat.add 0

/-- The number of relocated entries. -/
def relocatedCount (r : Report) : Nat := r.total (·.relocated)

/-- The number of excluded entries. -/
def excludedCount (r : Report) : Nat := r.total (·.excluded)

/-- The number of entries that were there already. -/
def duplicateCount (r : Report) : Nat := r.total (·.duplicates)

/-- The number of entries that are never carried over. -/
def droppedCount (r : Report) : Nat := r.total (·.dropped)

/-- How much a report says. -/
inductive Verbosity
  | quiet
  | normal
  | verbose
  deriving DecidableEq, Repr, Inhabited

/-- The form of a report. -/
inductive Format
  | text
  | json
  deriving DecidableEq, Repr, Inhabited

/-- How a report is shown. -/
structure Options where
  format : Format := .text
  verbosity : Verbosity := .normal
  /-- Whether the text form says that nothing was written. -/
  dryRun : Bool := false
  color : Bool := true
  deriving DecidableEq, Repr, Inhabited

/-- The options that the command line asks for. To be quiet is stronger than to be verbose. -/
def Options.ofFlags (json verbose quiet dryRun : Bool) : Options :=
  { format := if json then .json else .text
    verbosity := if quiet then .quiet else if verbose then .verbose else .normal
    dryRun }

end Report
end UberJar
