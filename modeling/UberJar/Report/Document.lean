import UberJar.Json.Value
import UberJar.Report.Basic

namespace UberJar.Report

open Json (Value)

/-- The totals of a report. -/
def totalsDocument (r : Report) : Value :=
  .object [("entries", .number r.entriesWritten), ("dependencies", .number r.dependencies.length),
    ("relocated", .number r.relocatedCount), ("excluded", .number r.excludedCount),
    ("duplicates", .number r.duplicateCount), ("dropped", .number r.droppedCount)]

/-- The counters of an archive. -/
def artifactDocument (a : Summary) : Value :=
  let requester := match a.requestedBy with
    | some requester => [("requested_by", Value.string requester)]
    | none => []
  .object ([("label", .string a.label), ("path", .string a.path.text), ("primary", .boolean a.isPrimary)] ++
    requester ++ [("kept", .number a.kept), ("relocated", .number a.relocated), ("excluded", .number a.excluded),
      ("duplicates", .number a.duplicates), ("services_merged", .number a.servicesMerged),
      ("dropped", .number a.dropped)])

/-- The whole report. Lists that are empty are left out; archives are left out if the report is quiet, and
    patterns are shown only if it is verbose. -/
def document (verbosity : Verbosity) (r : Report) : Value :=
  let artifacts := if verbosity = .quiet then [] else r.artifacts
  let listField {α : Type} (name : String) (items : List α) (value : α → Value) : List (String × Value) :=
    if items.isEmpty then [] else [(name, .array (items.map value))]
  let exclusions : List (String × Value) :=
    if verbosity = .verbose then
      [("exclusions", .object (r.exclusions.map fun (pattern, count) => (pattern, .number count)))]
    else []
  .object ([("output", .string r.output.text), ("dry_run", .boolean r.dryRun),
    ("finished_at", .string (r.finishedAt.render "+00:00")), ("summary", totalsDocument r)] ++
    listField "artifacts" artifacts artifactDocument ++ listField "skipped" r.skipped Value.string ++ exclusions)

end UberJar.Report
