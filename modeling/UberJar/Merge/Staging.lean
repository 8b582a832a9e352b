import Std.Data.TreeMap
import UberJar.Merge.Disposition
import UberJar.Merge.Services
import UberJar.Merge.Summary

namespace UberJar

/-- An entry that has its place, and the archive that it came from. -/
structure StagedEntry where
  data : Bytes
  origin : String
  deriving DecidableEq, Repr, Inhabited

/-- The state of a merge. -/
structure Staging where
  relocator : Relocation.Relocator
  policy : MergePolicy
  staged : Std.TreeMap String StagedEntry compare := ∅
  /-- One summary for each archive that was added. -/
  summaries : List Summary := []
  /-- How many entries each declared pattern left out. -/
  tallies : Std.TreeMap String Nat compare

/-- A merged jar. -/
structure MergedJar where
  entries : List Entry
  summaries : List Summary
  tallies : List (String × Nat)

namespace Staging

/-- The state before the first archive. -/
def start (relocator : Relocation.Relocator) (policy : MergePolicy) : Staging :=
  { relocator, policy, tallies := policy.filter.texts.foldl (fun m text => m.insert text 0) ∅ }

/-- Gives an entry its place, or checks it against the one that has it. -/
def place (s : Staging) (entry : Entry) (origin : String) (outcome : Outcome) :
    Except Conflict (Staging × Outcome) :=
  match s.staged[entry.path]? with
  | none => .ok ({ s with staged := s.staged.insert entry.path ⟨entry.data, origin⟩ }, outcome)
  | some existing =>
    if existing.data = entry.data then .ok (s, .duplicate)
    else if s.policy.mergeServiceFiles && EntryPath.isServiceFile entry.path then
      let data := Services.merge existing.data entry.data
      .ok ({ s with staged := s.staged.insert entry.path { existing with data } }, .serviceMerged)
    else .error ⟨entry.path, existing.origin, origin⟩

/-- Counts an exclusion. -/
def tally (s : Staging) (pattern : String) : Staging :=
  { s with tallies := s.tallies.insert pattern (s.tallies.getD pattern 0 + 1) }

/-- Takes in one entry of the archive `origin`. -/
def process (s : Staging) (role : Role) (origin : String) (entry : Entry) :
    Except Failure (Staging × Outcome) :=
  match Disposition.ofEntry s.relocator s.policy role origin entry with
  | .error e => .error e
  | .ok (.dropped reason) => .ok (s, .dropped reason)
  | .ok (.excluded pattern) => .ok (s.tally pattern, .excluded pattern)
  | .ok (.contributed moved outcome) =>
    match s.place moved origin outcome with
    | .ok result => .ok result
    | .error c => .error (.conflict c)

/-- Takes in entries, up to the first that fails. What was taken in before it stays. -/
def processAll (role : Role) (origin : String) (s : Staging) (summary : Summary) :
    List Entry → Staging × Except Failure Summary
  | [] => (s, .ok summary)
  | entry :: rest =>
    match s.process role origin entry with
    | .error e => (s, .error e)
    | .ok (s, outcome) => processAll role origin s (summary.record outcome) rest

/-- Adds an archive. If one of its entries fails, the archive gets no summary. -/
def add (s : Staging) (role : Role) (archive : Archive) (requestedBy : Option String) :
    Staging × Except Failure Unit :=
  let summary : Summary :=
    { label := archive.label
      path := archive.path
      isPrimary := role == .primary
      requestedBy := requestedBy.filter (· != archive.label) }
  match processAll role archive.label s summary archive.entries with
  | (s, .ok summary) => ({ s with summaries := s.summaries ++ [summary] }, .ok ())
  | (s, .error e) => (s, .error e)

/-- The merged jar: the manifest, and after it the other entries by their paths. -/
def finish (s : Staging) : MergedJar :=
  let existing := s.staged[EntryPath.manifest]?
  let manifest := Manifest.build (existing.map (·.data)) s.policy.manifestAttributes
  let others := (s.staged.erase EntryPath.manifest).toList.map fun (path, entry) => Entry.mk path entry.data
  { entries := ⟨EntryPath.manifest, manifest⟩ :: others
    summaries := s.summaries
    tallies := s.tallies.toList }

end Staging
end UberJar
