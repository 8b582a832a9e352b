import UberJar.Report.Basic
import UberJar.Report.Style

namespace UberJar.Report

/-- The least width of the column of labels. -/
def leastWidth : Nat := 20

/-- Fills a text with blanks up to a number of characters. -/
def padRight (width : Nat) (text : String) : String :=
  text ++ String.ofList (List.replicate (width - text.length) ' ')

/-- The label of an archive, with a mark for the application. -/
def shownLabel (a : Summary) : String := if a.isPrimary then a.label ++ " (primary)" else a.label

/-- The width of the column of labels: the bytes of the longest one. -/
def columnWidth (r : Report) : Nat :=
  (r.artifacts.map fun a => (shownLabel a).utf8ByteSize).foldl max leastWidth

/-- What stands before the lines of a dry run. -/
def dryRunMark (o : Options) : String := if o.dryRun then Style.cyan.apply o.color "(dry-run)" ++ " " else ""

/-- The counters of an archive that are not zero, with a number for those that stay. -/
def counters (o : Options) (a : Summary) : String :=
  let shown (style : Style) (n : Nat) (words : String) : List String :=
    if n = 0 then [] else [style.apply o.color (toString n ++ " " ++ words)]
  ", ".intercalate
    ([toString a.kept ++ " kept"] ++ shown .green a.relocated "relocated" ++ shown .dimmed a.excluded "excluded" ++
      shown .dimmed a.duplicates "duplicate" ++ shown .dimmed a.servicesMerged "service merged" ++
      shown .dimmed a.dropped "dropped")

/-- The lines of an archive. -/
def artifactLines (o : Options) (width : Nat) (a : Summary) : List String :=
  let label := padRight width (shownLabel a)
  let line := "  " ++ Style.bold.apply (o.color && a.isPrimary) label ++ " " ++ counters o a
  match a.requestedBy with
  | some requester =>
    if o.verbosity = .verbose then [line, "    " ++ Style.dimmed.apply o.color ("via " ++ requester)] else [line]
  | none => [line]

/-- The lines about patterns, with an empty line behind them. -/
def exclusionLines (o : Options) (r : Report) : List String :=
  if r.exclusions.isEmpty then []
  else
    [Style.bold.apply o.color "Exclusions" ++ ":"] ++
      (r.exclusions.map fun (pattern, count) =>
        "  " ++ pattern ++ " " ++ Style.dimmed.apply (o.color && count == 0) (toString count ++ " matched")) ++ [""]

/-- The lines about declarations that are not bundled. -/
def skippedLines (o : Options) (r : Report) : List String :=
  if r.skipped.isEmpty then []
  else if o.verbosity = .verbose then "  Not bundled:" :: r.skipped.map ("    " ++ ·)
  else ["  " ++ toString r.skipped.length ++ " declaration(s) not bundled"]

/-- The lines with totals. -/
def summaryLines (o : Options) (r : Report) : List String :=
  let green (n : Nat) := Style.green.apply o.color (toString n)
  let written := " entries " ++ (if r.dryRun then "would be written to" else "written to") ++ " " ++ r.output.text
  if o.verbosity = .quiet then [dryRunMark o ++ green r.entriesWritten ++ written]
  else
    [dryRunMark o ++ Style.bold.apply o.color "Summary" ++ ":",
      "  " ++ green r.entriesWritten ++ written,
      "  " ++ Style.cyan.apply o.color (toString r.dependencies.length) ++ " dependency jar(s), " ++
        green r.relocatedCount ++ " entries relocated",
      "  " ++ Style.dimmed.apply o.color (toString r.excludedCount ++ " excluded, " ++ toString r.duplicateCount ++
        " duplicate(s), " ++ toString r.droppedCount ++ " dropped")] ++ skippedLines o r

/-- The lines of a report. -/
def textLines (o : Options) (r : Report) : List String :=
  if o.verbosity = .quiet then summaryLines o r
  else
    [dryRunMark o ++ Style.bold.apply o.color r.output.text] ++
      r.artifacts.flatMap (artifactLines o (columnWidth r)) ++ [""] ++
      (if o.verbosity = .verbose then exclusionLines o r else []) ++ summaryLines o r

/-- The text of lines. -/
def unlines (lines : List String) : String := String.join (lines.map (· ++ "\n"))

end UberJar.Report
