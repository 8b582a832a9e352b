import UberJar.Report.Document
import UberJar.Report.Text

namespace UberJar.Report

/-- A JSON value on lines of its own. -/
private def jsonText (v : Json.Value) : String := v.render ++ "\n"

/-- The whole report. -/
def render (o : Options) (r : Report) : String :=
  match o.format with
  | .text => unlines (textLines o r)
  | .json => jsonText (document o.verbosity r)

/-- The totals alone. -/
def renderSummary (o : Options) (r : Report) : String :=
  match o.format with
  | .text => unlines (summaryLines o r)
  | .json => jsonText (totalsDocument r)

/-- One archive alone. -/
def renderArtifact (o : Options) (a : Summary) : String :=
  match o.format with
  | .text => unlines (artifactLines o (shownLabel a).utf8ByteSize a)
  | .json => jsonText (artifactDocument a)

end UberJar.Report
