import UberJar.Text.Split

namespace UberJar.Manifest

/-- The longest line, in bytes, without its line break. -/
def maxLine : Nat := 72

/-- Cuts a text into pieces. The piece at hand is given last character first and has room for `room` more
    bytes; pieces after it have at most `limit` bytes. -/
def foldOnto (limit room : Nat) (piece : List Char) : List Char → List (List Char)
  | [] => [piece.reverse]
  | c :: rest =>
    if c.utf8Size ≤ room then foldOnto limit (room - c.utf8Size) (c :: piece) rest
    else piece.reverse :: foldOnto limit (limit - c.utf8Size) [c] rest

/-- The pieces of a text, one a line; all but the first have a space before them. -/
def foldLine (text : List Char) : List (List Char) := foldOnto (maxLine - 1) maxLine [] text

/-- The text as lines, each with its line break. -/
def renderLine (text : List Char) : List Char := "\r\n ".toList.intercalate (foldLine text) ++ ['\r', '\n']

/-- Writes every line break as a line feed. `afterReturn` says whether a carriage return stands before the
    text, with which a line feed forms one line break. -/
def unifyBreaks (afterReturn : Bool) : List Char → List Char
  | [] => []
  | c :: rest =>
    if c = '\n' ∧ afterReturn then unifyBreaks false rest
    else if c = '\r' then '\n' :: unifyBreaks true rest
    else c :: unifyBreaks false rest

/-- Joins lines that start with a space to the line before them. The lines are given last line first. -/
def joinOnto (lines : List (List Char)) : List (List Char) → List (List Char)
  | [] => lines.reverse
  | line :: rest =>
    match line, lines with
    | ' ' :: more, previous :: earlier => joinOnto ((previous ++ more) :: earlier) rest
    | _, _ => joinOnto (line :: lines) rest

/-- The blocks of a manifest: groups of lines that empty lines separate, with continued lines joined. -/
def blocks (text : List Char) : List (List (List Char)) :=
  let groups := ((unifyBreaks false text).splitOn '\n').splitOnP List.isEmpty
  (groups.filter (!·.isEmpty)).map (joinOnto [])

end UberJar.Manifest
