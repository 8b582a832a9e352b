import UberJar.Toml.Value

namespace UberJar.Toml

/-- The blanks inside a line. -/
def isBlank (c : Char) : Bool := c == ' ' || c == '\t'

/-- Whether a character may stand in a comment or a string: any but control characters; a tab may. -/
def isPlain (c : Char) : Bool := c == '\t' || (c.toNat ≥ 0x20 && c.toNat != 0x7F)

/-- Drops blanks. -/
def skipBlanks (cs : List Char) : List Char := cs.dropWhile isBlank

/-- The text behind a line break, if it begins with one. -/
def lineBreak? : List Char → Option (List Char)
  | '\n' :: rest => some rest
  | '\r' :: '\n' :: rest => some rest
  | _ => none

/-- Drops a comment, which goes on to the end of the line. -/
def skipComment (cs : List Char) : List Char :=
  match cs with
  | '#' :: rest => rest.dropWhile isPlain
  | _ => cs

/-- Drops blanks and a comment, and the line break that must follow unless the text ends. -/
def endLine (cs : List Char) : Except Fault (List Char) :=
  match skipComment (skipBlanks cs) with
  | [] => .ok []
  | rest =>
    match lineBreak? rest with
    | some rest => .ok rest
    | none => .error .expectedLineEnd

/-- Drops blanks, comments and line breaks. `inComment` says whether the text begins inside a comment. -/
def skipFiller (inComment : Bool) : List Char → Except Fault (List Char)
  | [] => .ok []
  | '\n' :: rest => skipFiller false rest
  | '\r' :: '\n' :: rest => skipFiller false rest
  | c :: rest =>
    if inComment then if isPlain c then skipFiller true rest else .error .controlCharacter
    else if isBlank c then skipFiller false rest
    else if c = '#' then skipFiller true rest
    else .ok (c :: rest)

end UberJar.Toml
