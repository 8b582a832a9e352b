import UberJar.Toml.Blank

namespace UberJar.Toml

/-- The value of a hexadecimal digit. -/
def hexDigit? (c : Char) : Option Nat :=
  if c.isDigit then some (c.toNat - 48)
  else if 'a' ≤ c ∧ c ≤ 'f' then some (c.toNat - 87)
  else if 'A' ≤ c ∧ c ≤ 'F' then some (c.toNat - 55)
  else none

/-- The character with a hexadecimal number. -/
def hexChar? (digits : List Char) : Option Char := do
  let n ← digits.foldlM (fun n c => do return n * 16 + (← hexDigit? c)) 0
  if n.isValidChar then some (Char.ofNat n) else none

/-- The character that one letter behind a backslash stands for. -/
def escape? (c : Char) : Option Char :=
  [('b', '\x08'), ('t', '\t'), ('n', '\n'), ('f', '\x0c'), ('r', '\r'), ('e', '\x1b'), ('"', '"'),
    ('\\', '\\')].lookup c

/-- How many hexadecimal digits follow a letter behind a backslash. -/
def hexLength? (c : Char) : Option Nat := [('x', 2), ('u', 4), ('U', 8)].lookup c

/-- What a string reader is doing. -/
inductive Quoting
  | plain
  /-- Behind a backslash. -/
  | escape
  /-- Inside an escape that needs so many more hexadecimal digits; those read come last digit first. -/
  | hex (missing : Nat) (digits : List Char)
  /-- Behind a backslash that ends a line, whose line break has been met or not. -/
  | lineEnd (broken : Bool)
  deriving DecidableEq, Repr

/-- Takes in a character behind a backslash: what is read next, and the character that is complete. -/
def escapeStep (c : Char) : Except Fault (Quoting × Option Char) :=
  match escape? c, hexLength? c with
  | some escaped, _ => .ok (.plain, some escaped)
  | none, some length => .ok (.hex length [], none)
  | none, none => .error .invalidString

/-- Takes in a hexadecimal digit of an escape. -/
def hexStep (missing : Nat) (digits : List Char) (c : Char) : Except Fault (Quoting × Option Char) :=
  if missing > 1 then .ok (.hex (missing - 1) (c :: digits), none)
  else
    match hexChar? (c :: digits).reverse with
    | some escaped => .ok (.plain, some escaped)
    | none => .error .invalidString

/-- Reads a basic string behind its opening quote. The text so far is given last character first. -/
def readBasic (mode : Quoting) (out : List Char) : List Char → Except Fault (List Char × List Char)
  | [] => .error .invalidString
  | c :: rest =>
    match mode with
    | .escape => do
      let (mode, escaped) ← escapeStep c
      readBasic mode (escaped.toList ++ out) rest
    | .hex missing digits => do
      let (mode, escaped) ← hexStep missing digits c
      readBasic mode (escaped.toList ++ out) rest
    | _ =>
      if c = '"' then .ok (out.reverse, rest)
      else if c = '\\' then readBasic .escape out rest
      else if isPlain c then readBasic .plain (c :: out) rest
      else .error .invalidString

/-- Reads a literal string behind its opening quote. -/
def readLiteral (cs : List Char) : Except Fault (List Char × List Char) :=
  match cs.dropWhile fun c => c != '\'' && isPlain c with
  | '\'' :: rest => .ok (cs.takeWhile fun c => c != '\'' && isPlain c, rest)
  | _ => .error .invalidString

/-- The quotes of a run that belong to a string's text, where the last three of the run close the string; at
    most two can. -/
def closingQuotes (quote : Char) (rest : List Char) : List Char × List Char :=
  let extra := (rest.take 2).takeWhile (· == quote)
  (extra, rest.drop extra.length)

/-- Reads a string of several lines behind its opening quotes. A basic one has escapes; a backslash at the end
    of a line takes the line break and the blanks that follow. -/
def readLines (quote : Char) (mode : Quoting) (out : List Char) :
    List Char → Except Fault (List Char × List Char)
  | [] => .error .invalidString
  | c :: rest =>
    match mode with
    | .escape =>
      if isBlank c then readLines quote (.lineEnd false) out rest
      else if c = '\n' then readLines quote (.lineEnd true) out rest
      else if c = '\r' then
        if rest.head? = some '\n' then readLines quote (.lineEnd false) out rest else .error .invalidString
      else do
        let (mode, escaped) ← escapeStep c
        readLines quote mode (escaped.toList ++ out) rest
    | .hex missing digits => do
      let (mode, escaped) ← hexStep missing digits c
      readLines quote mode (escaped.toList ++ out) rest
    | .plain | .lineEnd _ =>
      let broken := mode != .lineEnd false
      if c = '\r' then
        if rest.head? = some '\n' then
          readLines quote mode (if mode = .plain then c :: out else out) rest
        else .error .invalidString
      else if mode ≠ .plain ∧ c = '\n' then readLines quote (.lineEnd true) out rest
      else if mode ≠ .plain ∧ isBlank c then readLines quote mode out rest
      else if !broken then .error .invalidString
      else if c = quote ∧ ([quote, quote].isPrefixOf rest) then
        let (extra, rest) := closingQuotes quote (rest.drop 2)
        .ok (out.reverse ++ extra, rest)
      else if c = '\\' ∧ quote = '"' then readLines quote .escape out rest
      else if isPlain c ∨ c = '\n' then readLines quote .plain (c :: out) rest
      else .error .invalidString

/-- Reads a string, if the text begins with a quote. -/
def readString? (cs : List Char) : Option (Except Fault (List Char × List Char)) :=
  let body (rest : List Char) := (lineBreak? rest).getD rest
  match cs with
  | '"' :: '"' :: '"' :: rest => some (readLines '"' .plain [] (body rest))
  | '\'' :: '\'' :: '\'' :: rest => some (readLines '\'' .plain [] (body rest))
  | '"' :: rest => some (readBasic .plain [] rest)
  | '\'' :: rest => some (readLiteral rest)
  | _ => none

end UberJar.Toml
