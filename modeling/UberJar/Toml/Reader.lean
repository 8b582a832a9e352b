import UberJar.Toml.Quoted
import UberJar.Toml.Scalar
import UberJar.Toml.Table

namespace UberJar.Toml

/-- Whether a character may stand in a key without quotes. -/
def isBare (c : Char) : Bool := c.isAlphanum || c == '_' || c == '-'

/-- Reads one part of a key. -/
def readKeyPart (cs : List Char) : Except Fault (String × List Char) :=
  match cs with
  | '"' :: rest => (readBasic .plain [] rest).map fun (key, rest) => (String.ofList key, rest)
  | '\'' :: rest => (readLiteral rest).map fun (key, rest) => (String.ofList key, rest)
  | _ =>
    let key := cs.takeWhile isBare
    if key.isEmpty then .error .invalidKey else .ok (String.ofList key, cs.drop key.length)

/-- Reads a key: parts with dots between them. The first argument bounds the number of dots. -/
def readKeyWithin : Nat → List Char → Except Fault (List String × List Char)
  | bound, cs => do
    let (part, rest) ← readKeyPart (skipBlanks cs)
    match bound, skipBlanks rest with
    | bound + 1, '.' :: rest => do
      let (path, rest) ← readKeyWithin bound rest
      return (part :: path, rest)
    | _, rest => return ([part], rest)

/-- How deep arrays and inline tables may stand in each other, and how many parts a key may have. -/
def maxDepth : Nat := 80

/-- Reads a key, and the blanks around it. -/
def readKey (cs : List Char) : Except Fault (List String × List Char) := do
  let (path, rest) ← readKeyWithin cs.length cs
  if path.length > maxDepth then .error .tooDeep else return (path, rest)

/-- Whether a character may stand in a value without quotes. -/
def isScalarChar (c : Char) : Bool := c.isAlphanum || c == '_' || c == '-' || c == '+' || c == '.' || c == ':'

/-- Reads a value without quotes. A date may be followed by a blank and a time. -/
def readScalar (cs : List Char) : Except Fault (Value × List Char) :=
  let word := cs.takeWhile isScalarChar
  let rest := cs.drop word.length
  let (word, rest) := match rest with
    | ' ' :: more =>
      let next := more.takeWhile isScalarChar
      if isDate word && (next.take 2).all Char.isDigit && next.length > 2 then
        (word ++ ' ' :: next, more.drop next.length)
      else (word, rest)
    | _ => (word, rest)
  match scalar? word with
  | some value => .ok (value, rest)
  | none => .error .invalidValue

mutual
/-- Reads a value, in which arrays and inline tables stand at most `depth` deep. The first argument bounds the
    number of steps, as in the functions below. -/
def readValueWithin : Nat → (depth : Nat) → List Char → Except Fault (Value × List Char)
  | 0, _, _ => .error .invalidValue
  | bound + 1, depth, cs =>
    match readString? cs with
    | some read => read.map fun (text, rest) => (.string (String.ofList text), rest)
    | none =>
      match depth, cs with
      | 0, '[' :: _ | 0, '\x7b' :: _ => .error .tooDeep
      | depth + 1, '[' :: rest => readItemsWithin bound depth [] rest
      | depth + 1, '\x7b' :: rest => readEntriesWithin bound depth [] rest
      | _, _ => readScalar cs

/-- Reads the items of an array, last item first on top of those given. -/
def readItemsWithin : Nat → (depth : Nat) → List Value → List Char → Except Fault (Value × List Char)
  | 0, _, _, _ => .error .unclosedArray
  | bound + 1, depth, items, cs => do
    match ← skipFiller false cs with
    | ']' :: rest => return (.array false items.reverse, rest)
    | rest =>
      let (value, rest) ← readValueWithin bound depth rest
      match ← skipFiller false rest with
      | ',' :: rest => readItemsWithin bound depth (value :: items) rest
      | ']' :: rest => return (.array false (value :: items).reverse, rest)
      | _ => .error .unclosedArray

/-- Reads the entries of an inline table. -/
def readEntriesWithin : Nat → (depth : Nat) → Entries → List Char → Except Fault (Value × List Char)
  | 0, _, _, _ => .error .unclosedTable
  | bound + 1, depth, entries, cs => do
    match ← skipFiller false cs with
    | '\x7d' :: rest => return (.table .inline entries, rest)
    | rest =>
      let (path, rest) ← readKey rest
      match ← skipFiller false rest with
      | '=' :: rest =>
        let (value, rest) ← readValueWithin bound depth (← skipFiller false rest)
        let entries ← Entries.assign .inline true value path entries
        match ← skipFiller false rest with
        | ',' :: rest => readEntriesWithin bound depth entries rest
        | '\x7d' :: rest => return (.table .inline entries, rest)
        | _ => .error .unclosedTable
      | _ => .error .expectedEquals
end

/-- Reads a value. -/
def readValue (cs : List Char) : Except Fault (Value × List Char) := readValueWithin (2 * cs.length + 2) maxDepth cs

/-- A line of a document. -/
inductive Statement
  | table (path : List String)
  | item (path : List String)
  | assignment (path : List String) (value : Value)

/-- Reads a statement, if there is one before the end of the line. -/
def readStatement (cs : List Char) : Except Fault (Option Statement × List Char) := do
  match skipBlanks cs with
  | [] => return (none, [])
  | '#' :: rest => return (none, '#' :: rest)
  | '\n' :: rest => return (none, '\n' :: rest)
  | '\r' :: rest => return (none, '\r' :: rest)
  | '[' :: '[' :: rest =>
    match ← readKey rest with
    | (path, ']' :: ']' :: rest) => return (some (.item path), rest)
    | _ => .error .unclosedHeader
  | '[' :: rest =>
    match ← readKey rest with
    | (path, ']' :: rest) => return (some (.table path), rest)
    | _ => .error .unclosedHeader
  | rest =>
    match ← readKey rest with
    | (path, '=' :: rest) =>
      let (value, rest) ← readValue (skipBlanks rest)
      return (some (.assignment path value), rest)
    | _ => .error .expectedEquals

/-- A document in the making: its entries, and the path of the table that the last header opened. -/
structure Builder where
  entries : Entries := []
  header : List String := []

/-- Adds a statement. -/
def Builder.add (b : Builder) : Statement → Except Fault Builder
  | .table path => do return ⟨← Entries.within Entries.openTable path b.entries, path⟩
  | .item path => do return ⟨← Entries.within Entries.openItem path b.entries, path⟩
  | .assignment path value => do
    let entries ← match b.header with
      | [] => Entries.assign .headed true value path b.entries
      | header => Entries.within (Entries.assignIn path value) header b.entries
    return { b with entries }

/-- Reads lines to the end of the text. The first argument bounds their number. -/
def readLinesWithin : Nat → Builder → List Char → Except Fault Entries
  | _, b, [] => .ok b.entries
  | 0, _, _ => .error .expectedLineEnd
  | bound + 1, b, cs => do
    let (statement, rest) ← readStatement cs
    let b ← match statement with
      | some statement => b.add statement
      | none => pure b
    readLinesWithin bound b (← endLine rest)

/-- Reads a document. A byte order mark may stand before it. -/
def parse (text : List Char) : Except Fault Entries :=
  let text := match text with
    | '\uFEFF' :: rest => rest
    | _ => text
  readLinesWithin (text.length + 1) {} text

end UberJar.Toml
