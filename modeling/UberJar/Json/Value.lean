namespace UberJar.Json

/-- A JSON value. Its numbers are natural numbers. -/
inductive Value
  | string (text : String)
  | number (n : Nat)
  | boolean (b : Bool)
  | array (items : List Value)
  | object (fields : List (String × Value))

/-- A hexadecimal number of four digits. -/
private def hex4 (n : Nat) : List Char :=
  [n / 4096 % 16, n / 256 % 16, n / 16 % 16, n % 16].map Nat.digitChar

/-- A character inside quotes. -/
def quoteChar (c : Char) : List Char :=
  match c with
  | '"' => ['\\', '"']
  | '\\' => ['\\', '\\']
  | '\n' => ['\\', 'n']
  | '\r' => ['\\', 'r']
  | '\t' => ['\\', 't']
  | '\x08' => ['\\', 'b']
  | '\x0c' => ['\\', 'f']
  | _ => if c.toNat < 0x20 then '\\' :: 'u' :: hex4 c.toNat else [c]

/-- A text in quotes. -/
def quote (text : String) : String := String.ofList ('"' :: text.toList.flatMap quoteChar ++ ['"'])

/-- Puts a comma behind the last line of each item but the last. -/
def separate : List (List String) → List String
  | [] => []
  | [lines] => lines
  | lines :: rest => lines.dropLast ++ (lines.getLast?.map (· ++ ",")).toList ++ separate rest

/-- The lines of items between brackets. -/
def block (opening closing : String) (items : List (List String)) : List String :=
  if items.isEmpty then [opening ++ closing] else opening :: (separate items).map ("  " ++ ·) ++ [closing]

mutual
/-- The lines of a value. -/
def Value.lines : Value → List String
  | .string text => [quote text]
  | .number n => [toString n]
  | .boolean b => [if b then "true" else "false"]
  | .array items => block "[" "]" (linesOfItems items)
  | .object fields => block "\x7b" "\x7d" (linesOfFields fields)

/-- The lines of items. -/
def linesOfItems : List Value → List (List String)
  | [] => []
  | v :: rest => v.lines :: linesOfItems rest

/-- The lines of fields. -/
def linesOfFields : List (String × Value) → List (List String)
  | [] => []
  | field :: rest => linesOfField field :: linesOfFields rest

/-- The lines of a field: its name stands before the first line of its value. -/
def linesOfField : String × Value → List String
  | (name, v) =>
    match v.lines with
    | first :: rest => (quote name ++ ": " ++ first) :: rest
    | [] => []
end

/-- The text of a value. -/
def Value.render (v : Value) : String := "\n".intercalate v.lines

end UberJar.Json
