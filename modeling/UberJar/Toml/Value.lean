namespace UberJar.Toml

/-- How a table came to be. -/
inductive TableKind
  /-- Written between braces: nothing can be added to it. -/
  | inline
  /-- Opened by a header of its own. -/
  | headed
  /-- Named on the way to a table below it. -/
  | implied
  /-- Named by a dotted key. -/
  | dotted
  deriving DecidableEq, Repr

/-- A value. -/
inductive Value
  | string (text : String)
  | integer (n : Int)
  /-- A float, of which only matters whether a number of 64 bits can be so large. -/
  | float (inRange : Bool)
  | boolean (b : Bool)
  /-- A date, a time or both, in normal form. -/
  | date (text : String)
  /-- An array; headers add to an array of tables that was opened by one. -/
  | array (headed : Bool) (items : List Value)
  | table (kind : TableKind) (entries : List (String × Value))
  deriving Repr, Inhabited

/-- The keys of a table with their values, in the order of their definition. -/
abbrev Entries := List (String × Value)

/-- What is wrong with a TOML text, or with a value in it. -/
inductive Fault
  | invalidKey
  | invalidString
  | invalidValue
  | controlCharacter
  | expectedEquals
  | expectedLineEnd
  | unclosedHeader
  | unclosedArray
  | unclosedTable
  | duplicateKey (key : String)
  | missingKey (key : String)
  | unknownKey (key : String)
  | wrongType (expected : String)
  | numberTooLarge
  | tooDeep
  deriving DecidableEq, Repr

/-- The wording of a fault. -/
def Fault.message : Fault → String
  | invalidKey => "invalid key"
  | invalidString => "invalid string"
  | invalidValue => "invalid value"
  | controlCharacter => "invalid control character"
  | expectedEquals => "expected an equals sign"
  | expectedLineEnd => "expected the end of the line"
  | unclosedHeader => "unclosed table header"
  | unclosedArray => "unclosed array"
  | unclosedTable => "unclosed inline table"
  | duplicateKey key => "duplicate key '" ++ key ++ "'"
  | missingKey key => "missing key '" ++ key ++ "'"
  | unknownKey key => "unknown key '" ++ key ++ "'"
  | wrongType expected => "invalid type: expected " ++ expected
  | numberTooLarge => "number too large"
  | tooDeep => "nested too deep"

end UberJar.Toml
