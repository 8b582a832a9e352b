import UberJar.Toml.Table

namespace UberJar.Toml.Value

/-- A string. -/
def asString : Value → Except Fault String
  | string text => .ok text
  | _ => .error (.wrongType "a string")

/-- A boolean. -/
def asBool : Value → Except Fault Bool
  | boolean b => .ok b
  | _ => .error (.wrongType "a boolean")

/-- A number of sixteen bits. -/
def asUInt16 : Value → Except Fault UInt16
  | integer n => if 0 ≤ n ∧ n < 65536 then .ok (UInt16.ofNat n.toNat) else .error (.wrongType "a number of 16 bits")
  | _ => .error (.wrongType "an integer")

/-- A list. -/
def asList {α : Type} (read : Value → Except Fault α) : Value → Except Fault (List α)
  | array _ items => items.mapM read
  | _ => .error (.wrongType "an array")

/-- The key of a date or time where it is taken for a table. -/
def dateKey : String := "$__toml_private_datetime"

/-- A table of strings, by its keys in their order. A date is a table of one key. -/
def asStrings : Value → Except Fault (List (String × String))
  | date text => .ok [(dateKey, text)]
  | table _ entries => do
    let read ← entries.mapM fun (key, value) => do return (key, ← value.asString)
    return read.mergeSort fun a b => decide (a.1 ≤ b.1)
  | _ => .error (.wrongType "a table")

mutual
/-- Whether all numbers in a value are in the range that a reader of any value knows: integers of 128 bits with or
    without a sign, and floats of 64 bits. -/
def inRange : Value → Bool
  | integer n => -(2 ^ 127) ≤ n && n < 2 ^ 128
  | float inRange => inRange
  | array _ items => areInRange items
  | table _ entries => entriesInRange entries
  | _ => true

/-- Whether all numbers in some values are in range. -/
def areInRange : List Value → Bool
  | [] => true
  | item :: items => item.inRange && areInRange items

/-- Whether all numbers in the values of some entries are in range. -/
def entriesInRange : List (String × Value) → Bool
  | [] => true
  | (_, value) :: entries => value.inRange && entriesInRange entries
end

/-- Checks a key of a table that is no field of the record. A closed record has none; an open one skips the
    value, which it must still be able to read. -/
def checkExtra (isClosed : Bool) (key : String) (value : Value) : Except Fault Unit :=
  if isClosed then .error (.unknownKey key)
  else if value.inRange then .ok ()
  else .error .numberTooLarge

/-- The fields of a record: a table, or an array that gives them in their order. What an array holds beyond
    the fields is not looked at. -/
def fields (known : List String) (isClosed : Bool) (value : Value) : Except Fault Entries := do
  let entries ← match value with
    | table _ entries => pure entries
    | date text => pure [(dateKey, string text)]
    | array _ items => pure (known.zip items)
    | _ => .error (.wrongType "a table")
  for (key, value) in entries do
    unless known.contains key do checkExtra isClosed key value
  return entries

end UberJar.Toml.Value

namespace UberJar.Toml.Entries

/-- A field that may be missing. -/
def optional {α : Type} (entries : Entries) (key : String) (read : Value → Except Fault α) :
    Except Fault (Option α) :=
  (get? entries key).mapM read

/-- A field with a default. -/
def withDefault {α : Type} (entries : Entries) (key : String) (read : Value → Except Fault α) (default : α) :
    Except Fault α := do
  return (← optional entries key read).getD default

/-- A field that must be there. -/
def required {α : Type} (entries : Entries) (key : String) (read : Value → Except Fault α) : Except Fault α :=
  match get? entries key with
  | some value => read value
  | none => .error (.missingKey key)

end UberJar.Toml.Entries
