import UberJar.Toml.Value

namespace UberJar.Toml

namespace Entries

/-- The value of a key. -/
def get? (entries : Entries) (key : String) : Option Value := entries.lookup key

/-- Gives a key a value, in its place if it has one. -/
def put (key : String) (value : Value) : Entries → Entries
  | [] => [(key, value)]
  | (k, v) :: rest => if k = key then (key, value) :: rest else (k, v) :: put key value rest

/-- Sets the value of a dotted key. The tables on the way must not have been opened by headers. The kind is
    that of the table at hand: only a table that dotted keys made takes the last part of one. -/
def assign (kind : TableKind) (isWhole : Bool) (value : Value) : List String → Entries → Except Fault Entries
  | [], _ => .error .invalidKey
  | [key], entries =>
    if (get? entries key).isSome || (!isWhole && kind != .dotted) then .error (.duplicateKey key)
    else .ok (entries ++ [(key, value)])
  | key :: path, entries =>
    match get? entries key with
    | none => do return put key (.table .dotted (← assign .dotted false value path [])) entries
    | some (.table .dotted inner) => do
      return put key (.table .dotted (← assign .dotted false value path inner)) entries
    | some (.table .implied inner) => do
      return put key (.table .implied (← assign .implied false value path inner)) entries
    | some (.array true items) =>
      match items.reverse with
      | .table kind inner :: earlier => do
        let last := Value.table kind (← assign kind false value path inner)
        return put key (.array true (last :: earlier).reverse) entries
      | _ => .error (.duplicateKey key)
    | some _ => .error (.duplicateKey key)

/-- Changes the table that a header names. Tables on the way to it are made where they are missing. -/
def within (change : String → Entries → Except Fault Entries) : List String → Entries → Except Fault Entries
  | [], _ => .error .invalidKey
  | [key], entries => change key entries
  | key :: path, entries =>
    match get? entries key with
    | none => do return put key (.table .implied (← within change path [])) entries
    | some (.table .inline _) => .error (.duplicateKey key)
    | some (.table kind inner) => do return put key (.table kind (← within change path inner)) entries
    | some (.array true items) =>
      match items.reverse with
      | .table kind inner :: earlier => do
        return put key (.array true (.table kind (← within change path inner) :: earlier).reverse) entries
      | _ => .error (.duplicateKey key)
    | some _ => .error (.duplicateKey key)

/-- Opens a table. One that was only named on the way to another can still be opened. -/
def openTable (key : String) (entries : Entries) : Except Fault Entries :=
  match get? entries key with
  | none => .ok (put key (.table .headed []) entries)
  | some (.table .implied inner) => .ok (put key (.table .headed inner) entries)
  | some _ => .error (.duplicateKey key)

/-- Opens a further table of an array of tables. -/
def openItem (key : String) (entries : Entries) : Except Fault Entries :=
  match get? entries key with
  | none => .ok (put key (.array true [.table .headed []]) entries)
  | some (.array true items) => .ok (put key (.array true (items ++ [.table .headed []])) entries)
  | some _ => .error (.duplicateKey key)

/-- Sets the value of a dotted key in the table that the last header opened. -/
def assignIn (path : List String) (value : Value) (key : String) (entries : Entries) : Except Fault Entries :=
  match get? entries key with
  | some (.table kind inner) => do return put key (.table kind (← assign kind true value path inner)) entries
  | some (.array true items) =>
    match items.reverse with
    | .table kind inner :: earlier => do
      return put key (.array true (.table kind (← assign kind true value path inner) :: earlier).reverse) entries
    | _ => .error (.duplicateKey key)
  | _ => .error (.duplicateKey key)

end Entries
end UberJar.Toml
