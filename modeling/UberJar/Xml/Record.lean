import UberJar.Xml.Cursor

namespace UberJar.Xml

/-- Reading a value at a cursor. -/
abbrev Decoder := StateT Cursor (Except Fault)

namespace Decoder

/-- Takes the next item. -/
def next : Decoder Item := fun c => c.take

/-- Looks at the next item. -/
def peek : Decoder Item := do
  let item ← next
  modify fun c => { c with held := some item }
  return item

/-- A bound of the number of items that are left: one may be held, and every other one takes an event. -/
def bound : Decoder Nat := return (← get).total + 2

/-- Passes the end of an element whose items have all been taken so far. -/
def passEnd (name : List Char) : Decoder Unit := do set (← (← get).passEnd name)

/-- Passes over an element behind its start. Its first item is taken like any other; of the rest only the end
    is looked for. -/
def skip (tag : Tag) : Decoder Unit := do
  match ← next with
  | .opened child =>
    passEnd child.name
    passEnd tag.name
  | .closed name => unless name = tag.name do passEnd tag.name
  | .text _ => passEnd tag.name

/-- Takes the start of an element. -/
def opening : Decoder Tag := do
  match ← next with
  | .opened tag => return tag
  | _ => throw .unexpectedText

/-- Reads an element of text. -/
def text : Decoder (List Char) := do
  let _ ← opening
  match ← next with
  | .text content =>
    match ← next with
    | .closed _ => return content
    | .opened child => throw (.unexpectedElement child.name)
    | .text _ => throw .unexpectedText
  | .closed _ => return []
  | .opened child => throw (.unexpectedElement child.name)

/-- Reads an element of text as a string. -/
def string : Decoder String := return String.ofList (← text)

/-- Whether a tag marks its element as having no value, in the scope at hand. -/
def isNil (tag : Tag) : Decoder Bool := return (← get).scope.isNil tag

/-- Reads a field of the record `tag`; it has no value if it or the record is marked so. -/
def optional {α : Type} (tag : Tag) (read : Decoder α) : Decoder (Option α) := do
  match ← peek with
  | .opened child =>
    if (← isNil tag) || (← isNil child) then
      let _ ← next
      skip child
      return none
    else return some (← read)
  | _ => return some (← read)

/-- Reads adjacent elements of one name, up to another element or the end of the one around them. The first
    argument bounds their number. -/
def listWithin {α : Type} (name : List Char) (read : Tag → Decoder α) : Nat → Decoder (List α)
  | 0 => throw .endOfText
  | bound + 1 => do
    match ← peek with
    | .closed _ => return []
    | .text _ => throw .unexpectedText
    | .opened child =>
      if child.name ≠ name then return []
      let _ ← next
      return (← read child) :: (← listWithin name read bound)

/-- Reads a row of elements that have the name of the next one. -/
def list {α : Type} (read : Tag → Decoder α) : Decoder (List α) := do
  match ← peek with
  | .opened first => listWithin first.name read (← bound)
  | _ => return []

/-- Takes in the fields of a record up to its end. A known field occurs once; `seen` are those that have been
    taken in. Gives the record and all fields seen. The first argument bounds the number of items. -/
def fieldsWithin {σ : Type} (field : String → Option (σ → Decoder σ)) :
    Nat → (seen : List String) → σ → Decoder (σ × List String)
  | 0, _, _ => throw .endOfText
  | bound + 1, seen, record => do
    match ← peek with
    | .closed _ =>
      let _ ← next
      return (record, seen)
    | .text _ =>
      let _ ← next
      fieldsWithin field bound seen record
    | .opened child =>
      let key := String.ofList (localName child.name)
      match field key with
      | some read =>
        if seen.contains key then throw (.repeatedElement child.name)
        fieldsWithin field bound (key :: seen) (← read record)
      | none =>
        let _ ← next
        skip child
        fieldsWithin field bound seen record

/-- Reads the record `tag` behind its start. Its attributes have to be well formed, and the `required` fields
    have to be there. -/
def record {σ : Type} (tag : Tag) (required : List String) (field : String → Option (σ → Decoder σ))
    (initial : σ) : Decoder σ := do
  let _ ← attributes tag.name tag.attributes
  let (record, seen) ← fieldsWithin field (← bound) [] initial
  match required.find? (!seen.contains ·) with
  | some key => throw (.missingElement key.toList)
  | none => return record

/-- Takes in all texts and elements of text up to the end of the element around them, each with its local name,
    or `textKey`. The first argument bounds their number. -/
def entriesWithin (textKey : String) : Nat → Decoder (List (String × String))
  | 0 => throw .endOfText
  | bound + 1 => do
    match ← peek with
    | .closed _ =>
      let _ ← next
      return []
    | .text content =>
      let _ ← next
      return (textKey, String.ofList content) :: (← entriesWithin textKey bound)
    | .opened child =>
      let value ← string
      return (String.ofList (localName child.name), value) :: (← entriesWithin textKey bound)

/-- Reads a value from an XML text. -/
def run {α : Type} (read : Decoder α) (text : List Char) : Except Fault α :=
  (StateT.run read (Cursor.ofRow (EventRow.ofText text))).map (·.1)

end Decoder
end UberJar.Xml
