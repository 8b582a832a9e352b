import UberJar.Xml.Scope

namespace UberJar.Xml

/-- A part of a content: the start or the end of an element, or all text up to the next one. -/
inductive Item
  | opened (tag : Tag)
  | closed (name : List Char)
  | text (content : List Char)
  deriving DecidableEq, Repr

/-- A place among the events of a text. -/
structure Cursor where
  /-- The next event, without the blanks at its beginning if they do not count. -/
  ahead : Except Fault Event
  /-- The events behind it. -/
  rest : EventRow
  /-- The scope behind the next event. -/
  scope : Scope
  /-- Whether the blanks at the beginning of a text do not count: they do right behind other text. -/
  trims : Bool
  /-- The item that has been looked at but not taken. -/
  held : Option Item := none
  /-- The number of events of the whole text, which bounds every walk over them. -/
  total : Nat

namespace Cursor

/-- Whether an event is text. -/
def isText : Except Fault Event → Bool
  | .ok (.text _) | .ok (.verbatim _) => true
  | _ => false

/-- The cursor moved on to the first of the events given that is no empty text. -/
def moveTo (c : Cursor) : List Event → Cursor
  | [] => { c with ahead := .error c.rest.ending, rest := { c.rest with events := [] } }
  | event :: events =>
    let rest := { c.rest with events }
    match c.scope.after event with
    | .error fault => { c with ahead := .error fault, rest }
    | .ok scope =>
      let event := match event with
        | .text raw => .text (if c.trims then raw.dropWhile isBlank else raw)
        | event => event
      if event = .text [] ∧ c.trims then moveTo { c with scope } events
      else { c with ahead := .ok event, rest, scope, trims := !isText (.ok event) }

/-- A cursor before the first event. -/
def ofRow (row : EventRow) : Cursor :=
  moveTo { ahead := .error row.ending, rest := row, scope := {}, trims := true, total := row.events.length } row.events

/-- Passes the next event. -/
def advance (c : Cursor) : Cursor := c.moveTo c.rest.events

/-- Appends the text of the next events to a text. The first argument bounds their number. -/
def gatherWithin : Nat → (content : List Char) → Cursor → Except Fault (List Char × Cursor)
  | 0, content, c => .ok (content, c)
  | bound + 1, content, c =>
    match c.ahead with
    | .ok (.verbatim more) => gatherWithin bound (content ++ more) c.advance
    | .ok (.text raw) => do
      let c := c.advance
      let raw := if isText c.ahead then raw else (raw.reverse.dropWhile isBlank).reverse
      gatherWithin bound (content ++ (← unescape raw)) c
    | _ => .ok (content, c)

/-- Takes the next item off the events. A text of nothing but blanks is none, unless it goes on. The first
    argument bounds the number of events without an item. -/
def takeWithin : Nat → Cursor → Except Fault (Item × Cursor)
  | 0, c => .error c.rest.ending
  | bound + 1, c => do
    let next := c.advance
    match ← c.ahead with
    | .opened tag => return (.opened tag, next)
    | .closed name => return (.closed name, next)
    | .documentType => takeWithin bound next
    | .text raw =>
      if !isText next.ahead && raw.all isBlank then takeWithin bound next
      else return (← gatherWithin (c.total + 1) [] c).map .text id
    | .verbatim _ => return (← gatherWithin (c.total + 1) [] c).map .text id

/-- Takes the next item. -/
def take (c : Cursor) : Except Fault (Item × Cursor) :=
  match c.held with
  | some item => .ok (item, { c with held := none })
  | none => takeWithin (c.total + 1) c

/-- The events behind the end of an element, in which so many elements of its name are open. -/
def pastEnd (ending : Fault) (name : List Char) : (depth : Nat) → List Event → Except Fault (List Event)
  | _, [] => .error ending
  | depth, .opened tag :: events => pastEnd ending name (if tag.name = name then depth + 1 else depth) events
  | 0, .closed ended :: events => if ended = name then .ok events else pastEnd ending name 0 events
  | depth + 1, .closed ended :: events => pastEnd ending name (if ended = name then depth else depth + 1) events
  | depth, _ :: events => pastEnd ending name depth events

/-- Passes the end of an element, which is not the next event. -/
def passRest (name : List Char) (c : Cursor) : Except Fault Cursor := do
  let events ← pastEnd c.rest.ending name 0 c.rest.events
  return { c with rest := { c.rest with events } }

/-- Passes the end of an element whose items have all been taken up to the next event. -/
def passEnd (name : List Char) (c : Cursor) : Except Fault Cursor := do
  let c ← match ← c.ahead with
    | .closed ended => if ended = name then pure c else c.passRest name
    | .opened tag => if tag.name = name then (← c.passRest name).passRest name else c.passRest name
    | _ => c.passRest name
  return c.advance

end Cursor
end UberJar.Xml
