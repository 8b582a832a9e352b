import UberJar.Text.Split
import UberJar.Xml.Escape

namespace UberJar.Xml

/-- What a start tag says. -/
structure Tag where
  name : List Char
  /-- The attributes as written. -/
  attributes : List Char
  deriving DecidableEq, Repr

/-- A piece of an XML text. -/
inductive Event
  | opened (tag : Tag)
  | closed (name : List Char)
  /-- Text as written, with its references. -/
  | text (raw : List Char)
  /-- Text of a `CDATA` section. -/
  | verbatim (content : List Char)
  | documentType
  deriving DecidableEq, Repr

/-- Events in their order, and why there are no more of them. -/
structure EventRow where
  events : List Event
  ending : Fault
  deriving DecidableEq, Repr

/-- What is being read. Bodies are given last character first and do not hold the opening `<`. -/
inductive Mode
  | text (body : List Char)
  /-- Behind `<`. -/
  | markup
  | tag (body : List Char) (quote : Option Char)
  | instruction (body : List Char)
  /-- Behind `<!`. -/
  | declaration
  | comment (body : List Char)
  | verbatim (body : List Char)
  | documentType (body : List Char) (depth : Nat)

/-- The state of the reader: the mode, the names of the open elements, innermost first, and the events so far,
    latest first. -/
structure Reader where
  mode : Mode := .text []
  opened : List (List Char) := []
  events : List Event := []

namespace Reader

/-- Goes on in another mode. -/
def go (r : Reader) (mode : Mode) : Reader := { r with mode }

/-- Adds an event, and goes on behind it. -/
def add (r : Reader) (event : Event) : Reader := { r with mode := .text [], events := event :: r.events }

/-- Takes in a start tag. -/
def startTag (r : Reader) (body : List Char) : Reader :=
  let (body, isEmpty) := match body.getLast? with
    | some '/' => (body.dropLast, true)
    | _ => (body, false)
  let isName c := !isBlank c
  let name := body.takeWhile isName
  let r := r.add (.opened ⟨name, body.dropWhile isName⟩)
  if isEmpty then r.add (.closed name) else { r with opened := name :: r.opened }

/-- Takes in an end tag. Blanks may stand behind its name. -/
def endTag (r : Reader) (body : List Char) : Except Fault Reader :=
  let name := if body.all isBlank then body else (body.reverse.dropWhile isBlank).reverse
  match r.opened with
  | innermost :: opened =>
    if name = innermost then .ok { r.add (.closed name) with opened } else .error (.mismatchedEnd name)
  | [] => .error (.mismatchedEnd name)

/-- Takes in a tag. -/
def closeTag (r : Reader) (body : List Char) : Except Fault Reader :=
  match body with
  | '/' :: name => r.endTag name
  | _ => .ok (r.startTag body)

/-- Whether a declaration names a document type. -/
def isDocumentType (body : List Char) : Bool :=
  ((body.take 8).map Char.toUpper == "!DOCTYPE".toList) && (body.drop 8).any fun c => !isBlank c

/-- Takes in one character. -/
def step (r : Reader) (c : Char) : Except Fault Reader :=
  match r.mode with
  | .text body =>
    if c ≠ '<' then .ok (r.go (.text (c :: body)))
    else if body.isEmpty then .ok (r.go .markup)
    else .ok ((r.add (.text body.reverse)).go .markup)
  | .markup =>
    if c = '!' then .ok (r.go .declaration)
    else if c = '?' then .ok (r.go (.instruction ['?']))
    else if c = '>' then r.closeTag []
    else .ok (r.go (.tag [c] (if c = '"' ∨ c = '\'' then some c else none)))
  | .tag body none =>
    if c = '>' then r.closeTag body.reverse
    else .ok (r.go (.tag (c :: body) (if c = '"' ∨ c = '\'' then some c else none)))
  | .tag body (some quote) => .ok (r.go (.tag (c :: body) (if c = quote then none else some quote)))
  | .instruction body =>
    if c = '>' ∧ body.head? = some '?' then
      if body.length > 1 then .ok (r.go (.text [])) else .error .unclosedMarkup
    else .ok (r.go (.instruction (c :: body)))
  | .declaration =>
    if c = '-' then .ok (r.go (.comment ['-', '!']))
    else if c = '[' then .ok (r.go (.verbatim ['[', '!']))
    else if c = 'D' ∨ c = 'd' then .ok (r.go (.documentType [c, '!'] 0))
    else .error .unknownMarkup
  | .comment body =>
    if c = '>' ∧ body.length > 4 ∧ ['-', '-'].isPrefixOf body then
      if "!--".toList.isPrefixOf body.reverse then .ok (r.go (.text [])) else .error .unknownMarkup
    else .ok (r.go (.comment (c :: body)))
  | .verbatim body =>
    if c = '>' ∧ [']', ']'].isPrefixOf body then
      match Text.dropPrefix? "![CDATA[".toList (body.drop 2).reverse with
      | some content => .ok (r.add (.verbatim content))
      | none => .error .unknownMarkup
    else .ok (r.go (.verbatim (c :: body)))
  | .documentType body depth =>
    if c = '<' then .ok (r.go (.documentType (c :: body) (depth + 1)))
    else if c ≠ '>' then .ok (r.go (.documentType (c :: body) depth))
    else if depth > 0 then .ok (r.go (.documentType (c :: body) (depth - 1)))
    else if isDocumentType body.reverse then .ok (r.add .documentType)
    else .error .unknownMarkup

/-- The events so far, in their order. -/
def finish (r : Reader) (ending : Fault) : EventRow := ⟨r.events.reverse, ending⟩

/-- Reads on to the end of the text, or to the first fault. -/
def run (r : Reader) : List Char → EventRow
  | [] =>
    match r.mode with
    | .text [] => r.finish .endOfText
    | .text body => (r.add (.text body.reverse)).finish .endOfText
    | _ => r.finish .unclosedMarkup
  | c :: rest =>
    match r.step c with
    | .ok r => run r rest
    | .error fault => r.finish fault

end Reader

/-- The events of an XML text. A byte order mark may stand before it. -/
def EventRow.ofText (text : List Char) : EventRow :=
  Reader.run {} (match text with
    | '\uFEFF' :: rest => rest
    | _ => text)

end UberJar.Xml
