import UberJar.Text.Split
import UberJar.Xml.Escape

namespace UberJar.Xml

/-- An attribute, its value as written. -/
structure Attribute where
  name : List Char
  rawValue : List Char
  deriving DecidableEq, Repr

/-- The attributes in a text, each `none` if it is malformed. Behind a name without a value, reading goes on with
    the next word; behind a value without quotes, and behind an attribute that repeats one of the names in
    `seen`, it goes on at the next blank. The first argument bounds the number of attributes. -/
def attributesWithin : (bound : Nat) → (seen : Option (List (List Char))) → List Char → List (Option Attribute)
  | 0, _, _ => []
  | bound + 1, seen, text =>
    match text.dropWhile isBlank with
    | [] => []
    | c :: rest =>
      let isName d := d != '=' && !isBlank d
      let name := c :: rest.takeWhile isName
      match (rest.dropWhile isName).dropWhile isBlank with
      | '=' :: value =>
        if (seen.getD []).contains name then none :: attributesWithin bound seen (value.dropWhile (!isBlank ·))
        else
          let seen := seen.map (name :: ·)
          match value.dropWhile isBlank with
          | [] => [none]
          | quote :: body =>
            if quote = '"' ∨ quote = '\'' then
              match Text.splitFirst? quote body with
              | some (rawValue, rest) => some ⟨name, rawValue⟩ :: attributesWithin bound seen rest
              | none => [none]
            else none :: attributesWithin bound seen (body.dropWhile (!isBlank ·))
      | rest => none :: attributesWithin bound seen rest

/-- The attributes up to the first malformed one. Names may repeat. -/
def leadingAttributes (text : List Char) : List Attribute :=
  ((attributesWithin (text.length + 1) none text).takeWhile Option.isSome).filterMap id

/-- The attributes that are not malformed; one that repeats a name is. -/
def distinctAttributes (text : List Char) : List Attribute :=
  (attributesWithin (text.length + 1) (some []) text).filterMap id

/-- All attributes, of which none may be malformed. -/
def attributes (element text : List Char) : Except Fault (List Attribute) :=
  match (attributesWithin (text.length + 1) (some []) text).mapM id with
  | some found => .ok found
  | none => .error (.malformedAttributes element)

/-- The part of a name behind its first colon, or the whole name. -/
def localName (name : List Char) : List Char :=
  match Text.splitFirst? ':' name with
  | some (_, rest) => rest
  | none => name

end UberJar.Xml
