import UberJar.Xml.Fault

namespace UberJar.Xml

/-- The blanks of XML. -/
def isBlank (c : Char) : Bool := c == ' ' || c == '\t' || c == '\r' || c == '\n'

/-- The value of a digit, in bases up to sixteen. -/
def digit? (base : Nat) (c : Char) : Option Nat :=
  let value :=
    if c.isDigit then c.toNat - 48
    else if 'a' ≤ c ∧ c ≤ 'f' then c.toNat - 87
    else if 'A' ≤ c ∧ c ≤ 'F' then c.toNat - 55
    else base
  if value < base then some value else none

/-- The value of a non-empty row of digits. -/
def number? (base : Nat) : List Char → Option Nat
  | [] => none
  | digits => digits.foldl (fun n c => do return (← n) * base + (← digit? base c)) (some 0)

/-- The scalar value with a number, if there is one; zero is no character of XML. -/
def scalar? (n : Nat) : Option Char := if n ≠ 0 ∧ n.isValidChar then some (Char.ofNat n) else none

/-- The characters that have names. -/
def namedCharacters : List (List Char × Char) :=
  [("lt".toList, '<'), ("gt".toList, '>'), ("amp".toList, '&'), ("apos".toList, '\''), ("quot".toList, '"')]

/-- The character that a reference names. -/
def resolve? (name : List Char) : Option Char :=
  match name with
  | '#' :: 'x' :: digits => (number? 16 digits).bind scalar?
  | '#' :: digits => (number? 10 digits).bind scalar?
  | _ => namedCharacters.lookup name

/-- Replaces references. The text so far and the name of an open reference are given last character first. -/
def unescapeOnto (out : List Char) (reference : Option (List Char)) : List Char → Except Fault (List Char)
  | [] => if reference.isNone then .ok out.reverse else .error .malformedReference
  | c :: rest =>
    match reference with
    | none => if c = '&' then unescapeOnto out (some []) rest else unescapeOnto (c :: out) none rest
    | some name =>
      if c = ';' then
        match resolve? name.reverse with
        | some named => unescapeOnto (named :: out) none rest
        | none => .error .malformedReference
      else if c = '&' then .error .malformedReference
      else unescapeOnto out (some (c :: name)) rest

/-- Replaces the character references in a text. -/
def unescape (raw : List Char) : Except Fault (List Char) := unescapeOnto [] none raw

end UberJar.Xml
