import UberJar.Toml.DateTime
import UberJar.Toml.Value

namespace UberJar.Toml

/-- Digits, in which single underscores may stand between digits. -/
def digits? (isDigit : Char → Bool) (cs : List Char) : Option (List Char) :=
  let groups := cs.splitOn '_'
  if groups.all fun g => !g.isEmpty && g.all isDigit then some groups.flatten else none

/-- The number that digits stand for. -/
def ofDigits (base : Nat) (digits : List Char) : Nat :=
  digits.foldl (fun n c => n * base + (if c.isDigit then c.toNat - 48 else c.toLower.toNat - 87)) 0

/-- Separates a sign from what follows. -/
def splitSign : List Char → Option Char × List Char
  | '+' :: rest => (some '+', rest)
  | '-' :: rest => (some '-', rest)
  | cs => (none, cs)

/-- Decimal digits without a leading zero. -/
def decimal? (cs : List Char) : Option Nat := do
  let digits ← digits? Char.isDigit cs
  if digits.head? = some '0' ∧ digits.length > 1 then none else some (ofDigits 10 digits)

/-- Reads an integer of any size: decimal with an optional sign, or hexadecimal, octal or binary without. -/
def integer? (cs : List Char) : Option Int :=
  let isHex c := c.isDigit || ('a' ≤ c && c ≤ 'f') || ('A' ≤ c && c ≤ 'F')
  match cs with
  | '0' :: 'x' :: rest => (digits? isHex rest).map fun ds => (ofDigits 16 ds : Int)
  | '0' :: 'o' :: rest => (digits? (fun c => '0' ≤ c && c ≤ '7') rest).map fun ds => (ofDigits 8 ds : Int)
  | '0' :: 'b' :: rest => (digits? (fun c => c == '0' || c == '1') rest).map fun ds => (ofDigits 2 ds : Int)
  | _ =>
    match splitSign cs with
    | (some '-', rest) => (decimal? rest).map fun n => -(n : Int)
    | (_, rest) => (decimal? rest).map fun n => (n : Int)

/-- Reads the exponent of a float, with the mark before it. -/
def exponent? (cs : List Char) : Option Int :=
  let (sign, digits) := splitSign cs.tail
  (digits? Char.isDigit digits).map fun ds => if sign = some '-' then -(ofDigits 10 ds : Int) else ofDigits 10 ds

/-- Whether the number with a row of digits before the point, the first of them not zero, times a power of ten
    is closer to a number of 64 bits than to infinity. Only one of 309 digits has to be compared. -/
def isFinite (digits : List Char) (exponent : Int) : Bool :=
  let width := digits.length + exponent
  if width < 309 then true
  else if width > 309 then false
  else
    let limit := Nat.pow 2 1024 - Nat.pow 2 970
    if 0 ≤ exponent then ofDigits 10 digits * Nat.pow 10 exponent.toNat < limit
    else ofDigits 10 digits < limit * Nat.pow 10 (-exponent).toNat

/-- Reads a float: a decimal number with a fraction, an exponent or both, or one of the special values. The
    result says whether it is in range. -/
def float? (cs : List Char) : Option Bool :=
  let body := (splitSign cs).2
  if body == "inf".toList || body == "nan".toList then some true
  else do
    let isMark c := c == 'e' || c == 'E'
    let mantissa := body.takeWhile (!isMark ·)
    let marked := body.drop mantissa.length
    let exponent ← if marked.isEmpty then some 0 else exponent? marked
    let (whole, fraction) ← match mantissa.splitOn '.' with
      | [whole] => if marked.isEmpty then none else some (whole, [])
      | [whole, fraction] => (digits? Char.isDigit fraction).map (whole, ·)
      | _ => none
    guard (decimal? whole).isSome
    let digits := (whole.filter Char.isDigit ++ fraction).dropWhile (· == '0')
    return digits.isEmpty || isFinite digits (exponent - fraction.length)

/-- Reads a value that is not quoted. -/
def scalar? (cs : List Char) : Option Value :=
  if cs = "true".toList then some (.boolean true)
  else if cs = "false".toList then some (.boolean false)
  else
    match integer? cs with
    | some n => some (.integer n)
    | none =>
      match float? cs with
      | some inRange => some (.float inRange)
      | none => (dateOrTime? cs).map fun text => .date (String.ofList text)

end UberJar.Toml
