namespace UberJar.Toml

/-- The number that exactly `width` digits stand for. -/
def fixed? (width : Nat) (cs : List Char) : Option Nat :=
  if cs.length = width ∧ cs.all Char.isDigit then some (cs.foldl (fun n c => n * 10 + (c.toNat - 48)) 0) else none

/-- The days of a month. -/
def daysIn (year month : Nat) : Nat :=
  if month = 2 then if year % 4 = 0 ∧ (year % 100 ≠ 0 ∨ year % 400 = 0) then 29 else 28
  else if month = 4 ∨ month = 6 ∨ month = 9 ∨ month = 11 then 30
  else 31

/-- Whether a text is a date `YYYY-MM-DD`. -/
def isDate (cs : List Char) : Bool :=
  match cs.splitOn '-' with
  | [y, m, d] =>
    match fixed? 4 y, fixed? 2 m, fixed? 2 d with
    | some y, some m, some d => 1 ≤ m && m ≤ 12 && 1 ≤ d && d ≤ daysIn y m
    | _, _, _ => false
  | _ => false

/-- Whether two digits stand for a number below a limit. -/
def isBelow (limit : Nat) (cs : List Char) : Bool := ((fixed? 2 cs).map (decide <| · < limit)).getD false

/-- The normal form of the digits behind the point of a second. -/
def fractionText (digits : List Char) : List Char :=
  match ((digits.take 9).reverse.dropWhile (· == '0')).reverse with
  | [] => []
  | kept => '.' :: kept

/-- Reads the seconds of a time, with a fraction if wanted. A leap second is one more than the last. -/
def seconds? (cs : List Char) : Option (List Char) :=
  match cs.splitOn '.' with
  | [s] => if isBelow 61 s then some s else none
  | [s, fraction] =>
    if isBelow 61 s && !fraction.isEmpty && fraction.all Char.isDigit then some (s ++ fractionText fraction) else none
  | _ => none

/-- Reads a time `HH:MM`, with seconds if wanted. -/
def time? (cs : List Char) : Option (List Char) :=
  match cs.splitOn ':' with
  | [h, m] => if isBelow 24 h && isBelow 60 m then some (cs ++ ":00".toList) else none
  | [h, m, s] => if isBelow 24 h && isBelow 60 m then (seconds? s).map (h ++ ':' :: m ++ ':' :: ·) else none
  | _ => none

/-- Reads the distance from universal time: nothing, `Z`, or hours and minutes behind a sign. No distance is
    positive. -/
def offset? (cs : List Char) : Option (List Char) :=
  let distance? (cs : List Char) : Option (List Char) := if cs.length = 5 ∧ (time? cs).isSome then some cs else none
  match cs with
  | [] => some []
  | ['Z'] | ['z'] => some ['Z']
  | '+' :: rest => (distance? rest).map ('+' :: ·)
  | '-' :: rest => (distance? rest).map fun cs => (if cs = "00:00".toList then '+' else '-') :: cs
  | _ => none

/-- Reads a time and the distance from universal time behind it. -/
def zonedTime? (cs : List Char) : Option (List Char) := do
  let time := cs.takeWhile fun c => c.isDigit || c == ':' || c == '.'
  return (← time? time) ++ (← offset? (cs.drop time.length))

/-- Reads a date, a time, or both. -/
def dateOrTime? (cs : List Char) : Option (List Char) :=
  let date := cs.take 10
  if isDate date then
    match cs.drop 10 with
    | [] => some date
    | c :: time =>
      if c == 'T' || c == 't' || c == ' ' then (zonedTime? time).map (date ++ 'T' :: ·) else none
  else time? cs

end UberJar.Toml
