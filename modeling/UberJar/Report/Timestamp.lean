import UberJar.Text.Blank

namespace UberJar

/-- A point in time: the seconds since 1970 and the nanoseconds after them. In a leap second the seconds are
    those of the second before it, and the nanoseconds go on beyond a whole second. -/
structure Timestamp where
  seconds : Int
  nanos : Nat
  deriving DecidableEq, Repr, Inhabited

namespace Timestamp

/-- The nanoseconds of a second. -/
def nanosPerSecond : Nat := 1000000000

/-- The days from 1970-01-01 to a date, with years that begin in March. -/
def daysOfDate (year : Int) (month day : Nat) : Int :=
  let y := if month ≤ 2 then year - 1 else year
  let era := y.fdiv 400
  let yearOfEra := y - era * 400
  let dayOfYear : Int := ((153 * ((month + 9) % 12) + 2) / 5 + day : Nat) - 1
  era * 146097 + (yearOfEra * 365 + yearOfEra.fdiv 4 - yearOfEra.fdiv 100 + dayOfYear) - 719468

/-- The year, month and day that are a number of days from 1970-01-01. -/
def dateOfDays (days : Int) : Int × Nat × Nat :=
  let z := days + 719468
  let era := z.fdiv 146097
  let dayOfEra := (z - era * 146097).toNat
  let yearOfEra := (dayOfEra - dayOfEra / 1460 + dayOfEra / 36524 - dayOfEra / 146096) / 365
  let dayOfYear := dayOfEra - (365 * yearOfEra + yearOfEra / 4 - yearOfEra / 100)
  let m := (5 * dayOfYear + 2) / 153
  let month := if m < 10 then m + 3 else m - 9
  let year : Int := yearOfEra + era * 400
  (if month ≤ 2 then year + 1 else year, month, dayOfYear - (153 * m + 2) / 5 + 1)

/-- The days of a month. -/
def daysIn (year : Int) (month : Nat) : Nat :=
  if month = 2 then if year % 4 = 0 ∧ (year % 100 ≠ 0 ∨ year % 400 = 0) then 29 else 28
  else if month = 4 ∨ month = 6 ∨ month = 9 ∨ month = 11 then 30
  else 31

/-- At least `width` decimal digits. -/
def padded (width n : Nat) : List Char :=
  let digits := Nat.toDigits 10 n
  List.replicate (width - digits.length) '0' ++ digits

/-- A year: four digits, or a sign and at least four if it has no four. -/
def yearText (year : Int) : List Char :=
  if 0 ≤ year ∧ year ≤ 9999 then padded 4 year.toNat
  else (if year < 0 then '-' else '+') :: padded 4 year.natAbs

/-- The fraction of a second: none, or as many groups of three digits as it needs. -/
def fractionText (nanos : Nat) : List Char :=
  if nanos = 0 then []
  else if nanos % 1000000 = 0 then '.' :: padded 3 (nanos / 1000000)
  else if nanos % 1000 = 0 then '.' :: padded 6 (nanos / 1000)
  else '.' :: padded 9 nanos

/-- The date and the time of day in universal time, with `zone` behind them. -/
def render (t : Timestamp) (zone : String) : String :=
  let (year, month, day) := dateOfDays (t.seconds.fdiv 86400)
  let second := (t.seconds.fmod 86400).toNat
  String.ofList (yearText year ++ '-' :: padded 2 month ++ '-' :: padded 2 day ++ 'T' ::
    padded 2 (second / 3600) ++ ':' :: padded 2 (second / 60 % 60) ++ ':' ::
    padded 2 (second % 60 + t.nanos / nanosPerSecond) ++ fractionText (t.nanos % nanosPerSecond)) ++ zone

/-- Reads one to `most` digits, and drops the blanks before them. -/
def number? (most : Nat) (cs : List Char) : Option (Nat × List Char) :=
  let cs := Text.trimStart cs
  let digits := (cs.take most).takeWhile Char.isDigit
  if digits.isEmpty then none
  else some (digits.foldl (fun n c => n * 10 + (c.toNat - 48)) 0, cs.drop digits.length)

/-- Reads a year: up to four digits, or a sign and digits. -/
def year? (cs : List Char) : Option (Int × List Char) :=
  match Text.trimStart cs with
  | '-' :: rest => if (rest.head?.map Char.isDigit) = some true then
      (number? rest.length rest).map fun (n, rest) => (-(n : Int), rest) else none
  | '+' :: rest => if (rest.head?.map Char.isDigit) = some true then
      (number? rest.length rest).map fun (n, rest) => ((n : Int), rest) else none
  | cs => (number? 4 cs).map fun (n, rest) => ((n : Int), rest)

/-- Drops blanks and a separator. -/
def expect? (separator : Char) (cs : List Char) : Option (List Char) :=
  match Text.trimStart cs with
  | c :: rest => if c = separator then some rest else none
  | [] => none

/-- Reads the fraction of a second, in nanoseconds; digits beyond these are dropped. -/
def fraction? : List Char → Option (Nat × List Char)
  | '.' :: rest =>
    let digits := rest.takeWhile Char.isDigit
    let kept := digits.take 9
    if digits.isEmpty then none
    else
      some (kept.foldl (fun n c => n * 10 + (c.toNat - 48)) 0 * Nat.pow 10 (9 - kept.length), rest.drop digits.length)
  | cs => some (0, cs)

/-- Reads two digits. -/
def twoDigits? : List Char → Option (Nat × List Char)
  | a :: b :: rest => if a.isDigit && b.isDigit then some ((a.toNat - 48) * 10 + (b.toNat - 48), rest) else none
  | _ => none

/-- Reads the distance from universal time, in seconds. -/
def offset? (cs : List Char) : Option (Int × List Char) :=
  let signed (sign : Int) (cs : List Char) : Option (Int × List Char) := do
    let (hours, rest) ← twoDigits? cs
    let (minutes, rest) ← twoDigits? (rest.dropWhile fun c => c == ':' || Text.isBlank c)
    if minutes < 60 then some (sign * ((hours * 3600 + minutes * 60 : Nat) : Int), rest) else none
  match cs with
  | 'Z' :: rest | 'z' :: rest => some (0, rest)
  | '+' :: rest => signed 1 rest
  | '-' :: rest | '−' :: rest => signed (-1) rest
  | a :: b :: c :: rest => if [a, b, c].map Char.toUpper = ['U', 'T', 'C'] then some (0, rest) else none
  | _ => none

/-- The first year of the calendar. -/
def firstYear : Int := -262143

/-- The last year of the calendar. -/
def lastYear : Int := 262142

/-- Whether a number of seconds from 1970 lies on a day of the calendar. -/
def isOnCalendar (seconds : Int) : Bool :=
  let year := (dateOfDays (seconds.fdiv 86400)).1
  firstYear ≤ year && year ≤ lastYear

/-- Reads a date, a time of day and a distance from universal time. Both the date and the day on which it
    falls in universal time must be on the calendar. -/
def parse? (text : String) : Option Timestamp := do
  let (year, cs) ← year? text.toList
  let (month, cs) ← number? 2 (← expect? '-' cs)
  let (day, cs) ← number? 2 (← expect? '-' cs)
  let cs ← match cs with
    | c :: rest => if c = 'T' ∨ c = 't' ∨ c = ' ' then some rest else none
    | [] => none
  let (hour, cs) ← number? 2 cs
  let (minute, cs) ← number? 2 (← expect? ':' cs)
  let (second, cs) ← number? 2 (← expect? ':' cs)
  let (fraction, cs) ← fraction? cs
  let (offset, cs) ← offset? (Text.trimStart cs)
  guard (Text.trimStart cs).isEmpty
  guard (firstYear ≤ year ∧ year ≤ lastYear ∧ 1 ≤ month ∧ month ≤ 12 ∧ 1 ≤ day ∧ day ≤ daysIn year month)
  guard (hour < 24 ∧ minute < 60 ∧ second ≤ 60 ∧ offset.natAbs < 86400)
  let isLeap := second = 60
  let time : Nat := hour * 3600 + minute * 60 + (if isLeap then 59 else second)
  let seconds := daysOfDate year month day * 86400 + time - offset
  guard (isOnCalendar seconds)
  return {
    seconds
    nanos := fraction + if isLeap then nanosPerSecond else 0 }

end Timestamp
end UberJar
