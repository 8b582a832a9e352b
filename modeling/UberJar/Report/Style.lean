import UberJar.Text.Split

namespace UberJar.Report

/-- A style of text. -/
inductive Style
  | bold
  | dimmed
  | green
  | cyan
  deriving DecidableEq, Repr

namespace Style

/-- The number of a style. -/
def code : Style → String
  | bold => "1"
  | dimmed => "2"
  | green => "32"
  | cyan => "36"

/-- The sequence that turns a style on. -/
def turnOn (s : Style) : List Char := '\x1b' :: '[' :: s.code.toList ++ ['m']

/-- The sequence that turns all styles off. -/
def turnOff : List Char := ['\x1b', '[', '0', 'm']

/-- Turns a style on again behind each place where a text turns it off. -/
def renewed (s : Style) : List Char → List Char
  | '\x1b' :: '[' :: '0' :: 'm' :: rest => turnOff ++ s.turnOn ++ renewed s rest
  | c :: rest => c :: renewed s rest
  | [] => []

/-- A text in a style, if styles are wanted. -/
def apply (s : Style) (isWanted : Bool) (text : String) : String :=
  if isWanted then String.ofList (s.turnOn ++ s.renewed text.toList ++ turnOff) else text

end Style
end UberJar.Report
