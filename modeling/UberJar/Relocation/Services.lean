import UberJar.Relocation.Relocator
import UberJar.Text.Utf8

namespace UberJar.Relocation

/-- A line of a service file, cut into what a move keeps and the name of a provider. -/
structure ServiceLine where
  leading : List Char
  provider : List Char
  trailing : List Char
  comment : List Char
  deriving DecidableEq, Repr

namespace ServiceLine

/-- Cuts a line. -/
def ofLine (line : List Char) : ServiceLine :=
  let content := Text.before '#' line
  let body := Text.trimStart content
  let provider := Text.dropEndWhile Text.isBlank body
  { leading := content.takeWhile Text.isBlank
    provider
    trailing := body.drop provider.length
    comment := line.drop content.length }

/-- The text of a line. -/
def render (l : ServiceLine) : List Char := l.leading ++ l.provider ++ l.trailing ++ l.comment

end ServiceLine

namespace Relocator

/-- Moves the provider of a line; none if there is no provider or it stays. -/
def moveProvider? (relocator : Relocator) (line : List Char) : Option (List Char) :=
  let cut := ServiceLine.ofLine line
  if cut.provider.isEmpty then none
  else (relocator.moveName? cut.provider).map fun provider => { cut with provider }.render

/-- Moves the providers in a service file's text; none if all of them stay. -/
def moveProviders? (relocator : Relocator) (text : List Char) : Option (List Char) :=
  let lines := Text.linesWithEnds text
  let moved := lines.map relocator.moveProvider?
  if moved.any Option.isSome then
    some ((lines.zip moved).flatMap fun (line, new) => new.getD line)
  else none

/-- Moves the providers in a service file; none if all of them stay, or if it is no UTF-8 text. -/
def moveInServiceFile? (relocator : Relocator) (data : Bytes) : Option Bytes :=
  match Text.Utf8.decode? data with
  | some text => (relocator.moveProviders? text).map Text.Utf8.encode
  | none => none

end Relocator
end UberJar.Relocation
