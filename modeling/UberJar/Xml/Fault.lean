namespace UberJar.Xml

/-- Why a text is no XML document, or an element no record of the wanted shape. -/
inductive Fault
  | unclosedMarkup
  | unknownMarkup
  | endOfText
  | mismatchedEnd (name : List Char)
  | malformedReference
  | malformedAttributes (element : List Char)
  | reservedNamespace (name : List Char)
  | unexpectedText
  | unexpectedElement (name : List Char)
  | missingElement (name : List Char)
  | repeatedElement (name : List Char)
  deriving DecidableEq, Repr

/-- The wording of a fault. -/
def Fault.message : Fault → String
  | unclosedMarkup => "markup is not closed"
  | unknownMarkup => "unknown markup"
  | endOfText => "the text ends before its root element"
  | mismatchedEnd name => "unexpected end of element '" ++ String.ofList name ++ "'"
  | malformedReference => "malformed or unknown character reference"
  | malformedAttributes element => "malformed attributes of element '" ++ String.ofList element ++ "'"
  | reservedNamespace name => "'" ++ String.ofList name ++ "' and its namespace are not free to be bound"
  | unexpectedText => "unexpected text"
  | unexpectedElement name => "unexpected element '" ++ String.ofList name ++ "'"
  | missingElement name => "missing element '" ++ String.ofList name ++ "'"
  | repeatedElement name => "repeated element '" ++ String.ofList name ++ "'"

end UberJar.Xml
