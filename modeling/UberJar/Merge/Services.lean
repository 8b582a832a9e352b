import UberJar.Text.Blank
import UberJar.Text.Split
import UberJar.Text.Utf8

namespace UberJar.Services

/-- The provider in a line: the text before a comment, without the blanks around it. -/
def provider (line : List Char) : List Char := Text.trim (Text.before '#' line)

/-- The providers that a service file names. -/
def providers (data : Bytes) : List (List Char) :=
  (((Text.Utf8.decodeLossy data).splitOn '\n').map provider).filter (!·.isEmpty)

/-- Adds a provider that is not yet among the others. The providers are given last first. -/
def addProvider (known : List (List Char)) (provider : List Char) : List (List Char) :=
  if known.contains provider then known else provider :: known

/-- The providers in the order in which they first occur. -/
def distinct (names : List (List Char)) : List (List Char) := (names.foldl addProvider []).reverse

/-- The service file that names the providers of both files. -/
def merge (existing incoming : Bytes) : Bytes :=
  Text.Utf8.encode (['\n'].intercalate (distinct (providers existing ++ providers incoming)) ++ ['\n'])

end UberJar.Services
