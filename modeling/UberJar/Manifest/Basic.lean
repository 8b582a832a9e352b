import UberJar.Manifest.Line
import UberJar.Text.Blank
import UberJar.Text.Utf8

namespace UberJar

/-- A main attribute. -/
structure Attribute where
  name : List Char
  value : List Char
  deriving DecidableEq, Repr

/-- A manifest. A section is kept as its lines. -/
structure Manifest where
  main : List Attribute
  sections : List (List (List Char))
  deriving DecidableEq, Repr

namespace Attribute

/-- Whether an attribute has a name, up to the case of ASCII letters. -/
def isNamed (a : Attribute) (name : List Char) : Bool := a.name.map Char.toLower == name.map Char.toLower

/-- Reads a line `name: value`. -/
def ofLine? (line : List Char) : Option Attribute :=
  (Text.splitFirst? ':' line).map fun (name, value) => ⟨Text.trim name, Text.trimStart value⟩

/-- The lines of an attribute. -/
def render (a : Attribute) : List Char := Manifest.renderLine (a.name ++ ':' :: ' ' :: a.value)

/-- The version of the manifest format. -/
def version : Attribute := ⟨"Manifest-Version".toList, "1.0".toList⟩

/-- The program that wrote a manifest. -/
def creator : Attribute := ⟨"Created-By".toList, "jarshade 0.4.2".toList⟩

end Attribute

namespace Manifest

/-- The manifest of a jar that has none of its own. -/
def default : Manifest := ⟨[.version, .creator], []⟩

/-- Reads a manifest. Lines of the main block that are no attributes are left out. -/
def parse (data : Bytes) : Manifest :=
  match blocks (Text.Utf8.decodeLossy data) with
  | [] => ⟨[], []⟩
  | main :: sections => ⟨main.filterMap Attribute.ofLine?, sections⟩

/-- The value of a main attribute. -/
def get? (m : Manifest) (name : List Char) : Option (List Char) :=
  (m.main.find? (·.isNamed name)).map (·.value)

/-- Sets the value of the first attribute of a name, or adds the attribute behind the others. -/
def setIn (item : Attribute) : List Attribute → List Attribute
  | [] => [item]
  | first :: rest =>
    if first.isNamed item.name then ⟨first.name, item.value⟩ :: rest
    else first :: setIn item rest

/-- Sets a main attribute, in place if there is one of that name. -/
def set (m : Manifest) (item : Attribute) : Manifest := { m with main := setIn item m.main }

/-- The main attributes as they are written: a version comes first if there is none. -/
def written (m : Manifest) : List Attribute :=
  if (m.get? Attribute.version.name).isNone then .version :: m.main else m.main

/-- The text of a manifest. An empty line ends each block. -/
def render (m : Manifest) : List Char :=
  let block (attributes : List Attribute) := attributes.flatMap Attribute.render ++ ['\r', '\n']
  block m.written ++ m.sections.flatMap fun lines => block (lines.filterMap Attribute.ofLine?)

/-- The bytes of a manifest. -/
def toBytes (m : Manifest) : Bytes := Text.Utf8.encode m.render

/-- The manifest of the merged jar, from the one of the application and the configured attributes. With no
    attributes to set, an existing manifest stays as it is. -/
def build (existing : Option Bytes) (attributes : List Attribute) : Bytes :=
  match existing with
  | none => (attributes.foldl Manifest.set default).toBytes
  | some data => if attributes.isEmpty then data else (attributes.foldl Manifest.set (parse data)).toBytes

end Manifest
end UberJar
