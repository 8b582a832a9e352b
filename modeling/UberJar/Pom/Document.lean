import UberJar.Declaration
import UberJar.Xml.Record

namespace UberJar.Pom

/-- A dependency as written. -/
structure Dependency where
  group : String
  artifact : String
  version : Option String := none
  scope : Option String := none
  optional : Option String := none
  type : Option String := none
  classifier : Option String := none
  exclusions : Option (List ModulePattern) := none
  deriving DecidableEq, Repr, Inhabited

/-- The POM that a document inherits from. -/
structure Parent where
  group : String
  artifact : String
  version : String
  deriving DecidableEq, Repr

/-- A POM document. Values are as written; a property that is written twice occurs twice. -/
structure Document where
  group : Option String := none
  artifact : Option String := none
  version : Option String := none
  packaging : Option String := none
  parent : Option Parent := none
  properties : Option (List (String × String)) := none
  managed : Option (List Dependency) := none
  dependencies : Option (List Dependency) := none
  deriving DecidableEq, Repr, Inhabited

open Xml (Decoder Tag)

/-- Reads an exclusion. -/
def readExclusion (tag : Tag) : Decoder ModulePattern :=
  Decoder.record tag ["groupId"] (fun
    | "groupId" => some fun e => return { e with group := ← Decoder.string }
    | "artifactId" => some fun e => return { e with module := ← Decoder.optional tag Decoder.string }
    | _ => none) { group := "", module := none }

/-- Reads a list that has an element of its own. -/
def readList {α : Type} (item : String) (read : Tag → Decoder α) : Decoder (List α) := do
  Decoder.record (← Decoder.opening) [] (fun key => if key = item then some fun _ => Decoder.list read else none) []

namespace Dependency

/-- Reads a dependency. -/
def read (tag : Tag) : Decoder Dependency :=
  let text := Decoder.optional tag Decoder.string
  Decoder.record tag ["groupId", "artifactId"] (fun
    | "groupId" => some fun d => return { d with group := ← Decoder.string }
    | "artifactId" => some fun d => return { d with artifact := ← Decoder.string }
    | "version" => some fun d => return { d with version := ← text }
    | "scope" => some fun d => return { d with scope := ← text }
    | "optional" => some fun d => return { d with optional := ← text }
    | "type" => some fun d => return { d with type := ← text }
    | "classifier" => some fun d => return { d with classifier := ← text }
    | "exclusions" => some fun d => do
      return { d with exclusions := ← Decoder.optional tag (readList "exclusion" readExclusion) }
    | _ => none) { group := "", artifact := "" }

/-- Reads a list of dependencies. -/
def readAll : Decoder (List Dependency) := readList "dependency" read

end Dependency

/-- Reads a reference to a parent. -/
def Parent.read : Decoder Parent := do
  Decoder.record (← Decoder.opening) ["groupId", "artifactId", "version"] (fun
    | "groupId" => some fun p => return { p with group := ← Decoder.string }
    | "artifactId" => some fun p => return { p with artifact := ← Decoder.string }
    | "version" => some fun p => return { p with version := ← Decoder.string }
    | _ => none) { group := "", artifact := "", version := "" }

/-- The property that an attribute of the element of properties stands for: an `@` stands before its name. -/
def attributeProperty (a : Xml.Attribute) : Except Xml.Fault (String × String) := do
  let name := if "xmlns:".toList.isPrefixOf a.name then a.name else Xml.localName a.name
  return (String.ofList ('@' :: name), String.ofList (← Xml.unescape a.rawValue))

/-- Reads properties. Text among them is the property `$text`. -/
def readProperties : Decoder (List (String × String)) := do
  let tag ← Decoder.opening
  let attributes ← (← Xml.attributes tag.name tag.attributes).mapM fun a => attributeProperty a
  return attributes ++ (← Decoder.entriesWithin "$text" (← Decoder.bound))

/-- Reads managed dependencies. -/
def readManaged : Decoder (Option (List Dependency)) := do
  let tag ← Decoder.opening
  Decoder.record tag [] (fun
    | "dependencies" => some fun _ => Decoder.optional tag Dependency.readAll
    | _ => none) none

namespace Document

/-- Reads a document from its root element, whatever its name. -/
def read : Decoder Document := do
  let tag ← Decoder.opening
  let text := Decoder.optional tag Decoder.string
  Decoder.record tag [] (fun
    | "groupId" => some fun d => return { d with group := ← text }
    | "artifactId" => some fun d => return { d with artifact := ← text }
    | "version" => some fun d => return { d with version := ← text }
    | "packaging" => some fun d => return { d with packaging := ← text }
    | "parent" => some fun d => return { d with parent := ← Decoder.optional tag Parent.read }
    | "properties" => some fun d => return { d with properties := ← Decoder.optional tag readProperties }
    | "dependencyManagement" => some fun d => do
      return { d with managed := (← Decoder.optional tag readManaged).join }
    | "dependencies" => some fun d => do
      return { d with dependencies := ← Decoder.optional tag Dependency.readAll }
    | _ => none) {}

/-- Reads the POM that is named `origin` in errors. What stands behind its root element is not read. -/
def parse (xml : List Char) (origin : String) : Except ResolveError Document :=
  match Decoder.run read xml with
  | .ok document => .ok document
  | .error fault => .error (.malformedPom origin fault.message)

/-- The POM of the parent. -/
def parentPom? (d : Document) : Option Coordinate :=
  d.parent.map fun p => ({ group := p.group, artifact := p.artifact, version := p.version } : Coordinate).pom

end Document
end UberJar.Pom
