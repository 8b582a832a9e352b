import UberJar.Error
import UberJar.Text.Blank
import UberJar.Text.Split

namespace UberJar

/-- A file in a Maven repository: a module at a version, one of its files, and that file's extension. -/
structure Coordinate where
  group : String
  artifact : String
  version : String
  classifier : Option String := none
  extension : String := "jar"
  deriving DecidableEq, Repr, Inhabited

namespace Coordinate

/-- Separates the extension behind the last `@`, if there is one, from the body of a coordinate. -/
def splitExtension (text : List Char) : List Char × Option (List Char) :=
  match Text.splitLast? '@' text with
  | some (body, extension) => (body, some extension)
  | none => (text, none)

/-- Reads `group:artifact:version[:classifier][@extension]`. Blanks around the whole text are dropped, and
    a component may not be blank. -/
def parse (value : String) : Except ConfigError Coordinate :=
  let text := Text.trim value.toList
  let refuse fault := .error (.invalidCoordinate (String.ofList text) fault)
  let (body, extension) := splitExtension text
  if extension = some [] then refuse .emptyExtension
  else
    let components := body.splitOn ':'
    if components.any fun component => (Text.trim component).isEmpty then refuse .emptyComponent
    else
      let extension := String.ofList (extension.getD "jar".toList)
      match components.map String.ofList with
      | [group, artifact, version] => .ok { group, artifact, version, extension }
      | [group, artifact, version, classifier] =>
        .ok { group, artifact, version, classifier := some classifier, extension }
      | _ => refuse .wrongShape

/-- The text form. The extension `jar` is left out. -/
def render (c : Coordinate) : String :=
  let classifier := match c.classifier with
    | some classifier => ":" ++ classifier
    | none => ""
  let extension := if c.extension = "jar" then "" else "@" ++ c.extension
  c.group ++ ":" ++ c.artifact ++ ":" ++ c.version ++ classifier ++ extension

instance : ToString Coordinate := ⟨render⟩

/-- `group:artifact`, which tells modules apart. -/
def moduleId (c : Coordinate) : String := c.group ++ ":" ++ c.artifact

/-- The name of the file in its directory. -/
def fileName (c : Coordinate) : String :=
  let classifier := match c.classifier with
    | some classifier => "-" ++ classifier
    | none => ""
  c.artifact ++ "-" ++ c.version ++ classifier ++ "." ++ c.extension

/-- The group as a directory. -/
def groupPath (c : Coordinate) : String := String.ofList (Text.replaceChar '.' '/' c.group.toList)

/-- The place of the file in a repository. -/
def repositoryPath (c : Coordinate) : String :=
  c.groupPath ++ "/" ++ c.artifact ++ "/" ++ c.version ++ "/" ++ c.fileName

/-- The POM that describes the module at this version. -/
def pom (c : Coordinate) : Coordinate := { c with classifier := none, extension := "pom" }

/-- The same file of the module at another version. -/
def atVersion (c : Coordinate) (version : String) : Coordinate := { c with version }

/-- Whether the file is a POM. -/
def isPom (c : Coordinate) : Bool := c.extension == "pom"

end Coordinate
end UberJar
