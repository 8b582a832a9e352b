import UberJar.Bytes
import UberJar.Files.Path
import UberJar.Text.Split

namespace UberJar

/-- A file in an archive. -/
structure Entry where
  path : String
  data : Bytes
  deriving DecidableEq, Repr, Inhabited

namespace EntryPath

/-- The place of a jar's manifest. -/
def manifest : String := "META-INF/MANIFEST.MF"

/-- The directory of service files. -/
def services : List Char := "META-INF/services/".toList

/-- The directory of classes for certain releases. -/
def versions : List Char := "META-INF/versions/".toList

/-- Whether a path names a compiled class. -/
def isClass (path : String) : Bool := ".class".toList.isSuffixOf path.toList

/-- The name of a service file, if a path names one. -/
def service? (path : List Char) : Option (List Char) :=
  match Text.dropPrefix? services path with
  | some name => if name = [] ∨ '/' ∈ name then none else some name
  | none => none

/-- Whether a path names a service file. -/
def isServiceFile (path : String) : Bool := (service? path.toList).isSome

/-- Whether a path lies in the directory of classes for certain releases. -/
def isVersioned (path : String) : Bool := versions.isPrefixOf path.toList

/-- Whether a path names a module descriptor, for all releases or for certain ones. -/
def isModuleDescriptor (path : String) : Bool :=
  path == "module-info.class" || (isVersioned path && "/module-info.class".toList.isSuffixOf path.toList)

/-- Whether a path is relative and stays below the place where the archive is unpacked. -/
def isSafe (path : String) : Bool :=
  let chars := path.toList
  !chars.isEmpty && chars.head? != some '/' && !chars.contains '\\' && !(chars.splitOn '/').contains ['.', '.']

/-- Cuts the directory of one release off a path: `META-INF/versions/N/` and the rest. -/
def splitVersion? (path : List Char) : Option (List Char × List Char) :=
  match Text.dropPrefix? versions path with
  | none => none
  | some rest =>
    match Text.splitFirst? '/' rest with
    | none => none
    | some (version, rest) =>
      if version ≠ [] ∧ version.all Char.isDigit then some (versions ++ version ++ ['/'], rest) else none

end EntryPath

/-- The entries of one archive, and the name and path it goes by in reports. -/
structure Archive where
  label : String
  path : Path
  entries : List Entry
  deriving Inhabited

/-- The entry at a path. -/
def Archive.get? (a : Archive) (path : String) : Option Entry := a.entries.find? (·.path == path)

end UberJar
