import UberJar.EntryFilter
import UberJar.Manifest.Basic
import UberJar.Relocation.Entries

namespace UberJar

/-- What to do with the entries of the archives. -/
structure MergePolicy where
  filter : EntryFilter := {}
  mergeServiceFiles : Bool := false
  /-- Whether references in the application's own classes are moved too. -/
  relocatePrimary : Bool := false
  /-- The latest release for which classes of dependencies may be compiled. -/
  targetRelease : Option UInt16 := none
  manifestAttributes : List Attribute := []
  deriving Inhabited

/-- The part of an archive in the jar: the application itself, or a dependency of it. -/
inductive Role
  | primary
  | dependency
  deriving DecidableEq, Repr

/-- What an entry comes to. -/
inductive Disposition
  | dropped (reason : DropCause)
  | excluded (pattern : String)
  /-- A place in the jar, with the outcome if no other entry has that place. -/
  | contributed (entry : Entry) (outcome : Outcome)
  deriving Repr

namespace Disposition

/-- Why an entry is never carried over, if it is not. -/
def dropCause? (role : Role) (path : String) : Option DropCause :=
  if !EntryPath.isSafe path then some .unsafePath
  else if role = .primary then none
  else if path = EntryPath.manifest then some .dependencyManifest
  else if EntryPath.isModuleDescriptor path then some .moduleDescriptor
  else none

/-- Refuses a class that is newer than the target release. Classes for certain releases may be newer. -/
def requireRelease (policy : MergePolicy) (entry : Entry) (origin : String) : Except Failure Unit :=
  match policy.targetRelease with
  | none => .ok ()
  | some release =>
    if !EntryPath.isClass entry.path || EntryPath.isVersioned entry.path then .ok ()
    else
      match ClassFile.majorVersion entry.data with
      | .error e => .error (.archive (.malformedClass entry.path origin e))
      | .ok major =>
        match ClassFile.versionOf? release with
        | none => .error .overflow
        | some newest =>
          if major > newest then .error (.archive (.unsupportedClassVersion entry.path origin major release))
          else .ok ()

/-- Relocates an entry as far as its archive's part in the jar admits: the application's entries keep their
    places. -/
def relocate (relocator : Relocation.Relocator) (policy : MergePolicy) (role : Role) (entry : Entry)
    (origin : String) : Except ArchiveError (Entry × Outcome) :=
  match role with
  | .dependency => relocator.relocate entry origin true
  | .primary => if policy.relocatePrimary then relocator.relocate entry origin false else .ok (entry, .kept)

/-- What an entry of the archive `origin` comes to. -/
def ofEntry (relocator : Relocation.Relocator) (policy : MergePolicy) (role : Role) (origin : String)
    (entry : Entry) : Except Failure Disposition :=
  match dropCause? role entry.path with
  | some reason => .ok (dropped reason)
  | none =>
    match policy.filter.matching? entry.path with
    | some pattern => .ok (excluded pattern)
    | none => do
      if role = .dependency then requireRelease policy entry origin
      let (moved, outcome) ← (relocate relocator policy role entry origin).mapError .archive
      match outcome with
      | .relocated true _ =>
        match policy.filter.matching? moved.path with
        | some pattern => return excluded pattern
        | none => return contributed moved outcome
      | _ => return contributed moved outcome

end Disposition
end UberJar
