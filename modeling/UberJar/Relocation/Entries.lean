import UberJar.ClassFile.Basic
import UberJar.Merge.Outcome
import UberJar.Relocation.References
import UberJar.Relocation.Services

namespace UberJar.Relocation.Relocator

/-- Moves the references in a class; none if there are none. -/
def moveInClass? (relocator : Relocator) (data : Bytes) : Except ClassFile.FormatError (Option Bytes) := do
  let renamed ← (← ClassFile.parse data).replaceTexts relocator.moveReferences?
  return renamed.map ClassFile.encode

/-- The bytes of an entry with its references moved; none if they stay. Entries other than classes and service
    files have no references. -/
def movedData? (relocator : Relocator) (entry : Entry) : Except ClassFile.FormatError (Option Bytes) :=
  if EntryPath.isClass entry.path then relocator.moveInClass? entry.data
  else if EntryPath.isServiceFile entry.path then .ok (relocator.moveInServiceFile? entry.data)
  else .ok none

/-- The new path of an entry; none if it stays. Without `move` only service files move, whose names are
    references. -/
def movedPath? (relocator : Relocator) (path : String) (move : Bool) : Option String :=
  if move || EntryPath.isServiceFile path then (relocator.movePath? path.toList).map String.ofList
  else none

/-- Relocates an entry of the archive `origin`. -/
def relocate (relocator : Relocator) (entry : Entry) (origin : String) (move : Bool) :
    Except ArchiveError (Entry × Outcome) :=
  if relocator.isEmpty then .ok (entry, .kept)
  else
    match relocator.movedData? entry with
    | .error e => .error (.malformedClass entry.path origin e)
    | .ok newData =>
      let newPath := relocator.movedPath? entry.path move
      let outcome := if newPath.isSome || newData.isSome then .relocated newPath.isSome newData.isSome else .kept
      .ok (⟨newPath.getD entry.path, newData.getD entry.data⟩, outcome)

end UberJar.Relocation.Relocator
