import UberJar.Files.Path
import UberJar.Merge.Outcome

namespace UberJar

/-- The outcome of one archive. -/
structure Summary where
  label : String
  path : Path
  isPrimary : Bool
  /-- The declaration that asked for the archive, unless it names the archive itself. -/
  requestedBy : Option String := none
  kept : Nat := 0
  relocated : Nat := 0
  excluded : Nat := 0
  duplicates : Nat := 0
  servicesMerged : Nat := 0
  dropped : Nat := 0
  deriving DecidableEq, Repr, Inhabited

namespace Summary

/-- Counts an outcome. -/
def record (s : Summary) : Outcome → Summary
  | .kept => { s with kept := s.kept + 1 }
  | .relocated _ _ => { s with relocated := s.relocated + 1 }
  | .excluded _ => { s with excluded := s.excluded + 1 }
  | .duplicate => { s with duplicates := s.duplicates + 1 }
  | .serviceMerged => { s with servicesMerged := s.servicesMerged + 1 }
  | .dropped _ => { s with dropped := s.dropped + 1 }

/-- The number of entries that were counted. -/
def total (s : Summary) : Nat :=
  s.kept + s.relocated + s.excluded + s.duplicates + s.servicesMerged + s.dropped

end Summary
end UberJar
