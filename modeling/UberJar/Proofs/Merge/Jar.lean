import Mathlib.Data.List.Nodup
import UberJar.Proofs.Merge.Archive

namespace UberJar.Staging

variable {s s' : Staging} {entry : Entry}

/-- The entries of the jar behind the manifest. -/
def others (s : Staging) : List Entry :=
  (s.staged.erase EntryPath.manifest).toList.map fun staged => ⟨staged.1, staged.2.data⟩

/-- The manifest of the jar. -/
def manifest (s : Staging) : Entry :=
  ⟨EntryPath.manifest, Manifest.build ((s.staged[EntryPath.manifest]?).map (·.data)) s.policy.manifestAttributes⟩

theorem finish_entries (s : Staging) : s.finish.entries = s.manifest :: s.others := rfl

theorem mem_others_iff : entry ∈ s.others ↔ entry.path ≠ EntryPath.manifest ∧ s.Holds entry := by
  have hlookup {path : String} {staged : StagedEntry} :
      (path, staged) ∈ (s.staged.erase EntryPath.manifest).toList ↔
        path ≠ EntryPath.manifest ∧ s.staged[path]? = some staged := by
    rw [Std.TreeMap.mem_toList_iff_getElem?_eq_some, Std.TreeMap.getElem?_erase]
    by_cases hpath : EntryPath.manifest = path
    · simp [hpath]
    · simp [hpath, Ne.symm hpath]
  simp only [others, List.mem_map, Prod.exists, hlookup]
  constructor
  · rintro ⟨path, staged, ⟨hpath, hstaged⟩, rfl⟩
    exact ⟨hpath, staged.origin, hstaged⟩
  · rintro ⟨hpath, origin, hstaged⟩
    exact ⟨entry.path, ⟨entry.data, origin⟩, ⟨hpath, hstaged⟩, rfl⟩

theorem pairwise_others (s : Staging) : s.others.Pairwise fun a b => compare a.path b.path = .lt :=
  List.pairwise_map.2 Std.TreeMap.ordered_keys_toList

/-- The order of the paths leaves only one list for given members. -/
theorem eq_of_pairwise_lt {α : Type} {path : α → String} {l l' : List α}
    (hl : l.Pairwise fun a b => compare (path a) (path b) = .lt)
    (hl' : l'.Pairwise fun a b => compare (path a) (path b) = .lt) (hsame : ∀ a, a ∈ l ↔ a ∈ l') : l = l' := by
  have hne {a b : α} (hlt : compare (path a) (path b) = .lt) : a ≠ b := by
    rintro rfl
    simp at hlt
  have hperm : l.Perm l' := (List.perm_ext_iff_of_nodup (hl.imp hne) (hl'.imp hne)).2 hsame
  refine hperm.eq_of_pairwise (fun a b _ _ hab hba => ?_) hl hl'
  exact absurd hba (Std.OrientedCmp.not_lt_of_lt hab)

theorem others_eq (hsame : ∀ entry, entry.path ≠ EntryPath.manifest → (s.Holds entry ↔ s'.Holds entry)) :
    s.others = s'.others := by
  refine eq_of_pairwise_lt s.pairwise_others s'.pairwise_others fun entry => ?_
  rw [mem_others_iff, mem_others_iff]
  exact and_congr_right (hsame entry)

/-- Jars with entries at the same paths have them in the same order. -/
theorem map_path_others_eq (hsame : ∀ path : String, (s.staged[path]?).isSome = (s'.staged[path]?).isSome) :
    s.others.map (·.path) = s'.others.map (·.path) := by
  have hpairwise (s : Staging) : (s.others.map (·.path)).Pairwise fun a b => compare (id a) (id b) = .lt :=
    List.pairwise_map.2 s.pairwise_others
  have hmem (s : Staging) (path : String) :
      path ∈ s.others.map (·.path) ↔ path ≠ EntryPath.manifest ∧ (s.staged[path]?).isSome = true := by
    simp only [List.mem_map, mem_others_iff, Holds, Option.isSome_iff_exists]
    constructor
    · rintro ⟨entry, ⟨hpath, origin, hstaged⟩, rfl⟩
      exact ⟨hpath, _, hstaged⟩
    · rintro ⟨hpath, staged, hstaged⟩
      exact ⟨⟨path, staged.data⟩, ⟨hpath, staged.origin, hstaged⟩, rfl⟩
  refine eq_of_pairwise_lt (hpairwise s) (hpairwise s') fun path => ?_
  rw [hmem, hmem, hsame]

/-- All staged entries are in the jar, behind the manifest unless they are the manifest. -/
theorem length_others (s : Staging) :
    s.others.length + (if s.staged.contains EntryPath.manifest then 1 else 0) = s.staged.size := by
  rw [others, List.length_map, Std.TreeMap.length_toList, Std.TreeMap.size_erase]
  split
  · rename_i hmanifest
    have hempty := Std.TreeMap.isEmpty_eq_false_of_contains hmanifest
    rw [Std.TreeMap.isEmpty_eq_size_eq_zero, beq_eq_false_iff_ne] at hempty
    omega
  · rfl

end UberJar.Staging
