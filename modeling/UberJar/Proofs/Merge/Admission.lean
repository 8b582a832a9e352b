import Mathlib.Data.List.Find
import UberJar.Proofs.Merge.History
import UberJar.Proofs.Merge.Jar
import UberJar.Proofs.Relocation.Entries

namespace UberJar

open Relocation

variable {relocator : Relocator} {policy : MergePolicy} {role : Role} {origin : String} {entry moved : Entry}
  {outcome : Outcome}

/-- A path under which a jar may have an entry. -/
structure MergePolicy.Admits (policy : MergePolicy) (path : String) : Prop where
  safe : EntryPath.isSafe path = true
  unmatched : ∀ pattern ∈ policy.filter.patterns, pattern.isMatch path = false

namespace Relocation.Relocator

/-- The outcome says whether the path of an entry moved. -/
theorem path_relocate {move : Bool} (hrelocate : relocator.relocate entry origin move = .ok (moved, outcome)) :
    (outcome.movesPath = false ∧ moved.path = entry.path) ∨
      (outcome.movesPath = true ∧
        ∃ path, relocator.movePath? entry.path.toList = some path ∧ moved.path = String.ofList path) := by
  rcases relocate_eq_ok hrelocate with ⟨-, rfl, rfl⟩ | ⟨newPath, newData, hnewPath, -, hpath, -, rfl⟩
  · exact .inl ⟨rfl, rfl⟩
  · cases newPath with
    | none =>
      refine .inl ⟨?_, hpath⟩
      split <;> rfl
    | some path =>
      simp only [movedPath?, Option.ite_none_right_eq_some, Option.map_eq_some_iff] at hnewPath
      obtain ⟨-, found, hfound, rfl⟩ := hnewPath
      exact .inr ⟨rfl, found, hfound, hpath⟩

end Relocation.Relocator

namespace Disposition

/-- The application's entries are relocated in place, those of dependencies may move. -/
theorem path_relocate_role (hrelocate : relocate relocator policy role entry origin = .ok (moved, outcome)) :
    (outcome.movesPath = false ∧ moved.path = entry.path) ∨
      (outcome.movesPath = true ∧
        ∃ path, relocator.movePath? entry.path.toList = some path ∧ moved.path = String.ofList path) := by
  unfold relocate at hrelocate
  cases role with
  | dependency => exact Relocator.path_relocate hrelocate
  | primary =>
    simp only at hrelocate
    split at hrelocate
    · exact Relocator.path_relocate hrelocate
    · obtain ⟨rfl, rfl⟩ := Prod.mk.inj (Except.ok.inj hrelocate)
      exact .inl ⟨rfl, rfl⟩

/-- No move makes an entry one that is never carried over. -/
theorem dropCause?_movePath? {path : String} {path' : List Char} (hmove : relocator.movePath? path.toList = some path')
    (hcarried : dropCause? role path = none) : dropCause? role (String.ofList path') = none := by
  cases role with
  | dependency => exact Relocator.dropCause?_moved hmove hcarried
  | primary =>
    rw [dropCause?_primary_eq_none_iff] at hcarried ⊢
    rw [String.toList_ofList]
    exact Relocator.isSafePath_moved hcarried hmove

theorem isSafe_of_dropCause?_eq_none {path : String} (hcarried : dropCause? role path = none) :
    EntryPath.isSafe path = true := by
  cases role with
  | primary => exact isSafe_iff.2 (dropCause?_primary_eq_none_iff.1 hcarried)
  | dependency => exact isSafe_iff.2 (dropCause?_eq_none_iff.1 hcarried).1

/-- What is contributed would be carried over under its final path too, and no pattern matches that path. -/
theorem admits_of_contributed (hentry : ofEntry relocator policy role origin entry = .ok (.contributed moved outcome)) :
    dropCause? role moved.path = none ∧ policy.Admits moved.path := by
  obtain ⟨hcarried, hmatch, -, hrelocate, hmoved⟩ := ofEntry_eq_contributed_iff.1 hentry
  have hfinal : dropCause? role moved.path = none ∧ policy.filter.matching? moved.path = none := by
    rcases path_relocate_role hrelocate with ⟨-, hpath⟩ | ⟨hmoves, path, hpath, hfinal⟩
    · rw [hpath]
      exact ⟨hcarried, hmatch⟩
    · exact ⟨hfinal ▸ dropCause?_movePath? hpath hcarried, hmoved hmoves⟩
  exact ⟨hfinal.1, isSafe_of_dropCause?_eq_none hfinal.1, EntryFilter.matching?_eq_none_iff.1 hfinal.2⟩

end Disposition

theorem Offer.admits_of_contribution? {o : Offer} {c : Contribution}
    (hc : o.contribution? relocator policy = some c) :
    Disposition.dropCause? o.role c.entry.path = none ∧ policy.Admits c.entry.path := by
  obtain ⟨outcome, ho⟩ := Offer.contribution?_eq_some hc
  exact Disposition.admits_of_contributed ho

/-- A dependency contributes no manifest, and no module descriptor. -/
theorem Offer.not_special_of_dependency {o : Offer} (hrole : o.role = .dependency) {c : Contribution}
    (hc : o.contribution? relocator policy = some c) :
    c.entry.path ≠ EntryPath.manifest ∧ EntryPath.isModuleDescriptor c.entry.path = false := by
  have hcarried := (admits_of_contribution? hc).1
  rw [hrole] at hcarried
  exact (dropCause?_eq_none_iff.1 hcarried).2

/-- Offers that contribute nothing at a path may be passed over. -/
theorem earliest?_filter {offers : List Offer} {path : String} {keep : Offer → Bool}
    (hother : ∀ o ∈ offers, keep o = false → ∀ c, o.contribution? relocator policy = some c → c.entry.path ≠ path) :
    earliest? (contributions relocator policy (offers.filter keep)) path =
      earliest? (contributions relocator policy offers) path := by
  simp only [earliest?, contributions, List.find?_filterMap, List.find?_filter]
  refine congrArg (Option.bind · _) (List.find?_congr fun o ho => ?_)
  cases hkeep : keep o with
  | true => simp
  | false =>
    cases hc : o.contribution? relocator policy with
    | none => simp
    | some c => simp [hother o ho hkeep c hc]

/-- What the application's archives brought in. -/
def ofApplication (row : List Taken) : List Offer := (row.map (·.offer)).filter (·.role == .primary)

namespace Staging

variable {s : Staging} {offers : List Offer}

/-- The manifest is made of the first that the application brings in. -/
theorem HasTaken.manifest_eq (htaken : HasTaken relocator policy offers s) :
    s.manifest = ⟨EntryPath.manifest, Manifest.build
      ((earliest? (contributions relocator policy (offers.filter (·.role == .primary))) EntryPath.manifest).map
        (·.entry.data)) policy.manifestAttributes⟩ := by
  have hother : ∀ o ∈ offers, (o.role == .primary) = false → ∀ c, o.contribution? relocator policy = some c →
      c.entry.path ≠ EntryPath.manifest := by
    intro o _ hrole c hc
    refine (Offer.not_special_of_dependency ?_ hc).1
    cases hwhich : o.role with
    | dependency => rfl
    | primary => simp [hwhich] at hrole
  have hmerges : s.policy.merges EntryPath.manifest = false := s.policy.merges_manifest
  rw [manifest, htaken.reflects.data_earliest? hmerges, earliest?_filter hother, htaken.policy_eq]

theorem HasTaken.admits_of_mem_others (htaken : HasTaken relocator policy offers s) {file : Entry}
    (hfile : file ∈ s.others) : policy.Admits file.path := by
  obtain ⟨-, origin, hstaged⟩ := mem_others_iff.1 hfile
  obtain ⟨c, hc, hpath⟩ := htaken.reflects.isSome_iff.1 (Option.isSome_of_eq_some hstaged)
  obtain ⟨o, -, hcontribution⟩ := List.mem_filterMap.1 hc
  exact hpath ▸ (Offer.admits_of_contribution? hcontribution).2

end Staging

/-- No unsafe or excluded entry comes to be in a jar, no manifest or module descriptor of a dependency is given a place,
    and the manifest is made of that of the application, whatever is added and whether it fails or not. -/
theorem addEach_admits (relocator : Relocator) (policy : MergePolicy) (additions : List Addition) :
    ∃ files, ((Staging.start relocator policy).addEach additions).finish.entries =
        ⟨EntryPath.manifest, Manifest.build ((earliest?
          (contributions relocator policy (ofApplication ((Staging.start relocator policy).history additions)))
          EntryPath.manifest).map (·.entry.data)) policy.manifestAttributes⟩ :: files ∧
      (∀ file ∈ files, policy.Admits file.path) ∧
      ∀ taken ∈ (Staging.start relocator policy).history additions, taken.offer.role = .dependency →
        ∀ c, taken.offer.contribution? relocator policy = some c →
          c.entry.path ≠ EntryPath.manifest ∧ EntryPath.isModuleDescriptor c.entry.path = false := by
  have htaken := ((Staging.start relocator policy).reaches_addEach additions).hasTaken
  refine ⟨Staging.others _, ?_, fun file => htaken.admits_of_mem_others, fun taken _ hrole c hc => ?_⟩
  · rw [Staging.finish_entries, htaken.manifest_eq]
    rfl
  · exact Offer.not_special_of_dependency hrole hc

/-- Of a dependency that fails at its last entry only `b/Y` comes to be in the jar: it also has a manifest, an unsafe
    entry, and one that moves to an excluded path. -/
theorem addEach_admits_moved :
    ∃ rule relocator filter additions, Rule.make "a".toList "b".toList = .ok rule ∧
      Relocator.ofRules [rule] = .ok relocator ∧ EntryFilter.parse ["b/Z"] = .ok filter ∧
      additions = [⟨.primary, ⟨"app", ⟨"app.jar"⟩, [⟨EntryPath.manifest, [7]⟩, ⟨"X", [1]⟩]⟩, none⟩,
        ⟨.dependency, ⟨"one", ⟨"one.jar"⟩, [⟨EntryPath.manifest, [8]⟩, ⟨"../a", [2]⟩, ⟨"a/Z", [3]⟩, ⟨"a/Y", [4]⟩,
          ⟨"X", [5]⟩]⟩, none⟩] ∧
      ((Staging.start relocator { filter }).addEach additions).finish.entries =
        [⟨EntryPath.manifest, [7]⟩, ⟨"X", [1]⟩, ⟨"b/Y", [4]⟩] ∧
      (earliest? (contributions relocator { filter }
        (ofApplication ((Staging.start relocator { filter }).history additions))) EntryPath.manifest).map
          (·.entry.data) = some [7] ∧
      MergePolicy.Admits { filter } "b/Y" ∧
      ∃ taken ∈ (Staging.start relocator { filter }).history additions, taken.offer.role = .dependency ∧
        ∃ c, taken.offer.contribution? relocator { filter } = some c ∧ c.entry.path = "b/Y" ∧
          c.entry.path ≠ EntryPath.manifest ∧ EntryPath.isModuleDescriptor c.entry.path = false := by
  let relocator : Relocator := ⟨[⟨['a'], ['b'], by decide, by decide, by decide⟩], by simp⟩
  let filter : EntryFilter := ⟨[⟨"b/Z", [.literal 'b', .literal '/', .literal 'Z']⟩]⟩
  let additions : List Addition :=
    [⟨.primary, ⟨"app", ⟨"app.jar"⟩, [⟨EntryPath.manifest, [7]⟩, ⟨"X", [1]⟩]⟩, none⟩, ⟨.dependency, ⟨"one", ⟨"one.jar"⟩,
      [⟨EntryPath.manifest, [8]⟩, ⟨"../a", [2]⟩, ⟨"a/Z", [3]⟩, ⟨"a/Y", [4]⟩, ⟨"X", [5]⟩]⟩, none⟩]
  obtain ⟨files, hentries, hadmits, hdependency⟩ := addEach_admits relocator { filter } additions
  have hjar : ((Staging.start relocator { filter }).addEach additions).finish.entries =
      [⟨EntryPath.manifest, [7]⟩, ⟨"X", [1]⟩, ⟨"b/Y", [4]⟩] := by decide +kernel
  have hmanifest : (earliest? (contributions relocator { filter }
      (ofApplication ((Staging.start relocator { filter }).history additions))) EntryPath.manifest).map (·.entry.data) =
        some [7] := by decide +kernel
  have hmoved : ∃ taken ∈ (Staging.start relocator { filter }).history additions, taken.offer.role = .dependency ∧
      (taken.offer.contribution? relocator { filter }).any (·.entry.path == "b/Y") = true := by decide +kernel
  refine ⟨_, relocator, filter, additions, by decide, rfl, by cbv, rfl, hjar, hmanifest, ?_, ?_⟩
  · rw [hjar] at hentries
    exact hadmits ⟨"b/Y", [4]⟩ ((List.cons.inj hentries).2 ▸ by simp)
  · obtain ⟨taken, htaken, hrole, hpath⟩ := hmoved
    obtain ⟨c, hc, hpath⟩ := (Option.any_eq_true _ _).1 hpath
    exact ⟨taken, htaken, hrole, c, hc, beq_iff_eq.1 hpath, hdependency taken htaken hrole c hc⟩

end UberJar
