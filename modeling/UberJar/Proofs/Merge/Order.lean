import UberJar.Proofs.Merge.Additions
import UberJar.Proofs.Merge.Jar

namespace UberJar

open Relocation

variable {relocator : Relocator} {policy : MergePolicy}

/-- Files that are the same unless files are merged at their path, and that name the same providers. -/
def SameFile (policy : MergePolicy) (path : String) (data data' : Bytes) : Prop :=
  (policy.merges path = false → data = data') ∧
    ∀ name, name ∈ Services.providers data ↔ name ∈ Services.providers data'

/-- Jars with the same tallies and the same files, in the same order. -/
structure MergedJar.Agrees (policy : MergePolicy) (jar jar' : MergedJar) : Prop where
  tallies : jar.tallies = jar'.tallies
  paths : jar.entries.map (·.path) = jar'.entries.map (·.path)
  files : ∀ entry ∈ jar.entries, ∀ entry' ∈ jar'.entries, entry.path = entry'.path →
    SameFile policy entry.path entry.data entry'.data

namespace Staging

variable {s s' : Staging} {row row' : List Contribution} {offers offers' : List Offer}
  {tallies : Std.TreeMap String Nat compare} {pattern pattern' : String}

theorem getElem?_countExclusion :
    (countExclusion tallies pattern)[pattern']? =
      if pattern = pattern' then some (tallies.getD pattern' 0 + 1) else tallies[pattern']? := by
  rw [countExclusion, getElem?_insert]
  by_cases hpattern : pattern = pattern'
  · rw [if_pos hpattern, if_pos hpattern, hpattern]
  · rw [if_neg hpattern, if_neg hpattern]

theorem getElem?_foldl_countExclusion (patterns : List String) :
    (patterns.foldl countExclusion tallies)[pattern]? =
      if patterns.count pattern = 0 then tallies[pattern]?
      else some (tallies.getD pattern 0 + patterns.count pattern) := by
  induction patterns generalizing tallies with
  | nil => rfl
  | cons first patterns ih =>
    simp only [List.foldl_cons, ih, Std.TreeMap.getD_eq_getD_getElem?, getElem?_countExclusion]
    by_cases hpattern : first = pattern
    · rw [if_pos hpattern, hpattern, List.count_cons_self, if_neg (Nat.succ_ne_zero _), Option.getD_some]
      by_cases hnone : patterns.count pattern = 0
      · rw [if_pos hnone, hnone]
      · rw [if_neg hnone, Nat.add_assoc, Nat.add_comm 1]
    · rw [if_neg hpattern, List.count_cons_of_ne hpattern]

theorem toList_foldl_countExclusion {patterns patterns' : List String} (hperm : patterns.Perm patterns') :
    (patterns.foldl countExclusion tallies).toList = (patterns'.foldl countExclusion tallies).toList := by
  refine Std.TreeMap.Equiv.toList_eq (Std.TreeMap.Equiv.of_forall_constGet?_eq fun pattern => ?_)
  rw [getElem?_foldl_countExclusion, getElem?_foldl_countExclusion, hperm.count_eq]

namespace Reflects

variable (hreflects : s.Reflects row) (hreflects' : s'.Reflects row') (hperm : row.Perm row')
include hreflects hreflects' hperm

theorem isSome_eq (path : String) : (s.staged[path]?).isSome = (s'.staged[path]?).isSome := by
  rw [Bool.eq_iff_iff, hreflects.isSome_iff, hreflects'.isSome_iff]
  simp only [hperm.mem_iff]

/-- The order of the contributions leaves only one file at a path, up to the lines of merged files. -/
theorem sameFile (hpolicy : s.policy = s'.policy) {path : String} {staged staged' : StagedEntry}
    (hstaged : s.staged[path]? = some staged) (hstaged' : s'.staged[path]? = some staged') :
    SameFile s.policy path staged.data staged'.data := by
  constructor
  · intro hmerges
    obtain ⟨c, hc, rfl⟩ := hreflects.isSome_iff.1 (Option.isSome_of_eq_some hstaged)
    obtain ⟨origin, hheld⟩ := hreflects.data c hc hmerges
    obtain ⟨origin', hheld'⟩ := hreflects'.data c (hperm.mem_iff.1 hc) (hpolicy ▸ hmerges)
    rw [hstaged, Option.some.injEq] at hheld
    rw [hstaged', Option.some.injEq] at hheld'
    rw [hheld, hheld']
  · intro name
    rw [hreflects.providers path staged hstaged, hreflects'.providers path staged' hstaged']
    simp only [hperm.mem_iff]

end Reflects

/-- Merges that took in the same entries, in whichever order, come to jars that agree. -/
theorem HasTaken.finish_agrees (htaken : HasTaken relocator policy offers s)
    (htaken' : HasTaken relocator policy offers' s') (hperm : offers.Perm offers') :
    s.finish.Agrees policy s'.finish := by
  have hrow : (contributions relocator policy offers).Perm (contributions relocator policy offers') := hperm.filterMap _
  have hpolicy : s.policy = s'.policy := htaken.policy_eq.trans htaken'.policy_eq.symm
  have hsome := htaken.reflects.isSome_eq htaken'.reflects hrow
  have hfile {path : String} {staged staged' : StagedEntry} (hstaged : s.staged[path]? = some staged)
      (hstaged' : s'.staged[path]? = some staged') : SameFile policy path staged.data staged'.data := by
    rw [← htaken.policy_eq]
    exact htaken.reflects.sameFile htaken'.reflects hrow hpolicy hstaged hstaged'
  -- The manifest is built from the one that is staged, and a manifest is never merged.
  have hmanifest : s.manifest = s'.manifest := by
    have hdata : (s.staged[EntryPath.manifest]?).map (·.data) = (s'.staged[EntryPath.manifest]?).map (·.data) := by
      have hsame := hsome EntryPath.manifest
      cases hstaged : s.staged[EntryPath.manifest]? with
      | none =>
        rw [hstaged, Option.isSome_none, eq_comm, Option.isSome_eq_false_iff, Option.isNone_iff_eq_none] at hsame
        rw [hsame]
      | some staged =>
        rw [hstaged, Option.isSome_some, eq_comm, Option.isSome_iff_exists] at hsame
        obtain ⟨staged', hstaged'⟩ := hsame
        rw [hstaged', Option.map_some, Option.map_some, (hfile hstaged hstaged').1 policy.merges_manifest]
    rw [manifest, manifest, hdata, hpolicy]
  refine ⟨?_, ?_, ?_⟩
  · change s.tallies.toList = s'.tallies.toList
    rw [htaken.tallies, htaken'.tallies]
    exact toList_foldl_countExclusion (hperm.filterMap _)
  · rw [finish_entries, finish_entries, List.map_cons, List.map_cons, hmanifest, map_path_others_eq hsome]
  · intro entry hentry entry' hentry' hpath
    rw [finish_entries, List.mem_cons] at hentry hentry'
    rcases hentry with rfl | hentry <;> rcases hentry' with rfl | hentry'
    · rw [hmanifest]
      exact ⟨fun _ => rfl, fun _ => Iff.rfl⟩
    · exact absurd hpath.symm (mem_others_iff.1 hentry').1
    · exact absurd hpath (mem_others_iff.1 hentry).1
    · obtain ⟨origin, hstaged⟩ := (mem_others_iff.1 hentry).2
      obtain ⟨origin', hstaged'⟩ := (mem_others_iff.1 hentry').2
      exact hfile hstaged (hpath ▸ hstaged')

end Staging

/-- An application, and the dependencies that are added to it, each with the declaration that asked for it. -/
def additionsOf (application : Archive) (dependencies : List (Archive × Option String)) : List Addition :=
  ⟨.primary, application, none⟩ :: dependencies.map fun dependency => ⟨.dependency, dependency.1, dependency.2⟩

/-- The jar of an application and its dependencies. -/
def mergeAll (relocator : Relocator) (policy : MergePolicy) (application : Archive)
    (dependencies : List (Archive × Option String)) : Except Failure MergedJar :=
  ((Staging.start relocator policy).addAll (additionsOf application dependencies)).map Staging.finish

variable {application : Archive} {dependencies dependencies' : List (Archive × Option String)}

theorem offers_additionsOf : (additionsOf application dependencies).flatMap Addition.offers =
    application.offers .primary ++ (dependencies.map Prod.fst).flatMap (·.offers .dependency) := by
  rw [additionsOf, List.flatMap_cons, List.flatMap_map, List.flatMap_map]
  rfl

/-- With the dependencies in another order, a merge fails as well, or comes to a jar that agrees. -/
theorem mergeAll_perm (hperm : (dependencies.map Prod.fst).Perm (dependencies'.map Prod.fst)) :
    (∃ jar jar', mergeAll relocator policy application dependencies = .ok jar ∧
      mergeAll relocator policy application dependencies' = .ok jar' ∧ jar.Agrees policy jar') ∨
    ∃ failure failure', mergeAll relocator policy application dependencies = .error failure ∧
      mergeAll relocator policy application dependencies' = .error failure' := by
  have hoffers : ((additionsOf application dependencies).flatMap Addition.offers).Perm
      ((additionsOf application dependencies').flatMap Addition.offers) := by
    rw [offers_additionsOf, offers_additionsOf]
    exact (hperm.flatMap_right _).append_left _
  have hfails :
      (∃ failure, (Staging.start relocator policy).addAll (additionsOf application dependencies) = .error failure) ↔
        ∃ failure,
          (Staging.start relocator policy).addAll (additionsOf application dependencies') = .error failure := by
    rw [Staging.addAll_fails_iff, Staging.addAll_fails_iff]
    -- What makes a merge fail is said by membership alone.
    simp only [hoffers.mem_iff, (hoffers.filterMap (·.contribution? relocator policy)).mem_iff, contributions]
  unfold mergeAll
  cases hall : (Staging.start relocator policy).addAll (additionsOf application dependencies) with
  | error failure =>
    obtain ⟨failure', hall'⟩ := hfails.1 ⟨failure, hall⟩
    rw [hall']
    exact .inr ⟨failure, failure', rfl, rfl⟩
  | ok s =>
    cases hall' : (Staging.start relocator policy).addAll (additionsOf application dependencies') with
    | error failure' =>
      obtain ⟨failure, herror⟩ := hfails.2 ⟨failure', hall'⟩
      rw [hall] at herror
      cases herror
    | ok s' =>
      have hagrees := (Staging.hasTaken_of_addAll hall).finish_agrees (Staging.hasTaken_of_addAll hall') hoffers
      exact .inl ⟨_, _, rfl, rfl, hagrees⟩

/-- Two dependencies that name a provider each: their order is that of the lines, and nothing else. -/
theorem mergeAll_swap_providers :
    ∃ relocator jar jar', Relocator.ofRules [] = .ok relocator ∧
      mergeAll relocator { mergeServiceFiles := true } ⟨"app", ⟨"app.jar"⟩, []⟩
        [(⟨"one", ⟨"one.jar"⟩, [⟨"META-INF/services/s", [112, 10]⟩]⟩, none),
          (⟨"two", ⟨"two.jar"⟩, [⟨"META-INF/services/s", [113, 10]⟩]⟩, none)] = .ok jar ∧
      mergeAll relocator { mergeServiceFiles := true } ⟨"app", ⟨"app.jar"⟩, []⟩
        [(⟨"two", ⟨"two.jar"⟩, [⟨"META-INF/services/s", [113, 10]⟩]⟩, none),
          (⟨"one", ⟨"one.jar"⟩, [⟨"META-INF/services/s", [112, 10]⟩]⟩, none)] = .ok jar' ∧
      jar.Agrees { mergeServiceFiles := true } jar' ∧
      ⟨"META-INF/services/s", [112, 10, 113, 10]⟩ ∈ jar.entries ∧
      ⟨"META-INF/services/s", [113, 10, 112, 10]⟩ ∈ jar'.entries := by
  let relocator : Relocator := ⟨[], by simp⟩
  let one : Archive := ⟨"one", ⟨"one.jar"⟩, [⟨"META-INF/services/s", [112, 10]⟩]⟩
  let two : Archive := ⟨"two", ⟨"two.jar"⟩, [⟨"META-INF/services/s", [113, 10]⟩]⟩
  let dependencies : List (Archive × Option String) := [(one, none), (two, none)]
  let dependencies' : List (Archive × Option String) := [(two, none), (one, none)]
  have hperm : (dependencies.map Prod.fst).Perm (dependencies'.map Prod.fst) := .swap two one []
  have hmerged : (mergeAll relocator { mergeServiceFiles := true } ⟨"app", ⟨"app.jar"⟩, []⟩ dependencies).toOption.any
      (⟨"META-INF/services/s", [112, 10, 113, 10]⟩ ∈ ·.entries) = true := by decide +kernel
  have hmerged' : (mergeAll relocator { mergeServiceFiles := true } ⟨"app", ⟨"app.jar"⟩, []⟩ dependencies').toOption.any
      (⟨"META-INF/services/s", [113, 10, 112, 10]⟩ ∈ ·.entries) = true := by decide +kernel
  rcases mergeAll_perm hperm with ⟨jar, jar', hjar, hjar', hagrees⟩ | ⟨failure, failure', hfailed, -⟩
  · rw [hjar] at hmerged
    rw [hjar'] at hmerged'
    exact ⟨relocator, jar, jar', rfl, hjar, hjar', hagrees, of_decide_eq_true hmerged, of_decide_eq_true hmerged'⟩
  · rw [hfailed] at hmerged
    cases hmerged

end UberJar
