import UberJar.Proofs.Pom.Requirements
import UberJar.Proofs.Table

namespace UberJar.Pom

/-- A version that is managed for a module. -/
structure Managed where
  group : String
  artifact : String
  version : String
  deriving DecidableEq

/-- The module of a managed version as written. -/
def Managed.moduleId (m : Managed) : String := m.group ++ ":" ++ m.artifact

/-- The managed versions of a document. -/
def Document.managedVersions (d : Document) : List Managed :=
  (d.managed.getD []).filterMap fun m =>
    if m.scope = some "import" then none else m.version.map (⟨m.group, m.artifact, ·⟩)

/-- The managed versions of a chain, those of the child last. -/
def managedVersions (chain : List Document) : List Managed := chain.reverse.flatMap Document.managedVersions

/-- A requirement of a module in a version. -/
def Requirement.IsFor (r : Requirement) (group artifact version : String) : Prop :=
  r.coordinate.group = group ∧ r.coordinate.artifact = artifact ∧ r.coordinate.version = version

/-- A managed version whose module resolves to that of a dependency. -/
def Managed.ResolvesTo (e : Effective) (m : Managed) (d : Dependency) : Prop :=
  e.interpolate m.group = e.interpolate d.group ∧ e.interpolate m.artifact = e.interpolate d.artifact

instance (e : Effective) (m : Managed) (d : Dependency) : Decidable (m.ResolvesTo e d) :=
  inferInstanceAs (Decidable (_ ∧ _))

namespace Effective

variable {e : Effective} {d : Dependency} {m : Managed} {version key : String} {chain : List Document}
  {before after : List Dependency}

theorem extendManaged_eq (table : Table) (d : Document) :
    extendManaged table d = d.managedVersions.foldl (fun t m => t.insert m.moduleId m.version) table := by
  rw [extendManaged, Document.managedVersions, List.foldl_filterMap]
  refine congrArg (List.foldl · table _) (funext fun t => funext fun m => ?_)
  cases m.version with
  | none => simp
  | some version => by_cases himport : m.scope = some "import" <;> simp [himport, Managed.moduleId]

theorem managed_ofChain (chain : List Document) :
    (ofChain chain).managed = (managedVersions chain).foldl (fun t m => t.insert m.moduleId m.version) ∅ := by
  have hfold (documents : List Document) (e : Effective) : (documents.foldl extend e).managed =
      (documents.flatMap Document.managedVersions).foldl (fun t m => t.insert m.moduleId m.version) e.managed := by
    induction documents generalizing e with
    | nil => rfl
    | cons document documents ih =>
      rw [List.foldl_cons, ih, List.flatMap_cons, List.foldl_append, ← extendManaged_eq]
      rfl
  rw [ofChain]
  exact hfold chain.reverse {}

/-- The last managed version that is written for a module. -/
def writtenFor? (chain : List Document) (key : String) : Option Managed :=
  ((managedVersions chain).filter (·.moduleId == key)).getLast?

/-- The last managed version whose module resolves to that of a dependency. -/
def resolvedFor? (chain : List Document) (d : Dependency) : Option Managed :=
  ((managedVersions chain).filter (·.ResolvesTo (ofChain chain) d)).getLast?

theorem getElem?_managed_ofChain (chain : List Document) (key : String) :
    (ofChain chain).managed[key]? = (writtenFor? chain key).map (·.version) := by
  rw [managed_ofChain, getElem?_foldl_insert, writtenFor?, Std.TreeMap.getElem?_emptyc, Option.or_none]

/-- A version that can be looked for: it is there, and all that it refers to is known. -/
def IsUsable (version : String) : Prop := version ≠ "" ∧ Text.contains opening version.toList = false

theorem Counts.isUsable (hcounts : e.Counts d version) : IsUsable version := by
  have husable := hcounts.usable
  rw [versionOf?, Option.filter_eq_some_iff, Bool.and_eq_true, Bool.not_eq_true', Bool.not_eq_true',
    String.isEmpty_eq_false_iff] at husable
  exact husable.2

theorem versionOf?_eq_some_iff (hversion : d.version = none) :
    (ofChain chain).versionOf? d key = some version ↔
      ∃ w, writtenFor? chain key = some w ∧ (ofChain chain).interpolate w.version = version ∧ IsUsable version := by
  have hmanaged : (none <|> (ofChain chain).managed[key]?) = (writtenFor? chain key).map (·.version) :=
    getElem?_managed_ofChain chain key
  rw [versionOf?, hversion, hmanaged, Option.map_map, Option.filter_eq_some_iff, Option.map_eq_some_iff]
  simp only [Bool.and_eq_true, Bool.not_eq_true', IsUsable, String.isEmpty_eq_false_iff, Function.comp_apply]
  constructor
  · rintro ⟨⟨w, hw, hinterpolated⟩, husable⟩
    exact ⟨w, hw, hinterpolated, husable⟩
  · rintro ⟨w, hw, hinterpolated, husable⟩
    exact ⟨⟨w, hw, hinterpolated⟩, husable⟩

/-- A dependency without a version of its own, which counts as soon as there is a version for it. -/
structure Unversioned (e : Effective) (d : Dependency) : Prop where
  version : d.version = none
  runtime : e.isRuntimeScope d.scope = true
  required : d.optional.map e.interpolate ≠ some "true"
  noTestJar : d.type ≠ some "test-jar"

theorem Unversioned.counts_iff (hd : (ofChain chain).Unversioned d) :
    (ofChain chain).Counts d version ↔ ∃ w, writtenFor? chain ((ofChain chain).moduleIdOf d) = some w ∧
      (ofChain chain).interpolate w.version = version ∧ IsUsable version := by
  rw [← versionOf?_eq_some_iff hd.version]
  exact ⟨fun hcounts => hcounts.usable, fun husable => ⟨hd.runtime, hd.required, hd.noTestJar, husable⟩⟩

theorem isFor_requirementAt_iff {own : String} :
    (e.requirementAt d own).IsFor (e.interpolate d.group) (e.interpolate d.artifact) version ↔
      lowerBound own = version := by
  simp only [Requirement.IsFor, requirementAt, true_and]

theorem exists_isFor_iff {group artifact version : String} :
    (∃ r ∈ e.requirements, r.IsFor group artifact version) ↔
      ∃ r, e.lastOn? e.dependencies (group ++ ":" ++ artifact) = some r ∧ r.IsFor group artifact version := by
  have hmem (r : Requirement) : r ∈ e.requirementsOn (group ++ ":" ++ artifact) ↔
      e.lastOn? e.dependencies (group ++ ":" ++ artifact) = some r := by
    rw [requirementsOn_eq, Option.mem_toList]
  constructor
  · rintro ⟨r, hr, hfor⟩
    refine ⟨r, (hmem r).1 (List.mem_filter.2 ⟨hr, beq_iff_eq.2 ?_⟩), hfor⟩
    rw [Coordinate.moduleId, hfor.1, hfor.2.1]
  · rintro ⟨r, hr, hfor⟩
    exact ⟨r, (List.mem_filter.1 ((hmem r).2 hr)).1, hfor⟩

/-- What a dependency without a version is required in: the version written for what it resolves to, or else that of an
    earlier dependency on its module. -/
theorem exists_isFor_unversioned_iff
    (hdependencies : chain.reverse.flatMap (·.dependencies.getD []) = before ++ d :: after)
    (hd : (ofChain chain).Unversioned d)
    (hlast : ∀ later ∈ after, (ofChain chain).moduleIdOf later = (ofChain chain).moduleIdOf d →
      ∀ version, ¬(ofChain chain).Counts later version) :
    (∃ r ∈ (ofChain chain).requirements,
        r.IsFor ((ofChain chain).interpolate d.group) ((ofChain chain).interpolate d.artifact) version) ↔
      (∃ w, writtenFor? chain ((ofChain chain).moduleIdOf d) = some w ∧
        IsUsable ((ofChain chain).interpolate w.version) ∧
        lowerBound ((ofChain chain).interpolate w.version) = version) ∨
      (∀ w, writtenFor? chain ((ofChain chain).moduleIdOf d) = some w →
        ¬IsUsable ((ofChain chain).interpolate w.version)) ∧
        ∃ r, (ofChain chain).lastOn? before ((ofChain chain).moduleIdOf d) = some r ∧
          r.IsFor ((ofChain chain).interpolate d.group) ((ofChain chain).interpolate d.artifact) version := by
  have hon : (ofChain chain).lastOn? (ofChain chain).dependencies ((ofChain chain).moduleIdOf d) =
      ((ofChain chain).lastOn? [d] ((ofChain chain).moduleIdOf d)).or
        ((ofChain chain).lastOn? before ((ofChain chain).moduleIdOf d)) := by
    rw [dependencies_ofChain, hdependencies, lastOn?_split hlast]
  rw [exists_isFor_iff, ← moduleIdOf, hon]
  by_cases hcounts : ∃ version, (ofChain chain).Counts d version
  · obtain ⟨own, hcounts⟩ := hcounts
    obtain ⟨w, hw, rfl, husable⟩ := hd.counts_iff.1 hcounts
    rw [lastOn?_singleton_of_counts hcounts, Option.some_or]
    simp only [hw, Option.some.injEq, exists_eq_left', forall_eq', husable, not_true, false_and, or_false, true_and,
      isFor_requirementAt_iff]
  · have hnone : (ofChain chain).lastOn? [d] ((ofChain chain).moduleIdOf d) = none := by
      refine lastOn?_eq_none_iff.2 fun other hother _ own hother' => ?_
      obtain rfl := List.mem_singleton.1 hother
      exact hcounts ⟨own, hother'⟩
    have hwritten : ∀ w, writtenFor? chain ((ofChain chain).moduleIdOf d) = some w →
        ¬IsUsable ((ofChain chain).interpolate w.version) :=
      fun w hw husable => hcounts ⟨_, hd.counts_iff.2 ⟨w, hw, rfl, husable⟩⟩
    rw [hnone, Option.none_or]
    constructor
    · exact fun hfound => .inr ⟨hwritten, hfound⟩
    · rintro (⟨w, hw, husable, -⟩ | ⟨-, hfound⟩)
      · exact absurd husable (hwritten w hw)
      · exact hfound

/-- A dependency without a version is required in the last one that is managed for what it resolves to if and only
    if the last one that is written for that comes to the same version, or there is none to be used and an earlier
    dependency on the module asks for that version. So it is where what is managed for its module is written the way
    it resolves. -/
theorem managed_version_found_iff
    (hdependencies : chain.reverse.flatMap (·.dependencies.getD []) = before ++ d :: after)
    (hd : (ofChain chain).Unversioned d) (hmanaged : resolvedFor? chain d = some m)
    (husable : IsUsable ((ofChain chain).interpolate m.version))
    (hlast : ∀ later ∈ after, (ofChain chain).moduleIdOf later = (ofChain chain).moduleIdOf d →
      ∀ version, ¬(ofChain chain).Counts later version) :
    ((∃ r ∈ (ofChain chain).requirements, r.IsFor ((ofChain chain).interpolate d.group)
        ((ofChain chain).interpolate d.artifact) (lowerBound ((ofChain chain).interpolate m.version))) ↔
      (∃ w, writtenFor? chain ((ofChain chain).moduleIdOf d) = some w ∧
        IsUsable ((ofChain chain).interpolate w.version) ∧
        lowerBound ((ofChain chain).interpolate w.version) = lowerBound ((ofChain chain).interpolate m.version)) ∨
      (∀ w, writtenFor? chain ((ofChain chain).moduleIdOf d) = some w →
        ¬IsUsable ((ofChain chain).interpolate w.version)) ∧
        ∃ r, (ofChain chain).lastOn? before ((ofChain chain).moduleIdOf d) = some r ∧
          r.IsFor ((ofChain chain).interpolate d.group) ((ofChain chain).interpolate d.artifact)
            (lowerBound ((ofChain chain).interpolate m.version))) ∧
    ((∀ w ∈ managedVersions chain, w.moduleId = (ofChain chain).moduleIdOf d ↔ w.ResolvesTo (ofChain chain) d) →
      ∃ r ∈ (ofChain chain).requirements, r.IsFor ((ofChain chain).interpolate d.group)
        ((ofChain chain).interpolate d.artifact) (lowerBound ((ofChain chain).interpolate m.version))) := by
  have hfound := @exists_isFor_unversioned_iff d (lowerBound ((ofChain chain).interpolate m.version)) chain before after
    hdependencies hd hlast
  refine ⟨hfound, fun hplain => hfound.2 (.inl ⟨m, ?_, husable, rfl⟩)⟩
  rw [← hmanaged, writtenFor?, resolvedFor?]
  refine congrArg List.getLast? (List.filter_congr fun w hw => ?_)
  rw [Bool.eq_iff_iff, beq_iff_eq, decide_eq_true_iff]
  exact hplain w hw

/-- A dependency whose group is a property of the child, on a module that the parent manages in one version and the
    child in another. -/
theorem managed_version_found_iff_of_plain_entries :
    ∃ (parent child : Document) (d : Dependency) (m : Managed),
      parent.managed = some [⟨"g", "a", some "1", none, none, none, none, none⟩] ∧
      child.managed = some [⟨"g", "a", some "[$\x7bnext\x7d,)", none, none, none, none, none⟩] ∧
      child.properties = some [("own", "g"), ("next", "2")] ∧ child.dependencies = some [d] ∧
      d = ⟨"$\x7bown\x7d", "a", none, some "runtime", none, none, none, none⟩ ∧ m = ⟨"g", "a", "[$\x7bnext\x7d,)"⟩ ∧
      [child, parent].reverse.flatMap (·.dependencies.getD []) = [] ++ d :: [] ∧
      (ofChain [child, parent]).Unversioned d ∧ resolvedFor? [child, parent] d = some m ∧
      IsUsable ((ofChain [child, parent]).interpolate m.version) ∧
      ∃ r ∈ (ofChain [child, parent]).requirements, r.IsFor "g" "a" "2" := by
  let d : Dependency := ⟨"$\x7bown\x7d", "a", none, some "runtime", none, none, none, none⟩
  let m : Managed := ⟨"g", "a", "[$\x7bnext\x7d,)"⟩
  let parent : Document := { managed := some [⟨"g", "a", some "1", none, none, none, none, none⟩] }
  let child : Document :=
    { managed := some [⟨"g", "a", some "[$\x7bnext\x7d,)", none, none, none, none, none⟩]
      properties := some [("own", "g"), ("next", "2")]
      dependencies := some [d] }
  have hsplit : [child, parent].reverse.flatMap (·.dependencies.getD []) = [] ++ d :: [] := rfl
  have hd : (ofChain [child, parent]).Unversioned d := ⟨rfl, by decide +kernel, by decide +kernel, by decide +kernel⟩
  have hmanaged : resolvedFor? [child, parent] d = some m := by decide +kernel
  have husable : IsUsable ((ofChain [child, parent]).interpolate m.version) := ⟨by decide +kernel, by decide +kernel⟩
  have hplain : ∀ w ∈ managedVersions [child, parent], w.moduleId = (ofChain [child, parent]).moduleIdOf d ↔
      w.ResolvesTo (ofChain [child, parent]) d := by decide +kernel
  have hgroup : (ofChain [child, parent]).interpolate d.group = "g" := by decide +kernel
  have hartifact : (ofChain [child, parent]).interpolate d.artifact = "a" := by decide +kernel
  have hversion : lowerBound ((ofChain [child, parent]).interpolate m.version) = "2" := by decide +kernel
  have hfound := (managed_version_found_iff hsplit hd hmanaged husable fun _ hlater => nomatch hlater).2 hplain
  rw [hgroup, hartifact, hversion] at hfound
  exact ⟨parent, child, d, m, rfl, rfl, rfl, rfl, rfl, rfl, hsplit, hd, hmanaged, husable, hfound⟩

/-- The version of an entry is not found if its group is written as a property, even for a dependency that writes it in
    the same way. -/
theorem managed_by_property_not_found :
    ∃ (pom : Document) (d : Dependency) (m : Managed),
      pom.managed = some [⟨"$\x7bproject.groupId\x7d", "a", some "2", none, none, none, none, none⟩] ∧
      pom.group = some "g" ∧ pom.dependencies = some [d] ∧
      d = ⟨"$\x7bproject.groupId\x7d", "a", none, none, none, none, none, none⟩ ∧
      (ofChain [pom]).Unversioned d ∧ resolvedFor? [pom] d = some m ∧ m.version = "2" ∧
      IsUsable ((ofChain [pom]).interpolate m.version) ∧ (ofChain [pom]).requirements = [] :=
  ⟨{  group := some "g"
      managed := some [⟨"$\x7bproject.groupId\x7d", "a", some "2", none, none, none, none, none⟩]
      dependencies := some [⟨"$\x7bproject.groupId\x7d", "a", none, none, none, none, none, none⟩] },
    _, ⟨"$\x7bproject.groupId\x7d", "a", "2"⟩, rfl, rfl, rfl, rfl,
    ⟨rfl, by decide +kernel, by decide +kernel, by decide +kernel⟩, by decide +kernel, rfl,
    ⟨by decide +kernel, by decide +kernel⟩, by decide +kernel⟩

end Effective
end UberJar.Pom
