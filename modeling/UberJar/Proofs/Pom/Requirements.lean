import Mathlib.Data.List.Induction
import Mathlib.Data.Option.Basic
import UberJar.Pom.Effective

namespace UberJar.Pom.Effective

variable {e : Effective} {d : Dependency} {r : Requirement} {version key : String} {chain : List Document}
  {before after : List Dependency}

/-- The module that a dependency is on, as `group:artifact`. -/
def moduleIdOf (e : Effective) (d : Dependency) : String := e.interpolate d.group ++ ":" ++ e.interpolate d.artifact

/-- A dependency that counts at run time, and its version as written or managed. -/
structure Counts (e : Effective) (d : Dependency) (version : String) : Prop where
  runtime : e.isRuntimeScope d.scope = true
  required : d.optional.map e.interpolate ≠ some "true"
  noTestJar : d.type ≠ some "test-jar"
  usable : e.versionOf? d (e.moduleIdOf d) = some version

/-- The requirement of a dependency that counts. -/
def requirementAt (e : Effective) (d : Dependency) (version : String) : Requirement where
  coordinate :=
    { group := e.interpolate d.group
      artifact := e.interpolate d.artifact
      version := lowerBound version
      classifier := d.classifier.map e.interpolate
      extension := match d.type with
        | none | some "jar" | some "bundle" => "jar"
        | some other => other }
  exclusions := d.exclusions.getD []

theorem requirement?_eq_some_iff :
    e.requirement? d = some r ↔ ∃ version, e.Counts d version ∧ r = e.requirementAt d version := by
  unfold requirement?
  simp only [Option.bind_eq_bind, Option.bind_eq_some_iff, Option.guard_eq_some', bne_iff_ne]
  constructor
  · rintro ⟨-, hruntime, -, hrequired, version, husable, -, hjar, hr⟩
    exact ⟨version, ⟨hruntime, hrequired, hjar, husable⟩, (Option.some.inj hr).symm⟩
  · rintro ⟨version, hcounts, rfl⟩
    exact ⟨(), hcounts.runtime, (), hcounts.required, version, hcounts.usable, (), hcounts.noTestJar, rfl⟩

theorem moduleId_requirementAt : (e.requirementAt d version).coordinate.moduleId = e.moduleIdOf d := rfl

/-- The requirements on a module. -/
def requirementsOn (e : Effective) (key : String) : List Requirement :=
  e.requirements.filter (·.coordinate.moduleId == key)

theorem filter_addRequirement (requirements : List Requirement) (r : Requirement) (key : String) :
    (addRequirement requirements r).filter (·.coordinate.moduleId == key) =
      if r.coordinate.moduleId = key then [r] else requirements.filter (·.coordinate.moduleId == key) := by
  rw [addRequirement, List.filter_append, List.filter_filter]
  by_cases hkey : r.coordinate.moduleId = key
  · subst hkey
    simp
  · have hr : [r].filter (·.coordinate.moduleId == key) = [] := by simp [hkey]
    rw [if_neg hkey, hr, List.append_nil]
    refine List.filter_congr fun other _ => ?_
    by_cases hother : other.coordinate.moduleId = key
    · simp [hother, Ne.symm hkey]
    · simp [hother]

/-- Of the requirements on a module the last stays. -/
theorem filter_foldl_addRequirement (requirements : List Requirement) (key : String) :
    (requirements.foldl addRequirement []).filter (·.coordinate.moduleId == key) =
      (requirements.filter (·.coordinate.moduleId == key)).getLast?.toList := by
  induction requirements using List.reverseRecOn with
  | nil => rfl
  | append_singleton requirements r ih =>
    rw [List.foldl_append, List.foldl_cons, List.foldl_nil, filter_addRequirement, ih, List.filter_append]
    by_cases hkey : r.coordinate.moduleId = key <;> simp [hkey]

/-- The requirement of the last dependency on a module that counts. -/
def lastOn? (e : Effective) (dependencies : List Dependency) (key : String) : Option Requirement :=
  ((dependencies.filterMap e.requirement?).filter (·.coordinate.moduleId == key)).getLast?

theorem requirementsOn_eq (e : Effective) (key : String) :
    e.requirementsOn key = (e.lastOn? e.dependencies key).toList :=
  filter_foldl_addRequirement _ key

theorem mem_requirements (hr : r ∈ e.requirements) :
    ∃ d ∈ e.dependencies, ∃ version, e.Counts d version ∧ r = e.requirementAt d version := by
  have hon : r ∈ e.requirementsOn r.coordinate.moduleId := List.mem_filter.2 ⟨hr, beq_self_eq_true _⟩
  rw [requirementsOn_eq, Option.mem_toList, lastOn?] at hon
  obtain ⟨d, hd, hsome⟩ := List.mem_filterMap.1 (List.mem_filter.1 (List.mem_of_getLast? hon)).1
  exact ⟨d, hd, requirement?_eq_some_iff.1 hsome⟩

theorem lastOn?_eq_none_iff {dependencies : List Dependency} :
    e.lastOn? dependencies key = none ↔
      ∀ d ∈ dependencies, e.moduleIdOf d = key → ∀ version, ¬e.Counts d version := by
  rw [lastOn?, List.getLast?_eq_none_iff, List.filter_eq_nil_iff]
  constructor
  · rintro hnone d hd rfl version hcounts
    refine hnone (e.requirementAt d version) (List.mem_filterMap.2 ⟨d, hd, ?_⟩) (beq_self_eq_true _)
    exact requirement?_eq_some_iff.2 ⟨version, hcounts, rfl⟩
  · intro hnone r hr hkey
    obtain ⟨d, hd, hsome⟩ := List.mem_filterMap.1 hr
    obtain ⟨version, hcounts, rfl⟩ := requirement?_eq_some_iff.1 hsome
    exact hnone d hd (beq_iff_eq.1 hkey) version hcounts

theorem lastOn?_append (before after : List Dependency) (key : String) :
    e.lastOn? (before ++ after) key = (e.lastOn? after key).or (e.lastOn? before key) := by
  rw [lastOn?, List.filterMap_append, List.filter_append, List.getLast?_append]
  rfl

theorem lastOn?_singleton_of_counts (hcounts : e.Counts d version) :
    e.lastOn? [d] (e.moduleIdOf d) = some (e.requirementAt d version) := by
  have hd : e.requirement? d = some (e.requirementAt d version) :=
    requirement?_eq_some_iff.2 ⟨version, hcounts, rfl⟩
  simp [lastOn?, hd, moduleId_requirementAt]

/-- A dependency behind which no other one on its module counts has the last word on it, if it counts itself. -/
theorem lastOn?_split
    (hlast : ∀ later ∈ after, e.moduleIdOf later = e.moduleIdOf d → ∀ version, ¬e.Counts later version) :
    e.lastOn? (before ++ d :: after) (e.moduleIdOf d) =
      (e.lastOn? [d] (e.moduleIdOf d)).or (e.lastOn? before (e.moduleIdOf d)) := by
  have hafter : e.lastOn? after (e.moduleIdOf d) = none := lastOn?_eq_none_iff.2 hlast
  rw [lastOn?_append, ← List.singleton_append, lastOn?_append, hafter, Option.none_or]

theorem dependencies_ofChain (chain : List Document) :
    (ofChain chain).dependencies = chain.reverse.flatMap (·.dependencies.getD []) := by
  have hfold (documents : List Document) (e : Effective) : (documents.foldl extend e).dependencies =
      e.dependencies ++ documents.flatMap (·.dependencies.getD []) := by
    induction documents generalizing e with
    | nil => simp
    | cons document documents ih => simp [ih, extend]
  rw [ofChain]
  exact hfold chain.reverse {}

/-- The last dependency on a module decides about its requirement if it counts. If it is out of scope or optional, the
    module is left out if and only if no earlier dependency on it counts either. -/
theorem last_dependency_decides_iff
    (hdependencies : chain.reverse.flatMap (·.dependencies.getD []) = before ++ d :: after)
    (hlast : ∀ later ∈ after, (ofChain chain).moduleIdOf later ≠ (ofChain chain).moduleIdOf d) :
    (∀ version, (ofChain chain).Counts d version →
      (ofChain chain).requirementsOn ((ofChain chain).moduleIdOf d) = [(ofChain chain).requirementAt d version]) ∧
    ((ofChain chain).isRuntimeScope d.scope = false ∨ d.optional.map (ofChain chain).interpolate = some "true" →
      ((ofChain chain).requirementsOn ((ofChain chain).moduleIdOf d) = [] ↔
        ∀ earlier ∈ before, (ofChain chain).moduleIdOf earlier = (ofChain chain).moduleIdOf d →
          ∀ version, ¬(ofChain chain).Counts earlier version)) := by
  have hon : (ofChain chain).requirementsOn ((ofChain chain).moduleIdOf d) =
      (((ofChain chain).lastOn? [d] ((ofChain chain).moduleIdOf d)).or
        ((ofChain chain).lastOn? before ((ofChain chain).moduleIdOf d))).toList := by
    rw [requirementsOn_eq, dependencies_ofChain, hdependencies,
      lastOn?_split fun later hlater hsame => absurd hsame (hlast later hlater)]
  constructor
  · intro version hcounts
    rw [hon, lastOn?_singleton_of_counts hcounts, Option.some_or, Option.toList_some]
  · intro hout
    have hnone : (ofChain chain).lastOn? [d] ((ofChain chain).moduleIdOf d) = none := by
      refine lastOn?_eq_none_iff.2 fun other hother _ version hcounts => ?_
      obtain rfl := List.mem_singleton.1 hother
      rcases hout with hscope | hoptional
      · exact Bool.false_ne_true (hscope.symm.trans hcounts.runtime)
      · exact hcounts.required hoptional
    rw [hon, hnone, Option.none_or, Option.toList_eq_nil_iff, lastOn?_eq_none_iff]

/-- A parent with a dependency that the child declares again under another name for its group, and one in the scope of
    tests that the child declares as provided. -/
theorem last_dependency_decides_iff_over_parent :
    ∃ (parent child : Document) (a b : Dependency) (before : List Dependency),
      parent.dependencies = some [⟨"g", "a", some "1", none, none, none, none, none⟩,
        ⟨"g", "b", some "1", some "test", none, none, none, none⟩] ∧
      child.properties = some [("own", "g")] ∧ child.dependencies = some [a, b] ∧
      a = ⟨"$\x7bown\x7d", "a", some "[2,3)", some "runtime", none, none, none, some [⟨"x", none⟩]⟩ ∧
      b = ⟨"g", "b", some "1", some "provided", none, none, none, none⟩ ∧
      [child, parent].reverse.flatMap (·.dependencies.getD []) = before ++ a :: [b] ∧
      (∀ later ∈ [b], (ofChain [child, parent]).moduleIdOf later ≠ (ofChain [child, parent]).moduleIdOf a) ∧
      (ofChain [child, parent]).Counts a "[2,3)" ∧
      (ofChain [child, parent]).requirementsOn "g:a" = [⟨⟨"g", "a", "2", none, "jar"⟩, [⟨"x", none⟩]⟩] ∧
      (ofChain [child, parent]).isRuntimeScope b.scope = false ∧
      ((ofChain [child, parent]).requirementsOn "g:b" = [] ↔ ∀ earlier ∈ before ++ [a],
        (ofChain [child, parent]).moduleIdOf earlier = "g:b" →
          ∀ version, ¬(ofChain [child, parent]).Counts earlier version) := by
  let a : Dependency := ⟨"$\x7bown\x7d", "a", some "[2,3)", some "runtime", none, none, none, some [⟨"x", none⟩]⟩
  let b : Dependency := ⟨"g", "b", some "1", some "provided", none, none, none, none⟩
  let before : List Dependency := [⟨"g", "a", some "1", none, none, none, none, none⟩,
    ⟨"g", "b", some "1", some "test", none, none, none, none⟩]
  let parent : Document := { dependencies := some before }
  let child : Document := { properties := some [("own", "g")], dependencies := some [a, b] }
  have hsplit : [child, parent].reverse.flatMap (·.dependencies.getD []) = before ++ a :: [b] := rfl
  have hother : ∀ later ∈ [b], (ofChain [child, parent]).moduleIdOf later ≠ (ofChain [child, parent]).moduleIdOf a := by
    decide +kernel
  have hcounts : (ofChain [child, parent]).Counts a "[2,3)" :=
    ⟨by decide +kernel, by decide +kernel, by decide +kernel, by decide +kernel⟩
  have hscope : (ofChain [child, parent]).isRuntimeScope b.scope = false := by decide +kernel
  have ha : (ofChain [child, parent]).moduleIdOf a = "g:a" := by decide +kernel
  have hb : (ofChain [child, parent]).moduleIdOf b = "g:b" := by decide +kernel
  have hrequirement : (ofChain [child, parent]).requirementAt a "[2,3)" =
      ⟨⟨"g", "a", "2", none, "jar"⟩, [⟨"x", none⟩]⟩ := by decide +kernel
  have hdecides := (last_dependency_decides_iff hsplit hother).1 "[2,3)" hcounts
  have hleaves := (last_dependency_decides_iff (List.append_cons before a [b] ▸ hsplit) (by simp)).2 (.inl hscope)
  rw [ha, hrequirement] at hdecides
  rw [hb] at hleaves
  exact ⟨parent, child, a, b, before, rfl, rfl, rfl, rfl, rfl, hsplit, hother, hcounts, hdecides, hscope, hleaves⟩

/-- A child that puts an inherited dependency into the scope of tests is left with the requirement of its parent. -/
theorem inherited_dependency_stays :
    ∃ (parent child : Document) (last : Dependency),
      parent.dependencies = some [⟨"g", "a", some "1", none, none, none, none, none⟩] ∧
      child.dependencies = some [last] ∧ last = ⟨"g", "a", some "1", some "test", none, none, none, none⟩ ∧
      (ofChain [child, parent]).moduleIdOf last = "g:a" ∧ (ofChain [child, parent]).isRuntimeScope last.scope = false ∧
      (ofChain [child, parent]).requirementsOn "g:a" = [⟨⟨"g", "a", "1", none, "jar"⟩, []⟩] :=
  ⟨{ dependencies := some [⟨"g", "a", some "1", none, none, none, none, none⟩] },
    { dependencies := some [⟨"g", "a", some "1", some "test", none, none, none, none⟩] }, _, rfl, rfl, rfl,
    by decide +kernel, by decide +kernel, by decide +kernel⟩

end UberJar.Pom.Effective
