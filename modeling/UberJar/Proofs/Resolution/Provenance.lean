import Mathlib.Data.List.Basic
import UberJar.Proofs.Resolution.Artifacts

namespace UberJar.Resolution

variable {declarations : List Declaration}
  {requirementsOf : Coordinate → ExceptT ResolveError Id (List Pom.Requirement)}

/-- A bundled declaration of a coordinate with its requirements, under a label, that does not exclude a module. -/
def Admits (declarations : List Declaration) (label group artifact : String) : Prop :=
  ∃ d ∈ declarations, d.isBundled = true ∧ (∃ c, d.source = .maven c) ∧ d.transitive = true ∧ d.label = label ∧
    ∀ e ∈ d.exclusions, e.excludes group artifact = false

/-- A module that some node with a label asks for. -/
def PullsIn (declarations : List Declaration)
    (requirementsOf : Coordinate → ExceptT ResolveError Id (List Pom.Requirement)) (label key : String) : Prop :=
  ∃ node r, OnPath declarations requirementsOf node ∧ node.requestedBy = label ∧ node.AsksFor requirementsOf r ∧
    r.coordinate.moduleId = key

/-- A node on a path carries the exclusions of the declaration that it is labelled with. -/
theorem OnPath.exists_declaration {node : Node} (hpath : OnPath declarations requirementsOf node) :
    ∃ d ∈ declarations, (∃ c, d.source = .maven c) ∧ d.transitive = true ∧ d.label = node.requestedBy ∧
      d.exclusions ⊆ node.exclusions := by
  induction hpath with
  | @declared d c hmem hsource htransitive =>
    exact ⟨d, hmem, ⟨c, hsource⟩, htransitive, rfl, List.Subset.refl _⟩
  | required _ _ ih =>
    obtain ⟨d, hmem, hsource, htransitive, hlabel, hsubset⟩ := ih
    exact ⟨d, hmem, hsource, htransitive, hlabel, List.subset_append_of_subset_left _ hsubset⟩

theorem PullsIn.admits {label key : String}
    (hpulls : PullsIn (declarations.filter (·.isBundled)) requirementsOf label key) :
    ∃ group artifact, group ++ ":" ++ artifact = key ∧ Admits declarations label group artifact := by
  obtain ⟨node, r, hpath, rfl, hasks, rfl⟩ := hpulls
  obtain ⟨d, hmem, hsource, htransitive, hlabel, hsubset⟩ := hpath.exists_declaration
  obtain ⟨hmem, hbundled⟩ := List.mem_filter.1 hmem
  refine ⟨r.coordinate.group, r.coordinate.artifact, rfl, d, hmem, hbundled, hsource, htransitive, hlabel, ?_⟩
  intro e he
  have hpasses := hasks.1
  rw [Node.excludes, List.any_eq_false] at hpasses
  exact Bool.not_eq_true _ ▸ hpasses e (hsubset he)

/-- Each module of a selection is declared, or the node that its label comes from pulled it in. -/
def Traces (declarations : List Declaration)
    (requirementsOf : Coordinate → ExceptT ResolveError Id (List Pom.Requirement)) (s : Selection) : Prop :=
  ∀ c label, .module c label ∈ s →
    IsDeclared declarations c.moduleId ∨ PullsIn declarations requirementsOf label c.moduleId

theorem Traces.request? {s t : Selection} {node : Node} {r : Pom.Requirement}
    (htraces : Traces declarations requirementsOf s) (hpath : OnPath declarations requirementsOf node)
    (hasks : node.AsksFor requirementsOf r)
    (hrequest : s.request? r.coordinate node.requestedBy = some t) : Traces declarations requirementsOf t := by
  intro c label hmem
  rcases Selection.mem_of_request? hrequest hmem with ⟨hold, -⟩ | ⟨kept, hselected, hkept⟩
  · exact htraces c label hold
  · obtain ⟨rfl, rfl⟩ := Selected.module.inj hselected
    rcases hkept with rfl | ⟨current, hcurrent, hkey⟩
    · exact .inr ⟨node, r, hpath, rfl, hasks, rfl⟩
    · rw [← hkey]
      exact htraces current label hcurrent

namespace Library

variable {library : Library Id}

theorem Settles.traces {selection : Selection} (hsettles : library.Settles declarations selection) :
    Traces (declarations.filter (·.isBundled)) library.requirementsOf selection := by
  obtain ⟨start, history, w, hdeclared, hreached, -, rfl⟩ := hsettles.reached
  have hdeclares := declares_foldlM hdeclared
  refine hreached.selection_induction hdeclares.remembers
    (fun hpath hasks htraces hrequest => htraces.request? hpath hasks hrequest) (fun c label hmem => ?_)
  have hselected := (isProper_declared hdeclared).selected hmem
  exact .inl ((hdeclares.holds _).1 (Selection.holds_of_selects hselected))

end Library

/-- A text with a single colon is cut at it in one way. -/
theorem moduleId_inj {group artifact : String} {c : Coordinate} (hgroup : ':' ∉ c.group.toList)
    (hartifact : ':' ∉ c.artifact.toList) (hkey : group ++ ":" ++ artifact = c.moduleId) :
    group = c.group ∧ artifact = c.artifact := by
  have htext : c.group.toList ++ ':' :: c.artifact.toList = group.toList ++ ':' :: artifact.toList := by
    simpa [Coordinate.moduleId] using congrArg String.toList hkey.symm
  obtain ⟨hleft, -, hright⟩ := (List.append_cons_inj_of_notMem hgroup hartifact).1 htext
  exact ⟨String.toList_injective hleft.symm, String.toList_injective hright.symm⟩

/-- A selected module that is not declared goes by the label of a declaration that admits a group and artifact with the
    module's text. -/
theorem Library.Settles.admits {library : Library Id} {selection : Selection}
    (hsettles : library.Settles declarations selection) {c : Coordinate} {label : String}
    (hmem : .module c label ∈ selection) (hpulled : ¬IsDeclared (declarations.filter (·.isBundled)) c.moduleId) :
    (∃ group name, group ++ ":" ++ name = c.moduleId ∧ Admits declarations label group name) ∧
      (':' ∉ c.group.toList → ':' ∉ c.artifact.toList → Admits declarations label c.group c.artifact) := by
  obtain ⟨group, name, hkey, hadmits⟩ := ((hsettles.traces c label hmem).resolve_left hpulled).admits
  refine ⟨⟨group, name, hkey, hadmits⟩, fun hgroup hartifact => ?_⟩
  obtain ⟨rfl, rfl⟩ := moduleId_inj hgroup hartifact hkey
  exact hadmits

/-- An artifact of a module that is not declared goes by the label of a declaration that admits a group and artifact
    with the module's text: the artifact's own, unless they hold a colon. -/
theorem requestedBy_admits {library : Library Id} {resolution : Resolution}
    (hresolve : (library.resolve declarations).run = .ok resolution) {artifact : Artifact}
    (hmem : artifact ∈ resolution.artifacts) {c : Coordinate} (hcoordinate : artifact.coordinate = some c)
    (hpulled : ¬IsDeclared (declarations.filter (·.isBundled)) c.moduleId) :
    (∃ group name, group ++ ":" ++ name = c.moduleId ∧ Admits declarations artifact.requestedBy group name) ∧
      (':' ∉ c.group.toList → ':' ∉ c.artifact.toList →
        Admits declarations artifact.requestedBy c.group c.artifact) := by
  obtain ⟨selection, artifacts, hsettles, hartifacts, rfl⟩ := Library.resolve_eq_ok_iff.1 hresolve
  exact hsettles.admits (hsettles.module_mem hartifacts hmem hcoordinate) hpulled

/-- Modules `x:p` and `x:q`, which require the modules `b:c` of the group `a` and `c` of the group `a:b`. -/
def oneTextTwoModules : Library Id where
  isFile _ := true
  file c := .ok (some ⟨c.fileName⟩)
  document c := .ok (
    if c.artifact = "p" then some { dependencies := some [{ group := "a", artifact := "b:c", version := some "1" }] }
    else if c.artifact = "q" then
      some { dependencies := some [{ group := "a:b", artifact := "c", version := some "2" }] }
    else none)
  searched := []

/-- Declarations of `x:p`, without the group `a:b`, and of all of `x:q`. -/
def pWithoutGroup : List Declaration :=
  [{ source := .maven { group := "x", artifact := "p", version := "1" }, transitive := true,
     exclusions := [{ group := "a:b" }] },
    { source := .maven { group := "x", artifact := "q", version := "1" }, transitive := true }]

theorem not_isDeclared_abc : ¬IsDeclared (pWithoutGroup.filter (·.isBundled)) "a:b:c" := by
  rintro ⟨d, hmem, c, hsource, hkey⟩
  have hall : ∀ d ∈ pWithoutGroup.filter (·.isBundled),
      d.source = .maven { group := "x", artifact := "p", version := "1" } ∨
        d.source = .maven { group := "x", artifact := "q", version := "1" } := by decide +kernel
  rcases hall d hmem with h | h <;>
  · rw [h] at hsource
    obtain rfl := Source.maven.inj hsource
    exact absurd hkey (by decide)

theorem requestedBy_admits_across_colon :
    ∃ resolution artifact c, (oneTextTwoModules.resolve pWithoutGroup).run = .ok resolution ∧
      artifact ∈ resolution.artifacts ∧ artifact.coordinate = some c ∧
      ¬IsDeclared (pWithoutGroup.filter (·.isBundled)) c.moduleId ∧
      (∃ group name, group ++ ":" ++ name = c.moduleId ∧ Admits pWithoutGroup artifact.requestedBy group name) ∧
        (':' ∉ c.group.toList → ':' ∉ c.artifact.toList →
          Admits pWithoutGroup artifact.requestedBy c.group c.artifact) := by
  let c : Coordinate := { group := "a:b", artifact := "c", version := "2" }
  let artifact : Artifact := ⟨some c, ⟨"c-2.jar"⟩, "x:p:1"⟩
  obtain ⟨resolution, hresolve, hmem⟩ : ∃ resolution,
      (oneTextTwoModules.resolve pWithoutGroup).run = .ok resolution ∧ artifact ∈ resolution.artifacts :=
    ⟨_, rfl, by decide +kernel⟩
  exact ⟨resolution, artifact, c, hresolve, hmem, rfl, not_isDeclared_abc,
    requestedBy_admits hresolve hmem rfl not_isDeclared_abc⟩

/-- The module `c` of the group `a:b` goes by the label of a declaration that excludes the group. -/
theorem requestedBy_excludes_across_colon :
    ∃ resolution artifact c, (oneTextTwoModules.resolve pWithoutGroup).run = .ok resolution ∧
      artifact ∈ resolution.artifacts ∧ artifact.coordinate = some c ∧
      ¬IsDeclared (pWithoutGroup.filter (·.isBundled)) c.moduleId ∧
      ¬Admits pWithoutGroup artifact.requestedBy c.group c.artifact := by
  let c : Coordinate := { group := "a:b", artifact := "c", version := "2" }
  refine ⟨_, ⟨some c, ⟨"c-2.jar"⟩, "x:p:1"⟩, c, rfl, by decide +kernel, rfl, not_isDeclared_abc, ?_⟩
  rintro ⟨d, hmem, -, -, -, hlabel, hpasses⟩
  have hall : ∀ d ∈ pWithoutGroup, d.label = "x:p:1" → d.exclusions.any (·.excludes "a:b" "c") = true := by
    decide +kernel
  obtain ⟨e, he, hexcludes⟩ := List.any_eq_true.1 (hall d hmem hlabel)
  rw [hpasses e he] at hexcludes
  cases hexcludes

end UberJar.Resolution
