import UberJar.Proofs.Resolution.Artifacts

namespace UberJar.Resolution

variable {declarations : List Declaration}
  {requirementsOf : Coordinate → ExceptT ResolveError Id (List Pom.Requirement)} {selection : Selection}

/-- Modules that requirements of selected coordinates lead to, from some modules on. -/
inductive LeadsTo (requirementsOf : Coordinate → ExceptT ResolveError Id (List Pom.Requirement))
    (selection : Selection) (start : String → Prop) : String → Prop
  | start {key : String} (hstart : start key) : LeadsTo requirementsOf selection start key
  | required {c : Coordinate} {r : Pom.Requirement} {requirements : List Pom.Requirement}
      (hleads : LeadsTo requirementsOf selection start c.moduleId) (hselected : selection.selects c = true)
      (hrequirements : (requirementsOf c).run = .ok requirements) (hr : r ∈ requirements) :
      LeadsTo requirementsOf selection start r.coordinate.moduleId

theorem LeadsTo.trans {start first : String → Prop} {key : String}
    (hleads : LeadsTo requirementsOf selection start key)
    (hfirst : ∀ key, start key → LeadsTo requirementsOf selection first key) :
    LeadsTo requirementsOf selection first key := by
  induction hleads with
  | start hstart => exact hfirst _ hstart
  | required _ hselected hrequirements hr ih => exact ih.required hselected hrequirements hr

theorem LeadsTo.asked {start : String → Prop} {node : Node} {r : Pom.Requirement}
    (hleads : LeadsTo requirementsOf selection start node.coordinate.moduleId)
    (hselected : selection.selects node.coordinate = true) (hasks : node.AsksFor requirementsOf r) :
    LeadsTo requirementsOf selection start r.coordinate.moduleId := by
  obtain ⟨-, requirements, hrequirements, hr⟩ := hasks
  exact hleads.required hselected hrequirements hr

/-- A module that a followed node asked for whose coordinate is not selected in the end. -/
def AskedBySuperseded (requirementsOf : Coordinate → ExceptT ResolveError Id (List Pom.Requirement))
    (selection : Selection) (history : List Node) (key : String) : Prop :=
  ∃ node ∈ history, selection.selects node.coordinate = false ∧
    ∃ r, node.AsksFor requirementsOf r ∧ r.coordinate.moduleId = key

/-- Every followed node was asked for by those before it, so that whatever it asks for is found from the declarations
    or from a node that lost. -/
theorem Walk.Reached.leadsTo {start w : Walk} {history : List Node}
    (hremembers : Remembers declarations requirementsOf [] start) (selection : Selection)
    (hreached : Reached requirementsOf start history w) {key : String}
    (hasked : AskedFor declarations requirementsOf history key) :
    LeadsTo requirementsOf selection (IsDeclared declarations) key ∨
      LeadsTo requirementsOf selection (AskedBySuperseded requirementsOf selection history) key := by
  -- By induction on the walk: a node that asks is not in the history yet, but its module was asked for by one that is.
  induction hreached generalizing key with
  | start =>
    rcases hasked with hdeclared | ⟨n, hn, -⟩
    · exact .inl (.start hdeclared)
    · cases hn
  | @follow history w w' node requirements hreached hnext hrequirements ih =>
    have hlater {key : String}
        (hleads : LeadsTo requirementsOf selection (AskedBySuperseded requirementsOf selection history) key) :
        LeadsTo requirementsOf selection (AskedBySuperseded requirementsOf selection (node :: history)) key := by
      refine hleads.trans fun key ⟨n, hn, hlost, hasks⟩ => ?_
      exact .start ⟨n, List.mem_cons_of_mem _ hn, hlost, hasks⟩
    rcases hasked with hdeclared | ⟨n, hn, r, hasks, rfl⟩
    · exact .inl (.start hdeclared)
    · rcases List.mem_cons.1 hn with rfl | hn
      · cases hselected : selection.selects n.coordinate with
        | false => exact .inr (.start ⟨n, List.mem_cons_self, hselected, r, hasks, rfl⟩)
        | true =>
          have hbefore := ((hreached.remembers hremembers).of_next? hnext).2
          exact (ih hbefore).imp (·.asked hselected hasks) fun hleads => (hlater hleads).asked hselected hasks
      · exact (ih (.inr ⟨n, hn, r, hasks, rfl⟩)).imp id hlater

/-- Every selected module is found from the declarations, or below a version that was superseded. -/
theorem Library.Settles.leads {library : Library Id} (hsettles : library.Settles declarations selection) :
    ∃ history, library.Follows (declarations.filter (·.isBundled)) selection history ∧
      ∀ key, selection.Holds key →
        LeadsTo library.requirementsOf selection (IsDeclared (declarations.filter (·.isBundled))) key ∨
          LeadsTo library.requirementsOf selection (AskedBySuperseded library.requirementsOf selection history)
            key := by
  obtain ⟨start, history, w, hdeclared, hreached, hnext, rfl⟩ := hsettles.reached
  have hremembers : Walk.Remembers (declarations.filter (·.isBundled)) library.requirementsOf [] start :=
    (declares_foldlM hdeclared).remembers
  have hfollows := follows_of_remembers (hreached.remembers hremembers) hnext
  exact ⟨history, hfollows, fun key hholds => hreached.leadsTo hremembers w.selection ((hfollows.holds key).1 hholds)⟩

/-- Every resolved artifact is that of a selected coordinate, found from the declarations or below a version that was
    superseded. All selected modules are found from the declarations exactly if those are that superseded versions asked
    for, as when no followed version was superseded. -/
theorem found_or_left_behind {library : Library Id} {resolution : Resolution}
    (hresolve : (library.resolve declarations).run = .ok resolution) :
    ∃ selection history, library.Settles declarations selection ∧
      library.Follows (declarations.filter (·.isBundled)) selection history ∧
      (∀ artifact ∈ resolution.artifacts, ∀ c, artifact.coordinate = some c → selection.selects c = true ∧
        (LeadsTo library.requirementsOf selection (IsDeclared (declarations.filter (·.isBundled))) c.moduleId ∨
          LeadsTo library.requirementsOf selection (AskedBySuperseded library.requirementsOf selection history)
            c.moduleId)) ∧
      ((∀ key, selection.Holds key →
          LeadsTo library.requirementsOf selection (IsDeclared (declarations.filter (·.isBundled))) key) ↔
        ∀ key, AskedBySuperseded library.requirementsOf selection history key →
          LeadsTo library.requirementsOf selection (IsDeclared (declarations.filter (·.isBundled))) key) := by
  obtain ⟨selection, artifacts, hsettles, hartifacts, rfl⟩ := Library.resolve_eq_ok_iff.1 hresolve
  obtain ⟨history, hfollows, hleads⟩ := hsettles.leads
  refine ⟨selection, history, hsettles, hfollows, fun artifact hmem c hcoordinate => ?_, ?_, ?_⟩
  · have hselected := hsettles.isProper.selected (hsettles.module_mem hartifacts hmem hcoordinate)
    exact ⟨hselected, hleads _ (Selection.holds_of_selects hselected)⟩
  · intro hall key hasked
    obtain ⟨node, hnode, -, hasks⟩ := hasked
    exact hall key ((hfollows.holds key).2 (.inr ⟨node, hnode, hasks⟩))
  · intro hlost key hholds
    rcases hleads key hholds with hfound | hleft
    · exact hfound
    · exact hleft.trans hlost

/-- A POM that requires one module. -/
def requiringOne (artifact version : String) : Pom.Document :=
  { dependencies := some [{ group := "g", artifact, version := some version }] }

/-- The module `a` requires `m` at version 1, which requires `x`; `b` requires `c`, which requires `m` at version 2. -/
def overtaken : Library Id where
  isFile _ := true
  file c := .ok (some ⟨c.fileName⟩)
  document c := .ok (
    if c.artifact = "a" then some (requiringOne "m" "1")
    else if c.artifact = "b" then some (requiringOne "c" "1")
    else if c.artifact = "c" then some (requiringOne "m" "2")
    else if c.artifact = "m" ∧ c.version = "1" then some (requiringOne "x" "1")
    else none)
  searched := []

/-- A coordinate of the group of `overtaken`. -/
def inGroup (artifact version : String) : Coordinate := { group := "g", artifact, version }

/-- Declarations of `a` and `b`. -/
def aAndB : List Declaration :=
  [{ source := .maven (inGroup "a" "1"), transitive := true },
    { source := .maven (inGroup "b" "1"), transitive := true }]

/-- What is selected in the end. -/
def overtakenSelection : Selection :=
  [.module (inGroup "a" "1") "g:a:1", .module (inGroup "b" "1") "g:b:1", .module (inGroup "m" "2") "g:a:1",
    .module (inGroup "c" "1") "g:b:1", .module (inGroup "x" "1") "g:a:1"]

theorem found_or_left_behind_overtaken :
    ∃ resolution, (overtaken.resolve aAndB).run = .ok resolution ∧
      ∃ selection history, overtaken.Settles aAndB selection ∧
        overtaken.Follows (aAndB.filter (·.isBundled)) selection history ∧
        (∀ artifact ∈ resolution.artifacts, ∀ c, artifact.coordinate = some c → selection.selects c = true ∧
          (LeadsTo overtaken.requirementsOf selection (IsDeclared (aAndB.filter (·.isBundled))) c.moduleId ∨
            LeadsTo overtaken.requirementsOf selection (AskedBySuperseded overtaken.requirementsOf selection history)
              c.moduleId)) ∧
        ((∀ key, selection.Holds key →
            LeadsTo overtaken.requirementsOf selection (IsDeclared (aAndB.filter (·.isBundled))) key) ↔
          ∀ key, AskedBySuperseded overtaken.requirementsOf selection history key →
            LeadsTo overtaken.requirementsOf selection (IsDeclared (aAndB.filter (·.isBundled))) key) :=
  ⟨_, rfl, found_or_left_behind rfl⟩

/-- The modules that are found from the declarations; `x` is not among them. -/
theorem mem_of_leadsTo_overtaken {key : String}
    (hleads : LeadsTo overtaken.requirementsOf overtakenSelection (IsDeclared (aAndB.filter (·.isBundled))) key) :
    key ∈ ["g:a", "g:b", "g:c", "g:m"] := by
  induction hleads with
  | start hdeclared =>
    obtain ⟨d, hmem, c, hsource, rfl⟩ := hdeclared
    have hall : ∀ d ∈ aAndB.filter (·.isBundled),
        d.source = .maven (inGroup "a" "1") ∨ d.source = .maven (inGroup "b" "1") := by decide +kernel
    rcases hall d hmem with h | h <;>
    · rw [h] at hsource
      obtain rfl := Source.maven.inj hsource
      decide
  | @required c r requirements _ hselected hrequirements hr ih =>
    have hfind : ∀ key ∈ ["g:a", "g:b", "g:c", "g:m"],
        ∃ c ∈ [inGroup "a" "1", inGroup "b" "1", inGroup "c" "1", inGroup "m" "2"],
          overtakenSelection.find? key = some c := by decide +kernel
    have hrequires : ∀ c ∈ [inGroup "a" "1", inGroup "b" "1", inGroup "c" "1", inGroup "m" "2"],
        ∀ r ∈ (overtaken.requirementsOf c).run.toOption.getD [],
          r.coordinate.moduleId ∈ ["g:a", "g:b", "g:c", "g:m"] := by decide +kernel
    obtain ⟨c', hc', hfound⟩ := hfind c.moduleId ih
    rw [Selection.selects_iff, hfound] at hselected
    obtain rfl := Option.some.inj hselected
    refine hrequires c' hc' r ?_
    rw [hrequirements]
    exact hr

/-- The module `x` is bundled, although only the losing version of `m` requires it. -/
theorem bundled_below_superseded :
    ∃ resolution selection artifact c, (overtaken.resolve aAndB).run = .ok resolution ∧
      overtaken.Settles aAndB selection ∧ artifact ∈ resolution.artifacts ∧ artifact.coordinate = some c ∧
      ¬LeadsTo overtaken.requirementsOf selection (IsDeclared (aAndB.filter (·.isBundled))) c.moduleId := by
  refine ⟨_, overtakenSelection, ⟨some (inGroup "x" "1"), ⟨"x-1.jar"⟩, "g:a:1"⟩, inGroup "x" "1", rfl, ⟨_, rfl, rfl⟩,
    by decide +kernel, rfl, fun hleads => ?_⟩
  exact absurd (mem_of_leadsTo_overtaken hleads) (by decide)

end UberJar.Resolution
