import UberJar.Proofs.Resolution.History

namespace UberJar.Resolution

/-- A chain of requirements, from a transitive declaration, through selected coordinates, on which no exclusion
    meets what lies below it. The node at its end carries the exclusions of the whole chain. -/
inductive Chain (declarations : List Declaration)
    (requirementsOf : Coordinate → ExceptT ResolveError Id (List Pom.Requirement)) (selection : Selection) : Node → Prop
  | declared {d : Declaration} {c : Coordinate} (hmem : d ∈ declarations) (hsource : d.source = .maven c)
      (htransitive : d.transitive = true) :
      Chain declarations requirementsOf selection ⟨c, d.exclusions, d.label, true⟩
  | required {node : Node} {r : Pom.Requirement} (chain : Chain declarations requirementsOf selection node)
      (hselected : selection.selects node.coordinate = true) (hasks : node.AsksFor requirementsOf r) :
      Chain declarations requirementsOf selection (node.below r)

/-- A coordinate whose requirements were not followed with the exclusions of a chain, but not at all, or with
    those of a path that excludes `c`. -/
def CutsOff (declarations : List Declaration) (history : List Node) (parent c : Coordinate) : Prop :=
  Pinned declarations parent ∨
    ∃ n ∈ history, n.coordinate.render = parent.render ∧ (n.coordinate = parent → n.excludes c = true)

theorem Library.Follows.missing_iff {library : Library Id} {declarations : List Declaration} {selection : Selection}
    {history : List Node} (hfollows : library.Follows declarations selection history) {node : Node}
    (hchain : Chain declarations library.requirementsOf selection node) :
    ¬selection.Holds node.coordinate.moduleId ↔
      (∃ (parent : Node) (r : Pom.Requirement), node = parent.below r ∧
        CutsOff declarations history parent.coordinate r.coordinate) ∧
      ¬AskedFor declarations library.requirementsOf history node.coordinate.moduleId := by
  rw [← hfollows.holds]
  refine ⟨fun hmissing => ⟨?_, hmissing⟩, fun h => h.2⟩
  cases hchain with
  | @declared d c hmem hsource htransitive =>
    exact absurd ((hfollows.holds _).2 (.inl ⟨d, hmem, c, hsource, rfl⟩)) hmissing
  | @required parent r chain hselected hasks =>
    refine ⟨parent, r, rfl, ?_⟩
    rcases hfollows.covers parent.coordinate hselected with hpinned | ⟨n, hn, hrender⟩
    · exact .inl hpinned
    · refine .inr ⟨n, hn, hrender, fun hsame => ?_⟩
      rw [← Bool.not_eq_false]
      intro hpasses
      -- The node that was followed would have asked for the module itself.
      exact hmissing ((hfollows.holds _).2 (.inr ⟨n, hn, r, ⟨hpasses, hsame ▸ hasks.2⟩, rfl⟩))

/-- The module at the end of a chain is missing exactly if the last link of the chain is cut off, by another path to
    its upper end, and neither a declaration nor another followed node asks for the module. -/
theorem missing_iff_cutsOff {library : Library Id} {declarations : List Declaration} {resolution : Resolution}
    (hresolve : (library.resolve declarations).run = .ok resolution) :
    ∃ selection history, library.Settles declarations selection ∧
      library.Follows (declarations.filter (·.isBundled)) selection history ∧
      ∀ node, Chain (declarations.filter (·.isBundled)) library.requirementsOf selection node →
        (¬selection.Holds node.coordinate.moduleId ↔
          (∃ (parent : Node) (r : Pom.Requirement), node = parent.below r ∧
            CutsOff (declarations.filter (·.isBundled)) history parent.coordinate r.coordinate) ∧
          ¬AskedFor (declarations.filter (·.isBundled)) library.requirementsOf history node.coordinate.moduleId) := by
  obtain ⟨selection, artifacts, hsettles, -, -⟩ := Library.resolve_eq_ok_iff.1 hresolve
  obtain ⟨history, hfollows⟩ := hsettles.follows
  exact ⟨selection, history, hsettles, hfollows, fun node hchain => hfollows.missing_iff hchain⟩

/-- The first version of a module of one group. -/
def firstVersion (artifact : String) : Coordinate := { group := "g", artifact, version := "1" }

/-- A POM that requires the first versions of modules. -/
def requiring (artifacts : List String) : Pom.Document :=
  { dependencies := some (artifacts.map fun artifact => { group := "g", artifact, version := some "1" }) }

/-- Modules `a` and `b` both require `m`, which requires `x`. -/
def diamond : Library Id where
  isFile _ := true
  file c := .ok (some ⟨c.fileName⟩)
  document c := .ok (
    if c.artifact = "a" ∨ c.artifact = "b" then some (requiring ["m"])
    else if c.artifact = "m" then some (requiring ["x"])
    else none)
  searched := []

/-- Declarations of `a`, without `x`, and of all of `b`. -/
def aWithoutX : List Declaration :=
  [{ source := .maven (firstVersion "a"), transitive := true, exclusions := [{ group := "g", module := some "x" }] },
    { source := .maven (firstVersion "b"), transitive := true }]

theorem missing_iff_cutsOff_diamond :
    (diamond.resolve aWithoutX).run =
        .ok ⟨[⟨some (firstVersion "a"), ⟨"a-1.jar"⟩, "g:a:1"⟩, ⟨some (firstVersion "b"), ⟨"b-1.jar"⟩, "g:b:1"⟩,
          ⟨some (firstVersion "m"), ⟨"m-1.jar"⟩, "g:a:1"⟩], []⟩ ∧
      ∃ selection history, diamond.Settles aWithoutX selection ∧
        diamond.Follows (aWithoutX.filter (·.isBundled)) selection history ∧
        ∀ node, Chain (aWithoutX.filter (·.isBundled)) diamond.requirementsOf selection node →
          (¬selection.Holds node.coordinate.moduleId ↔
            (∃ (parent : Node) (r : Pom.Requirement), node = parent.below r ∧
              CutsOff (aWithoutX.filter (·.isBundled)) history parent.coordinate r.coordinate) ∧
            ¬AskedFor (aWithoutX.filter (·.isBundled)) diamond.requirementsOf history node.coordinate.moduleId) :=
  ⟨rfl, missing_iff_cutsOff rfl⟩

/-- The module `x` is missing, although nothing on the way from `b` excludes it. -/
theorem missing_below_second_path :
    ∃ resolution selection node, (diamond.resolve aWithoutX).run = .ok resolution ∧
      diamond.Settles aWithoutX selection ∧
      Chain (aWithoutX.filter (·.isBundled)) diamond.requirementsOf selection node ∧
      node.coordinate = firstVersion "x" ∧ ¬selection.Holds "g:x" := by
  let b : Declaration := { source := .maven (firstVersion "b"), transitive := true }
  let selection : Selection :=
    [.module (firstVersion "a") "g:a:1", .module (firstVersion "b") "g:b:1", .module (firstVersion "m") "g:a:1"]
  have hb : Chain (aWithoutX.filter (·.isBundled)) diamond.requirementsOf selection
      ⟨firstVersion "b", b.exclusions, b.label, true⟩ := .declared (by decide +kernel) rfl rfl
  have hm := hb.required (r := ⟨firstVersion "m", []⟩) (by decide +kernel) ⟨rfl, _, rfl, List.mem_singleton.2 rfl⟩
  have hx := hm.required (r := ⟨firstVersion "x", []⟩) (by decide +kernel) ⟨rfl, _, rfl, List.mem_singleton.2 rfl⟩
  exact ⟨_, selection, _, rfl, ⟨_, rfl, rfl⟩, hx, rfl, by decide +kernel⟩

end UberJar.Resolution
