import UberJar.Proofs.Resolution.History

namespace UberJar

namespace Selection

variable {s t : Selection} {c : Coordinate} {label : String}

theorem not_holds_of_find?_eq_none {key : String} (hfind : s.find? key = none) {selected : Selected}
    (hmem : selected ∈ s) : selected.holds key = false := by
  induction s with
  | nil => cases hmem
  | cons first s ih =>
    cases first with
    | file artifact =>
      rcases List.mem_cons.1 hmem with rfl | hmem
      · rfl
      · exact ih hfind hmem
    | module c label =>
      by_cases hkey : c.moduleId = key
      · rw [find?, if_pos hkey] at hfind
        cases hfind
      · rw [find?, if_neg hkey] at hfind
        rcases List.mem_cons.1 hmem with rfl | hmem
        · exact beq_eq_false_iff_ne.2 hkey
        · exact ih hfind hmem

/-- A granted request adds its coordinate under its label, or puts it in the place of another version and keeps the
    label there. The other modules stay. -/
theorem mem_of_request? (hrequest : s.request? c label = some t) {selected : Selected} (hmem : selected ∈ t) :
    (selected ∈ s ∧ selected.holds c.moduleId = false) ∨
      ∃ kept, selected = .module c kept ∧
        (kept = label ∨ ∃ current, .module current kept ∈ s ∧ current.moduleId = c.moduleId) := by
  unfold request? at hrequest
  cases hfind : s.find? c.moduleId with
  | none =>
    simp only [hfind, Option.some.injEq] at hrequest
    rw [← hrequest, List.mem_append, List.mem_singleton] at hmem
    rcases hmem with hmem | rfl
    · exact .inl ⟨hmem, not_holds_of_find?_eq_none hfind hmem⟩
    · exact .inr ⟨label, rfl, .inl rfl⟩
  | some current =>
    simp only [hfind, Option.ite_none_right_eq_some, Option.some.injEq] at hrequest
    rw [← hrequest.2, upgrade, List.mem_map] at hmem
    obtain ⟨old, hold, rfl⟩ := hmem
    cases old with
    | file artifact => exact .inl ⟨hold, rfl⟩
    | module other kept =>
      by_cases hsame : other.moduleId = c.moduleId
      · simp only [if_pos hsame]
        exact .inr ⟨kept, rfl, .inr ⟨other, hold, hsame⟩⟩
      · simp only [if_neg hsame]
        exact .inl ⟨hold, beq_eq_false_iff_ne.2 hsame⟩

/-- Each module of a selection is there at one version, and its files are local ones. -/
structure IsProper (s : Selection) : Prop where
  selected : ∀ {c label}, .module c label ∈ s → s.selects c = true
  localFile : ∀ {artifact}, .file artifact ∈ s → artifact.coordinate = none

theorem isProper_nil : IsProper [] where
  selected hmem := by cases hmem
  localFile hmem := by cases hmem

theorem IsProper.request? (hproper : s.IsProper) (hrequest : s.request? c label = some t) : t.IsProper where
  selected {c'} kept hmem := by
    rw [selects_iff, find?_of_request? hrequest]
    rcases mem_of_request? hrequest hmem with ⟨hold, hother⟩ | ⟨kept, hselected, -⟩
    · rw [if_neg (beq_eq_false_iff_ne.1 hother).symm]
      exact selects_iff.1 (hproper.selected hold)
    · obtain ⟨rfl, -⟩ := Selected.module.inj hselected
      exact if_pos rfl
  localFile hmem := by
    rcases mem_of_request? hrequest hmem with ⟨hold, -⟩ | ⟨kept, hselected, -⟩
    · exact hproper.localFile hold
    · cases hselected

theorem IsProper.append_file (hproper : s.IsProper) (path : Path) :
    IsProper (s ++ [.file ⟨none, path, label⟩]) where
  selected {c kept} hmem := by
    have hold : .module c kept ∈ s := by simpa using hmem
    rw [selects_iff, find?_append, selects_iff.1 (hproper.selected hold)]
    rfl
  localFile hmem := by
    rcases List.mem_append.1 hmem with hold | hnew
    · exact hproper.localFile hold
    · cases List.mem_singleton.1 hnew
      rfl

end Selection

namespace Resolution

variable {declarations : List Declaration}
  {requirementsOf : Coordinate → ExceptT ResolveError Id (List Pom.Requirement)}

/-- A module that is declared. -/
def IsDeclared (declarations : List Declaration) (key : String) : Prop :=
  ∃ d ∈ declarations, ∃ c, d.source = .maven c ∧ c.moduleId = key

namespace Walk

theorem follow_induction {node : Node} {motive : Selection → Prop}
    (hgranted : ∀ {r s t}, node.AsksFor requirementsOf r → motive s →
      s.request? r.coordinate node.requestedBy = some t → motive t)
    {w : Walk} {requirements : List Pom.Requirement}
    (hasks : ∀ r ∈ requirements, node.excludes r.coordinate = false → node.AsksFor requirementsOf r)
    (hstart : motive w.selection) : motive (w.followAll node requirements).selection := by
  induction requirements generalizing w with
  | nil => exact hstart
  | cons r requirements ih =>
    refine ih (fun r' hr' => hasks r' (List.mem_cons_of_mem _ hr')) ?_
    rcases follow_cases node w r with ⟨heq, -⟩ | ⟨selection, hpasses, hrequest, heq⟩ <;> rw [heq]
    · exact hstart
    · exact hgranted (hasks r List.mem_cons_self hpasses) hstart hrequest

/-- What every granted request of a node on a path keeps, a walk keeps. -/
theorem Reached.selection_induction {start w : Walk} {history : List Node} {motive : Selection → Prop}
    (hremembers : Remembers declarations requirementsOf [] start)
    (hgranted : ∀ {node r s t}, OnPath declarations requirementsOf node → node.AsksFor requirementsOf r → motive s →
      s.request? r.coordinate node.requestedBy = some t → motive t)
    (hstart : motive start.selection) (hreached : Reached requirementsOf start history w) : motive w.selection := by
  induction hreached with
  | start => exact hstart
  | @follow history w w' node requirements hreached hnext hrequirements ih =>
    have hpath := ((hreached.remembers hremembers).of_next? hnext).1
    obtain ⟨-, -, -, -, -, rfl⟩ := next?_eq_some hnext
    exact follow_induction (hgranted hpath) (fun r hr hpasses => ⟨hpasses, requirements, hrequirements, hr⟩) ih

end Walk

namespace Library

variable {library : Library Id}

theorem isProper_declared {start : Walk}
    (hdeclared : (declarations.foldlM library.declare Walk.empty).run = .ok start) :
    start.selection.IsProper := by
  refine declare_induction (motive := fun _ w => w.selection.IsProper) Selection.isProper_nil ?_ ?_ hdeclared
  · intro _ w d c hproper _
    cases hrequest : w.selection.request? c d.label with
    | none => simpa [Walk.declare, hrequest] using hproper
    | some selection => simpa [Walk.declare, hrequest] using hproper.request? hrequest
  · intro _ w d path hproper _
    exact hproper.append_file path

theorem Settles.isProper {selection : Selection} (hsettles : library.Settles declarations selection) :
    selection.IsProper := by
  obtain ⟨start, history, w, hdeclared, hreached, -, rfl⟩ := hsettles.reached
  exact hreached.selection_induction (declares_foldlM hdeclared).remembers
    (fun _ _ hproper hrequest => hproper.request? hrequest) (isProper_declared hdeclared)

/-- A coordinate without a file to bundle: a POM, or one that nothing but a POM of that packaging is found for. -/
def IsOnlyPom (library : Library Id) (c : Coordinate) : Prop :=
  c.isPom = true ∨
    (library.file c).run = .ok none ∧ ∃ pom, (library.effective? c).run = .ok (some pom) ∧ pom.hasNoJar = true

/-- Any other selected coordinate is bundled. -/
theorem artifact?_module {c : Coordinate} {label : String} {found : Option Artifact}
    (hartifact : (library.artifact? (.module c label)).run = .ok found) :
    (found = none ∧ library.IsOnlyPom c) ∨
      ¬library.IsOnlyPom c ∧ ∃ path, (library.file c).run = .ok (some path) ∧ found = some ⟨some c, path, label⟩ := by
  unfold artifact? at hartifact
  by_cases hpom : c.isPom = true
  · simp only [if_pos hpom] at hartifact
    exact .inl ⟨(Except.ok.inj hartifact).symm, .inl hpom⟩
  · simp only [if_neg hpom] at hartifact
    obtain ⟨path, hfile, hartifact⟩ := run_bind_eq_ok_iff.1 hartifact
    cases path with
    | some path =>
      refine .inr ⟨?_, path, hfile, (Except.ok.inj hartifact).symm⟩
      rintro (hpom' | ⟨hnone, -⟩)
      · exact hpom hpom'
      · cases hfile.symm.trans hnone
    | none =>
      obtain ⟨pom, heffective, hartifact⟩ := run_bind_eq_ok_iff.1 hartifact
      cases pom with
      | none => cases hartifact
      | some pom =>
        by_cases hnone : pom.hasNoJar = true
        · rw [Option.any_some, if_pos hnone] at hartifact
          exact .inl ⟨(Except.ok.inj hartifact).symm, .inr ⟨hfile, pom, heffective, hnone⟩⟩
        · rw [Option.any_some, if_neg hnone] at hartifact
          cases hartifact

theorem artifact?_eq_some {selected : Selected} {artifact : Artifact}
    (hartifact : (library.artifact? selected).run = .ok (some artifact)) :
    selected = .file artifact ∨
      ∃ c label path, selected = .module c label ∧ artifact = ⟨some c, path, label⟩ ∧ ¬library.IsOnlyPom c ∧
        (library.file c).run = .ok (some path) := by
  cases selected with
  | file given =>
    obtain rfl := Option.some.inj (Except.ok.inj hartifact)
    exact .inl rfl
  | module c label =>
    rcases artifact?_module hartifact with ⟨hnone, -⟩ | ⟨hjar, path, hfile, hsome⟩
    · cases hnone
    · exact .inr ⟨c, label, path, rfl, Option.some.inj hsome, hjar, hfile⟩

/-- A resolved artifact with a coordinate is the file of a selected module, and goes by its label. -/
theorem Settles.module_of_bundled {selection : Selection} (hsettles : library.Settles declarations selection)
    {artifacts : List (Option Artifact)} (hartifacts : (selection.mapM library.artifact?).run = .ok artifacts)
    {artifact : Artifact} (hmem : artifact ∈ artifacts.filterMap id) {c : Coordinate}
    (hcoordinate : artifact.coordinate = some c) :
    .module c artifact.requestedBy ∈ selection ∧ ¬library.IsOnlyPom c ∧
      (library.file c).run = .ok (some artifact.path) := by
  have hfound : some artifact ∈ artifacts := by simpa using hmem
  obtain ⟨selected, hselected, hartifact⟩ := (run_mapM_eq_ok hartifacts).2 _ hfound
  rcases artifact?_eq_some hartifact with rfl | ⟨c', label, path, rfl, rfl, hjar, hfile⟩
  · rw [hsettles.isProper.localFile hselected] at hcoordinate
    cases hcoordinate
  · obtain rfl := Option.some.inj hcoordinate
    exact ⟨hselected, hjar, hfile⟩

theorem Settles.module_mem {selection : Selection} (hsettles : library.Settles declarations selection)
    {artifacts : List (Option Artifact)} (hartifacts : (selection.mapM library.artifact?).run = .ok artifacts)
    {artifact : Artifact} (hmem : artifact ∈ artifacts.filterMap id) {c : Coordinate}
    (hcoordinate : artifact.coordinate = some c) : .module c artifact.requestedBy ∈ selection :=
  (hsettles.module_of_bundled hartifacts hmem hcoordinate).1

end Library
end Resolution
end UberJar
