import Mathlib.Algebra.GroupWithZero.Nat
import Mathlib.Data.List.Induction
import UberJar.Proofs.Resolution.History
import UberJar.Proofs.State

namespace UberJar.Resolution.Walk

variable {σ : Type} {requirementsOf : Coordinate → ExceptT ResolveError (StateM σ) (List Pom.Requirement)}

/-- The followed nodes, last one first, each with its requirements. -/
abbrev Record := List (Node × List Pom.Requirement)

/-- How far a walk may have come from `start`, where the state was `s₀`: the nodes queued so far, the nodes followed so
    far, and the walk and the state now. -/
inductive Course (requirementsOf : Coordinate → ExceptT ResolveError (StateM σ) (List Pom.Requirement)) (start : Walk)
    (s₀ : σ) : List Node → Record → Walk → σ → Prop
  | start : Course requirementsOf start s₀ start.queue [] start s₀
  | follow {queued joined : List Node} {record : Record} {w w' : Walk} {node : Node}
      {requirements : List Pom.Requirement} {s s' : σ} (course : Course requirementsOf start s₀ queued record w s)
      (hnext : w.next? = some (node, w'))
      (hrequirements : (requirementsOf node.coordinate).run.run s = (.ok requirements, s'))
      (hjoined : (w'.followAll node requirements).queue = w'.queue ++ joined) :
      Course requirementsOf start s₀ (queued ++ joined) ((node, requirements) :: record)
        (w'.followAll node requirements) s'

variable {start w w' : Walk} {s₀ s s' : σ} {queued : List Node} {record : Record} {node : Node}

/-- What joins the queue are nodes of some of the requirements. -/
theorem exists_joined (node : Node) (w : Walk) (requirements : List Pom.Requirement) :
    ∃ joined : List Pom.Requirement, joined.Sublist requirements ∧
      (w.followAll node requirements).queue = w.queue ++ joined.map node.below := by
  induction requirements generalizing w with
  | nil => exact ⟨[], .slnil, by simp [followAll]⟩
  | cons r requirements ih =>
    obtain ⟨joined, hsub, hqueue⟩ := ih (follow node w r)
    rw [followAll, List.foldl_cons, ← followAll, hqueue]
    rcases follow_cases node w r with ⟨heq, -⟩ | ⟨selection, -, -, heq⟩ <;> rw [heq]
    · exact ⟨joined, hsub.cons r, rfl⟩
    · exact ⟨r :: joined, hsub.cons_cons r, by simp⟩

theorem joined_sublist {requirements : List Pom.Requirement} {joined : List Node}
    (hjoined : (w.followAll node requirements).queue = w.queue ++ joined) :
    joined.Sublist (requirements.map node.below) := by
  obtain ⟨some, hsub, hqueue⟩ := exists_joined node w requirements
  rw [List.append_cancel_left (hjoined.symm.trans hqueue)]
  exact hsub.map _

/-- A node that is due has a text that was not followed before. -/
theorem next?_fresh (hnext : w.next? = some (node, w')) :
    node ∈ w.queue ∧ w'.queue ⊆ w.queue ∧ w'.selection = w.selection ∧ node.coordinate.render ∉ w.followed ∧
      w'.followed = node.coordinate.render :: w.followed := by
  obtain ⟨skipped, queue, hqueue, -, hdue, rfl⟩ := next?_eq_some hnext
  refine ⟨by simp [hqueue], fun n hn => by simp [hqueue, show n ∈ queue from hn], rfl, ?_, rfl⟩
  simp only [isDue, Bool.and_eq_true, Bool.not_eq_true', List.contains_eq_mem, decide_eq_false_iff_not] at hdue
  exact hdue.2

namespace Course

theorem followed (course : Course requirementsOf start s₀ queued record w s) (hstart : start.followed = []) :
    w.followed = record.map (·.1.coordinate.render) := by
  induction course with
  | start => exact hstart
  | follow course hnext hrequirements hjoined ih =>
    obtain ⟨-, -, -, -, hfollowed⟩ := next?_fresh hnext
    rw [followed_followAll, hfollowed, ih, List.map_cons]

/-- No text of a coordinate is followed twice. -/
theorem nodup (course : Course requirementsOf start s₀ queued record w s) (hstart : start.followed = []) :
    (record.map (·.1.coordinate.render)).Nodup := by
  induction course with
  | start => exact List.nodup_nil
  | follow course hnext hrequirements hjoined ih =>
    rw [List.map_cons, List.nodup_cons]
    exact ⟨course.followed hstart ▸ (next?_fresh hnext).2.2.2.1, ih⟩

/-- Every node was queued at the start, or for one of the requirements of a followed node. -/
theorem length_queued_le (course : Course requirementsOf start s₀ queued record w s) :
    queued.length ≤ start.queue.length + (record.map (·.2.length)).sum := by
  induction course with
  | start => simp
  | follow course hnext hrequirements hjoined ih =>
    have hcount := (joined_sublist hjoined).length_le
    simp only [List.length_append, List.length_map, List.map_cons, List.sum_cons] at hcount ⊢
    omega

/-- What waits was queued, and so was what is followed. -/
theorem mem_queued (course : Course requirementsOf start s₀ queued record w s) :
    w.queue ⊆ queued ∧ ∀ followed ∈ record, followed.1 ∈ queued := by
  induction course with
  | start => exact ⟨List.Subset.refl _, by simp⟩
  | @follow queued joined record w w' node requirements s s' course hnext hrequirements hjoined ih =>
    obtain ⟨hnode, hqueue, -⟩ := next?_fresh hnext
    constructor
    · rw [hjoined]
      have hwaiting := List.Subset.trans (List.Subset.trans hqueue ih.1) (List.subset_append_left queued joined)
      exact List.append_subset.2 ⟨hwaiting, List.subset_append_right _ _⟩
    · intro followed hmem
      rcases List.mem_cons.1 hmem with rfl | hmem
      · exact List.mem_append_left _ (ih.1 hnode)
      · exact List.mem_append_left _ (ih.2 followed hmem)

/-- What holds of the state at the start and of the nodes queued there, and is kept by looking up requirements, holds
    all the way. -/
theorem induction {P : σ → Prop} {Q : Node → Prop} (hstate : P s₀) (hqueue : ∀ n ∈ start.queue, Q n)
    (hkeeps : ∀ {node : Node} {requirements : List Pom.Requirement} {s s' : σ}, P s →
      (requirementsOf node.coordinate).run.run s = (.ok requirements, s') →
      P s' ∧ ∀ r ∈ requirements, Q (node.below r))
    (course : Course requirementsOf start s₀ queued record w s) : P s ∧ ∀ n ∈ queued, Q n := by
  induction course with
  | start => exact ⟨hstate, hqueue⟩
  | follow course hnext hrequirements hjoined ih =>
    obtain ⟨hstate', hbelow⟩ := hkeeps ih.1 hrequirements
    refine ⟨hstate', fun n hn => ?_⟩
    rcases List.mem_append.1 hn with hn | hn
    · exact ih.2 n hn
    · obtain ⟨r, hr, rfl⟩ := List.mem_map.1 ((joined_sublist hjoined).subset hn)
      exact hbelow r hr

end Course

/-- A walk that comes to an end has a course. -/
theorem course_of_run {fuel : Nat} {selection : Selection} (course : Course requirementsOf start s₀ queued record w s)
    (hrun : (run requirementsOf fuel w).run.run s = (.ok (some selection), s')) :
    ∃ queued record w', Course requirementsOf start s₀ queued record w' s' ∧ w'.next? = none ∧
      w'.selection = selection := by
  induction fuel generalizing queued record w s with
  | zero =>
    obtain ⟨hresult, rfl⟩ := run_pure_eq_ok hrun
    simp only [Option.ite_none_right_eq_some, Option.isNone_iff_eq_none, Option.some.injEq] at hresult
    exact ⟨queued, record, w, course, hresult⟩
  | succ fuel ih =>
    cases hnext : w.next? with
    | none =>
      simp only [run, hnext] at hrun
      obtain ⟨hresult, rfl⟩ := run_pure_eq_ok hrun
      exact ⟨queued, record, w, course, hnext, Option.some.inj hresult⟩
    | some found =>
      obtain ⟨node, w'⟩ := found
      simp only [run, hnext] at hrun
      obtain ⟨requirements, s₁, hrequirements, hrun⟩ := run_bind_state_eq_ok_iff.1 hrun
      obtain ⟨joined, -, hjoined⟩ := exists_joined node w' requirements
      exact ih (course.follow hnext hrequirements hjoined) hrun

section Declared

/-- Takes in a declaration. A local file is taken to be there. -/
def take (w : Walk) (d : Declaration) : Walk :=
  match d.source with
  | .maven c => w.declare d c
  | .file path => w.declareFile d path

/-- The walk that sets out from some declarations. -/
def ofDeclarations (declarations : List Declaration) : Walk := declarations.foldl take empty

/-- The node of a declaration; none for a local file. -/
def nodeOf? (d : Declaration) : Option Node :=
  match d.source with
  | .maven c => some ⟨c, d.exclusions, d.label, d.transitive⟩
  | .file _ => none

variable {library : Library (StateM σ)} {declarations : List Declaration}

theorem declare_eq_ok (hasks : ∀ path, ReadsOnly (library.isFile path)) {d : Declaration}
    (hdeclare : (library.declare w d).run.run s = (.ok w', s')) : w' = w.take d ∧ s' = s := by
  unfold Library.declare at hdeclare
  unfold take
  cases hsource : d.source with
  | maven c =>
    simp only [hsource] at hdeclare
    obtain ⟨rfl, rfl⟩ := run_pure_eq_ok hdeclare
    exact ⟨rfl, rfl⟩
  | file path =>
    simp only [hsource] at hdeclare
    rw [run_bind_of_ok (run_lift _ _), hasks path s] at hdeclare
    split at hdeclare
    · obtain ⟨rfl, rfl⟩ := run_pure_eq_ok hdeclare
      exact ⟨rfl, rfl⟩
    · cases (Prod.mk.inj hdeclare).1

theorem declared_eq_ok (hasks : ∀ path, ReadsOnly (library.isFile path))
    (hdeclared : (declarations.foldlM library.declare Walk.empty).run.run s = (.ok start, s')) :
    start = ofDeclarations declarations ∧ s' = s := by
  unfold ofDeclarations
  generalize Walk.empty = w at hdeclared ⊢
  induction declarations generalizing w with
  | nil =>
    obtain ⟨rfl, rfl⟩ := run_pure_eq_ok hdeclared
    exact ⟨rfl, rfl⟩
  | cons d declarations ih =>
    rw [List.foldlM_cons] at hdeclared
    obtain ⟨w₁, s₁, hfirst, hrest⟩ := run_bind_state_eq_ok_iff.1 hdeclared
    obtain ⟨rfl, rfl⟩ := declare_eq_ok hasks hfirst
    exact ih _ hrest

theorem followed_ofDeclarations (declarations : List Declaration) : (ofDeclarations declarations).followed = [] := by
  induction declarations using List.reverseRecOn with
  | nil => rfl
  | append_singleton declarations d ih =>
    rw [ofDeclarations, List.foldl_append, ← ofDeclarations, List.foldl_cons, List.foldl_nil, take]
    split <;> exact ih

theorem queue_ofDeclarations (declarations : List Declaration) :
    (ofDeclarations declarations).queue = declarations.filterMap nodeOf? := by
  induction declarations using List.reverseRecOn with
  | nil => rfl
  | append_singleton declarations d ih =>
    rw [ofDeclarations, List.foldl_append, ← ofDeclarations, List.foldl_cons, List.foldl_nil, take,
      List.filterMap_append, List.filterMap_cons, nodeOf?]
    cases d.source with
    | maven c => simp [declare, ih]
    | file path => simp [declareFile, ih]

end Declared

end UberJar.Resolution.Walk
