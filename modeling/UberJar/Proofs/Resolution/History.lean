import UberJar.Proofs.Except
import UberJar.Proofs.Resolution.Selection
import UberJar.Resolution.Resolve

namespace UberJar.Resolution

variable {declarations : List Declaration}
  {requirementsOf : Coordinate → ExceptT ResolveError Id (List Pom.Requirement)}

/-- A node asks for what it requires and does not exclude. -/
def Node.AsksFor (requirementsOf : Coordinate → ExceptT ResolveError Id (List Pom.Requirement)) (node : Node)
    (r : Pom.Requirement) : Prop :=
  node.excludes r.coordinate = false ∧
    ∃ requirements, (requirementsOf node.coordinate).run = .ok requirements ∧ r ∈ requirements

/-- A node that the declarations and requirements lead to: its exclusions are those of a transitive declaration
    and of the requirements on the way from there. -/
inductive OnPath (declarations : List Declaration)
    (requirementsOf : Coordinate → ExceptT ResolveError Id (List Pom.Requirement)) : Node → Prop
  | declared {d : Declaration} {c : Coordinate} (hmem : d ∈ declarations) (hsource : d.source = .maven c)
      (htransitive : d.transitive = true) :
      OnPath declarations requirementsOf ⟨c, d.exclusions, d.label, true⟩
  | required {node : Node} {r : Pom.Requirement} (path : OnPath declarations requirementsOf node)
      (hasks : node.AsksFor requirementsOf r) : OnPath declarations requirementsOf (node.below r)

/-- A coordinate that is declared, but never together with its requirements. -/
def Pinned (declarations : List Declaration) (c : Coordinate) : Prop :=
  (∃ d ∈ declarations, d.source = .maven c) ∧ ∀ d ∈ declarations, d.source = .maven c → d.transitive = false

/-- A module that is declared, or that one of the followed nodes asks for. -/
def AskedFor (declarations : List Declaration)
    (requirementsOf : Coordinate → ExceptT ResolveError Id (List Pom.Requirement)) (history : List Node)
    (key : String) : Prop :=
  (∃ d ∈ declarations, ∃ c, d.source = .maven c ∧ c.moduleId = key) ∨
    ∃ node ∈ history, ∃ r, node.AsksFor requirementsOf r ∧ r.coordinate.moduleId = key

theorem Node.asksFor_iff {node : Node} {requirements : List Pom.Requirement}
    (hrequirements : (requirementsOf node.coordinate).run = .ok requirements) {r : Pom.Requirement} :
    node.AsksFor requirementsOf r ↔ r ∈ requirements ∧ node.excludes r.coordinate = false := by
  constructor
  · rintro ⟨hpasses, requirements', hrequirements', hmem⟩
    obtain rfl := Except.ok.inj (hrequirements.symm.trans hrequirements')
    exact ⟨hmem, hpasses⟩
  · exact fun ⟨hmem, hpasses⟩ => ⟨hpasses, requirements, hrequirements, hmem⟩

theorem askedFor_cons {history : List Node} {node : Node} {key : String} :
    AskedFor declarations requirementsOf (node :: history) key ↔
      AskedFor declarations requirementsOf history key ∨
        ∃ r, node.AsksFor requirementsOf r ∧ r.coordinate.moduleId = key := by
  simp only [AskedFor, List.mem_cons, exists_eq_or_imp]
  exact or_assoc.symm.trans or_right_comm

namespace Walk

/-- Walks that come from `start`, each with the nodes followed since. -/
inductive Reached (requirementsOf : Coordinate → ExceptT ResolveError Id (List Pom.Requirement)) (start : Walk) :
    List Node → Walk → Prop
  | start : Reached requirementsOf start [] start
  | follow {history : List Node} {w w' : Walk} {node : Node} {requirements : List Pom.Requirement}
      (reached : Reached requirementsOf start history w) (hnext : w.next? = some (node, w'))
      (hrequirements : (requirementsOf node.coordinate).run = .ok requirements) :
      Reached requirementsOf start (node :: history) (w'.followAll node requirements)

theorem reached_of_run {start : Walk} {history : List Node} {w : Walk} {fuel : Nat} {selection : Selection}
    (hreached : Reached requirementsOf start history w)
    (hrun : (run requirementsOf fuel w).run = .ok (some selection)) :
    ∃ history w, Reached requirementsOf start history w ∧ w.next? = none ∧ w.selection = selection := by
  induction fuel generalizing history w with
  | zero =>
    have hresult : (if w.next?.isNone then some w.selection else none) = some selection := Except.ok.inj hrun
    simp only [Option.ite_none_right_eq_some, Option.isNone_iff_eq_none, Option.some.injEq] at hresult
    exact ⟨history, w, hreached, hresult⟩
  | succ fuel ih =>
    cases hnext : w.next? with
    | none =>
      simp only [run, hnext] at hrun
      exact ⟨history, w, hreached, hnext, Option.some.inj (Except.ok.inj hrun)⟩
    | some found =>
      obtain ⟨node, w'⟩ := found
      simp only [run, hnext] at hrun
      obtain ⟨requirements, hrequirements, hrun⟩ := run_bind_eq_ok_iff.1 hrun
      exact ih (hreached.follow hnext hrequirements) hrun

theorem next?_eq_some {w w' : Walk} {node : Node} (hnext : w.next? = some (node, w')) :
    ∃ skipped queue, w.queue = skipped ++ node :: queue ∧ (∀ n ∈ skipped, w.isDue n = false) ∧
      w.isDue node = true ∧ w' = { w with queue, followed := node.coordinate.render :: w.followed } := by
  unfold next? at hnext
  cases hdrop : w.queue.dropWhile (!w.isDue ·) with
  | nil => simp [hdrop] at hnext
  | cons first queue =>
    simp only [hdrop, Option.some.injEq, Prod.mk.injEq] at hnext
    obtain ⟨rfl, rfl⟩ := hnext
    refine ⟨w.queue.takeWhile (!w.isDue ·), queue, ?_, fun n hn => ?_, ?_, rfl⟩
    · rw [← hdrop, List.takeWhile_append_dropWhile]
    · simpa using List.all_eq_true.1 (List.all_takeWhile (p := (!w.isDue ·)) (l := w.queue)) n hn
    · have hhead := List.head?_dropWhile_not (!w.isDue ·) w.queue
      simpa [hdrop] using hhead

theorem isDue_of_next?_eq_none {w : Walk} (hnext : w.next? = none) : ∀ n ∈ w.queue, w.isDue n = false := by
  unfold next? at hnext
  cases hdrop : w.queue.dropWhile (!w.isDue ·) with
  | nil =>
    intro n hn
    have hall := List.all_takeWhile (p := (!w.isDue ·)) (l := w.queue)
    rw [← List.takeWhile_append_dropWhile (p := (!w.isDue ·)) (l := w.queue), hdrop, List.append_nil] at hn
    simpa using List.all_eq_true.1 hall n hn
  | cons first queue => simp [hdrop] at hnext

/-- Asking for a requirement leaves the walk as it is, if it is excluded or its module is held at a version that
    is not older; else the requirement is selected and joins the queue. -/
theorem follow_cases (node : Node) (w : Walk) (r : Pom.Requirement) :
    (follow node w r = w ∧ (node.excludes r.coordinate = true ∨ w.selection.Holds r.coordinate.moduleId)) ∨
      ∃ selection, node.excludes r.coordinate = false ∧
        w.selection.request? r.coordinate node.requestedBy = some selection ∧
        follow node w r = { w with selection, queue := w.queue ++ [node.below r] } := by
  unfold follow
  cases hexcludes : node.excludes r.coordinate with
  | true => simp
  | false =>
    cases hrequest : w.selection.request? r.coordinate node.requestedBy with
    | none => simp [Selection.holds_of_request?_eq_none hrequest]
    | some selection => simp

@[simp] theorem followed_follow (node : Node) (w : Walk) (r : Pom.Requirement) :
    (follow node w r).followed = w.followed := by
  rcases follow_cases node w r with ⟨heq, -⟩ | ⟨selection, -, -, heq⟩ <;> rw [heq]

@[simp] theorem followed_followAll (node : Node) (w : Walk) (requirements : List Pom.Requirement) :
    (w.followAll node requirements).followed = w.followed := by
  induction requirements generalizing w with
  | nil => rfl
  | cons r requirements ih => exact (ih (follow node w r)).trans (followed_follow node w r)

/-- What joins the queue lies below the node. -/
theorem mem_queue_followAll {node n : Node} {w : Walk} {requirements : List Pom.Requirement}
    (hmem : n ∈ (w.followAll node requirements).queue) :
    n ∈ w.queue ∨ ∃ r ∈ requirements, node.excludes r.coordinate = false ∧ n = node.below r := by
  induction requirements generalizing w with
  | nil => exact .inl hmem
  | cons r requirements ih =>
    rcases ih hmem with hqueue | ⟨r', hr', hpasses, rfl⟩
    · rcases follow_cases node w r with ⟨heq, -⟩ | ⟨selection, hpasses, -, heq⟩
      · exact .inl (heq ▸ hqueue)
      · rw [heq] at hqueue
        rcases List.mem_append.1 hqueue with hqueue | hnew
        · exact .inl hqueue
        · exact .inr ⟨r, by simp, hpasses, List.mem_singleton.1 hnew⟩
    · exact .inr ⟨r', List.mem_cons_of_mem _ hr', hpasses, rfl⟩

theorem queue_subset_follow (node : Node) (w : Walk) (r : Pom.Requirement) :
    w.queue ⊆ (follow node w r).queue := by
  rcases follow_cases node w r with ⟨heq, -⟩ | ⟨selection, -, -, heq⟩ <;> rw [heq]
  · exact List.Subset.refl _
  · exact List.subset_append_left _ _

theorem queue_subset_followAll (node : Node) (w : Walk) (requirements : List Pom.Requirement) :
    w.queue ⊆ (w.followAll node requirements).queue := by
  induction requirements generalizing w with
  | nil => exact List.Subset.refl _
  | cons r requirements ih => exact List.Subset.trans (queue_subset_follow node w r) (ih (follow node w r))

theorem holds_follow_iff (node : Node) (w : Walk) (r : Pom.Requirement) (key : String) :
    (follow node w r).selection.Holds key ↔
      w.selection.Holds key ∨ (node.excludes r.coordinate = false ∧ r.coordinate.moduleId = key) := by
  rcases follow_cases node w r with ⟨heq, hexcluded | hholds⟩ | ⟨selection, hpasses, hrequest, heq⟩
  · simp [heq, hexcluded]
  · rw [heq]
    constructor
    · exact .inl
    · rintro (h | ⟨-, rfl⟩)
      · exact h
      · exact hholds
  · have hgranted := Selection.holds_getD_request? w.selection r.coordinate node.requestedBy key
    rw [hrequest, Option.getD_some] at hgranted
    simp [heq, hpasses, hgranted]

/-- Following a node selects the modules that it asks for, and no others. -/
theorem holds_followAll_iff (node : Node) (w : Walk) (requirements : List Pom.Requirement) (key : String) :
    (w.followAll node requirements).selection.Holds key ↔
      w.selection.Holds key ∨
        ∃ r ∈ requirements, node.excludes r.coordinate = false ∧ r.coordinate.moduleId = key := by
  induction requirements generalizing w with
  | nil => simp [followAll]
  | cons r requirements ih =>
    have hrest := ih (follow node w r)
    rw [holds_follow_iff] at hrest
    simp only [List.mem_cons, exists_eq_or_imp, ← or_assoc]
    exact hrest

/-- A coordinate that becomes the selected one waits in the queue. -/
theorem selects_followAll {node : Node} {w : Walk} {requirements : List Pom.Requirement} {c : Coordinate}
    (hselects : (w.followAll node requirements).selection.selects c = true) :
    w.selection.selects c = true ∨
      ∃ n ∈ (w.followAll node requirements).queue, n.coordinate = c ∧ n.transitive = true := by
  induction requirements generalizing w with
  | nil => exact .inl hselects
  | cons r requirements ih =>
    rcases ih hselects with hstep | hqueue
    · rcases follow_cases node w r with ⟨heq, -⟩ | ⟨selection, hpasses, hrequest, heq⟩
      · exact .inl (heq ▸ hstep)
      · rw [heq, Selection.selects_iff, Selection.find?_of_request? hrequest] at hstep
        by_cases hkey : r.coordinate.moduleId = c.moduleId
        · rw [if_pos hkey, Option.some.injEq] at hstep
          refine .inr ⟨node.below r, ?_, hstep, rfl⟩
          exact queue_subset_followAll node (follow node w r) requirements (by simp [heq])
        · rw [if_neg hkey] at hstep
          exact .inl (Selection.selects_iff.2 hstep)
    · exact .inr hqueue

/-- The walk holds what is declared, and has not followed anything yet. -/
structure Declares (declarations : List Declaration) (w : Walk) : Prop where
  followed : w.followed = []
  queue : ∀ n, n ∈ w.queue ↔
    ∃ d ∈ declarations, ∃ c, d.source = .maven c ∧ n = ⟨c, d.exclusions, d.label, d.transitive⟩
  holds : ∀ key, w.selection.Holds key ↔ ∃ d ∈ declarations, ∃ c, d.source = .maven c ∧ c.moduleId = key
  selects : ∀ c, w.selection.selects c = true → ∃ d ∈ declarations, d.source = .maven c

theorem declares_empty : Declares [] Walk.empty where
  followed := rfl
  queue n := by simp [Walk.empty]
  holds key := by simp [Walk.empty, Selection.Holds, Selection.find?]
  selects c hselects := by simp [Walk.empty, Selection.selects, Selection.find?] at hselects

theorem Declares.declare {w : Walk} (hdeclares : Declares declarations w) {d : Declaration} {c : Coordinate}
    (hsource : d.source = .maven c) : Declares (declarations ++ [d]) (w.declare d c) where
  followed := hdeclares.followed
  queue n := by
    simp only [Walk.declare, List.mem_append, hdeclares.queue, List.mem_singleton, or_and_right, exists_or,
      exists_eq_left, hsource, Source.maven.injEq, exists_eq_left']
  holds key := by
    simp only [Walk.declare, Selection.holds_getD_request?, hdeclares.holds, List.mem_append, List.mem_singleton,
      or_and_right, exists_or, exists_eq_left, hsource, Source.maven.injEq, exists_eq_left']
  selects c' hselects := by
    cases hrequest : w.selection.request? c d.label with
    | none =>
      simp only [Walk.declare, hrequest, Option.getD_none] at hselects
      obtain ⟨d', hmem, hd'⟩ := hdeclares.selects c' hselects
      exact ⟨d', List.mem_append_left _ hmem, hd'⟩
    | some selection =>
      simp only [Walk.declare, hrequest, Option.getD_some, Selection.selects_iff,
        Selection.find?_of_request? hrequest] at hselects
      by_cases hkey : c.moduleId = c'.moduleId
      · rw [if_pos hkey, Option.some.injEq] at hselects
        exact ⟨d, by simp, by rw [hsource, hselects]⟩
      · rw [if_neg hkey] at hselects
        obtain ⟨d', hmem, hd'⟩ := hdeclares.selects c' (Selection.selects_iff.2 hselects)
        exact ⟨d', List.mem_append_left _ hmem, hd'⟩

theorem Declares.declareFile {w : Walk} (hdeclares : Declares declarations w) {d : Declaration} {path : Path}
    (hsource : d.source = .file path) : Declares (declarations ++ [d]) (w.declareFile d path) := by
  have hfind (key : String) : (w.declareFile d path).selection.find? key = w.selection.find? key := by
    simp [Walk.declareFile, Selection.find?_append, Selection.find?]
  refine ⟨hdeclares.followed, fun n => ?_, fun key => ?_, fun c hselects => ?_⟩
  · rw [show (w.declareFile d path).queue = w.queue from rfl, hdeclares.queue]
    simp [hsource, or_and_right, exists_or]
  · rw [Selection.Holds, hfind, ← Selection.Holds, hdeclares.holds]
    simp [hsource, or_and_right, exists_or]
  · rw [Selection.selects_iff, hfind] at hselects
    obtain ⟨d', hmem, hd'⟩ := hdeclares.selects c (Selection.selects_iff.2 hselects)
    exact ⟨d', List.mem_append_left _ hmem, hd'⟩

/-- What a walk keeps in step with its history. -/
structure Remembers (declarations : List Declaration)
    (requirementsOf : Coordinate → ExceptT ResolveError Id (List Pom.Requirement)) (history : List Node) (w : Walk) :
    Prop where
  followed : w.followed = history.map (·.coordinate.render)
  once : (history.map (·.coordinate.render)).Nodup
  paths : ∀ n ∈ history, OnPath declarations requirementsOf n
  waiting : ∀ n ∈ w.queue, n.transitive = true → OnPath declarations requirementsOf n
  holds : ∀ key, w.selection.Holds key ↔ AskedFor declarations requirementsOf history key
  /-- Whatever is selected has been followed or waits to be, unless it is pinned. -/
  covers : ∀ c, w.selection.selects c = true →
    Pinned declarations c ∨ c.render ∈ w.followed ∨ ∃ n ∈ w.queue, n.coordinate = c ∧ n.transitive = true

theorem Declares.remembers {w : Walk} (hdeclares : Declares declarations w) :
    Remembers declarations requirementsOf [] w where
  followed := hdeclares.followed
  once := List.nodup_nil
  paths n hn := by simp at hn
  waiting n hn htransitive := by
    obtain ⟨d, hmem, c, hsource, rfl⟩ := (hdeclares.queue n).1 hn
    have hdeclared : OnPath declarations requirementsOf ⟨c, d.exclusions, d.label, true⟩ :=
      .declared hmem hsource htransitive
    rwa [← show d.transitive = true from htransitive] at hdeclared
  holds key := by simp [hdeclares.holds, AskedFor]
  covers c hselects := by
    by_cases hpinned : Pinned declarations c
    · exact .inl hpinned
    · obtain ⟨d, hmem, hsource⟩ := hdeclares.selects c hselects
      have htransitive : ∃ d ∈ declarations, d.source = .maven c ∧ d.transitive = true := by
        refine Classical.byContradiction fun hno => hpinned ⟨⟨d, hmem, hsource⟩, fun d' hmem' hsource' => ?_⟩
        rw [← Bool.not_eq_true]
        exact fun h => hno ⟨d', hmem', hsource', h⟩
      obtain ⟨d', hmem', hsource', h⟩ := htransitive
      exact .inr (.inr ⟨_, (hdeclares.queue _).2 ⟨d', hmem', c, hsource', rfl⟩, rfl, h⟩)

/-- The node that is followed next lies on a path, and its module was asked for before. -/
theorem Remembers.of_next? {history : List Node} {w w' : Walk} {node : Node}
    (hremembers : Remembers declarations requirementsOf history w) (hnext : w.next? = some (node, w')) :
    OnPath declarations requirementsOf node ∧
      AskedFor declarations requirementsOf history node.coordinate.moduleId := by
  obtain ⟨skipped, queue, hqueue, -, hdue, -⟩ := next?_eq_some hnext
  simp only [isDue, Bool.and_eq_true] at hdue
  constructor
  · exact hremembers.waiting node (by simp [hqueue]) hdue.1.1
  · exact (hremembers.holds _).1 (Selection.holds_of_selects hdue.1.2)

/-- What was selected before a node is followed has been followed, waits behind it, or is the node, unless it is
    pinned. -/
theorem Remembers.covers_of_next? {history : List Node} {w w' : Walk} {node : Node}
    (hremembers : Remembers declarations requirementsOf history w) (hnext : w.next? = some (node, w')) {c : Coordinate}
    (hselects : w.selection.selects c = true) :
    Pinned declarations c ∨ c.render ∈ w'.followed ∨ ∃ n ∈ w'.queue, n.coordinate = c ∧ n.transitive = true := by
  obtain ⟨skipped, queue, hqueue, hskipped, -, rfl⟩ := next?_eq_some hnext
  rcases hremembers.covers c hselects with hpinned | hfollowed | ⟨n, hn, rfl, htransitive⟩
  · exact .inl hpinned
  · exact .inr (.inl (List.mem_cons_of_mem _ hfollowed))
  · rw [hqueue] at hn
    rcases List.mem_append.1 hn with hn | hn
    · have hnot := hskipped n hn
      rw [isDue, htransitive, hselects] at hnot
      have hfollowed : n.coordinate.render ∈ w.followed := by simpa using hnot
      exact .inr (.inl (List.mem_cons_of_mem _ hfollowed))
    · rcases List.mem_cons.1 hn with rfl | hn
      · exact .inr (.inl List.mem_cons_self)
      · exact .inr (.inr ⟨n, hn, rfl, htransitive⟩)

/-- Following one node. -/
theorem Remembers.follow {history : List Node} {w w' : Walk} {node : Node} {requirements : List Pom.Requirement}
    (hremembers : Remembers declarations requirementsOf history w) (hnext : w.next? = some (node, w'))
    (hrequirements : (requirementsOf node.coordinate).run = .ok requirements) :
    Remembers declarations requirementsOf (node :: history) (w'.followAll node requirements) := by
  have hpath := (hremembers.of_next? hnext).1
  have hcovers {c : Coordinate} (hselects : w.selection.selects c = true) := hremembers.covers_of_next? hnext hselects
  obtain ⟨skipped, queue, hqueue, -, hdue, rfl⟩ := next?_eq_some hnext
  simp only [isDue, Bool.and_eq_true, Bool.not_eq_true', List.contains_eq_mem, decide_eq_false_iff_not] at hdue
  refine ⟨?_, ?_, ?_, ?_, ?_, ?_⟩
  · rw [followed_followAll, List.map_cons, ← hremembers.followed]
  · rw [List.map_cons, List.nodup_cons, ← hremembers.followed]
    exact ⟨hdue.2, hremembers.followed ▸ hremembers.once⟩
  · rintro n hn
    rcases List.mem_cons.1 hn with rfl | hn
    · exact hpath
    · exact hremembers.paths n hn
  · intro n hn htransitive
    rcases mem_queue_followAll hn with hold | ⟨r, hr, hpasses, rfl⟩
    · exact hremembers.waiting n (by simp [hqueue, show n ∈ queue from hold]) htransitive
    · exact hpath.required ((Node.asksFor_iff hrequirements).2 ⟨hr, hpasses⟩)
  · intro key
    simp only [holds_followAll_iff, hremembers.holds, askedFor_cons, Node.asksFor_iff hrequirements, and_assoc]
  · intro c hselects
    rw [followed_followAll]
    rcases selects_followAll hselects with hold | hnew
    · rcases hcovers hold with hpinned | hfollowed | ⟨n, hn, hwaiting⟩
      · exact .inl hpinned
      · exact .inr (.inl hfollowed)
      · exact .inr (.inr ⟨n, queue_subset_followAll _ _ _ hn, hwaiting⟩)
    · exact .inr (.inr hnew)

theorem Reached.remembers {start w : Walk} {history : List Node}
    (hstart : Remembers declarations requirementsOf [] start) (hreached : Reached requirementsOf start history w) :
    Remembers declarations requirementsOf history w := by
  induction hreached with
  | start => exact hstart
  | follow hreached hnext hrequirements ih => exact ih.follow hnext hrequirements

end Walk

namespace Library

theorem declare_cases {library : Library Id} {w w' : Walk} {d : Declaration}
    (hdeclare : (library.declare w d).run = .ok w') :
    (∃ c, d.source = .maven c ∧ w' = w.declare d c) ∨ ∃ path, d.source = .file path ∧ w' = w.declareFile d path := by
  unfold declare at hdeclare
  cases hsource : d.source with
  | maven c =>
    simp only [hsource] at hdeclare
    exact .inl ⟨c, rfl, (Except.ok.inj hdeclare).symm⟩
  | file path =>
    simp only [hsource] at hdeclare
    obtain ⟨isFile, -, hdeclare⟩ := run_bind_eq_ok_iff.1 hdeclare
    cases isFile with
    | true => exact .inr ⟨path, rfl, (Except.ok.inj hdeclare).symm⟩
    | false => cases hdeclare

/-- What each declaration keeps, all of them keep. -/
theorem declare_induction {library : Library Id} {motive : List Declaration → Walk → Prop}
    (empty : motive [] Walk.empty)
    (maven : ∀ {declared w d c}, motive declared w → d.source = .maven c → motive (declared ++ [d]) (w.declare d c))
    (file : ∀ {declared w d path}, motive declared w → d.source = .file path →
      motive (declared ++ [d]) (w.declareFile d path))
    {w : Walk} (hfold : (declarations.foldlM library.declare Walk.empty).run = .ok w) : motive declarations w := by
  have hrest {declared rest : List Declaration} {w w' : Walk} (hstart : motive declared w)
      (hfold : (rest.foldlM library.declare w).run = .ok w') : motive (declared ++ rest) w' := by
    induction rest generalizing declared w with
    | nil =>
      rw [List.append_nil]
      exact Except.ok.inj hfold ▸ hstart
    | cons d rest ih =>
      obtain ⟨w₁, hdeclare, hfold⟩ := run_bind_eq_ok_iff.1 hfold
      rw [List.append_cons]
      rcases declare_cases hdeclare with ⟨c, hsource, rfl⟩ | ⟨path, hsource, rfl⟩
      · exact ih (maven hstart hsource) hfold
      · exact ih (file hstart hsource) hfold
  exact hrest empty hfold

theorem declares_foldlM {library : Library Id} {w : Walk}
    (hfold : (declarations.foldlM library.declare Walk.empty).run = .ok w) : Walk.Declares declarations w :=
  declare_induction (motive := Walk.Declares) Walk.declares_empty (fun h hsource => h.declare hsource)
    (fun h hsource => h.declareFile hsource) hfold

/-- The selection that the walk from the declarations to be bundled ends with. -/
def Settles (library : Library Id) (declarations : List Declaration) (selection : Selection) : Prop :=
  ∃ walk, ((declarations.filter (·.isBundled)).foldlM library.declare Walk.empty).run = .ok walk ∧
    (walk.run library.requirementsOf maxFollowed).run = .ok (some selection)

/-- A resolution is the files of a selection and the labels of the other declarations. -/
theorem resolve_eq_ok_iff {library : Library Id} {declarations : List Declaration} {resolution : Resolution} :
    (library.resolve declarations).run = .ok resolution ↔
      ∃ selection artifacts, library.Settles declarations selection ∧
        (selection.mapM library.artifact?).run = .ok artifacts ∧
        resolution = ⟨artifacts.filterMap id, (declarations.filter (!·.isBundled)).map (·.label)⟩ := by
  rw [resolve, List.partition_eq_filter_filter]
  simp only [run_bind_eq_ok_iff]
  constructor
  · rintro ⟨walk, hdeclared, found, hrun, hfiles⟩
    cases found with
    | none => cases hfiles
    | some selection =>
      obtain ⟨artifacts, hartifacts, hresolution⟩ := run_bind_eq_ok_iff.1 hfiles
      exact ⟨selection, artifacts, ⟨walk, hdeclared, hrun⟩, hartifacts, (Except.ok.inj hresolution).symm⟩
  · rintro ⟨selection, artifacts, ⟨walk, hdeclared, hrun⟩, hartifacts, rfl⟩
    refine ⟨walk, hdeclared, some selection, hrun, ?_⟩
    exact run_bind_eq_ok_iff.2 ⟨artifacts, hartifacts, rfl⟩

/-- A finished walk has followed, for each coordinate that it selects, a node with its text, unless the coordinate
    is pinned. -/
structure Follows (library : Library Id) (declarations : List Declaration) (selection : Selection)
    (history : List Node) : Prop where
  once : (history.map (·.coordinate.render)).Nodup
  paths : ∀ n ∈ history, OnPath declarations library.requirementsOf n
  holds : ∀ key, selection.Holds key ↔ AskedFor declarations library.requirementsOf history key
  covers : ∀ c, selection.selects c = true →
    Pinned declarations c ∨ ∃ n ∈ history, n.coordinate.render = c.render

theorem Settles.reached {library : Library Id} {selection : Selection}
    (hsettles : library.Settles declarations selection) :
    ∃ start history w, ((declarations.filter (·.isBundled)).foldlM library.declare Walk.empty).run = .ok start ∧
      Walk.Reached library.requirementsOf start history w ∧ w.next? = none ∧ w.selection = selection := by
  obtain ⟨start, hdeclared, hrun⟩ := hsettles
  obtain ⟨history, w, hreached, hnext, hselection⟩ := Walk.reached_of_run .start hrun
  exact ⟨start, history, w, hdeclared, hreached, hnext, hselection⟩

/-- A walk that has nothing left to follow. -/
theorem follows_of_remembers {library : Library Id} {history : List Node} {w : Walk}
    (hremembers : Walk.Remembers declarations library.requirementsOf history w) (hnext : w.next? = none) :
    library.Follows declarations w.selection history := by
  refine ⟨hremembers.once, hremembers.paths, hremembers.holds, fun c hselects => ?_⟩
  have hhistory (hfollowed : c.render ∈ w.followed) : ∃ n ∈ history, n.coordinate.render = c.render := by
    rw [hremembers.followed] at hfollowed
    exact List.mem_map.1 hfollowed
  rcases hremembers.covers c hselects with hpinned | hfollowed | ⟨n, hn, rfl, htransitive⟩
  · exact .inl hpinned
  · exact .inr (hhistory hfollowed)
  · have hnot := Walk.isDue_of_next?_eq_none hnext n hn
    rw [Walk.isDue, htransitive, hselects] at hnot
    exact .inr (hhistory (by simpa using hnot))

theorem Settles.follows {library : Library Id} {selection : Selection}
    (hsettles : library.Settles declarations selection) :
    ∃ history, library.Follows (declarations.filter (·.isBundled)) selection history := by
  obtain ⟨start, history, w, hdeclared, hreached, hnext, rfl⟩ := hsettles.reached
  exact ⟨history, follows_of_remembers (hreached.remembers (declares_foldlM hdeclared).remembers) hnext⟩

end Library
end UberJar.Resolution
