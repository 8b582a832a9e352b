import Mathlib.Data.Set.Card
import UberJar.Proofs.Resolution.Course
import UberJar.Proofs.Store.Contents

namespace UberJar.Resolution

namespace Walk

variable {σ : Type} {requirementsOf : Coordinate → ExceptT ResolveError (StateM σ) (List Pom.Requirement)}
  {start w w' : Walk} {s₀ s : σ} {queued : List Node} {record : Record} {node : Node} {texts : Set String}

theorem length_le_ncard (hfinite : texts.Finite) {names : List String} (hnodup : names.Nodup)
    (hmem : ∀ name ∈ names, name ∈ texts) : names.length ≤ texts.ncard := by
  have hsub : (names.toFinset : Set String) ⊆ texts := fun name hname => hmem name (by simpa using hname)
  have hcard := Set.ncard_le_ncard hsub hfinite
  rwa [Set.ncard_coe_finset, List.toFinset_card_of_nodup hnodup] at hcard

/-- As long as a node is due, some text has not been followed yet. -/
theorem Course.length_record_lt (course : Course requirementsOf start s₀ queued record w s)
    (hstart : start.followed = []) (hfinite : texts.Finite) (hwithin : ∀ n ∈ queued, n.coordinate.render ∈ texts)
    (hnext : w.next? = some (node, w')) : record.length < texts.ncard := by
  obtain ⟨hnode, -, -, hfresh, -⟩ := next?_fresh hnext
  obtain ⟨hqueue, hrecord⟩ := course.mem_queued
  rw [course.followed hstart] at hfresh
  have hcount := length_le_ncard hfinite (List.nodup_cons.2 ⟨hfresh, course.nodup hstart⟩) fun name hname => by
    rcases List.mem_cons.1 hname with rfl | hname
    · exact hwithin node (hqueue hnode)
    · obtain ⟨followed, hmem, rfl⟩ := List.mem_map.1 hname
      exact hwithin followed.1 (hrecord followed hmem)
  simpa using hcount

theorem run_of_next?_eq_none (hnext : w.next? = none) (fuel : Nat) (s : σ) :
    (run requirementsOf fuel w).run.run s = (.ok (some w.selection), s) := by
  cases fuel with
  | zero =>
    simp only [run, hnext]
    rfl
  | succ fuel =>
    simp only [run, hnext]
    rfl

/-- A walk whose nodes have finitely many texts does not run out of fuel, and does not depend on how much there is, if
    there is some for every text that it has not followed yet. -/
theorem run_add (hfinite : texts.Finite) (hstart : start.followed = [])
    (hwithin : ∀ queued record w s, Course requirementsOf start s₀ queued record w s →
      ∀ n ∈ queued, n.coordinate.render ∈ texts)
    (course : Course requirementsOf start s₀ queued record w s) {fuel : Nat}
    (henough : texts.ncard ≤ record.length + fuel) (more : Nat) :
    ((run requirementsOf fuel w).run.run s).1 ≠ .ok none ∧
      (run requirementsOf (fuel + more) w).run.run s = (run requirementsOf fuel w).run.run s := by
  induction fuel generalizing queued record w s with
  | zero =>
    have hnext : w.next? = none := by
      cases hnext : w.next? with
      | none => rfl
      | some found =>
        have hcount := course.length_record_lt hstart hfinite (hwithin _ _ _ _ course) hnext
        omega
    rw [run_of_next?_eq_none hnext, run_of_next?_eq_none hnext]
    exact ⟨by simp, rfl⟩
  | succ fuel ih =>
    cases hnext : w.next? with
    | none =>
      rw [run_of_next?_eq_none hnext, run_of_next?_eq_none hnext]
      exact ⟨by simp, rfl⟩
    | some found =>
      obtain ⟨node, w'⟩ := found
      rw [Nat.add_right_comm]
      simp only [run, hnext]
      cases hrequirements : (requirementsOf node.coordinate).run.run s with
      | mk result s' =>
        cases result with
        | error e =>
          rw [run_bind_of_error hrequirements, run_bind_of_error hrequirements]
          exact ⟨by simp, rfl⟩
        | ok requirements =>
          rw [run_bind_of_ok hrequirements, run_bind_of_ok hrequirements]
          obtain ⟨joined, -, hjoined⟩ := exists_joined node w' requirements
          refine ih (course.follow hnext hrequirements hjoined) ?_
          rw [List.length_cons]
          omega

end Walk

variable {store : Store (StateM FileTree)} {contents : Set Bytes} {t t' : FileTree}

/-- The nodes of a walk over finitely many contents are declared, or required by POMs made of these. -/
theorem Walk.Course.within (hreads : ∀ r ∈ store.repositories, r.IsReadOnly)
    (hserves : ∀ r ∈ store.repositories, r.Serves contents) (ht : t.HoldsOnly contents) {start w : Walk}
    {queued : List Node} {record : Walk.Record}
    (course : Walk.Course store.library.requirementsOf start t queued record w t') :
    ∀ n ∈ queued, n ∈ start.queue ∨ n.coordinate ∈ Store.coordinatesIn (Store.documentsIn contents) := by
  refine (course.induction (P := fun t => t.HoldsOnly contents)
    (Q := fun n => n ∈ start.queue ∨ n.coordinate ∈ Store.coordinatesIn (Store.documentsIn contents)) ht
    (fun n hn => .inl hn) fun {node requirements t₁ t₂} ht₁ hrequirements => ?_).2
  obtain ⟨hfills, hfound⟩ := Store.requirementsOf_eq_ok hreads hrequirements
  refine ⟨hfills.holdsOnly hserves ht₁, fun r hr => .inr ?_⟩
  rcases hfound with rfl | ⟨documents, hlength, hdocuments, rfl⟩
  · cases hr
  · exact ⟨documents, ⟨hlength, fun d hd => (hdocuments d hd).mem_documentsIn hserves ht₁⟩, r, hr, rfl⟩

/-- With finitely many contents in the files and the repositories, the walk from any declarations ends: from some bound
    on it never runs out of fuel, and more fuel makes no difference. On its way it follows no text of a coordinate
    twice, and queues at most one node for each declaration and each requirement of a followed node. -/
theorem walk_ends (hreads : ∀ r ∈ store.repositories, r.IsReadOnly) (hfinite : contents.Finite)
    (hserves : ∀ r ∈ store.repositories, r.Serves contents) (ht : t.HoldsOnly contents)
    {declarations : List Declaration} {start : Walk}
    (hdeclared : ((declarations.filter (·.isBundled)).foldlM store.library.declare Walk.empty).run.run t =
      (.ok start, t')) :
    (∃ bound, ∀ fuel ≥ bound,
      ((start.run store.library.requirementsOf fuel).run.run t').1 ≠ .ok none ∧
        (start.run store.library.requirementsOf fuel).run.run t' =
          (start.run store.library.requirementsOf bound).run.run t') ∧
      ∀ queued record w s, Walk.Course store.library.requirementsOf start t' queued record w s →
        (record.map (·.1.coordinate.render)).Nodup ∧
          queued.length ≤ declarations.length + (record.map (·.2.length)).sum := by
  have hasks (path : Path) : ReadsOnly (store.library.isFile path) :=
    fun s => congrArg Prod.snd (FileTree.run_isFile path s)
  obtain ⟨rfl, rfl⟩ := Walk.declared_eq_ok hasks hdeclared
  have hstart := Walk.followed_ofDeclarations (declarations.filter (·.isBundled))
  have hqueue := Walk.queue_ofDeclarations (declarations.filter (·.isBundled))
  generalize Walk.ofDeclarations (declarations.filter (·.isBundled)) = start at hstart hqueue ⊢
  constructor
  · let texts : Set String := Coordinate.render ''
      ({c | c ∈ start.queue.map (·.coordinate)} ∪ Store.coordinatesIn (Store.documentsIn contents))
    have htexts : texts.Finite := by
      refine Set.Finite.image _ (Set.Finite.union (List.finite_toSet _) ?_)
      exact Store.finite_coordinatesIn (Store.finite_documentsIn hfinite)
    have hwithin (queued : List Node) (record : Walk.Record) (w : Walk) (s : FileTree)
        (course : Walk.Course store.library.requirementsOf start t' queued record w s) :
        ∀ n ∈ queued, n.coordinate.render ∈ texts := by
      intro n hn
      refine Set.mem_image_of_mem _ ?_
      exact (course.within hreads hserves ht n hn).imp_left fun h => List.mem_map_of_mem h
    refine ⟨texts.ncard, fun fuel hfuel => ?_⟩
    obtain ⟨more, rfl⟩ := Nat.exists_eq_add_of_le hfuel
    have henough : texts.ncard ≤ ([] : Walk.Record).length + texts.ncard := by simp
    obtain ⟨hends, hsame⟩ := Walk.run_add htexts hstart hwithin .start henough more
    exact ⟨hsame ▸ hends, hsame⟩
  · intro queued record w s course
    have hcount := course.length_queued_le
    have hdeclared : start.queue.length ≤ declarations.length := by
      rw [hqueue]
      exact (List.length_filterMap_le _ _).trans (List.length_filter_le _ _)
    exact ⟨course.nodup hstart, by omega⟩

/-- The POM of a module that requires `m` at a version. -/
def requiringM (version : String) : Bytes :=
  Text.Utf8.encode ("<project><dependencies><dependency><groupId>g</groupId><artifactId>m</artifactId><version>" ++
    version ++ "</version></dependency></dependencies></project>").toList

/-- The POMs of three versions of `m`, each of which requires the next, and the last one the first. -/
def roundAbout : List (String × Bytes) :=
  [("g/m/3.0-2/m-3.0-2.pom", requiringM "3.0.0"), ("g/m/3.0.0/m-3.0.0.pom", requiringM "3.0.0.1"),
    ("g/m/3.0.0.1/m-3.0.0.1.pom", requiringM "3.0-2")]

/-- A store with a repository of these. -/
def roundAboutStore : Store (StateM FileTree) := ⟨⟨"cache"⟩, [Store.holding roundAbout]⟩

/-- A declaration of the first version. -/
def roundAboutDeclaration : Declaration := .ofSource (.maven { group := "g", artifact := "m", version := "3.0-2" })

/-- Each version is above the one that requires it, all the way round. Yet the walk ends. -/
theorem walk_ends_roundAbout :
    (Version.isAbove "3.0.0" "3.0-2" = true ∧ Version.isAbove "3.0.0.1" "3.0.0" = true ∧
      Version.isAbove "3.0-2" "3.0.0.1" = true) ∧
    ∃ bound, ∀ fuel ≥ bound,
      (((Walk.ofDeclarations [roundAboutDeclaration]).run roundAboutStore.library.requirementsOf fuel).run.run
        (.empty ["w"])).1 ≠ .ok none := by
  have hreads : ∀ r ∈ roundAboutStore.repositories, r.IsReadOnly := by
    intro r hr
    obtain rfl := List.mem_singleton.1 hr
    exact fun _ _ => rfl
  have hserves : ∀ r ∈ roundAboutStore.repositories, r.Serves {data | data ∈ roundAbout.map (·.2)} := by
    intro r hr
    obtain rfl := List.mem_singleton.1 hr
    exact Repository.serves_holding roundAbout
  have hdeclared : (([roundAboutDeclaration].filter (·.isBundled)).foldlM roundAboutStore.library.declare
      Walk.empty).run.run (.empty ["w"]) = (.ok (Walk.ofDeclarations [roundAboutDeclaration]), .empty ["w"]) := rfl
  obtain ⟨⟨bound, hends⟩, -⟩ :=
    walk_ends hreads (List.finite_toSet _) hserves (FileTree.holdsOnly_empty ["w"] _) hdeclared
  exact ⟨by decide +kernel, bound, fun fuel hfuel => (hends fuel hfuel).1⟩

end UberJar.Resolution
