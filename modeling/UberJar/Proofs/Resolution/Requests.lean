import Mathlib.Data.List.Induction
import UberJar.Proofs.Resolution.Superseded
import UberJar.Proofs.Version.Order

namespace UberJar

namespace Selection

/-- What is selected for a module after one more request for it. -/
def prefer : Option Coordinate → Coordinate → Option Coordinate
  | none, c => some c
  | some current, c => if Version.isAbove c.version current.version then some c else some current

/-- What is selected for a module after some requests for it. -/
def newest (requests : List Coordinate) : Option Coordinate := requests.foldl prefer none

theorem newest_append_singleton (requests : List Coordinate) (c : Coordinate) :
    newest (requests ++ [c]) = prefer (newest requests) c := by
  simp [newest]

theorem prefer_eq_some {current : Option Coordinate} {c selected : Coordinate}
    (hprefer : prefer current c = some selected) :
    (selected = c ∧ ∀ old, current = some old → Version.compare c.version old.version = .gt) ∨
      (current = some selected ∧ Version.compare c.version selected.version ≠ .gt) := by
  cases current with
  | none => exact .inl ⟨(Option.some.inj hprefer).symm, by simp⟩
  | some old =>
    by_cases habove : Version.isAbove c.version old.version = true
    · rw [prefer, if_pos habove] at hprefer
      refine .inl ⟨(Option.some.inj hprefer).symm, fun _ hold => ?_⟩
      exact Option.some.inj hold ▸ beq_iff_eq.1 habove
    · rw [prefer, if_neg habove] at hprefer
      obtain rfl := Option.some.inj hprefer
      exact .inr ⟨rfl, fun hgt => habove (beq_iff_eq.2 hgt)⟩

theorem mem_of_newest {requests : List Coordinate} {c : Coordinate} (hnewest : newest requests = some c) :
    c ∈ requests := by
  induction requests using List.reverseRecOn with
  | nil => cases hnewest
  | append_singleton requests last ih =>
    rw [newest_append_singleton] at hnewest
    rcases prefer_eq_some hnewest with ⟨rfl, -⟩ | ⟨hcurrent, -⟩
    · simp
    · exact List.mem_append_left _ (ih hcurrent)

theorem exists_newest {requests : List Coordinate} (hne : requests ≠ []) : ∃ c, newest requests = some c := by
  induction requests using List.reverseRecOn with
  | nil => exact absurd rfl hne
  | append_singleton requests last _ =>
    rw [newest_append_singleton]
    cases newest requests with
    | none => exact ⟨last, rfl⟩
    | some current =>
      rw [prefer]
      split
      · exact ⟨last, rfl⟩
      · exact ⟨current, rfl⟩

/-- If the versions are in a row, none of them is above the selected one, and of those equal to it the first is
    selected. -/
theorem newest_spec {requests : List Coordinate} {c : Coordinate} (hnewest : newest requests = some c)
    (htransitive : Version.TransitiveOn (requests.map (·.version))) :
    (∀ r ∈ requests, Version.compare c.version r.version ≠ .lt) ∧
      requests.find? (fun r => Version.compare r.version c.version == .eq) = some c := by
  -- By induction on the row: a later request takes the place only if it is above the one before, and so above all.
  induction requests using List.reverseRecOn generalizing c with
  | nil => cases hnewest
  | append_singleton requests last ih =>
    rw [newest_append_singleton] at hnewest
    have hbefore : Version.TransitiveOn (requests.map (·.version)) :=
      htransitive.subset (by simp)
    rcases prefer_eq_some hnewest with ⟨rfl, hwins⟩ | ⟨hcurrent, hloses⟩
    · have habove (r : Coordinate) (hr : r ∈ requests) : Version.compare c.version r.version = .gt := by
        obtain ⟨old, hold⟩ := exists_newest (List.ne_nil_of_mem hr)
        have hbelow := Version.compare_ne_lt_iff.1 ((ih hold hbefore).1 r hr)
        refine Classical.byContradiction fun hnot => ?_
        refine htransitive c.version (by simp) r.version ?_ old.version ?_ hnot hbelow (hwins old hold)
        · exact List.mem_map_of_mem (List.mem_append_left _ hr)
        · exact List.mem_map_of_mem (List.mem_append_left _ (mem_of_newest hold))
      constructor
      · intro r hr
        rcases List.mem_append.1 hr with hr | hr
        · simp [habove r hr]
        · simp [List.mem_singleton.1 hr, Version.compare_self]
      · have hnone : requests.find? (fun r => Version.compare r.version c.version == .eq) = none := by
          refine List.find?_eq_none.2 fun r hr => ?_
          rw [Version.compare_swap c.version, habove r hr]
          decide
        rw [List.find?_append, hnone]
        simp [Version.compare_self]
    · obtain ⟨hall, hfirst⟩ := ih hcurrent hbefore
      constructor
      · intro r hr
        rcases List.mem_append.1 hr with hr | hr
        · exact hall r hr
        · exact List.mem_singleton.1 hr ▸ Version.compare_ne_lt_iff.2 hloses
      · rw [List.find?_append, hfirst]
        rfl

/-- The first of the newest of a row of requests: all before it are older, and none behind it is newer. -/
def IsFirstNewest (requests : List Coordinate) (c : Coordinate) : Prop :=
  ∃ before after, requests = before ++ c :: after ∧ (∀ r ∈ before, Version.compare r.version c.version = .lt) ∧
    ∀ r ∈ after, Version.compare r.version c.version ≠ .gt

theorem isFirstNewest_of_newest {requests : List Coordinate} {c : Coordinate} (hnewest : newest requests = some c)
    (htransitive : Version.TransitiveOn (requests.map (·.version))) : IsFirstNewest requests c := by
  obtain ⟨hall, hfirst⟩ := newest_spec hnewest htransitive
  obtain ⟨-, before, after, rfl, hbefore⟩ := List.find?_eq_some_iff_append.1 hfirst
  refine ⟨before, after, rfl, fun r hr => ?_, fun r hr => Version.compare_ne_lt_iff.1 (hall r (by simp [hr]))⟩
  have hnot := Version.compare_ne_lt_iff.1 (hall r (by simp [hr]))
  have hother := hbefore r hr
  cases hcompare : Version.compare r.version c.version with
  | lt => rfl
  | eq => simp [hcompare] at hother
  | gt => exact absurd hcompare hnot

/-- A selection that holds, for each module, what some requests in their order lead to. -/
def Answers (s : Selection) (requests : List Coordinate) : Prop :=
  ∀ key, s.find? key = newest (requests.filter (·.moduleId == key))

theorem prefer_find? (s : Selection) (c : Coordinate) (label : String) :
    prefer (s.find? c.moduleId) c = if (s.request? c label).isSome then some c else s.find? c.moduleId := by
  unfold request?
  cases s.find? c.moduleId with
  | none => rfl
  | some current => by_cases habove : Version.isAbove c.version current.version = true <;> simp [prefer, habove]

theorem find?_getD_request? (s : Selection) (c : Coordinate) (label key : String) :
    ((s.request? c label).getD s).find? key = if c.moduleId = key then prefer (s.find? key) c else s.find? key := by
  have hprefer := prefer_find? s c label
  cases hrequest : s.request? c label with
  | none =>
    rw [hrequest, Option.isSome_none, if_neg Bool.false_ne_true] at hprefer
    by_cases hkey : c.moduleId = key
    · rw [if_pos hkey, ← hkey, hprefer, Option.getD_none]
    · rw [if_neg hkey, Option.getD_none]
  | some t =>
    rw [hrequest, Option.isSome_some, if_pos rfl] at hprefer
    rw [Option.getD_some, find?_of_request? hrequest]
    by_cases hkey : c.moduleId = key
    · rw [if_pos hkey, if_pos hkey, ← hkey, hprefer]
    · rw [if_neg hkey, if_neg hkey]

theorem Answers.request {s : Selection} {requests : List Coordinate} (hanswers : s.Answers requests) (c : Coordinate)
    (label : String) : ((s.request? c label).getD s).Answers (requests ++ [c]) := by
  intro key
  rw [find?_getD_request?, hanswers key, List.filter_append]
  by_cases hkey : c.moduleId = key
  · simp [hkey, newest_append_singleton]
  · simp [hkey]

end Selection

/-- The coordinate that a declaration is for; none for a local file. -/
def Declaration.coordinate? (d : Declaration) : Option Coordinate :=
  match d.source with
  | .maven c => some c
  | .file _ => none

namespace Resolution

variable {declarations : List Declaration}
  {requirementsOf : Coordinate → ExceptT ResolveError Id (List Pom.Requirement)}

/-- What a node asks for, in the order of its requirements. -/
def Node.requests (requirementsOf : Coordinate → ExceptT ResolveError Id (List Pom.Requirement)) (node : Node) :
    List Coordinate :=
  (((requirementsOf node.coordinate).run.toOption.getD []).map (·.coordinate)).filter (!node.excludes ·)

/-- All that is requested: what is declared, and what the followed nodes ask for, earliest node first. -/
def requests (declarations : List Declaration)
    (requirementsOf : Coordinate → ExceptT ResolveError Id (List Pom.Requirement)) (history : List Node) :
    List Coordinate :=
  declarations.filterMap (·.coordinate?) ++ history.reverse.flatMap (Node.requests requirementsOf)

theorem mem_requests_iff {history : List Node} {c : Coordinate} :
    c ∈ requests declarations requirementsOf history ↔
      (∃ d ∈ declarations, d.source = .maven c) ∨
        ∃ node ∈ history, ∃ r, node.AsksFor requirementsOf r ∧ r.coordinate = c := by
  have hdeclared (d : Declaration) : d.coordinate? = some c ↔ d.source = .maven c := by
    cases hsource : d.source <;> simp [Declaration.coordinate?, hsource]
  have hasked (node : Node) :
      c ∈ node.requests requirementsOf ↔ ∃ r, node.AsksFor requirementsOf r ∧ r.coordinate = c := by
    cases hrequirements : (requirementsOf node.coordinate).run with
    | error e => simp [Node.requests, Node.AsksFor, hrequirements, Except.toOption]
    | ok requirements =>
      simp only [Node.requests, hrequirements, Except.toOption, Option.getD_some, List.mem_filter, List.mem_map,
        Bool.not_eq_true', Node.AsksFor]
      constructor
      · rintro ⟨⟨r, hr, rfl⟩, hpasses⟩
        exact ⟨r, ⟨hpasses, requirements, rfl, hr⟩, rfl⟩
      · rintro ⟨r, ⟨hpasses, requirements', hsame, hr⟩, rfl⟩
        exact ⟨⟨r, Except.ok.inj hsame ▸ hr, rfl⟩, hpasses⟩
  simp [requests, hdeclared, hasked]

theorem requests_cons {history : List Node} {node : Node} {requirements : List Pom.Requirement}
    (hrequirements : (requirementsOf node.coordinate).run = .ok requirements) :
    requests declarations requirementsOf (node :: history) = requests declarations requirementsOf history ++
      (requirements.map (·.coordinate)).filter (!node.excludes ·) := by
  simp [requests, Node.requests, hrequirements, Except.toOption]

namespace Walk

theorem selection_follow (node : Node) (w : Walk) (r : Pom.Requirement) :
    (follow node w r).selection =
      if node.excludes r.coordinate then w.selection
      else (w.selection.request? r.coordinate node.requestedBy).getD w.selection := by
  unfold follow
  split
  · rfl
  · cases w.selection.request? r.coordinate node.requestedBy <;> rfl

theorem answers_followAll {w : Walk} {before : List Coordinate} (hanswers : w.selection.Answers before) (node : Node)
    (requirements : List Pom.Requirement) :
    (w.followAll node requirements).selection.Answers
      (before ++ (requirements.map (·.coordinate)).filter (!node.excludes ·)) := by
  induction requirements generalizing w before with
  | nil => simpa [followAll] using hanswers
  | cons r requirements ih =>
    have hstep := selection_follow node w r
    rw [followAll, List.foldl_cons, ← followAll, List.map_cons, List.filter_cons]
    cases hexcludes : node.excludes r.coordinate with
    | true =>
      rw [hexcludes, if_pos rfl] at hstep
      exact ih (hstep ▸ hanswers)
    | false =>
      rw [hexcludes, if_neg Bool.false_ne_true] at hstep
      have hgranted := hanswers.request r.coordinate node.requestedBy
      rw [Bool.not_false, if_pos rfl, List.append_cons]
      exact ih (hstep ▸ hgranted)

theorem Reached.answers {start w : Walk} {history : List Node}
    (hstart : start.selection.Answers (declarations.filterMap (·.coordinate?)))
    (hreached : Reached requirementsOf start history w) :
    w.selection.Answers (requests declarations requirementsOf history) := by
  induction hreached with
  | start => simpa [requests] using hstart
  | @follow history w w' node requirements hreached hnext hrequirements ih =>
    obtain ⟨-, queue, -, -, -, rfl⟩ := next?_eq_some hnext
    rw [requests_cons hrequirements]
    let rest : Walk := { w with queue, followed := node.coordinate.render :: w.followed }
    exact answers_followAll (w := rest) ih node requirements

end Walk

namespace Library

variable {library : Library Id}

theorem answers_declared {start : Walk} (hdeclared : (declarations.foldlM library.declare Walk.empty).run = .ok start) :
    start.selection.Answers (declarations.filterMap (·.coordinate?)) := by
  refine declare_induction
    (motive := fun declared w => w.selection.Answers (declared.filterMap (·.coordinate?)))
    (fun _ => rfl) ?_ ?_ hdeclared
  · intro declared w d c hanswers hsource
    have hcoordinate : d.coordinate? = some c := by simp [Declaration.coordinate?, hsource]
    simpa [hcoordinate, Walk.declare] using hanswers.request c d.label
  · intro declared w d path hanswers hsource key
    have hcoordinate : d.coordinate? = none := by simp [Declaration.coordinate?, hsource]
    simpa [hcoordinate, Walk.declareFile, Selection.find?_append, Selection.find?] using hanswers key

/-- The nodes that the walk from the declarations to be bundled follows, last one first, and the selection that it ends
    with. -/
def Walks (library : Library Id) (declarations : List Declaration) (history : List Node) (selection : Selection) :
    Prop :=
  ∃ start w, ((declarations.filter (·.isBundled)).foldlM library.declare Walk.empty).run = .ok start ∧
    Walk.Reached library.requirementsOf start history w ∧ w.next? = none ∧ w.selection = selection

theorem Settles.walks {selection : Selection} (hsettles : library.Settles declarations selection) :
    ∃ history, library.Walks declarations history selection := by
  obtain ⟨start, history, w, hdeclared, hreached, hnext, hselection⟩ := hsettles.reached
  exact ⟨history, start, w, hdeclared, hreached, hnext, hselection⟩

/-- The requests that a walk makes for the module with a key, in their order. -/
def requestsFor (library : Library Id) (declarations : List Declaration) (history : List Node) (key : String) :
    List Coordinate :=
  (requests (declarations.filter (·.isBundled)) library.requirementsOf history).filter (·.moduleId == key)

theorem Walks.find? {history : List Node} {selection : Selection}
    (hwalks : library.Walks declarations history selection) (key : String) :
    selection.find? key = Selection.newest (library.requestsFor declarations history key) := by
  obtain ⟨start, w, hdeclared, hreached, -, rfl⟩ := hwalks
  exact hreached.answers (answers_declared hdeclared) key

end Library

/-- A module all of whose requested versions are semantic ones is selected at the first of the newest of them, and that
    is the version of its artifact. -/
theorem selects_newest {library : Library Id} {resolution : Resolution}
    (hresolve : (library.resolve declarations).run = .ok resolution) :
    ∃ selection history, library.Settles declarations selection ∧ library.Walks declarations history selection ∧
      (∀ artifact ∈ resolution.artifacts, ∀ c, artifact.coordinate = some c → selection.find? c.moduleId = some c) ∧
      ∀ key, library.requestsFor declarations history key ≠ [] →
        (∀ r ∈ library.requestsFor declarations history key, Version.IsSemantic r.version) →
        ∃ c, selection.find? key = some c ∧
          (∀ r ∈ library.requestsFor declarations history key, Version.compare c.version r.version ≠ .lt) ∧
          (library.requestsFor declarations history key).find? (fun r => Version.compare r.version c.version == .eq) =
            some c := by
  obtain ⟨selection, artifacts, hsettles, hartifacts, rfl⟩ := Library.resolve_eq_ok_iff.1 hresolve
  obtain ⟨history, hwalks⟩ := hsettles.walks
  refine ⟨selection, history, hsettles, hwalks, fun artifact hmem c hcoordinate => ?_, fun key hne hsemantic => ?_⟩
  · exact Selection.selects_iff.1 (hsettles.isProper.selected (hsettles.module_mem hartifacts hmem hcoordinate))
  · obtain ⟨c, hnewest⟩ := Selection.exists_newest hne
    have hcoherent : Version.Coherent ((library.requestsFor declarations history key).map (·.version)) :=
      .inl (by simpa using hsemantic)
    exact ⟨c, (hwalks.find? key).trans hnewest, Selection.newest_spec hnewest hcoherent.transitiveOn⟩

/-- The modules `a`, `b` and `c` require the module `m` at three versions, the last two of which are equal. -/
def rivals : Library Id where
  isFile _ := true
  file c := .ok (some ⟨c.fileName⟩)
  document c := .ok (
    if c.artifact = "a" then some (requiringOne "m" "1.9")
    else if c.artifact = "b" then some (requiringOne "m" "1.10")
    else if c.artifact = "c" then some (requiringOne "m" "1.10.0")
    else none)
  searched := []

/-- Declarations of `a`, `b` and `c`. -/
def aBAndC : List Declaration :=
  ["a", "b", "c"].map fun artifact => { source := .maven (inGroup artifact "1"), transitive := true }

theorem selects_newest_of_rivals :
    ∃ resolution, (rivals.resolve aBAndC).run = .ok resolution ∧
      (resolution.artifacts.filterMap (·.coordinate)).getLast? = some (inGroup "m" "1.10") ∧
      ∃ selection history, rivals.Settles aBAndC selection ∧ rivals.Walks aBAndC history selection ∧
        (∀ artifact ∈ resolution.artifacts, ∀ c, artifact.coordinate = some c → selection.find? c.moduleId = some c) ∧
        ∀ key, rivals.requestsFor aBAndC history key ≠ [] →
          (∀ r ∈ rivals.requestsFor aBAndC history key, Version.IsSemantic r.version) →
          ∃ c, selection.find? key = some c ∧
            (∀ r ∈ rivals.requestsFor aBAndC history key, Version.compare c.version r.version ≠ .lt) ∧
            (rivals.requestsFor aBAndC history key).find? (fun r => Version.compare r.version c.version == .eq) =
              some c := by
  obtain ⟨resolution, hresolve, hlast⟩ : ∃ resolution, (rivals.resolve aBAndC).run = .ok resolution ∧
      (resolution.artifacts.filterMap (·.coordinate)).getLast? = some (inGroup "m" "1.10") :=
    ⟨_, rfl, rfl⟩
  exact ⟨resolution, hresolve, hlast, selects_newest hresolve⟩

end Resolution
end UberJar
