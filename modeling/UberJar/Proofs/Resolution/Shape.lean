import UberJar.Proofs.Resolution.Offers
import UberJar.Proofs.Store.Drafts

namespace UberJar.Resolution

/-- A module that has no file in the cache or in any repository, while its POM says that it has none. -/
structure IsMissing (store : Store (StateM FileTree)) (t : FileTree) (c : Coordinate) (t₁ : FileTree) : Prop where
  cache : ¬t.IsFile (store.pathOf c)
  repositories : ∀ r ∈ store.repositories, r.answer t c.repositoryPath = .ok none
  packaging : ∃ pom, (store.library.effective? c).run.run t = (.ok (some pom), t₁) ∧ pom.hasNoJar = true

/-- The files that a selection comes to when its entries are looked up one after the other, and the trees before and
    after. A module is left out if it is selected as a POM, or is missing. -/
inductive Gathers (store : Store (StateM FileTree)) : FileTree → Selection → List Artifact → FileTree → Prop
  | nil {t : FileTree} : Gathers store t [] [] t
  | file {t t' : FileTree} {artifact : Artifact} {selection : Selection} {artifacts : List Artifact}
      (hlocal : artifact.coordinate = none) (rest : Gathers store t selection artifacts t') :
      Gathers store t (.file artifact :: selection) (artifact :: artifacts) t'
  | found {t t₁ t' : FileTree} {c : Coordinate} {label : String} {selection : Selection} {artifacts : List Artifact}
      (hpom : c.isPom = false) (hfetch : (store.fetch c).run.run t = (.ok (some (store.pathOf c)), t₁))
      (rest : Gathers store t₁ selection artifacts t') :
      Gathers store t (.module c label :: selection) (⟨some c, store.pathOf c, label⟩ :: artifacts) t'
  | pom {t t' : FileTree} {c : Coordinate} {label : String} {selection : Selection} {artifacts : List Artifact}
      (hpom : c.isPom = true) (rest : Gathers store t selection artifacts t') :
      Gathers store t (.module c label :: selection) artifacts t'
  | missing {t t₁ t' : FileTree} {c : Coordinate} {label : String} {selection : Selection} {artifacts : List Artifact}
      (hpom : c.isPom = false) (hmissing : IsMissing store t c t₁) (rest : Gathers store t₁ selection artifacts t') :
      Gathers store t (.module c label :: selection) artifacts t'

variable {store : Store (StateM FileTree)} {t t' : FileTree} {c : Coordinate} {label : String} {selection : Selection}
  {artifacts : List Artifact} {declarations : List Declaration}

theorem artifact?_module_eq_ok (hreads : ∀ r ∈ store.repositories, r.IsReadOnly) {found : Option Artifact}
    (hartifact : (store.library.artifact? (.module c label)).run.run t = (.ok found, t')) :
    (c.isPom = true ∧ found = none ∧ t' = t) ∨
      c.isPom = false ∧
        (((store.fetch c).run.run t = (.ok (some (store.pathOf c)), t') ∧
            found = some ⟨some c, store.pathOf c, label⟩) ∨
          (IsMissing store t c t' ∧ found = none)) := by
  unfold Library.artifact? at hartifact
  by_cases hpom : c.isPom = true
  · simp only [if_pos hpom] at hartifact
    obtain ⟨rfl, rfl⟩ := run_pure_eq_ok hartifact
    exact .inl ⟨hpom, rfl, rfl⟩
  · simp only [if_neg hpom] at hartifact
    refine .inr ⟨Bool.not_eq_true _ ▸ hpom, ?_⟩
    obtain ⟨place?, t₁, hfetch, hfound⟩ := run_bind_state_eq_ok_iff.1 hartifact
    cases place? with
    | some place =>
      obtain ⟨rfl, rfl⟩ := run_pure_eq_ok hfound
      have hplace := (Store.fetch_eq_ok_some hreads hfetch).1
      rw [hplace]
      exact .inl ⟨hfetch, rfl⟩
    | none =>
      obtain ⟨rfl, hcache, hrepositories⟩ := Store.fetch_eq_ok_none hreads hfetch
      obtain ⟨pom?, t₂, heffective, hnone⟩ := run_bind_state_eq_ok_iff.1 hfound
      by_cases hnoJar : pom?.any (·.hasNoJar) = true
      · simp only [if_pos hnoJar] at hnone
        obtain ⟨rfl, rfl⟩ := run_pure_eq_ok hnone
        obtain ⟨pom, rfl, hnoJar⟩ := (Option.any_eq_true _ _).1 hnoJar
        exact .inr ⟨⟨hcache, hrepositories, pom, heffective, hnoJar⟩, rfl⟩
      · simp only [if_neg hnoJar] at hnone
        cases congrArg Prod.fst hnone

/-- Looking up the entries of a selection gathers its files. -/
theorem gathers_of_mapM (hreads : ∀ r ∈ store.repositories, r.IsReadOnly) {results : List (Option Artifact)}
    (hlocal : ∀ artifact, .file artifact ∈ selection → artifact.coordinate = none)
    (hresults : (selection.mapM store.library.artifact?).run.run t = (.ok results, t')) :
    Gathers store t selection (results.filterMap id) t' := by
  induction selection generalizing t results with
  | nil =>
    obtain ⟨rfl, rfl⟩ := run_pure_eq_ok hresults
    exact .nil
  | cons entry selection ih =>
    rw [List.mapM_cons] at hresults
    obtain ⟨first, t₁, hfirst, htail⟩ := run_bind_state_eq_ok_iff.1 hresults
    obtain ⟨others, t₂, hothers, hpure⟩ := run_bind_state_eq_ok_iff.1 htail
    obtain ⟨rfl, rfl⟩ := run_pure_eq_ok hpure
    have hrest := ih (fun artifact hmem => hlocal artifact (List.mem_cons_of_mem _ hmem)) hothers
    cases entry with
    | file artifact =>
      obtain ⟨rfl, rfl⟩ := run_pure_eq_ok hfirst
      exact .file (hlocal artifact List.mem_cons_self) hrest
    | module c label =>
      rcases artifact?_module_eq_ok hreads hfirst with
        ⟨hpom, rfl, rfl⟩ | ⟨hpom, ⟨hfetch, rfl⟩ | ⟨hmissing, rfl⟩⟩
      · exact .pom hpom hrest
      · exact .found hpom hfetch hrest
      · exact .missing hpom hmissing hrest

namespace Gathers

theorem fills (hreads : ∀ r ∈ store.repositories, r.IsReadOnly)
    (hgathers : Gathers store t selection artifacts t') : store.Fills t t' := by
  induction hgathers with
  | nil => exact .refl
  | file hlocal rest ih => exact ih
  | found hpom hfetch rest ih => exact (Store.fills_of_fetch hreads hfetch).trans ih
  | pom hpom rest ih => exact ih
  | missing hpom hmissing rest ih =>
    obtain ⟨pom, heffective, -⟩ := hmissing.packaging
    exact (Store.effective?_eq_ok hreads heffective).1.trans ih

theorem sublist (hgathers : Gathers store t selection artifacts t') :
    (artifacts.filterMap (·.coordinate)).Sublist selection.coordinates := by
  induction hgathers with
  | nil => exact .slnil
  | file hlocal rest ih =>
    rw [List.filterMap_cons, hlocal]
    exact ih
  | found hpom hfetch rest ih => exact ih.cons_cons _
  | pom hpom rest ih => exact ih.cons _
  | missing hpom hmissing rest ih => exact ih.cons _

/-- What was gathered for a module is the cached file of its coordinate, and is still there in the end unless its name
    is that of a draft. -/
theorem path (hreads : ∀ r ∈ store.repositories, r.IsReadOnly) (hgathers : Gathers store t selection artifacts t') :
    ∀ artifact ∈ artifacts, ∀ c, artifact.coordinate = some c → artifact.path = store.pathOf c ∧
      ∃ place, t'.locate artifact.path = .ok place ∧ (t'.IsFile artifact.path ∨ FileTree.IsDraft place) := by
  induction hgathers with
  | nil => simp
  | file hlocal rest ih =>
    intro other hother c hcoordinate
    rcases List.mem_cons.1 hother with rfl | hother
    · cases hlocal.symm.trans hcoordinate
    · exact ih other hother c hcoordinate
  | found hpom hfetch rest ih =>
    intro other hother c hcoordinate
    rcases List.mem_cons.1 hother with heq | hother
    · rw [heq] at hcoordinate ⊢
      have hfile := (Store.fetch_eq_ok_some hreads hfetch).2.1
      -- The path of the cache must not be unfolded here, so that the record is taken apart first.
      dsimp only at hcoordinate ⊢
      rw [← Option.some.inj hcoordinate]
      exact ⟨rfl, (rest.fills hreads).isFile_or_isDraft hfile⟩
    · exact ih other hother c hcoordinate
  | pom hpom rest ih => exact ih
  | missing hpom hmissing rest ih => exact ih

end Gathers

theorem resolve_eq_ok {resolution : Resolution}
    (hresolve : (store.library.resolve declarations).run.run t = (.ok resolution, t')) :
    ∃ start t₁ selection t₂ results,
      ((declarations.filter (·.isBundled)).foldlM store.library.declare Walk.empty).run.run t = (.ok start, t₁) ∧
      (start.run store.library.requirementsOf maxFollowed).run.run t₁ = (.ok (some selection), t₂) ∧
      (selection.mapM store.library.artifact?).run.run t₂ = (.ok results, t') ∧
      resolution = ⟨results.filterMap id, (declarations.filter (!·.isBundled)).map (·.label)⟩ := by
  rw [Library.resolve, List.partition_eq_filter_filter] at hresolve
  obtain ⟨start, t₁, hdeclared, hwalk⟩ := run_bind_state_eq_ok_iff.1 hresolve
  obtain ⟨found, t₂, hrun, hlookup⟩ := run_bind_state_eq_ok_iff.1 hwalk
  cases found with
  | none => cases congrArg Prod.fst hlookup
  | some selection =>
    obtain ⟨results, t₃, hresults, hpure⟩ := run_bind_state_eq_ok_iff.1 hlookup
    obtain ⟨rfl, rfl⟩ := run_pure_eq_ok hpure
    exact ⟨start, t₁, selection, t₂, results, hdeclared, hrun, hresults, rfl⟩

/-- A resolution lists the labels of what is not to be bundled, and gathers the files of what the walk selects: of
    the offers that it meets, which begin with the declarations, it keeps every file, and the first for each module.
    So no module has two files, and each file of a module is the cached one, and is there unless its name is that of
    a draft. -/
theorem resolution_shape (hreads : ∀ r ∈ store.repositories, r.IsReadOnly) {resolution : Resolution}
    (hresolve : (store.library.resolve declarations).run.run t = (.ok resolution, t')) :
    resolution.skipped = (declarations.filter (!·.isBundled)).map (·.label) ∧
    (∃ queued record w t₁,
      Walk.Course store.library.requirementsOf (Walk.ofDeclarations (declarations.filter (·.isBundled))) t queued record
        w t₁ ∧
      w.next? = none ∧
      Gathers store t₁ (((offers (declarations.filter (·.isBundled)) record).eraseDupsBy Selected.sameModule).map
        (Selection.atNewest (offers (declarations.filter (·.isBundled)) record))) resolution.artifacts t') ∧
    ((resolution.artifacts.filterMap (·.coordinate)).map (·.moduleId)).Nodup ∧
    ∀ artifact ∈ resolution.artifacts, ∀ c, artifact.coordinate = some c → artifact.path = store.pathOf c ∧
      ∃ place, t'.locate artifact.path = .ok place ∧ (t'.IsFile artifact.path ∨ FileTree.IsDraft place) := by
  obtain ⟨start, t₁, selection, t₂, results, hdeclared, hrun, hresults, rfl⟩ := resolve_eq_ok hresolve
  have hasks (path : Path) : ReadsOnly (store.library.isFile path) :=
    fun s => congrArg Prod.snd (FileTree.run_isFile path s)
  obtain ⟨rfl, rfl⟩ := Walk.declared_eq_ok hasks hdeclared
  obtain ⟨queued, record, w, course, hnext, rfl⟩ := Walk.course_of_run .start hrun
  rw [course.selection_eq] at hresults
  have hlocal (artifact : Artifact)
      (hmem : .file artifact ∈ Selection.ofOffers (offers (declarations.filter (·.isBundled)) record)) :
      artifact.coordinate = none := coordinate_of_offered (Selection.file_mem_of_mem_ofOffers hmem)
  have hgathers := gathers_of_mapM hreads hlocal hresults
  refine ⟨rfl, ⟨queued, record, w, t₂, course, hnext, ?_⟩, ?_, hgathers.path hreads⟩
  · rw [← Selection.ofOffers_eq]
    exact hgathers
  · exact (Selection.nodup_ofOffers _).sublist (hgathers.sublist.map _)

/-- A store with one repository, of some files given as texts. -/
def storeOf (files : List (String × String)) : Store (StateM FileTree) :=
  ⟨⟨"cache"⟩, [Store.holding (files.map fun file => (file.1, Text.Utf8.encode file.2.toList))]⟩

theorem isReadOnly_storeOf (files : List (String × String)) : ∀ r ∈ (storeOf files).repositories, r.IsReadOnly := by
  intro r hr
  obtain rfl := List.mem_singleton.1 hr
  exact fun _ _ => rfl

/-- Declarations of `a`, to be bundled, and of `z`, for compiling only. -/
def aAndZ : List Declaration :=
  [.ofSource (.maven { group := "g", artifact := "a", version := "1" }),
    { source := .maven { group := "g", artifact := "z", version := "1" }, scope := .compileOnly, transitive := true }]

theorem resolution_shape_aAndZ :
    ∃ resolution t', ((storeOf [("g/a/1/a-1.jar", "a")]).library.resolve aAndZ).run.run (.empty ["w"]) =
        (.ok resolution, t') ∧
      resolution.skipped = ["g:z:1"] ∧ resolution.artifacts.map (·.path) = [⟨"cache/g/a/1/a-1.jar"⟩] ∧
      ∀ artifact ∈ resolution.artifacts, ∀ c, artifact.coordinate = some c →
        artifact.path = (storeOf [("g/a/1/a-1.jar", "a")]).pathOf c ∧
          ∃ place, t'.locate artifact.path = .ok place ∧ (t'.IsFile artifact.path ∨ FileTree.IsDraft place) := by
  have hresolve : (((storeOf [("g/a/1/a-1.jar", "a")]).library.resolve aAndZ).run.run (.empty ["w"])).1 =
      .ok ⟨[⟨some { group := "g", artifact := "a", version := "1" }, ⟨"cache/g/a/1/a-1.jar"⟩, "g:a:1"⟩],
        ["g:z:1"]⟩ := by
    decide +kernel
  have hrun := eq_of_fst_eq hresolve
  exact ⟨_, _, hrun, rfl, rfl, (resolution_shape (isReadOnly_storeOf _) hrun).2.2.2⟩

/-- The file of `c` has the name of a draft. There is no file of `y`, and its POM inherits from that of `c`. -/
def drafting : Store (StateM FileTree) :=
  storeOf [("g/c/1/c-1.part", "c"), ("g/c/1/c-1.pom", "<project></project>"),
    ("g/y/1/y-1.pom", "<project><parent><groupId>g</groupId><artifactId>c</artifactId><version>1</version></parent>" ++
      "<packaging>pom</packaging></project>")]

/-- Declarations of `c` and `y` without what they require. -/
def cAndY : List Declaration :=
  [{ source := .maven { group := "g", artifact := "c", version := "1", extension := "part" }, transitive := false },
    { source := .maven { group := "g", artifact := "y", version := "1" }, transitive := false }]

/-- The file of `c` is resolved, and then taken away as the draft of its own POM. -/
theorem resolved_file_gone :
    (∀ r ∈ drafting.repositories, r.IsReadOnly) ∧
      ∃ resolution t', (drafting.library.resolve cAndY).run.run (.empty ["w"]) = (.ok resolution, t') ∧
        ∃ artifact ∈ resolution.artifacts, (∃ c, artifact.coordinate = some c) ∧ ¬t'.IsFile artifact.path := by
  have hresolve : ((drafting.library.resolve cAndY).run.run (.empty ["w"])).1 =
      .ok ⟨[⟨some { group := "g", artifact := "c", version := "1", extension := "part" }, ⟨"cache/g/c/1/c-1.part"⟩,
        "g:c:1@part"⟩], []⟩ ∧
      ¬((drafting.library.resolve cAndY).run.run (.empty ["w"])).2.IsFile ⟨"cache/g/c/1/c-1.part"⟩ := by
    decide +kernel
  exact ⟨isReadOnly_storeOf _, _, _, eq_of_fst_eq hresolve.1, _, List.mem_singleton.2 rfl, ⟨_, rfl⟩, hresolve.2⟩

end UberJar.Resolution
