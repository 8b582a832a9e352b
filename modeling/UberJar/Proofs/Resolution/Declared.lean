import UberJar.Proofs.Resolution.Requests

namespace UberJar.Resolution

variable {declarations : List Declaration}

namespace Library

variable {library : Library Id}

/-- What is selected is bundled, unless it is only a POM. -/
theorem bundled_or_isOnlyPom {selection : Selection} {artifacts : List (Option Artifact)}
    (hartifacts : (selection.mapM library.artifact?).run = .ok artifacts) {key : String} {c : Coordinate}
    (hfind : selection.find? key = some c) :
    (∃ artifact ∈ artifacts.filterMap id, artifact.coordinate = some c) ∨ library.IsOnlyPom c := by
  obtain ⟨label, hmem⟩ := Selection.exists_mem_of_find? hfind
  obtain ⟨found, hfound, hartifact⟩ := (run_mapM_eq_ok hartifacts).1 _ hmem
  rcases artifact?_module hartifact with ⟨-, hpom⟩ | ⟨-, path, -, rfl⟩
  · exact .inr hpom
  · exact .inl ⟨⟨some c, path, label⟩, by simpa using hfound, rfl⟩

theorem mem_requestsFor_of_declared (library : Library Id) {d : Declaration} (hmem : d ∈ declarations)
    (hbundled : d.isBundled = true) {c : Coordinate} (hsource : d.source = .maven c) (history : List Node) :
    c ∈ library.requestsFor declarations history c.moduleId := by
  refine List.mem_filter.2 ⟨mem_requests_iff.2 (.inl ⟨d, ?_, hsource⟩), by simp⟩
  exact List.mem_filter.2 ⟨hmem, hbundled⟩

/-- What is selected for a module is the file of a coordinate that is bundled for it, if that is not only a POM. -/
theorem Settles.find?_of_bundled {selection : Selection} (hsettles : library.Settles declarations selection)
    {artifacts : List (Option Artifact)} (hartifacts : (selection.mapM library.artifact?).run = .ok artifacts)
    {artifact : Artifact} (hmem : artifact ∈ artifacts.filterMap id) {c : Coordinate}
    (hcoordinate : artifact.coordinate = some c) :
    selection.find? c.moduleId = some c ∧ ¬library.IsOnlyPom c := by
  obtain ⟨hmodule, hjar, -⟩ := hsettles.module_of_bundled hartifacts hmem hcoordinate
  exact ⟨Selection.selects_iff.1 (hsettles.isProper.selected hmodule), hjar⟩

end Library

/-- A resolution supplies a coordinate if the file of the module that it is for is bundled, in its version or in one
    that is not older. -/
def Supplies (resolution : Resolution) (c : Coordinate) : Prop :=
  ∃ artifact ∈ resolution.artifacts, ∃ x, artifact.coordinate = some x ∧ x = c.atVersion x.version ∧
    Version.compare x.version c.version ≠ .lt

/-- A coordinate is supplied exactly if the one that is selected for its module is for the same file, not older, and not
    only a POM. -/
theorem Library.Settles.supplies_iff {library : Library Id} {selection : Selection}
    (hsettles : library.Settles declarations selection) {artifacts : List (Option Artifact)}
    (hartifacts : (selection.mapM library.artifact?).run = .ok artifacts) {skipped : List String} {c w : Coordinate}
    (hfind : selection.find? c.moduleId = some w) :
    Supplies ⟨artifacts.filterMap id, skipped⟩ c ↔
      w = c.atVersion w.version ∧ Version.compare w.version c.version ≠ .lt ∧ ¬library.IsOnlyPom w := by
  constructor
  · rintro ⟨artifact, hmem, x, hcoordinate, hsame, hnot⟩
    obtain ⟨hselected, hjar⟩ := hsettles.find?_of_bundled hartifacts hmem hcoordinate
    have hmodule : x.moduleId = c.moduleId := by
      rw [hsame]
      rfl
    rw [hmodule, hfind] at hselected
    obtain rfl := Option.some.inj hselected
    exact ⟨hsame, hnot, hjar⟩
  · rintro ⟨hsame, hnot, hjar⟩
    rcases bundled_or_isOnlyPom hartifacts hfind with ⟨artifact, hmem, hcoordinate⟩ | hpom
    · exact ⟨artifact, hmem, w, hcoordinate, hsame, hnot⟩
    · exact absurd hpom hjar

namespace Library

variable {library : Library Id}

/-- The coordinate `w` takes the place of `c`, out of the requests for their module: each request is taken instead
    of the one before if it is newer. -/
structure StandsFor (library : Library Id) (requests : List Coordinate) (resolution : Resolution) (w c : Coordinate) :
    Prop where
  newest : Selection.newest requests = some w
  /-- Only another coordinate than `c` may be selected and not bundled. -/
  bundled : (∃ artifact ∈ resolution.artifacts, artifact.coordinate = some w) ∨ w ≠ c ∧ library.IsOnlyPom w
  supplies_iff : resolution.Supplies c ↔
    w = c.atVersion w.version ∧ Version.compare w.version c.version ≠ .lt ∧ (w = c ∨ ¬library.IsOnlyPom w)
  isFirstNewest : Version.TransitiveOn (requests.map (·.version)) →
    Selection.IsFirstNewest requests w ∧ Version.compare w.version c.version ≠ .lt

theorem Walks.exists_standsFor {selection : Selection} {history : List Node}
    (hwalks : library.Walks declarations history selection) (hsettles : library.Settles declarations selection)
    {artifacts : List (Option Artifact)} (hartifacts : (selection.mapM library.artifact?).run = .ok artifacts)
    (skipped : List String) {c : Coordinate} (hrequested : c ∈ library.requestsFor declarations history c.moduleId)
    (hown : ¬library.IsOnlyPom c) :
    ∃ w ∈ library.requestsFor declarations history c.moduleId, selection.find? c.moduleId = some w ∧
      library.StandsFor (library.requestsFor declarations history c.moduleId) ⟨artifacts.filterMap id, skipped⟩
        w c := by
  obtain ⟨w, hnewest⟩ := Selection.exists_newest (List.ne_nil_of_mem hrequested)
  have hfind := (hwalks.find? c.moduleId).trans hnewest
  have hdiffers (hpom : library.IsOnlyPom w) : w ≠ c := by
    rintro rfl
    exact hown hpom
  refine ⟨w, Selection.mem_of_newest hnewest, hfind, hnewest, ?_, ?_, fun htransitive => ⟨?_, ?_⟩⟩
  · exact (bundled_or_isOnlyPom hartifacts hfind).imp_right fun hpom => ⟨hdiffers hpom, hpom⟩
  · rw [hsettles.supplies_iff hartifacts hfind, or_iff_right_of_imp]
    rintro rfl
    exact hown
  · exact Selection.isFirstNewest_of_newest hnewest htransitive
  · exact (Selection.newest_spec hnewest htransitive).1 c hrequested

theorem not_isOnlyPom {c : Coordinate} (hjar : c.isPom = false)
    (hpackaging : ∀ pom, (library.effective? c).run = .ok (some pom) → pom.hasNoJar = false) :
    ¬library.IsOnlyPom c := by
  rintro (hpom | ⟨-, pom, heffective, hnone⟩)
  · rw [hjar] at hpom
    cases hpom
  · rw [hpackaging pom heffective] at hnone
    cases hnone

end Library

/-- In the place of a declared coordinate that has a file, what the requests for its module lead to is selected.
    That is bundled, unless it is another coordinate that is only a POM. The declared coordinate is supplied exactly
    if the selected one is for the same file, not older, and bundled. If the order of the requested versions is
    transitive, the selected one is the first of the newest, so that only a newer request, or an earlier one of the
    same version, stands for the declared one. -/
theorem declared_or_outdone {library : Library Id} {resolution : Resolution}
    (hresolve : (library.resolve declarations).run = .ok resolution) :
    ∃ selection history, library.Settles declarations selection ∧ library.Walks declarations history selection ∧
      ∀ d ∈ declarations, d.isBundled = true → ∀ c, d.source = .maven c → c.isPom = false →
        (∀ pom, (library.effective? c).run = .ok (some pom) → pom.hasNoJar = false) →
        c ∈ library.requestsFor declarations history c.moduleId ∧
          ∃ w ∈ library.requestsFor declarations history c.moduleId, selection.find? c.moduleId = some w ∧
            library.StandsFor (library.requestsFor declarations history c.moduleId) resolution w c := by
  obtain ⟨selection, artifacts, hsettles, hartifacts, rfl⟩ := Library.resolve_eq_ok_iff.1 hresolve
  obtain ⟨history, hwalks⟩ := hsettles.walks
  refine ⟨selection, history, hsettles, hwalks, fun d hmem hbundled c hsource hjar hpackaging => ?_⟩
  have hrequested := library.mem_requestsFor_of_declared hmem hbundled hsource history
  exact ⟨hrequested, hwalks.exists_standsFor hsettles hartifacts _ hrequested (Library.not_isOnlyPom hjar hpackaging)⟩

/-- The module `b` requires newer versions of `a`, `n` and `m`, and of `k` another file in the same version; `e`
    requires `m` with a fourth number. Of version 2 of `a` there is only a POM. -/
def outdoing : Library Id where
  isFile _ := true
  file c := .ok (if c.artifact = "a" ∧ c.version = "2" then none else some ⟨c.fileName⟩)
  document c := .ok (some (
    if c.artifact = "b" then
      { dependencies := some ([("a", "2"), ("n", "2"), ("m", "3.0.0"), ("k", "1")].map fun (artifact, version) =>
          { group := "g", artifact, version := some version }) }
    else if c.artifact = "e" then requiringOne "m" "3.0.0.1"
    else if c.artifact = "a" ∧ c.version = "2" then { packaging := some "pom" }
    else {}))
  searched := []

/-- A special file of a module. -/
def forLinux (artifact : String) : Coordinate := { group := "g", artifact, version := "1", classifier := some "linux" }

/-- The module `a`, a special file of `n`, and a pre-release of `m`. -/
def outdone : List Coordinate := [inGroup "a" "1", forLinux "n", inGroup "m" "3.0-2"]

/-- Declarations of these, of a special file of `k`, of `b` and of `e`. -/
def outdoneAndOthers : List Declaration :=
  (outdone ++ [forLinux "k", inGroup "b" "1", inGroup "e" "1"]).map fun c => .ofSource (.maven c)

/-- What of these is bundled. -/
def notOutdone : List Coordinate :=
  [inGroup "n" "2", inGroup "m" "3.0.0.1", forLinux "k", inGroup "b" "1", inGroup "e" "1"]

/-- The file of `k` that is declared stays, since the other one is asked for later and in the same version. -/
theorem declared_or_outdone_outdoing :
    ∃ resolution, (outdoing.resolve outdoneAndOthers).run = .ok resolution ∧
      resolution.artifacts.map (·.coordinate) = notOutdone.map some ∧ resolution.Supplies (forLinux "k") ∧
      ∃ selection history, outdoing.Settles outdoneAndOthers selection ∧
        outdoing.Walks outdoneAndOthers history selection ∧
        ∀ d ∈ outdoneAndOthers, d.isBundled = true → ∀ c, d.source = .maven c → c.isPom = false →
          (∀ pom, (outdoing.effective? c).run = .ok (some pom) → pom.hasNoJar = false) →
          c ∈ outdoing.requestsFor outdoneAndOthers history c.moduleId ∧
            ∃ w ∈ outdoing.requestsFor outdoneAndOthers history c.moduleId, selection.find? c.moduleId = some w ∧
              outdoing.StandsFor (outdoing.requestsFor outdoneAndOthers history c.moduleId) resolution w c := by
  obtain ⟨resolution, hresolve, hbundled⟩ : ∃ resolution, (outdoing.resolve outdoneAndOthers).run = .ok resolution ∧
      resolution.artifacts.map (·.coordinate) = notOutdone.map some := ⟨_, rfl, rfl⟩
  have hk : some (forLinux "k") ∈ resolution.artifacts.map (·.coordinate) := by
    rw [hbundled]
    decide
  obtain ⟨artifact, hmem, hcoordinate⟩ := List.mem_map.1 hk
  have hsupplies : resolution.Supplies (forLinux "k") :=
    ⟨artifact, hmem, _, hcoordinate, rfl, by simp [Version.compare_self]⟩
  exact ⟨resolution, hresolve, hbundled, hsupplies, declared_or_outdone hresolve⟩

/-- Of `a` nothing is bundled, of `n` only another file, and of `m` only a version older than the declared one. -/
theorem outdone_not_bundled :
    ∃ resolution, (outdoing.resolve outdoneAndOthers).run = .ok resolution ∧
      ∀ c ∈ outdone, (∃ d ∈ outdoneAndOthers, d.isBundled = true ∧ d.source = .maven c) ∧ c.isPom = false ∧
        (∀ pom, (outdoing.effective? c).run = .ok (some pom) → pom.hasNoJar = false) ∧ ¬resolution.Supplies c := by
  obtain ⟨resolution, hresolve, hbundled⟩ : ∃ resolution, (outdoing.resolve outdoneAndOthers).run = .ok resolution ∧
      resolution.artifacts.map (·.coordinate) = notOutdone.map some := ⟨_, rfl, rfl⟩
  refine ⟨resolution, hresolve, fun c hc => ⟨?_, ?_, fun pom heffective => ?_, ?_⟩⟩
  · have hdeclared : ∀ c ∈ outdone, ∃ d ∈ outdoneAndOthers, d.isBundled = true ∧ d.source = .maven c := by
      decide +kernel
    exact hdeclared c hc
  · have hjar : ∀ c ∈ outdone, c.isPom = false := by decide
    exact hjar c hc
  · have hpackaging : ∀ c ∈ outdone, (outdoing.effective? c).run.toOption.join.all (!·.hasNoJar) = true := by
      decide +kernel
    simpa [heffective, Except.toOption] using hpackaging c hc
  · rintro ⟨artifact, hmem, x, hx, hsame, hnot⟩
    have holder : ∀ c ∈ outdone, ∀ x ∈ notOutdone, x = c.atVersion x.version →
        Version.compare x.version c.version = .lt := by decide +kernel
    have hx' : some x ∈ notOutdone.map some := hbundled ▸ hx ▸ List.mem_map_of_mem hmem
    exact hnot (holder c hc x (by simpa using hx') hsame)

end UberJar.Resolution
