import UberJar.Proofs.Resolution.Answers
import UberJar.Proofs.Resolution.Declared
import UberJar.Proofs.Resolution.Exclusions
import UberJar.Proofs.Resolution.Provenance
import UberJar.Proofs.Store.Fetch

namespace UberJar.Store

open Resolution

variable {store : Store (StateM FileTree)} {t t' : FileTree} {declarations : List Declaration} {resolution : Resolution}

/-- A cache that holds all files that the repositories have. -/
def IsFilled (store : Store (StateM FileTree)) (t : FileTree) : Prop :=
  ∀ c, ¬t.IsFile (store.pathOf c) → ∀ r ∈ store.repositories, ¬r.Offers t c.repositoryPath

namespace IsFilled

variable (hreads : ∀ r ∈ store.repositories, r.IsReadOnly) (hfilled : store.IsFilled t)
include hreads hfilled

theorem snd_run_fetch (c : Coordinate) : ((store.fetch c).run.run t).2 = t := by
  by_cases hfile : t.IsFile (store.pathOf c)
  · rw [run_fetch, if_pos hfile]
  · rw [run_fetch_of_none hfile hreads (hfilled c hfile)]

theorem snd_run_document (c : Coordinate) : ((store.library.document c).run t).2 = t := by
  change ((_ >>= _ : ExceptT ResolveError (StateM FileTree) _).run.run t).2 = t
  refine snd_run_bind_of_unchanged (hfilled.snd_run_fetch hreads c) fun found => ?_
  cases found with
  | none => rfl
  | some place =>
    have hread : Leads Eq (FileSystem.readFile place : StateM FileTree (Except OsError Bytes)) := fun _ => rfl
    exact (leads_bind (FileSystem.leads_orElseThrow hread _) (fun data =>
      leads_bind (leads_result _) fun document => leads_result (.ok (some document))) t).symm

/-- With a filled cache lookups only read, and the files that they read are all that they depend on. -/
theorem answersLike : store.library.AnswersLike (· = t) (store.library.answersFrom t) :=
  Library.answersLike_answersFrom (fun path => congrArg Prod.snd (FileTree.run_isFile path t))
    (hfilled.snd_run_fetch hreads) (hfilled.snd_run_document hreads)

theorem run_effective? (c : Coordinate) :
    (store.library.effective? c).run.run t = (((store.library.answersFrom t).effective? c).run, t) :=
  ((hfilled.answersLike hreads).gives_effective? c).run_eq

theorem run_resolve (declarations : List Declaration) :
    (store.library.resolve declarations).run.run t = (((store.library.answersFrom t).resolve declarations).run, t) :=
  ((hfilled.answersLike hreads).gives_resolve declarations).run_eq

/-- The only files that are found are those in the cache. -/
theorem isFile_of_found {c : Coordinate} {place : Path}
    (hfile : ((store.library.answersFrom t).file c).run = .ok (some place)) :
    place = store.pathOf c ∧ t.IsFile place := by
  have hlookup : store.library.file c = (store.fetch c).run := by rfl
  rw [Library.run_file_answersFrom, hlookup] at hfile
  have hfetch : (store.fetch c).run.run t = (.ok (some place), t) := Prod.ext hfile (hfilled.snd_run_fetch hreads c)
  obtain ⟨hplace, hcached, -⟩ := fetch_eq_ok_some hreads hfetch
  exact ⟨hplace.symm, hcached⟩

/-- With a filled cache a resolution leaves all files as they are, and comes to the files of a selection. -/
theorem settles (hresolve : (store.library.resolve declarations).run.run t = (.ok resolution, t')) :
    t' = t ∧ ∃ selection artifacts, (store.library.answersFrom t).Settles declarations selection ∧
      (selection.mapM (store.library.answersFrom t).artifact?).run = .ok artifacts ∧
      resolution = ⟨artifacts.filterMap id, (declarations.filter (!·.isBundled)).map (·.label)⟩ := by
  rw [hfilled.run_resolve hreads] at hresolve
  obtain ⟨hresult, rfl⟩ := Prod.mk.inj hresolve
  exact ⟨rfl, Library.resolve_eq_ok_iff.1 hresult⟩

/-- What is bundled for a module is the cached file of the coordinate that the requests for it lead to: of the first of
    the newest, if the order of the requested versions is transitive. -/
theorem bundles_newest (hresolve : (store.library.resolve declarations).run.run t = (.ok resolution, t')) :
    t' = t ∧ ∃ selection history, (store.library.answersFrom t).Walks declarations history selection ∧
      ∀ artifact ∈ resolution.artifacts, ∀ c, artifact.coordinate = some c →
        artifact.path = store.pathOf c ∧ t.IsFile artifact.path ∧
        Selection.newest ((store.library.answersFrom t).requestsFor declarations history c.moduleId) = some c ∧
        (Version.TransitiveOn
            (((store.library.answersFrom t).requestsFor declarations history c.moduleId).map (·.version)) →
          Selection.IsFirstNewest ((store.library.answersFrom t).requestsFor declarations history c.moduleId) c) := by
  obtain ⟨rfl, selection, artifacts, hsettles, hartifacts, rfl⟩ := hfilled.settles hreads hresolve
  obtain ⟨history, hwalks⟩ := hsettles.walks
  refine ⟨rfl, selection, history, hwalks, fun artifact hmem c hcoordinate => ?_⟩
  obtain ⟨hselected, -, hfile⟩ := hsettles.module_of_bundled hartifacts hmem hcoordinate
  obtain ⟨hplace, hcached⟩ := hfilled.isFile_of_found hreads hfile
  have hnewest := (hwalks.find? c.moduleId).symm.trans (Selection.selects_iff.1 (hsettles.isProper.selected hselected))
  exact ⟨hplace, hcached, hnewest, Selection.isFirstNewest_of_newest hnewest⟩

/-- In the place of a declared coordinate that has a file, one of the requests for its module is selected. -/
theorem exists_standsFor (hresolve : (store.library.resolve declarations).run.run t = (.ok resolution, t')) :
    ∃ selection history, (store.library.answersFrom t).Walks declarations history selection ∧
      ∀ d ∈ declarations, d.isBundled = true → ∀ c, d.source = .maven c → c.isPom = false →
        (∀ pom, (store.library.effective? c).run.run t = (.ok (some pom), t) → pom.hasNoJar = false) →
        ∃ w, selection.find? c.moduleId = some w ∧ (store.library.answersFrom t).StandsFor
          ((store.library.answersFrom t).requestsFor declarations history c.moduleId) resolution w c := by
  obtain ⟨-, selection, artifacts, hsettles, hartifacts, rfl⟩ := hfilled.settles hreads hresolve
  obtain ⟨history, hwalks⟩ := hsettles.walks
  refine ⟨selection, history, hwalks, fun d hmem hbundled c hsource hjar hpackaging => ?_⟩
  have hown : ¬(store.library.answersFrom t).IsOnlyPom c := Library.not_isOnlyPom hjar fun pom heffective =>
    hpackaging pom ((hfilled.run_effective? hreads c).trans (congrArg (·, t) heffective))
  have hrequested := (store.library.answersFrom t).mem_requestsFor_of_declared hmem hbundled hsource history
  obtain ⟨w, -, hfind, hstands⟩ := hwalks.exists_standsFor hsettles hartifacts _ hrequested hown
  exact ⟨w, hfind, hstands⟩

/-- A module that is not declared goes by the label of a declaration that does not exclude it. -/
theorem admits (hresolve : (store.library.resolve declarations).run.run t = (.ok resolution, t')) {artifact : Artifact}
    (hmem : artifact ∈ resolution.artifacts) {c : Coordinate} (hcoordinate : artifact.coordinate = some c)
    (hpulled : ¬IsDeclared (declarations.filter (·.isBundled)) c.moduleId) :
    (∃ group name, group ++ ":" ++ name = c.moduleId ∧ Admits declarations artifact.requestedBy group name) ∧
      (':' ∉ c.group.toList → ':' ∉ c.artifact.toList →
        Admits declarations artifact.requestedBy c.group c.artifact) := by
  obtain ⟨-, selection, artifacts, hsettles, hartifacts, rfl⟩ := hfilled.settles hreads hresolve
  exact hsettles.admits (hsettles.module_mem hartifacts hmem hcoordinate) hpulled

/-- What is bundled is found from the declarations or below a version that was superseded, and a module at the end of a
    chain of requirements is missing exactly if it is cut off and not asked for in another place. -/
theorem found_and_missing (hresolve : (store.library.resolve declarations).run.run t = (.ok resolution, t')) :
    ∃ selection history, (store.library.answersFrom t).Settles declarations selection ∧
      (store.library.answersFrom t).Follows (declarations.filter (·.isBundled)) selection history ∧
      (∀ artifact ∈ resolution.artifacts, ∀ c, artifact.coordinate = some c →
        LeadsTo (store.library.answersFrom t).requirementsOf selection
            (IsDeclared (declarations.filter (·.isBundled))) c.moduleId ∨
          LeadsTo (store.library.answersFrom t).requirementsOf selection
            (AskedBySuperseded (store.library.answersFrom t).requirementsOf selection history) c.moduleId) ∧
      ∀ node, Chain (declarations.filter (·.isBundled)) (store.library.answersFrom t).requirementsOf selection node →
        (¬selection.Holds node.coordinate.moduleId ↔
          (∃ (parent : Node) (r : Pom.Requirement), node = parent.below r ∧
            CutsOff (declarations.filter (·.isBundled)) history parent.coordinate r.coordinate) ∧
          ¬AskedFor (declarations.filter (·.isBundled)) (store.library.answersFrom t).requirementsOf history
            node.coordinate.moduleId) := by
  obtain ⟨-, selection, artifacts, hsettles, hartifacts, rfl⟩ := hfilled.settles hreads hresolve
  obtain ⟨history, hfollows, hleads⟩ := hsettles.leads
  refine ⟨selection, history, hsettles, hfollows, fun artifact hmem c hcoordinate => ?_, fun node hchain => ?_⟩
  · have hselected := hsettles.isProper.selected (hsettles.module_mem hartifacts hmem hcoordinate)
    exact hleads _ (Selection.holds_of_selects hselected)
  · exact hfollows.missing_iff hchain

end IsFilled

section Offline

variable {transport : Transport (StateM FileTree)} {locations : List String}

theorem ofLocations_offline
    (hremote : ∀ location ∈ locations, (Repository.ofLocation transport location).isRemote = true) :
    Repository.ofLocations transport true locations = [] := by
  refine List.filter_eq_nil_iff.2 fun r hr => ?_
  obtain ⟨location, hmem, rfl⟩ := List.mem_map.1 hr
  simp [hremote location hmem]

/-- A program that is offline takes its cache for filled, unless a directory is one of its repositories: it changes no
    file, and what it bundles for modules are files of the cache. -/
theorem resolve_offline (hremote : ∀ location ∈ locations, (Repository.ofLocation transport location).isRemote = true)
    (hrepositories : store.repositories = Repository.ofLocations transport true locations)
    (hresolve : (store.library.resolve declarations).run.run t = (.ok resolution, t')) :
    t' = t ∧ ∀ artifact ∈ resolution.artifacts, ∀ c, artifact.coordinate = some c →
      artifact.path = store.pathOf c ∧ t.IsFile artifact.path := by
  rw [ofLocations_offline hremote] at hrepositories
  have hreads : ∀ r ∈ store.repositories, r.IsReadOnly := by simp [hrepositories]
  have hfilled : store.IsFilled t := by simp [IsFilled, hrepositories]
  obtain ⟨hsame, selection, history, -, hcached⟩ := hfilled.bundles_newest hreads hresolve
  refine ⟨hsame, fun artifact hmem c hcoordinate => ?_⟩
  obtain ⟨hplace, hfile, -⟩ := hcached artifact hmem c hcoordinate
  exact ⟨hplace, hfile⟩

end Offline
end UberJar.Store
