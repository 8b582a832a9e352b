import UberJar.Proofs.Files.Disk
import UberJar.Proofs.Resolution.Effects
import UberJar.Proofs.Store.Confinement
import UberJar.Proofs.Store.Fetch

namespace UberJar

/-- A repository that leaves the files of a disk as they are. -/
def Repository.LeavesFiles {ν : Type} (r : Repository (StateM (Disk ν))) : Prop :=
  ∀ path, Leads (Disk.OnTrees Eq) (r.fetch path)

namespace Repository

variable {ν : Type}

theorem leavesFiles_ofLocations {transport : Transport (StateM (Disk ν))}
    (htransport : ∀ url, Leads (Disk.OnTrees Eq) (transport url)) (offline : Bool) (locations : List String) :
    ∀ r ∈ ofLocations transport offline locations, r.LeavesFiles := by
  intro r hr
  obtain ⟨location, -, rfl⟩ := List.mem_map.1 (List.mem_filter.1 hr).1
  exact leads_fetch htransport Disk.leads_readFile location

end Repository

namespace Store

variable {ν : Type} {store : Store (StateM (Disk ν))} {d d' d'' : Disk ν} {cs cs' : List Coordinate}

/-- What was downloaded on the way from one disk to another: each of the coordinates was not in the cache when its turn
    came, a repository gave its file, and the cache was to keep it. -/
inductive Downloads (store : Store (StateM (Disk ν))) (d : Disk ν) : List Coordinate → Disk ν → Prop
  | start : Downloads store d [] d
  | pass {cs : List Coordinate} {d₁ d₂ : Disk ν} (downloads : Downloads store d cs d₁) (hsame : d₂.tree = d₁.tree) :
      Downloads store d cs d₂
  | keep {cs : List Coordinate} {d₁ d₂ d₃ : Disk ν} {c : Coordinate} {data : Bytes}
      (downloads : Downloads store d cs d₁)
      (hmissing : (FileSystem.isFile (m := StateM (Disk ν)) (store.pathOf c)).run d₁ = (false, d₂))
      (hoffered : (ask c store.repositories none).run.run d₂ = (.ok (some data), d₃)) :
      Downloads store d (cs ++ [c]) ((keep (m := StateM (Disk ν)) (store.pathOf c) data).run.run d₃).2

theorem Downloads.trans (hfirst : store.Downloads d cs d') (hsecond : store.Downloads d' cs' d'') :
    store.Downloads d (cs ++ cs') d'' := by
  induction hsecond with
  | start => rwa [List.append_nil]
  | pass _ hsame ih => exact ih.pass hsame
  | keep _ hmissing hoffered ih =>
    rw [← List.append_assoc]
    exact ih.keep hmissing hoffered

/-- Disks of which the second one is reached from the first one by downloads. -/
def Reaches (store : Store (StateM (Disk ν))) (d d' : Disk ν) : Prop := ∃ cs, store.Downloads d cs d'

instance : IsPreorder (Disk ν) store.Reaches where
  refl _ := ⟨[], .start⟩
  trans _ _ _ := fun ⟨cs, hfirst⟩ ⟨cs', hsecond⟩ => ⟨cs ++ cs', hfirst.trans hsecond⟩

theorem reaches_of_same {d d' : Disk ν} (hsame : Disk.OnTrees Eq d d') : store.Reaches d d' :=
  ⟨[], Downloads.start.pass hsame.symm⟩

/-- A file that is offered, some repository gives. -/
theorem exists_repository_of_ask {c : Coordinate} {repositories : List (Repository (StateM (Disk ν)))}
    {last : Option ResolveError} {data : Bytes} (hask : (ask c repositories last).run.run d = (.ok (some data), d')) :
    ∃ r ∈ repositories, ∃ d₁, ((r.fetch c.repositoryPath).run d₁).1 = .ok (some data) := by
  induction repositories generalizing d last with
  | nil => cases last <;> cases (Prod.mk.inj hask).1
  | cons r repositories ih =>
    rw [ask, run_lift_bind] at hask
    cases hfetch : (r.fetch c.repositoryPath).run d with
    | mk answer d₁ =>
      have hrest {last : Option ResolveError} (hask : (ask c repositories last).run.run d₁ = (.ok (some data), d')) :
          ∃ r' ∈ r :: repositories, ∃ d₁, ((r'.fetch c.repositoryPath).run d₁).1 = .ok (some data) := by
        obtain ⟨r', hr', hgives⟩ := ih hask
        exact ⟨r', List.mem_cons_of_mem r hr', hgives⟩
      rw [hfetch] at hask
      cases answer with
      | error e => exact hrest hask
      | ok found =>
        cases found with
        | none => exact hrest hask
        | some found =>
          obtain ⟨-, d₂, -, hfound⟩ := run_bind_state_eq_ok_iff.1 hask
          obtain rfl := Option.some.inj (run_pure_eq_ok hfound).1
          exact ⟨r, List.mem_cons_self, d, congrArg Prod.fst hfetch⟩

/-- What is downloaded, some repository gives. -/
theorem Downloads.exists_repository (hdownloads : store.Downloads d cs d') {c : Coordinate} (hc : c ∈ cs) :
    ∃ r ∈ store.repositories, ∃ d₁ data, ((r.fetch c.repositoryPath).run d₁).1 = .ok (some data) := by
  induction hdownloads with
  | start => cases hc
  | pass _ _ ih => exact ih hc
  | keep _ _ hoffered ih =>
    rcases List.mem_append.1 hc with hearlier | hlast
    · exact ih hearlier
    · obtain rfl := List.mem_singleton.1 hlast
      obtain ⟨r, hr, d₁, hgives⟩ := exists_repository_of_ask hoffered
      exact ⟨r, hr, d₁, _, hgives⟩

section Leads

variable (hrepositories : ∀ r ∈ store.repositories, r.LeavesFiles)

theorem leads_verify {r : Repository (StateM (Disk ν))} (hr : r.LeavesFiles) (c : Coordinate) (data : Bytes) :
    Leads (Disk.OnTrees Eq) (verify r c data).run := by
  refine leads_bind (leads_lift (hr _)) fun found => ?_
  split
  · split
    · simp only
      split
      · exact leads_result (.error _)
      · exact leads_result (.ok ())
    · exact leads_result (.ok ())
  · exact leads_result (.ok ())

theorem leads_ask (c : Coordinate) (repositories : List (Repository (StateM (Disk ν))))
    (hrepositories : ∀ r ∈ repositories, r.LeavesFiles) (last : Option ResolveError) :
    Leads (Disk.OnTrees Eq) (ask c repositories last).run := by
  induction repositories generalizing last with
  | nil => cases last <;> exact leads_result _
  | cons r repositories ih =>
    have hr := hrepositories r List.mem_cons_self
    have hrest := ih fun r hr => hrepositories r (List.mem_cons_of_mem _ hr)
    refine leads_bind (leads_lift (hr _)) fun found => ?_
    split
    · exact leads_bind (leads_verify hr c _) fun _ => leads_result (.ok _)
    · exact hrest _
    · exact hrest _

include hrepositories

theorem leads_fetch (c : Coordinate) : Leads store.Reaches (store.fetch c).run := by
  intro d
  have hasked := Disk.leads_isFile (R := Eq) (store.pathOf c) d
  cases hcached : (FileSystem.isFile (m := StateM (Disk ν)) (store.pathOf c)).run d with
  | mk cached d₁ =>
    rw [hcached] at hasked
    have hlift : (liftM (FileSystem.isFile (m := StateM (Disk ν)) (store.pathOf c)) :
        ExceptT ResolveError (StateM (Disk ν)) Bool).run.run d = (.ok cached, d₁) := by
      have hrun : (ExceptT.lift (FileSystem.isFile (store.pathOf c)) :
          ExceptT ResolveError (StateM (Disk ν)) Bool).run.run d = _ := run_lift _ d
      rwa [hcached] at hrun
    change store.Reaches d ((store.fetch c).run.run d).2
    rw [fetch, run_bind_of_ok hlift]
    cases cached with
    | true => exact reaches_of_same hasked
    | false =>
      have hoffers := leads_ask c store.repositories hrepositories none d₁
      rw [if_neg Bool.false_ne_true]
      cases hfound : (ask c store.repositories none).run.run d₁ with
      | mk found d₂ =>
        have hsame : Disk.OnTrees Eq d d₂ := by
          change Disk.OnTrees Eq d₁ ((ask c store.repositories none).run.run d₁).2 at hoffers
          rw [hfound] at hoffers
          exact hasked.trans hoffers
        cases found with
        | error e =>
          rw [run_bind_of_error hfound]
          exact reaches_of_same hsame
        | ok found =>
          rw [run_bind_of_ok hfound]
          cases found with
          | none => exact reaches_of_same hsame
          | some data =>
            have hlast := snd_run_bind_pure (x := keep (m := StateM (Disk ν)) (store.pathOf c) data) (s := d₂) fun _ =>
              some (store.pathOf c)
            simp only
            rw [hlast]
            exact ⟨[c], Downloads.start.keep hcached hfound⟩

theorem leads_document (c : Coordinate) : Leads store.Reaches (store.library.document c) := by
  change Leads store.Reaches (ExceptT.run _)
  refine leads_bind (leads_fetch hrepositories c) fun found => ?_
  split
  · exact leads_result (.ok none)
  · have hread (path : Path) :
        Leads store.Reaches (FileSystem.readFile path : StateM (Disk ν) (Except OsError Bytes)) :=
      (Disk.leads_readFile path).mono reaches_of_same
    refine leads_bind (FileSystem.leads_orElseThrow (hread _) _) fun data => ?_
    exact leads_bind (leads_result _) fun document => leads_result (.ok (some document))

theorem leads_resolve (declarations : List Declaration) :
    Leads store.Reaches (store.library.resolve declarations).run :=
  Resolution.Library.leads_resolve (fun path => (Disk.leads_isFile path).mono reaches_of_same)
    (leads_fetch hrepositories) (leads_document hrepositories) declarations

end Leads

section Places

variable {start : Location} {places : Location → Prop} {place : Path} {c : Coordinate}

/-- Keeping data touches its place and its draft, and no other files. -/
theorem leads_keep (hplace : ¬places (place.location start))
    (hdraft : ¬places ((place.withExtension "part").location start)) (data : Bytes) :
    Leads (Disk.OnTrees (FileTree.SparesFrom start places)) (keep (m := StateM (Disk ν)) place data).run := by
  have hmoves : Leads (Disk.OnTrees (FileTree.SparesFrom start places)) (ExceptT.run (do
      FileSystem.orElseThrow (ResolveError.cacheWrite place) (FileSystem.writeFile (place.withExtension "part") data)
      FileSystem.orElseThrow (ResolveError.cacheWrite place)
        (FileSystem.renameFile (m := StateM (Disk ν)) (place.withExtension "part") place))) :=
    leads_bind (FileSystem.leads_orElseThrow (Disk.leads_writeFile hdraft data) _) fun _ =>
      FileSystem.leads_orElseThrow (Disk.leads_renameFile hdraft hplace) _
  unfold keep
  cases place.parent? with
  | none => exact hmoves
  | some parent =>
    exact leads_bind (FileSystem.leads_orElseThrow (Disk.leads_makeDirectories parent) _) fun _ => hmoves

/-- A location below another one. -/
def IsUnder (root place : Location) : Prop := ∃ rest, rest ≠ [] ∧ place = root ++ rest

theorem prefix_of_isUnder_concat {root directory : Location} {name : String}
    (hunder : IsUnder root (directory ++ [name])) : root <+: directory := by
  obtain ⟨rest, hne, hplace⟩ := hunder
  obtain ⟨init, last, rfl⟩ := (List.eq_nil_or_concat' rest).resolve_left hne
  rw [← List.append_assoc] at hplace
  exact (List.append_inj' hplace rfl).1 ▸ List.prefix_append root init

theorem isUnder_concat {root directory : Location} {name : String} (hunder : IsUnder root (directory ++ [name]))
    (other : String) : IsUnder root (directory ++ [other]) := by
  obtain ⟨init, rfl⟩ := prefix_of_isUnder_concat hunder
  exact ⟨init ++ [other], by simp, List.append_assoc ..⟩

/-- Where the repository path of a coordinate does not climb, its file lies below the cache. -/
theorem isUnder_pathOf (store : Store (StateM (Disk ν))) (hnames : c.names ≠ [] ∧ Path.up ∉ c.names)
    (start : Location) : IsUnder (store.cacheDir.location start) ((store.pathOf c).location start) := by
  refine ⟨c.names.reverse.map String.ofList, by simp [hnames.1], ?_⟩
  rw [pathOf, Path.location_placeBelow]
  exact Path.foldl_follow_of_up_notMem hnames.2

theorem isUnder_draft {root : Location} (hunder : IsUnder root (place.location start)) :
    IsUnder root ((place.withExtension "part").location start) := by
  have hpart : '/' ∉ "part".toList ∧ 2 ≤ "part".toList.length := by decide
  rcases Path.location_withExtension place hpart.1 hpart.2 start with
    hsame | ⟨directory, name, name', hlocation, hdraft⟩
  · rwa [hsame]
  · rw [hlocation] at hunder
    rw [hdraft]
    exact isUnder_concat hunder name'

/-- Downloads that lie below the cache touch no files outside of it. -/
theorem Downloads.spares (hrepositories : ∀ r ∈ store.repositories, r.LeavesFiles)
    (hunder : ∀ c ∈ cs, IsUnder (store.cacheDir.location d.tree.workingDirectory)
      ((store.pathOf c).location d.tree.workingDirectory))
    (hdownloads : store.Downloads d cs d') :
    d.tree.Spares (fun place => ¬IsUnder (store.cacheDir.location d.tree.workingDirectory) place) d'.tree := by
  induction hdownloads with
  | start => exact .refl d.tree
  | pass _ hsame ih =>
    rw [hsame]
    exact ih hunder
  | @keep cs d₁ d₂ d₃ c data _ hmissing hoffered ih =>
    have hbefore := ih fun c hc => hunder c (List.mem_append_left _ hc)
    have hplace := hunder c (by simp)
    have hasked := Disk.leads_isFile (R := Eq) (store.pathOf c) d₁
    rw [hmissing] at hasked
    have hoffers : Disk.OnTrees Eq d₂ ((ask c store.repositories none).run.run d₂).2 :=
      leads_ask c store.repositories hrepositories none d₂
    rw [hoffered] at hoffers
    have hsame : d₃.tree = d₁.tree := (Eq.trans hasked hoffers).symm
    refine hbefore.trans ?_
    rw [← hsame] at hbefore ⊢
    exact leads_keep (not_not_intro hplace) (not_not_intro (isUnder_draft hplace)) data d₃
      hbefore.directories.workingDirectory

end Places

end Store
end UberJar
