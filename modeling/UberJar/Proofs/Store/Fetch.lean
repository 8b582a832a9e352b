import UberJar.Proofs.Distinct
import UberJar.Proofs.Files.Tree
import UberJar.Proofs.Text.Blank
import UberJar.Repository.Http
import UberJar.Store

namespace UberJar

namespace Repository

/-- What a repository answers when it is asked for a path in a tree. -/
def answer (r : Repository (StateM FileTree)) (t : FileTree) (path : String) : Except ResolveError (Option Bytes) :=
  ((r.fetch path).run t).1

/-- A repository that answers without changing the tree. -/
def IsReadOnly (r : Repository (StateM FileTree)) : Prop := ∀ path, ReadsOnly (r.fetch path)

/-- Whether a repository has a file. -/
def Offers (r : Repository (StateM FileTree)) (t : FileTree) (path : String) : Prop :=
  ∃ data, r.answer t path = .ok (some data)

/-- The error that a repository reports for a path, if it reports one. -/
def refusal? (r : Repository (StateM FileTree)) (t : FileTree) (path : String) : Option ResolveError :=
  match r.answer t path with
  | .ok _ => none
  | .error e => some e

/-- A repository publishes a sum for a file: beside the file it has a text, and the sum is the first word of that
    text, in lower case. -/
def Publishes (r : Repository (StateM FileTree)) (t : FileTree) (path sum : String) : Prop :=
  ∃ sidecar word, r.answer t (path ++ ".sha1") = .ok (some sidecar) ∧
    Text.IsFirstWord (Text.Utf8.decodeLossy sidecar) word ∧ sum.toList = word.map Char.toLower

/-- The sum that is read off what a repository has beside a file. -/
def publishedSum? (r : Repository (StateM FileTree)) (t : FileTree) (path : String) : Option String :=
  match r.answer t (path ++ ".sha1") with
  | .ok (some sidecar) => Store.expectedSum? sidecar
  | _ => none

theorem expectedSum?_eq_some_iff {sidecar : Bytes} {sum : String} :
    Store.expectedSum? sidecar = some sum ↔
      ∃ word, Text.IsFirstWord (Text.Utf8.decodeLossy sidecar) word ∧ sum.toList = word.map Char.toLower := by
  have hread : Store.expectedSum? sidecar =
      (Text.words (Text.Utf8.decodeLossy sidecar)).head?.map fun word => String.ofList (word.map Char.toLower) := by
    unfold Store.expectedSum? Text.words
    split
    · rename_i word rest hwords
      rw [hwords]
      rfl
    · rename_i hwords
      rw [hwords]
      rfl
  simp only [hread, Option.map_eq_some_iff, Text.head?_words_eq_some_iff, ← String.toList_inj, String.toList_ofList,
    @eq_comm _ sum.toList]

variable {r : Repository (StateM FileTree)} {t : FileTree}

theorem publishedSum?_eq_some_iff {path sum : String} : r.publishedSum? t path = some sum ↔ r.Publishes t path sum := by
  unfold publishedSum? Publishes
  cases r.answer t (path ++ ".sha1") with
  | error e => simp
  | ok found =>
    cases found with
    | none => simp
    | some sidecar => simp [expectedSum?_eq_some_iff]

theorem IsReadOnly.run_fetch (hreads : r.IsReadOnly) (t : FileTree) (path : String) :
    (ExceptT.lift (r.fetch path) : ExceptT ResolveError (StateM FileTree) _).run.run t =
      (.ok (r.answer t path), t) := by
  rw [run_lift, (hreads path).run_eq t]
  rfl

section Leads

variable {σ : Type} {R : σ → σ → Prop} [IsPreorder σ R] {transport : Transport (StateM σ)}

theorem leads_get (htransport : ∀ url, Leads R (transport url)) (url : String) (retries : Nat) :
    Leads R (Http.get transport url retries) := by
  induction retries with
  | zero => exact Leads.bind (IsTrans.trans _ _ _) (htransport url) fun _ => leads_pure _
  | succ retries ih =>
    refine Leads.bind (IsTrans.trans _ _ _) (htransport url) fun reply => ?_
    split
    · exact ih
    · exact leads_pure _

/-- Asking a repository leads where the transport does, and reading a file. -/
theorem leads_fetch [FileSystem (StateM σ)] (htransport : ∀ url, Leads R (transport url))
    (hread : ∀ path, Leads R (FileSystem.readFile path : StateM σ (Except OsError Bytes))) (location path : String) :
    Leads R ((ofLocation transport location).fetch path) := by
  unfold ofLocation
  simp only
  split
  · exact leads_get htransport _ _
  · refine Leads.bind (IsTrans.trans _ _ _) (hread _) fun found => ?_
    split <;> exact leads_pure _

end Leads

/-- The repositories of a program do not change the files, however often they are asked, unless the transport does. -/
theorem isReadOnly_ofLocation {transport : Transport (StateM FileTree)} (htransport : ∀ url, ReadsOnly (transport url))
    (location : String) : (ofLocation transport location).IsReadOnly := by
  refine fun path => (leads_fetch (R := Eq) (fun url => (htransport url).mono Eq.symm) ?_ location path).mono Eq.symm
  exact fun _ _ => rfl

end Repository

namespace Store

/-- The file that data is written to before it is moved to its place. -/
abbrev draftOf (place : Path) : Path := place.withExtension "part"

/-- What keeping data changes in a tree: its place holds the data, its draft is gone, and directories were made. -/
structure Kept (t : FileTree) (place : Path) (data : Bytes) (t' : FileTree) : Prop where
  directories : t.KeepsDirectories t'
  data : t'.readFile place = .ok data
  draft : ∀ other, t'.locate (draftOf place) = .ok other → t'.locate place ≠ .ok other → t'.at? other = none
  others : ∀ other, t'.locate (draftOf place) ≠ .ok other → t'.locate place ≠ .ok other →
    t'.at? other = t.at? other ∨ (t.at? other = none ∧ t'.at? other = some .directory)

variable {t t' : FileTree} {place : Path} {data : Bytes}

theorem change_of_orElseThrow {ε : Type} {error : OsError → ε} {f : FileTree → Except OsError FileTree}
    (hrun : (FileSystem.orElseThrow error (FileTree.change f)).run.run t = (.ok (), t')) : f t = .ok t' :=
  FileTree.change_eq_ok (FileSystem.orElseThrow_eq_ok_iff.1 hrun)

theorem exists_of_keep (hkeep : (keep (m := StateM FileTree) place data).run.run t = (.ok (), t')) :
    ∃ t₁ t₂, t.Grows t₁ ∧ t₁.writeFile (draftOf place) data = .ok t₂ ∧
      t₂.renameFile (draftOf place) place = .ok t' := by
  have hmoved {t₁ : FileTree} (hrun : (do
      FileSystem.orElseThrow (ResolveError.cacheWrite place) (FileSystem.writeFile (draftOf place) data)
      FileSystem.orElseThrow (ResolveError.cacheWrite place)
        (FileSystem.renameFile (m := StateM FileTree) (draftOf place) place)).run.run t₁ = (.ok (), t')) :
      ∃ t₂, t₁.writeFile (draftOf place) data = .ok t₂ ∧ t₂.renameFile (draftOf place) place = .ok t' := by
    obtain ⟨written, t₂, hwrite, hrename⟩ := run_bind_state_eq_ok_iff.1 hrun
    exact ⟨t₂, change_of_orElseThrow hwrite, change_of_orElseThrow hrename⟩
  unfold keep at hkeep
  cases hparent : place.parent? with
  | none =>
    simp only [hparent] at hkeep
    obtain ⟨t₂, hfiles⟩ := hmoved hkeep
    exact ⟨t, t₂, .refl t, hfiles⟩
  | some parent =>
    simp only [hparent] at hkeep
    obtain ⟨made, t₁, hmade, hkeep⟩ := run_bind_state_eq_ok_iff.1 hkeep
    obtain ⟨t₂, hfiles⟩ := hmoved hkeep
    have hgrows := FileTree.leads_grows_makeDirectoriesWithin parent.text.length parent t
    have ht₁ := (Prod.mk.inj hmade).2
    exact ⟨t₁, t₂, ht₁ ▸ hgrows, hfiles⟩

/-- Data that was kept is where it belongs, and nothing else was touched. -/
theorem kept_of_keep (hkeep : (keep (m := StateM FileTree) place data).run.run t = (.ok (), t')) :
    Kept t place data t' := by
  obtain ⟨t₁, t₂, hgrows, hwrite, hrename⟩ := exists_of_keep hkeep
  obtain ⟨a, hdraft, ha, rfl⟩ := FileTree.writeFile_eq_ok_iff.1 hwrite
  obtain ⟨start, b, data', hstart, hdata, hplace, hb, rfl⟩ := FileTree.renameFile_eq_ok_iff.1 hrename
  have ha' := FileTree.ne_nil_of_at? ha
  have hb' := FileTree.ne_nil_of_at? hb
  have hwritten := FileTree.keepsDirectories_put ha data
  obtain rfl : a = start := Except.ok.inj ((hwritten.locate hdraft).symm.trans hstart)
  obtain rfl : data = data' := by simpa [FileTree.at?_put ha'] using hdata
  -- The draft is a file before it is moved, so that no path leads through it.
  have hmoved : ((t₁.put a (.file data)).erase a).at? b ≠ some .directory := by
    rw [FileTree.at?_erase ha']
    split
    · simp
    · exact hb
  have hkeeps := (FileTree.keepsDirectories_erase (hdata ▸ by simp)).trans
    (FileTree.keepsDirectories_put hmoved data)
  have hplace' := hkeeps.locate hplace
  have hdraft' := hkeeps.locate (hwritten.locate hdraft)
  have hat (other : Location) : (((t₁.put a (.file data)).erase a).put b (.file data)).at? other =
      if other = b then some (.file data) else if other = a then none else t₁.at? other := by
    rw [FileTree.at?_put hb', FileTree.at?_erase ha', FileTree.at?_put ha']
    by_cases hsame : other = a <;> simp [hsame]
  have hdirectories := (hgrows.keepsDirectories.trans hwritten).trans hkeeps
  refine ⟨hdirectories, FileTree.readFile_eq_ok_iff.2 ⟨b, hplace', ?_⟩, fun other hother hne => ?_,
    fun other hnot hne => ?_⟩
  · rw [hat, if_pos rfl]
  · obtain rfl := Except.ok.inj (hdraft'.symm.trans hother)
    rw [hat, if_neg, if_pos rfl]
    rintro rfl
    exact hne hplace'
  · rw [hat, if_neg, if_neg]
    · exact hgrows.at? other
    · rintro rfl
      exact hnot hdraft'
    · rintro rfl
      exact hne hplace'

section Repositories

variable {r : Repository (StateM FileTree)} {c : Coordinate}

theorem run_verify (hreads : r.IsReadOnly) (t : FileTree) (c : Coordinate) (data : Bytes) :
    (verify r c data).run.run t =
      (match r.publishedSum? t c.repositoryPath with
        | some sum => if sum ≠ Digest.sha1Text data then .error (.checksumMismatch c.render sum (Digest.sha1Text data))
          else .ok ()
        | none => .ok (), t) := by
  unfold verify Repository.publishedSum?
  rw [run_bind_of_ok (hreads.run_fetch t _)]
  cases r.answer t (c.repositoryPath ++ ".sha1") with
  | error e => rfl
  | ok found =>
    cases found with
    | none => rfl
    | some sidecar =>
      simp only
      cases expectedSum? sidecar with
      | none => rfl
      | some sum =>
        simp only
        split
        · rfl
        · rfl

/-- Repositories that do not have a file are passed over; the last error that they report is remembered. -/
theorem run_ask_append {before : List (Repository (StateM FileTree))} (hreads : ∀ s ∈ before, s.IsReadOnly)
    (hbefore : ∀ s ∈ before, ¬s.Offers t c.repositoryPath) (after : List (Repository (StateM FileTree)))
    (last : Option ResolveError) :
    (ask c (before ++ after) last).run.run t =
      (ask c after ((before.filterMap (·.refusal? t c.repositoryPath)).getLast?.or last)).run.run t := by
  induction before generalizing last with
  | nil => rfl
  | cons s before ih =>
    have hrest :=
      ih (fun s hs => hreads s (List.mem_cons_of_mem _ hs)) fun s hs => hbefore s (List.mem_cons_of_mem _ hs)
    rw [List.cons_append, ask, run_bind_of_ok ((hreads s List.mem_cons_self).run_fetch t _)]
    cases hanswer : s.answer t c.repositoryPath with
    | error e =>
      have hrefusal : s.refusal? t c.repositoryPath = some e := by rw [Repository.refusal?, hanswer]
      simp only [List.filterMap_cons, hrefusal, hrest, List.getLast?_cons]
      cases (before.filterMap (·.refusal? t c.repositoryPath)).getLast? <;> rfl
    | ok found =>
      have hrefusal : s.refusal? t c.repositoryPath = none := by rw [Repository.refusal?, hanswer]
      cases found with
      | none => simp only [List.filterMap_cons, hrefusal, hrest]
      | some data => exact absurd ⟨data, hanswer⟩ (hbefore s List.mem_cons_self)

theorem run_lift_isFile (place : Path) (t : FileTree) :
    (liftM (FileSystem.isFile place : StateM FileTree Bool) : ExceptT ResolveError (StateM FileTree) Bool).run.run t =
      (.ok (decide (t.IsFile place)), t) := by
  have hrun : (ExceptT.lift (FileSystem.isFile place : StateM FileTree Bool) :
      ExceptT ResolveError (StateM FileTree) Bool).run.run t = _ := run_lift _ t
  rwa [FileTree.run_isFile] at hrun

theorem run_fetch {store : Store (StateM FileTree)} (c : Coordinate) (t : FileTree) :
    (store.fetch c).run.run t =
      if t.IsFile (store.pathOf c) then (.ok (some (store.pathOf c)), t)
      else ((ask c store.repositories none >>= fun
        | some data => keep (store.pathOf c) data >>= fun _ => pure (some (store.pathOf c))
        | none => pure none : ExceptT ResolveError (StateM FileTree) (Option Path)).run.run t) := by
  rw [fetch, run_bind_of_ok (run_lift_isFile (store.pathOf c) t)]
  by_cases hfile : t.IsFile (store.pathOf c)
  · rw [decide_eq_true hfile, if_pos hfile]
    rfl
  · rw [decide_eq_false hfile, if_neg hfile]
    rfl

variable {store : Store (StateM FileTree)}

/-- What the first repository that has a file gives is kept, unless it publishes another sum. -/
theorem run_fetch_of_offer (hfile : ¬t.IsFile (store.pathOf c)) (hreads : ∀ r ∈ store.repositories, r.IsReadOnly)
    {before after : List (Repository (StateM FileTree))} (hrepositories : store.repositories = before ++ r :: after)
    (hbefore : ∀ s ∈ before, ¬s.Offers t c.repositoryPath) (hanswer : r.answer t c.repositoryPath = .ok (some data)) :
    (store.fetch c).run.run t =
      (verify r c data >>= fun _ =>
        keep (store.pathOf c) data >>= fun _ => pure (some (store.pathOf c))).run.run t := by
  rw [hrepositories] at hreads
  have hr : r.IsReadOnly := hreads r (by simp)
  have hask : (ask c store.repositories none).run.run t =
      (verify r c data >>= fun _ => pure (some data)).run.run t := by
    rw [hrepositories, run_ask_append (fun s hs => hreads s (List.mem_append_left _ hs)) hbefore, ask,
      run_bind_of_ok (hr.run_fetch t _), hanswer]
  rw [run_fetch, if_neg hfile, run_bind_congr hask, bind_assoc]
  simp only [pure_bind]

theorem run_fetch_of_none (hfile : ¬t.IsFile (store.pathOf c)) (hreads : ∀ r ∈ store.repositories, r.IsReadOnly)
    (hnone : ∀ r ∈ store.repositories, ¬r.Offers t c.repositoryPath) :
    (store.fetch c).run.run t =
      (match (store.repositories.filterMap (·.refusal? t c.repositoryPath)).getLast? with
        | some e => .error e
        | none => .ok none, t) := by
  have hask := run_ask_append hreads hnone [] none
  rw [List.append_nil, Option.or_none] at hask
  rw [run_fetch, if_neg hfile]
  cases hlast : (store.repositories.filterMap (·.refusal? t c.repositoryPath)).getLast? with
  | none =>
    rw [hlast] at hask
    rw [run_bind_of_ok hask]
    rfl
  | some e =>
    rw [hlast] at hask
    rw [run_bind_of_error hask]

/-- A file that was fetched is in the cache, and was there before or comes from a repository. -/
theorem fetch_eq_ok_some (hreads : ∀ r ∈ store.repositories, r.IsReadOnly) {place : Path}
    (hfetch : (store.fetch c).run.run t = (.ok (some place), t')) :
    store.pathOf c = place ∧ t'.IsFile place ∧
      ((t.IsFile place ∧ t' = t) ∨
        ¬t.IsFile place ∧ ∃ r ∈ store.repositories, ∃ data, r.answer t c.repositoryPath = .ok (some data) ∧
          Kept t place data t') := by
  by_cases hfile : t.IsFile (store.pathOf c)
  · rw [run_fetch, if_pos hfile] at hfetch
    obtain ⟨hplace, rfl⟩ := Prod.mk.inj hfetch
    obtain rfl := Option.some.inj (Except.ok.inj hplace)
    exact ⟨rfl, hfile, .inl ⟨hfile, rfl⟩⟩
  · by_cases hoffer : ∃ r ∈ store.repositories, r.Offers t c.repositoryPath
    · obtain ⟨before, r, after, hrepositories, ⟨data, hanswer⟩, hbefore⟩ := exists_first hoffer
      rw [run_fetch_of_offer hfile hreads hrepositories hbefore hanswer] at hfetch
      obtain ⟨checked, t₁, hverify, hfetch⟩ := run_bind_state_eq_ok_iff.1 hfetch
      obtain ⟨done, t₂, hkeep, hresult⟩ := run_bind_state_eq_ok_iff.1 hfetch
      obtain ⟨hplace, rfl⟩ := Prod.mk.inj hresult
      obtain rfl := Option.some.inj (Except.ok.inj hplace)
      have hr : r ∈ store.repositories := by simp [hrepositories]
      rw [run_verify (hreads r hr)] at hverify
      obtain rfl := (Prod.mk.inj hverify).2
      have hkept := kept_of_keep hkeep
      exact ⟨rfl, ⟨data, hkept.data⟩, .inr ⟨hfile, r, hr, data, hanswer, hkept⟩⟩
    · have hnone : ∀ r ∈ store.repositories, ¬r.Offers t c.repositoryPath := fun r hr h => hoffer ⟨r, hr, h⟩
      rw [run_fetch_of_none hfile hreads hnone] at hfetch
      have hresult := (Prod.mk.inj hfetch).1
      split at hresult <;> cases hresult

/-- A file that is found nowhere. -/
theorem fetch_eq_ok_none (hreads : ∀ r ∈ store.repositories, r.IsReadOnly)
    (hfetch : (store.fetch c).run.run t = (.ok none, t')) :
    t' = t ∧ ¬t.IsFile (store.pathOf c) ∧ ∀ r ∈ store.repositories, r.answer t c.repositoryPath = .ok none := by
  by_cases hfile : t.IsFile (store.pathOf c)
  · rw [run_fetch, if_pos hfile] at hfetch
    cases Except.ok.inj (Prod.mk.inj hfetch).1
  · by_cases hoffer : ∃ r ∈ store.repositories, r.Offers t c.repositoryPath
    · obtain ⟨before, r, after, hrepositories, ⟨data, hanswer⟩, hbefore⟩ := exists_first hoffer
      rw [run_fetch_of_offer hfile hreads hrepositories hbefore hanswer] at hfetch
      obtain ⟨checked, t₁, -, hfetch⟩ := run_bind_state_eq_ok_iff.1 hfetch
      obtain ⟨done, t₂, -, hresult⟩ := run_bind_state_eq_ok_iff.1 hfetch
      cases Except.ok.inj (Prod.mk.inj hresult).1
    · have hnone : ∀ r ∈ store.repositories, ¬r.Offers t c.repositoryPath := fun r hr h => hoffer ⟨r, hr, h⟩
      rw [run_fetch_of_none hfile hreads hnone] at hfetch
      obtain ⟨hresult, rfl⟩ := Prod.mk.inj hfetch
      refine ⟨rfl, hfile, fun r hr => ?_⟩
      cases hanswer : r.answer t c.repositoryPath with
      | ok found =>
        cases found with
        | none => rfl
        | some data => exact absurd ⟨data, hanswer⟩ (hnone r hr)
      | error e =>
        have hrefusal : r.refusal? t c.repositoryPath = some e := by rw [Repository.refusal?, hanswer]
        have hmem : e ∈ store.repositories.filterMap (·.refusal? t c.repositoryPath) :=
          List.mem_filterMap.2 ⟨r, hr, hrefusal⟩
        rw [List.getLast?_eq_some_getLast (List.ne_nil_of_mem hmem)] at hresult
        cases hresult

/-- A cached file is given as it is, and no repository is asked. Else the first repository that has the file
    decides: its data is kept, unless it publishes another sum. If none has it, the last error that one reported
    counts. What was fetched once is given again, whatever the repositories have then. -/
theorem fetch_outcome (hreads : ∀ r ∈ store.repositories, r.IsReadOnly) (c : Coordinate) (t : FileTree)
    (hwrites : ∀ r ∈ store.repositories, ∀ data, r.answer t c.repositoryPath = .ok (some data) →
      ∃ t', (keep (m := StateM FileTree) (store.pathOf c) data).run.run t = (.ok (), t')) :
    (t.IsFile (store.pathOf c) → ∀ repositories : List (Repository (StateM FileTree)),
      ((Store.mk store.cacheDir repositories).fetch c).run.run t = (.ok (some (store.pathOf c)), t)) ∧
    (¬t.IsFile (store.pathOf c) →
      (∀ before r after data, store.repositories = before ++ r :: after → (∀ s ∈ before, ¬s.Offers t c.repositoryPath) →
        r.answer t c.repositoryPath = .ok (some data) →
        (∀ sum, r.Publishes t c.repositoryPath sum → sum ≠ Digest.sha1Text data →
          (store.fetch c).run.run t = (.error (.checksumMismatch c.render sum (Digest.sha1Text data)), t)) ∧
        ((∀ sum, r.Publishes t c.repositoryPath sum → sum = Digest.sha1Text data) →
          ∃ t', (store.fetch c).run.run t = (.ok (some (store.pathOf c)), t') ∧ Kept t (store.pathOf c) data t')) ∧
      ((∀ r ∈ store.repositories, ¬r.Offers t c.repositoryPath) →
        (store.fetch c).run.run t =
          (match (store.repositories.filterMap (·.refusal? t c.repositoryPath)).getLast? with
            | some e => .error e
            | none => .ok none, t))) ∧
    ∀ place t', (store.fetch c).run.run t = (.ok (some place), t') →
      ∃ data, t'.readFile place = .ok data ∧
        ∀ repositories : List (Repository (StateM FileTree)),
          ((Store.mk store.cacheDir repositories).fetch c).run.run t' = (.ok (some place), t') := by
  have hcached {t : FileTree} (hfile : t.IsFile (store.pathOf c)) (repositories : List (Repository (StateM FileTree))) :
      ((Store.mk store.cacheDir repositories).fetch c).run.run t = (.ok (some (store.pathOf c)), t) := by
    rw [run_fetch]
    exact if_pos hfile
  refine ⟨hcached, fun hfile => ⟨?_, run_fetch_of_none hfile hreads⟩, fun place t' hfetch => ?_⟩
  · intro before r after data hrepositories hbefore hanswer
    have hr : r ∈ store.repositories := by simp [hrepositories]
    have hverify := run_verify (hreads r hr) t c data
    rw [run_fetch_of_offer hfile hreads hrepositories hbefore hanswer]
    constructor
    · intro sum hsum hother
      rw [Repository.publishedSum?_eq_some_iff.2 hsum] at hverify
      simp only [if_pos hother] at hverify
      exact run_bind_of_error hverify
    · intro hsame
      have hpasses : (verify r c data).run.run t = (.ok (), t) := by
        rw [hverify]
        cases hsum : r.publishedSum? t c.repositoryPath with
        | none => rfl
        | some sum => simp [hsame sum (Repository.publishedSum?_eq_some_iff.1 hsum)]
      obtain ⟨t', hkeep⟩ := hwrites r hr data hanswer
      rw [run_bind_of_ok hpasses, run_bind_of_ok hkeep, run_pure]
      exact ⟨t', rfl, kept_of_keep hkeep⟩
  · obtain ⟨rfl, ⟨data, hdata⟩, -⟩ := fetch_eq_ok_some hreads hfetch
    exact ⟨data, hdata, hcached ⟨data, hdata⟩⟩

/-- A repository that does not answer in time. -/
def silent : Repository (StateM FileTree) where
  name := "silent"
  isRemote := true
  fetch path := return .error (.timeout path)

/-- A repository of some files. -/
def holding (files : List (String × Bytes)) : Repository (StateM FileTree) where
  name := "files"
  isRemote := false
  fetch path := return .ok (files.lookup path)

/-- A module without a classifier. -/
def moduleNamed (artifact : String) : Coordinate := { group := "g", artifact, version := "1" }

/-- The same file of three modules. The sum of the first one is blank, that of the second one is another file's, and
    that of the third one is in upper case, with a name behind it. -/
def threeFiles : List (String × Bytes) :=
  [("g/a/1/a-1.jar", [0x6A]), ("g/a/1/a-1.jar.sha1", [0x20]),
    ("g/b/1/b-1.jar", [0x6A]), ("g/b/1/b-1.jar.sha1", Text.Utf8.encode "DA39\n".toList),
    ("g/c/1/c-1.jar", [0x6A]),
    ("g/c/1/c-1.jar.sha1", Text.Utf8.encode " 5C2DD944DDE9E08881BEF0894FE7B22A5C9C4B06  c-1.jar".toList)]

/-- A store whose first repository is silent. The second one has the files. -/
def behindSilent : Store (StateM FileTree) where
  cacheDir := ⟨"cache"⟩
  repositories := [silent, holding threeFiles]

theorem fetch_outcome_behind_silent :
    (∀ c ∈ ["a", "b", "c"].map moduleNamed, ¬(FileTree.empty ["w"]).IsFile (behindSilent.pathOf c)) ∧
      (∃ t', (behindSilent.fetch (moduleNamed "a")).run.run (.empty ["w"]) =
          (.ok (some (behindSilent.pathOf (moduleNamed "a"))), t') ∧
        Kept (.empty ["w"]) (behindSilent.pathOf (moduleNamed "a")) [0x6A] t') ∧
      (behindSilent.fetch (moduleNamed "b")).run.run (.empty ["w"]) =
        (.error (.checksumMismatch "g:b:1" "da39" "5c2dd944dde9e08881bef0894fe7b22a5c9c4b06"), .empty ["w"]) ∧
      ∃ t', (behindSilent.fetch (moduleNamed "c")).run.run (.empty ["w"]) =
          (.ok (some (behindSilent.pathOf (moduleNamed "c"))), t') ∧
        Kept (.empty ["w"]) (behindSilent.pathOf (moduleNamed "c")) [0x6A] t' := by
  have hreads : ∀ r ∈ behindSilent.repositories, r.IsReadOnly := by
    intro r hr
    rcases List.mem_pair.1 hr with rfl | rfl <;> exact fun _ _ => rfl
  have hfile : ∀ c ∈ ["a", "b", "c"].map moduleNamed, ¬(FileTree.empty ["w"]).IsFile (behindSilent.pathOf c) := by
    decide +kernel
  have hlookup : ∀ c ∈ ["a", "b", "c"].map moduleNamed, threeFiles.lookup c.repositoryPath = some [0x6A] := by
    decide +kernel
  have hkeeps : ∀ c ∈ ["a", "b", "c"].map moduleNamed,
      ((keep (m := StateM FileTree) (behindSilent.pathOf c) [0x6A]).run.run (.empty ["w"])).1.isOk = true := by
    decide +kernel
  have hwrites (c : Coordinate) (hc : c ∈ ["a", "b", "c"].map moduleNamed) : ∀ r ∈ behindSilent.repositories, ∀ data,
      r.answer (.empty ["w"]) c.repositoryPath = .ok (some data) →
      ∃ t', (keep (m := StateM FileTree) (behindSilent.pathOf c) data).run.run (.empty ["w"]) = (.ok (), t') := by
    intro r hr data hanswer
    rcases List.mem_pair.1 hr with rfl | rfl
    · cases hanswer
    · obtain rfl := Option.some.inj ((hlookup c hc).symm.trans (Except.ok.inj hanswer))
      exact exists_state_of_isOk (hkeeps c hc)
  have hsilent (path : String) : ∀ s ∈ [silent], ¬s.Offers (.empty ["w"]) path := by
    intro s hs
    obtain rfl := List.mem_singleton.1 hs
    rintro ⟨data, hdata⟩
    cases hdata
  have houtcome (c : Coordinate) (hc : c ∈ ["a", "b", "c"].map moduleNamed) :=
    ((fetch_outcome hreads c (.empty ["w"]) (hwrites c hc)).2.1 (hfile c hc)).1 [silent] _ [] [0x6A] rfl
      (hsilent c.repositoryPath) (congrArg Except.ok (hlookup c hc))
  have hsums : (["a", "b", "c"].map moduleNamed).map
      (fun c => (holding threeFiles).publishedSum? (.empty ["w"]) c.repositoryPath) =
        [none, some "da39", some "5c2dd944dde9e08881bef0894fe7b22a5c9c4b06"] := by
    decide +kernel
  have hdigest : Digest.sha1Text [0x6A] = "5c2dd944dde9e08881bef0894fe7b22a5c9c4b06" := by decide +kernel
  obtain ⟨hblank, hother, hsame⟩ : _ ∧ _ ∧ _ := by simpa using hsums
  refine ⟨hfile, (houtcome _ (by simp)).2 fun sum hsum => ?_, ?_, (houtcome _ (by simp)).2 fun sum hsum => ?_⟩
  · cases hblank.symm.trans (Repository.publishedSum?_eq_some_iff.2 hsum)
  · have hmismatch := (houtcome (moduleNamed "b") (by simp)).1 "da39" (Repository.publishedSum?_eq_some_iff.1 hother)
    rw [hdigest] at hmismatch
    exact hmismatch (by decide)
  · obtain rfl := Option.some.inj (hsame.symm.trans (Repository.publishedSum?_eq_some_iff.2 hsum))
    exact hdigest.symm

end Repositories

end Store
end UberJar
