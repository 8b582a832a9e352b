import UberJar.Proofs.Run.Writing
import UberJar.Run

namespace UberJar

variable {ν : Type}

namespace Archive

theorem leads_readBytes (path : Path) : Leads (Disk.OnTrees Eq) (readBytes (m := StateM (Disk ν)) path).run :=
  FileSystem.leads_orElseThrow (Disk.leads_readFile path) _

theorem leads_fromJar (path : Path) (label : String) :
    Leads (Disk.OnTrees Eq) (fromJar (m := StateM (Disk ν)) path label).run := by
  refine leads_bind (leads_readBytes path) fun bytes => ?_
  split
  · exact leads_result (.ok _)
  · exact leads_result (.error _)

theorem leads_filesWithin (depth : Nat) (directory : Path) (parents : String) :
    Leads (Disk.OnTrees Eq) (filesWithin (m := StateM (Disk ν)) depth directory parents).run := by
  induction depth generalizing directory parents with
  | zero => exact leads_result (.error _)
  | succ depth ih =>
    refine leads_bind (FileSystem.leads_orElseThrow (Disk.leads_listDirectory directory) _) fun names => ?_
    refine leads_bind (leads_mapM (fun name => ?_) names) fun found => leads_result (.ok _)
    refine leads_bind (leads_lift (Disk.leads_isDirectory _)) fun isDirectory => ?_
    split
    · exact ih _ _
    · exact leads_bind (leads_readBytes _) fun bytes => leads_result (.ok _)

/-- Reading an archive changes no files. -/
theorem leads_read (path : Path) (label : String) :
    Leads (Disk.OnTrees Eq) (read (m := StateM (Disk ν)) path label).run := by
  refine leads_bind (leads_lift (Disk.leads_isDirectory path)) fun isDirectory => ?_
  split
  · exact leads_bind (leads_filesWithin _ _ _) fun entries => leads_result (.ok _)
  · exact leads_fromJar path label

end Archive

/-- An environment whose files are on a disk. -/
def Environment.onDisk (env : Environment (StateM ν)) : Environment (StateM (Disk ν)) where
  transport url := Disk.lift (env.transport url)
  clock := Disk.lift env.clock
  cacheDir := env.cacheDir
  color := env.color

namespace Plan

variable {env : Environment (StateM ν)} {p : Plan} {d d' : Disk ν}

/-- The store of a plan, on a disk. -/
def storeOn (env : Environment (StateM ν)) (p : Plan) : Store (StateM (Disk ν)) := p.store env.onDisk.transport

theorem leavesFiles_storeOn (env : Environment (StateM ν)) (p : Plan) :
    ∀ r ∈ (p.storeOn env).repositories, r.LeavesFiles :=
  Repository.leavesFiles_ofLocations (fun url => Disk.leads_lift (env.transport url)) _ _

/-- All that making a jar does to the files is to download. -/
theorem leads_makeJar (env : Environment (StateM ν)) (p : Plan) :
    Leads (p.storeOn env).Reaches (p.makeJar env.onDisk.transport).run := by
  have hsame {α : Type} {x : StateM (Disk ν) α} (hx : Leads (Disk.OnTrees Eq) x) : Leads (p.storeOn env).Reaches x :=
    hx.mono Store.reaches_of_same
  refine leads_bind (leads_adapt (Store.leads_resolve (leavesFiles_storeOn env p) _) _) fun resolution => ?_
  refine leads_bind (leads_adapt (hsame (Archive.leads_read _ _)) _) fun application => ?_
  refine leads_bind (leads_result _) fun _ => leads_bind (leads_result _) fun s => ?_
  refine leads_bind (leads_foldlM (fun s a => ?_) _ _) fun s => leads_result (.ok _)
  exact leads_bind (leads_adapt (hsame (Archive.leads_fromJar _ _)) _) fun archive => leads_result _

/-- How a plan runs on a disk, dry or not. -/
def runOn (env : Environment (StateM ν)) (p : Plan) (dryRun : Bool) (d : Disk ν) : Except Failure Report × Disk ν :=
  ({ p with dryRun }.run env.onDisk).run.run d

variable {dryRun : Bool} {jar : MergedJar} {skipped : List String}

theorem runOn_of_error {e : Failure} (hmake : (p.makeJar env.onDisk.transport).run.run d = (.error e, d')) :
    p.runOn env dryRun d = (.error e, d') := run_bind_of_error hmake

theorem runOn_dry (hmake : (p.makeJar env.onDisk.transport).run.run d = (.ok (jar, skipped), d')) :
    ∃ time d'', p.runOn env true d = (.ok ({ p with dryRun := true }.report jar skipped time), d'') ∧
      d''.tree = d'.tree :=
  ⟨_, _, run_bind_of_ok hmake, rfl⟩

/-- Once its jar is made, a run ends well or cannot write the jar, which does no harm. -/
theorem runOn_proper (hmake : (p.makeJar env.onDisk.transport).run.run d = (.ok (jar, skipped), d')) :
    (∃ place detail d'', p.runOn env false d = (.error (.archive (.unwritable place detail)), d'') ∧
        d'.tree.Unharmed p.output d''.tree) ∨
      ∃ time d'', p.runOn env false d = (.ok ({ p with dryRun := false }.report jar skipped time), d'') := by
  have hrun : p.runOn env false d = _ := run_bind_of_ok hmake
  cases hwrite : (Jar.write (m := StateM (Disk ν)) p.output jar.entries).run.run d' with
  | mk written d'' =>
    have hadapted := run_adapt (Jar.write (m := StateM (Disk ν)) p.output jar.entries) Failure.archive d'
    rw [hwrite] at hadapted
    cases written with
    | error e =>
      obtain ⟨⟨place, detail, rfl⟩, hunharmed⟩ := Jar.write_eq_error hwrite
      exact .inl ⟨place, detail, d'', hrun.trans (run_bind_of_error hadapted), hunharmed⟩
    | ok done => exact .inr ⟨_, _, hrun.trans (run_bind_of_ok hadapted)⟩

/-- A jar that stands outside of a directory does so with its draft. -/
theorem not_isUnder_output {root start : Location} (houtside : ¬root <+: p.output.location start) :
    ¬Store.IsUnder root (p.output.location start) ∧ ¬Store.IsUnder root ((Jar.draftPath p.output).location start) := by
  have houtput : ¬Store.IsUnder root (p.output.location start) := by
    rintro ⟨rest, -, hlocation⟩
    exact houtside (hlocation ▸ List.prefix_append _ _)
  refine ⟨houtput, fun hdraft => ?_⟩
  rcases Path.location_draftPath p.output start with ⟨directory, name, hlocation, hbeside⟩ | hinside
  · rw [hbeside] at hdraft
    exact houtput (hlocation ▸ Store.isUnder_concat hdraft name)
  · rw [hinside] at hdraft
    exact houtside (Store.prefix_of_isUnder_concat hdraft)

/-- Downloads into the cache do no harm to a jar outside of it. -/
theorem unharmed_of_downloads {downloaded : List Coordinate}
    (houtside : ¬p.cacheDir.location d.tree.workingDirectory <+: p.output.location d.tree.workingDirectory)
    (hdownloads : (p.storeOn env).Downloads d downloaded d')
    (hunder : ∀ c ∈ downloaded, Store.IsUnder (p.cacheDir.location d.tree.workingDirectory)
      (((p.storeOn env).pathOf c).location d.tree.workingDirectory)) :
    d'.tree.workingDirectory = d.tree.workingDirectory ∧ d.tree.Unharmed p.output d'.tree := by
  have hspares := hdownloads.spares (leavesFiles_storeOn env p) hunder
  obtain ⟨houtput, hdraft⟩ := not_isUnder_output houtside
  exact ⟨hspares.directories.workingDirectory, .of_spares hspares houtput hdraft⟩

/-- A dry run and a run proper of one plan from one disk, whatever faults its operations meet and however its
    repositories answer. The dry run only downloads. As long as all that is downloaded lies below the cache, it leaves
    a jar outside of the cache as it was, and no draft of it, and so does the run proper if it fails. It fails if the
    dry run does, with the same error. Else it can only fail to write the jar, or gives the report of the dry run with
    a time of its own. -/
theorem dryRun_predicts_run (env : Environment (StateM ν)) (p : Plan) (d : Disk ν)
    (houtside : ¬p.cacheDir.location d.tree.workingDirectory <+: p.output.location d.tree.workingDirectory) :
    (p.storeOn env).Reaches d (p.runOn env true d).2 ∧
    (∀ downloaded, (p.storeOn env).Downloads d downloaded (p.runOn env true d).2 →
      (∀ c ∈ downloaded, Store.IsUnder (p.cacheDir.location d.tree.workingDirectory)
        (((p.storeOn env).pathOf c).location d.tree.workingDirectory)) →
      d.tree.Unharmed p.output (p.runOn env true d).2.tree ∧
        ∀ e, (p.runOn env false d).1 = .error e → d.tree.Unharmed p.output (p.runOn env false d).2.tree) ∧
    (∀ e, (p.runOn env true d).1 = .error e → (p.runOn env false d).1 = .error e) ∧
    ∀ report, (p.runOn env true d).1 = .ok report →
      (∃ place detail, (p.runOn env false d).1 = .error (.archive (.unwritable place detail))) ∨
        ∃ time, (p.runOn env false d).1 = .ok { report with dryRun := false, finishedAt := time } := by
  have hreaches := leads_makeJar env p d
  cases hmake : (p.makeJar env.onDisk.transport).run.run d with
  | mk made d' =>
    rw [hmake] at hreaches
    cases made with
    | error e =>
      rw [runOn_of_error hmake, runOn_of_error hmake]
      refine ⟨hreaches, fun downloaded hdownloads hunder => ?_, fun _ h => h, nofun⟩
      have hunharmed := (unharmed_of_downloads houtside hdownloads hunder).2
      exact ⟨hunharmed, fun _ _ => hunharmed⟩
    | ok made =>
      obtain ⟨jar, skipped⟩ := made
      obtain ⟨time, dry, hdry, hsame⟩ := runOn_dry hmake
      rw [hdry]
      refine ⟨IsTrans.trans d d' dry hreaches (Store.reaches_of_same hsame.symm), ?_, nofun, ?_⟩
      · intro downloaded hdownloads hunder
        obtain ⟨hworking, hunharmed⟩ := unharmed_of_downloads houtside hdownloads hunder
        refine ⟨hunharmed, fun e hfailed => ?_⟩
        rw [hsame] at hworking hunharmed
        rcases runOn_proper hmake with ⟨place, detail, d'', hproper, hwriting⟩ | ⟨time, d'', hproper⟩
        · rw [hproper]
          exact hunharmed.trans hworking hwriting
        · rw [hproper] at hfailed
          cases hfailed
      · intro report hreport
        obtain rfl := Except.ok.inj hreport
        rcases runOn_proper hmake with ⟨place, detail, d'', hproper, -⟩ | ⟨time, d'', hproper⟩
        · exact .inl ⟨place, detail, congrArg Prod.fst hproper⟩
        · exact .inr ⟨time, congrArg Prod.fst hproper⟩

section Examples

/-- A jar without entries. -/
def emptyJar : Bytes := [0x50, 0x4B, 0x05, 0x06] ++ List.replicate 18 0

/-- An environment with an empty jar at one address, and nothing elsewhere. -/
def offering (address : String) : Environment (StateM Unit) where
  transport url := return if url = address then .response 200 (some emptyJar) else .response 404 none
  clock := return default
  cacheDir := ⟨"cache"⟩
  color := false

/-- A plan that bundles one module. -/
def bundling (c : Coordinate) (output : Path) : Plan where
  input := ⟨"input.jar"⟩
  output
  cacheDir := ⟨"cache"⟩
  offline := false
  repositories := ["https://r"]
  dependencies := [{ source := .maven c, transitive := false }]
  relocator := .empty
  merge := default
  dryRun := false

/-- A disk with an empty jar to read, and a file where the jar is to stand. -/
def diskWith (output : String) (faults : Nat → Option Fault) : Disk Unit where
  tree := ((FileTree.empty []).put ["input.jar"] (.file emptyJar)).put [output] (.file [0x6F])
  faults
  outside := ()

/-- An environment that offers one plain module. -/
def plainOffer : Environment (StateM Unit) := offering "https://r/g/a/1/a-1.jar"

/-- A plan that bundles it. -/
def plainPlan : Plan := bundling { group := "g", artifact := "a", version := "1" } ⟨"app.jar"⟩

theorem get_of_ne {address url : String} (hne : url ≠ address) (retries : Nat) (d : Disk Unit) :
    ((Http.get (offering address).onDisk.transport url retries).run d).1 = .ok none := by
  have hreply : (offering address).onDisk.transport url = Disk.lift (return .response 404 none) := by
    simp only [offering, Environment.onDisk, if_neg hne]
  cases retries <;> rw [Http.get, hreply] <;> rfl

/-- Where only one plain module is offered, no repository path of what is downloaded leads up. -/
theorem names_of_offering {p : Plan} (hrepositories : p.repositories = ["https://r"]) {d d' : Disk Unit}
    {downloaded : List Coordinate} (hdownloads : (p.storeOn plainOffer).Downloads d downloaded d') :
    ∀ c ∈ downloaded, c.names ≠ [] ∧ Path.up ∉ c.names := by
  intro c hc
  obtain ⟨r, hr, d₁, data, hgives⟩ := hdownloads.exists_repository hc
  obtain ⟨location, hlocation, rfl⟩ := List.mem_map.1 (List.mem_filter.1 hr).1
  obtain rfl := List.mem_singleton.1 (hrepositories ▸ hlocation)
  rw [Repository.ofLocation, if_pos (by decide +kernel)] at hgives
  have hpath : c.repositoryPath = "g/a/1/a-1.jar" := by
    by_contra hne
    refine absurd (hgives.symm.trans (get_of_ne (fun hurl => hne ?_) _ d₁)) nofun
    have hbase : String.ofList (Text.dropEndWhile (· == '/') "https://r".toList) = "https://r" := by decide +kernel
    rw [hbase] at hurl
    exact (String.append_right_inj _).1 (hurl.trans (by decide +kernel : _ = "https://r" ++ "/" ++ "g/a/1/a-1.jar"))
  rw [Coordinate.names, hpath]
  decide +kernel

/-- A disk that refuses to create the draft of a jar. -/
def refusing : Disk Unit := diskWith "app.jar" fun n => if n = 13 then some ⟨.permissionDenied, none⟩ else none

theorem dryRun_predicts_run_on_refusing :
    ¬plainPlan.cacheDir.location refusing.tree.workingDirectory <+:
        plainPlan.output.location refusing.tree.workingDirectory ∧
      (plainPlan.runOn plainOffer true refusing).1.isOk = true ∧
      (plainPlan.runOn plainOffer false refusing).1 =
        .error (.archive (.unwritable ⟨".app.jar.tmp"⟩ OsError.permissionDenied.message)) ∧
      refusing.tree.Unharmed ⟨"app.jar"⟩ (plainPlan.runOn plainOffer true refusing).2.tree ∧
      refusing.tree.Unharmed ⟨"app.jar"⟩ (plainPlan.runOn plainOffer false refusing).2.tree := by
  have houtside : ¬plainPlan.cacheDir.location refusing.tree.workingDirectory <+:
      plainPlan.output.location refusing.tree.workingDirectory := by decide +kernel
  have hrefused : (plainPlan.runOn plainOffer false refusing).1 =
      .error (.archive (.unwritable ⟨".app.jar.tmp"⟩ OsError.permissionDenied.message)) := by decide +kernel
  obtain ⟨⟨downloaded, hdownloads⟩, hharmless, -⟩ := dryRun_predicts_run plainOffer plainPlan refusing houtside
  obtain ⟨hdry, hproper⟩ := hharmless downloaded hdownloads fun c hc =>
    Store.isUnder_pathOf (plainPlan.storeOn plainOffer) (names_of_offering rfl hdownloads c hc) _
  exact ⟨houtside, by decide +kernel, hrefused, hdry, hproper _ hrefused⟩

/-- A module whose repository path leads up from the cache. -/
def climber : Coordinate := { group := "a", artifact := "..", version := ".." }

/-- A plan that bundles it, with a jar beside the cache. -/
def climbingPlan : Plan := bundling climber ⟨"..-...jar"⟩

/-- A dry run that replaces the file where its jar is to stand. -/
theorem dryRun_replaces_output :
    Coordinate.parse "a:..:.." = .ok climber ∧
      ¬climbingPlan.cacheDir.location [] <+: climbingPlan.output.location [] ∧
      (diskWith "..-...jar" fun _ => none).tree.fileAt? (climbingPlan.output.location []) = some [0x6F] ∧
      (climbingPlan.runOn (offering "https://r/a/../../..-...jar") true
        (diskWith "..-...jar" fun _ => none)).2.tree.fileAt? (climbingPlan.output.location []) = some emptyJar :=
  ⟨by decide +kernel, by decide +kernel, by decide +kernel, by decide +kernel⟩

end Examples

end Plan
end UberJar
