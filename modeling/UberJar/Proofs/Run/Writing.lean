import UberJar.Proofs.Store.Downloads

namespace UberJar

namespace FileTree

/-- A tree in which the file at the place of a jar is as it was, and no draft of the jar that was not there before. -/
structure Unharmed (p : Path) (t t' : FileTree) : Prop where
  output : t'.fileAt? (p.location t.workingDirectory) = t.fileAt? (p.location t.workingDirectory)
  draft : t'.fileAt? ((Jar.draftPath p).location t.workingDirectory) = none ∨
    t'.fileAt? ((Jar.draftPath p).location t.workingDirectory) =
      t.fileAt? ((Jar.draftPath p).location t.workingDirectory)

/-- A tree in which a path leads to a file, and the other files are those of another tree. -/
structure Drafted (p : Path) (t t' : FileTree) : Prop where
  spares : t.Spares (· ≠ p.location t.workingDirectory) t'
  file : ∃ place data, t'.locate p = .ok place ∧ t'.at? place = some (.file data)

variable {t t' t'' : FileTree} {p : Path} {data : Bytes}

theorem Unharmed.of_spares {places : Location → Prop} (hspares : t.Spares places t')
    (houtput : places (p.location t.workingDirectory))
    (hdraft : places ((Jar.draftPath p).location t.workingDirectory)) : Unharmed p t t' :=
  ⟨hspares.files _ houtput, .inr (hspares.files _ hdraft)⟩

theorem Unharmed.trans (hfirst : Unharmed p t t') (hworking : t'.workingDirectory = t.workingDirectory)
    (hsecond : Unharmed p t' t'') : Unharmed p t t'' where
  output := by
    have houtput := hsecond.output
    rw [hworking] at houtput
    exact houtput.trans hfirst.output
  draft := by
    have hdraft := hsecond.draft
    rw [hworking] at hdraft
    rcases hdraft with hnone | hsame
    · exact .inl hnone
    · rcases hfirst.draft with hnone | hsame'
      · exact .inl (hsame.trans hnone)
      · exact .inr (hsame.trans hsame')

theorem drafted_of_writeFile (hspares : t.Spares (· ≠ p.location t.workingDirectory) t')
    (hwrite : t'.writeFile p data = .ok t'') : Drafted p t t'' := by
  have hworking := hspares.directories.workingDirectory
  have hwritten : t'.Spares (· ≠ p.location t.workingDirectory) t'' :=
    sparesFrom_of_writeFile (not_not_intro rfl) hwrite hworking
  refine ⟨hspares.trans hwritten, ?_⟩
  obtain ⟨place, hlocate, hplace, rfl⟩ := writeFile_eq_ok_iff.1 hwrite
  refine ⟨place, data, (keepsDirectories_put hplace data).locate hlocate, ?_⟩
  rw [at?_put (ne_nil_of_at? hplace), if_pos rfl]

theorem Drafted.breakOff (hdrafted : Drafted p t t') (fault : Fault) (data : Bytes) :
    Drafted p t (t'.breakOff fault p data) := by
  unfold FileTree.breakOff
  split
  · split
    · exact hdrafted
    · next count _ _ =>
      cases hwrite : t'.writeFile p (data.take count) with
      | error e => exact hdrafted
      | ok t'' => exact drafted_of_writeFile hdrafted.spares hwrite
  · exact hdrafted

/-- A draft can be removed, and then it is gone. -/
theorem Drafted.removeFile (hdrafted : Drafted p t t') :
    ∃ t'', t'.removeFile p = .ok t'' ∧ t.Spares (· ≠ p.location t.workingDirectory) t'' ∧
      t''.fileAt? (p.location t.workingDirectory) = none := by
  obtain ⟨place, data, hlocate, hplace⟩ := hdrafted.file
  have hfile : t'.at? place ≠ some .directory := by simp [hplace]
  have hlocation : p.location t.workingDirectory = place :=
    hdrafted.spares.directories.workingDirectory ▸ location_of_locate hlocate
  refine ⟨t'.erase place, ?_, hdrafted.spares.trans (spares_erase hfile ?_), ?_⟩
  · simp [FileTree.removeFile, hlocate, hplace, bind, Except.bind]
  · exact not_not_intro hlocation.symm
  · rw [hlocation, fileAt?_erase (ne_nil_of_at? hfile), if_pos rfl]

end FileTree

namespace Jar

variable {ν : Type} {d d' : Disk ν} {t : FileTree} {path : Path} {e error : ArchiveError}

/-- Giving up leaves no draft behind. -/
theorem abandon_eq_error (hdrafted : t.Drafted (draftPath path) d.tree)
    (hrun : (abandon (m := StateM (Disk ν)) (draftPath path) error).run.run d = (.error e, d')) :
    e = error ∧ t.Unharmed path d'.tree := by
  obtain ⟨t', hremove, hspares, hgone⟩ := hdrafted.removeFile
  have hdone : (abandon (m := StateM (Disk ν)) (draftPath path) error).run.run d =
      (.error error, { d with tree := t' }) := by
    have hremoved : (FileSystem.removeFile (m := StateM (Disk ν)) (draftPath path)).run d =
        (.ok (), { d with tree := t' }) := by
      change Disk.onTree (FileTree.change _) d = _
      simp only [Disk.onTree, FileTree.change, StateT.run, hremove]
    have hlifted := run_lift (ε := ArchiveError) (FileSystem.removeFile (m := StateM (Disk ν)) (draftPath path)) d
    rw [hremoved] at hlifted
    exact run_bind_of_ok hlifted
  obtain ⟨he, rfl⟩ := Prod.mk.inj (hrun.symm.trans hdone)
  exact ⟨Except.error.inj he, hspares.files _ (Path.location_draftPath_ne path _).symm, .inl hgone⟩

theorem complete_eq_error {method : Zip.Method} {entries : List Entry} (hdrafted : t.Drafted (draftPath path) d.tree)
    (hrun : (complete (m := StateM (Disk ν)) method path entries).run.run d = (.error e, d')) :
    (∃ place detail, e = .unwritable place detail) ∧ t.Unharmed path d'.tree := by
  have habandon {d : Disk ν} {detail : String} (hdrafted : t.Drafted (draftPath path) d.tree)
      (hrun : (abandon (m := StateM (Disk ν)) (draftPath path) (.unwritable path detail)).run.run d = (.error e, d')) :
      (∃ place detail, e = .unwritable place detail) ∧ t.Unharmed path d'.tree := by
    obtain ⟨he, hunharmed⟩ := abandon_eq_error hdrafted hrun
    exact ⟨⟨_, _, he⟩, hunharmed⟩
  unfold complete at hrun
  cases hencode : encode method entries with
  | error fault =>
    rw [hencode] at hrun
    exact habandon hdrafted hrun
  | ok bytes =>
    simp only [hencode, run_lift_bind] at hrun
    cases hwrite : (FileSystem.writeFile (m := StateM (Disk ν)) (draftPath path) bytes).run d with
    | mk written d₁ =>
      rw [hwrite] at hrun
      cases written with
      | error refusal =>
        refine habandon ?_ hrun
        rcases Disk.change_eq_error hwrite with hsame | ⟨fault, hbroken⟩
        · exact hsame ▸ hdrafted
        · exact hbroken ▸ hdrafted.breakOff fault bytes
      | ok done =>
        have hdrafted₁ : t.Drafted (draftPath path) d₁.tree :=
          FileTree.drafted_of_writeFile hdrafted.spares (Disk.change_eq_ok hwrite)
        simp only [run_lift_bind] at hrun
        cases hrename : (FileSystem.renameFile (m := StateM (Disk ν)) (draftPath path) path).run d₁ with
        | mk renamed d₂ =>
          rw [hrename] at hrun
          cases renamed with
          | error refusal =>
            refine habandon ?_ hrun
            rcases Disk.change_eq_error hrename with hsame | ⟨fault, hsame⟩
            · exact hsame ▸ hdrafted₁
            · exact hsame ▸ hdrafted₁
          | ok done => cases (Prod.mk.inj hrun).1

/-- A jar that could not be written has done no harm. -/
theorem write_eq_error {entries : List Entry}
    (hrun : (write (m := StateM (Disk ν)) path entries).run.run d = (.error e, d')) :
    (∃ place detail, e = .unwritable place detail) ∧ d.tree.Unharmed path d'.tree := by
  have hfiles {d₁ : Disk ν} (hspares : ∀ {places}, d.tree.Spares places d₁.tree)
      (hrun : (do
        FileSystem.orElseThrow (fun e => ArchiveError.unwritable (draftPath path) e.message)
          (FileSystem.writeFile (draftPath path) [])
        complete (m := StateM (Disk ν)) .deflated path entries).run.run d₁ = (.error e, d')) :
      (∃ place detail, e = .unwritable place detail) ∧ d.tree.Unharmed path d'.tree := by
    rcases run_bind_state_eq_error_iff.1 hrun with hrefused | ⟨created, d₂, hcreate, hcomplete⟩
    · obtain ⟨refusal, hcreate, rfl⟩ := FileSystem.orElseThrow_eq_error_iff.1 hrefused
      have hsame : d'.tree = d₁.tree := by
        rcases Disk.change_eq_error hcreate with hsame | ⟨fault, hbroken⟩
        · exact hsame
        · exact hbroken.trans (FileTree.breakOff_nil fault _ _)
      exact ⟨⟨_, _, rfl⟩, hsame ▸ .of_spares (hspares : d.tree.Spares (fun _ => True) d₁.tree) trivial trivial⟩
    · have hcreated := Disk.change_eq_ok (FileSystem.orElseThrow_eq_ok_iff.1 hcreate)
      exact complete_eq_error (FileTree.drafted_of_writeFile hspares hcreated) hcomplete
  unfold write writeWith at hrun
  cases hparent : path.parent? with
  | none =>
    simp only [hparent] at hrun
    exact hfiles (.refl _) hrun
  | some parent =>
    simp only [hparent] at hrun
    have hmakes {places : Location → Prop} : d.tree.Spares places
        ((FileSystem.makeDirectories (m := StateM (Disk ν)) parent).run d).2.tree :=
      Disk.leads_makeDirectories parent d rfl
    rcases run_bind_state_eq_error_iff.1 hrun with hrefused | ⟨made, d₁, hmade, hrest⟩
    · obtain ⟨refusal, hmade, rfl⟩ := FileSystem.orElseThrow_eq_error_iff.1 hrefused
      rw [hmade] at hmakes
      exact ⟨⟨_, _, rfl⟩, .of_spares (hmakes : d.tree.Spares (fun _ => True) d'.tree) trivial trivial⟩
    · rw [FileSystem.orElseThrow_eq_ok_iff.1 hmade] at hmakes
      exact hfiles hmakes hrest

end Jar
end UberJar
