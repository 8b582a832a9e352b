import Mathlib.Tactic.SplitIfs
import UberJar.Files.System
import UberJar.Proofs.State

namespace UberJar

namespace FileTree

variable {t t₁ t₂ t₃ : FileTree} {place other : Location} {p : Path}

@[simp] theorem at?_root (t : FileTree) : t.at? [] = some .directory := rfl

theorem ne_nil_of_at? (h : t.at? place ≠ some .directory) : place ≠ [] := by
  rintro rfl
  exact h rfl

theorem at?_put (hplace : place ≠ []) (content : Content) :
    (t.put place content).at? other = if other = place then some content else t.at? other := by
  by_cases hroot : other = []
  · simp [at?, hroot, hplace.symm]
  · simp only [at?, put, hroot, if_false, Std.TreeMap.getElem?_insert, Std.compare_eq_iff_eq]
    by_cases hsame : other = place <;> simp [hsame, eq_comm (a := place)]

theorem at?_erase (hplace : place ≠ []) :
    (t.erase place).at? other = if other = place then none else t.at? other := by
  by_cases hroot : other = []
  · simp [at?, hroot, hplace.symm]
  · simp only [at?, erase, hroot, if_false, Std.TreeMap.getElem?_erase, Std.compare_eq_iff_eq]
    by_cases hsame : other = place <;> simp [hsame, eq_comm (a := place)]

/-- The directories of a tree are there in another one. -/
structure KeepsDirectories (t₁ t₂ : FileTree) : Prop where
  workingDirectory : t₂.workingDirectory = t₁.workingDirectory
  directory : ∀ place, t₁.at? place = some .directory → t₂.at? place = some .directory

theorem walk_of_directories (hkeeps : ∀ place, t₁.at? place = some .directory → t₂.at? place = some .directory)
    {pieces : List (List Char)} {start : Location} (hwalk : t₁.walk start pieces = .ok place) :
    t₂.walk start pieces = .ok place := by
  induction pieces generalizing start with
  | nil => exact hwalk
  | cons piece pieces ih =>
    rw [walk] at hwalk ⊢
    cases hstart : t₁.at? start with
    | none => simp [hstart] at hwalk
    | some content =>
      cases content with
      | file data => simp [hstart] at hwalk
      | directory =>
        simp only [hstart] at hwalk
        simp only [hkeeps start hstart]
        split_ifs at hwalk ⊢
        · exact ih hwalk
        · exact ih hwalk
        · exact ih hwalk

theorem KeepsDirectories.locate (hkeeps : KeepsDirectories t₁ t₂) (hlocate : t₁.locate p = .ok place) :
    t₂.locate p = .ok place := by
  unfold FileTree.locate at hlocate ⊢
  rw [hkeeps.workingDirectory]
  split_ifs at hlocate ⊢
  · exact walk_of_directories hkeeps.directory hlocate
  · exact walk_of_directories hkeeps.directory hlocate

theorem KeepsDirectories.trans (hfirst : KeepsDirectories t₁ t₂) (hsecond : KeepsDirectories t₂ t₃) :
    KeepsDirectories t₁ t₃ :=
  ⟨hsecond.workingDirectory.trans hfirst.workingDirectory,
    fun place hplace => hsecond.directory place (hfirst.directory place hplace)⟩

theorem keepsDirectories_put (hplace : t₁.at? place ≠ some .directory) (data : Bytes) :
    KeepsDirectories t₁ (t₁.put place (.file data)) where
  workingDirectory := rfl
  directory other hother := by
    rw [at?_put (ne_nil_of_at? hplace), if_neg]
    · exact hother
    · rintro rfl
      exact hplace hother

theorem keepsDirectories_erase (hplace : t₁.at? place ≠ some .directory) :
    KeepsDirectories t₁ (t₁.erase place) where
  workingDirectory := rfl
  directory other hother := by
    rw [at?_erase (ne_nil_of_at? hplace), if_neg]
    · exact hother
    · rintro rfl
      exact hplace hother

/-- A tree to which directories were added where nothing was. -/
structure Grows (t₁ t₂ : FileTree) : Prop where
  workingDirectory : t₂.workingDirectory = t₁.workingDirectory
  at? : ∀ place, t₂.at? place = t₁.at? place ∨ (t₁.at? place = none ∧ t₂.at? place = some .directory)

theorem Grows.refl (t : FileTree) : Grows t t := ⟨rfl, fun _ => .inl rfl⟩

theorem Grows.trans (hfirst : Grows t₁ t₂) (hsecond : Grows t₂ t₃) : Grows t₁ t₃ where
  workingDirectory := hsecond.workingDirectory.trans hfirst.workingDirectory
  at? place := by
    rcases hfirst.at? place with hsame | ⟨hnone, hnew⟩
    · rw [← hsame]
      exact hsecond.at? place
    · rcases hsecond.at? place with hsame | ⟨hold, -⟩
      · exact .inr ⟨hnone, hsame.trans hnew⟩
      · rw [hnew] at hold
        cases hold

theorem Grows.keepsDirectories (hgrows : Grows t₁ t₂) : KeepsDirectories t₁ t₂ where
  workingDirectory := hgrows.workingDirectory
  directory place hplace := by
    rcases hgrows.at? place with hsame | ⟨hnone, -⟩
    · exact hsame.trans hplace
    · rw [hplace] at hnone
      cases hnone

theorem leads_change {R : FileTree → FileTree → Prop} {f : FileTree → Except OsError FileTree} (hrefl : ∀ t, R t t)
    (hchange : ∀ t₁ t₂, f t₁ = .ok t₂ → R t₁ t₂) : Leads R (change f) := by
  intro t
  change R t (change f t).2
  unfold change
  cases hf : f t with
  | error e => exact hrefl t
  | ok t' => exact hchange t t' hf

/-- A change that is reported as done was made. -/
theorem change_eq_ok {f : FileTree → Except OsError FileTree} (hrun : change f t₁ = (.ok (), t₂)) : f t₁ = .ok t₂ := by
  unfold change at hrun
  cases hf : f t₁ with
  | error e =>
    rw [hf] at hrun
    cases (Prod.mk.inj hrun).1
  | ok t =>
    rw [hf] at hrun
    exact congrArg Except.ok (Prod.mk.inj hrun).2

/-- A change that is reported as refused was not made. -/
theorem change_eq_error {f : FileTree → Except OsError FileTree} {e : OsError} (hrun : change f t₁ = (.error e, t₂)) :
    t₂ = t₁ := by
  unfold change at hrun
  cases hf : f t₁ with
  | error e =>
    rw [hf] at hrun
    exact (Prod.mk.inj hrun).2.symm
  | ok t =>
    rw [hf] at hrun
    cases (Prod.mk.inj hrun).1

theorem grows_of_makeDirectory (hmade : t₁.makeDirectory p = .ok t₂) : Grows t₁ t₂ := by
  obtain ⟨place, -, hmade⟩ := bind_eq_ok_iff.1 hmade
  cases hplace : t₁.at? place with
  | some content => simp [hplace] at hmade
  | none =>
    simp only [hplace, Except.ok.injEq] at hmade
    have hroot : place ≠ [] := ne_nil_of_at? (t := t₁) (by simp [hplace])
    refine ⟨hmade ▸ rfl, fun other => ?_⟩
    rw [← hmade, at?_put hroot]
    by_cases hsame : other = place
    · exact .inr ⟨hsame ▸ hplace, if_pos hsame⟩
    · exact .inl (if_neg hsame)

instance : IsPreorder FileTree Grows where
  refl := .refl
  trans _ _ _ := .trans

end FileTree

namespace FileSystem

section OrElseThrow

variable {σ ε α : Type} {operation : StateM σ (Except OsError α)} {error : OsError → ε} {s s' : σ}

theorem run_orElseThrow (operation : StateM σ (Except OsError α)) (error : OsError → ε) (s : σ) :
    (orElseThrow error operation).run.run s = ((operation.run s).1.mapError error, (operation.run s).2) := rfl

theorem orElseThrow_eq_ok_iff {a : α} :
    (orElseThrow error operation).run.run s = (.ok a, s') ↔ operation.run s = (.ok a, s') := by
  rw [run_orElseThrow]
  cases operation.run s with
  | mk result s₁ =>
    cases result with
    | ok a =>
      constructor
      all_goals
        intro h
        cases h
        rfl
    | error refusal => exact ⟨nofun, nofun⟩

theorem orElseThrow_eq_error_iff {e : ε} :
    (orElseThrow error operation).run.run s = (.error e, s') ↔
      ∃ refusal, operation.run s = (.error refusal, s') ∧ error refusal = e := by
  rw [run_orElseThrow]
  cases operation.run s with
  | mk result s₁ =>
    cases result with
    | ok a => exact ⟨nofun, nofun⟩
    | error refusal =>
      constructor
      · intro h
        cases h
        exact ⟨refusal, rfl, rfl⟩
      · rintro ⟨_, h, rfl⟩
        cases h
        rfl

theorem leads_orElseThrow {R : σ → σ → Prop} (hoperation : Leads R operation) (error : OsError → ε) :
    Leads R (orElseThrow error operation).run := hoperation

end OrElseThrow

/-- Making directories leads where asking for directories and making one lead. -/
theorem leads_makeDirectoriesWithin {σ : Type} [FileSystem (StateM σ)] {R : σ → σ → Prop} [IsPreorder σ R]
    (hasks : ∀ p, Leads R (isDirectory? p : StateM σ (Option Bool)))
    (hmakes : ∀ p, Leads R (makeDirectory p : StateM σ (Except OsError Unit))) (depth : Nat) (p : Path) :
    Leads R (makeDirectoriesWithin depth p : StateM σ (Except OsError Unit)) := by
  have htrans {s₁ s₂ s₃ : σ} : R s₁ s₂ → R s₂ s₃ → R s₁ s₃ := IsTrans.trans _ _ _
  have hsettles (p : Path) (e : OsError) :
      Leads R (do return if ← isDirectory p then .ok () else .error e : StateM σ (Except OsError Unit)) :=
    Leads.bind htrans (Leads.bind htrans (hasks p) fun _ => leads_pure _) fun _ => leads_pure _
  induction depth using Nat.strongRecOn generalizing p with
  | _ depth ih =>
    unfold makeDirectoriesWithin
    split
    · exact leads_pure _
    · refine Leads.bind htrans (hmakes p) fun made => ?_
      cases made with
      | ok done => exact leads_pure _
      | error e =>
        simp only
        split
        · exact hsettles p e
        · split
          · next depth parent _ =>
            refine Leads.bind htrans (ih depth (Nat.lt_succ_self depth) parent) fun above => ?_
            cases above with
            | error e => exact leads_pure _
            | ok done =>
              refine Leads.bind htrans (hmakes p) fun made => ?_
              cases made with
              | ok done => exact leads_pure _
              | error e => exact hsettles p e
          · exact leads_pure _

end FileSystem

namespace FileTree

variable {t t₁ t₂ : FileTree} {place : Location} {p : Path}

theorem leads_grows_makeDirectoriesWithin (depth : Nat) (p : Path) :
    Leads Grows (FileSystem.makeDirectoriesWithin depth p : StateM FileTree (Except OsError Unit)) :=
  FileSystem.leads_makeDirectoriesWithin (fun _ t => .refl t)
    (fun _ => leads_change .refl fun _ _ => grows_of_makeDirectory) depth p

theorem readFile_eq_ok_iff {data : Bytes} :
    t.readFile p = .ok data ↔ ∃ place, t.locate p = .ok place ∧ t.at? place = some (.file data) := by
  simp only [readFile, content, bind_eq_ok_iff]
  constructor
  · rintro ⟨found, ⟨place, hlocate, hplace⟩, hdata⟩
    cases hat : t.at? place with
    | none => simp [hat] at hplace
    | some content =>
      obtain rfl : content = found := by simpa [hat] using hplace
      cases content with
      | directory => cases hdata
      | file bytes =>
        obtain rfl := Except.ok.inj hdata
        exact ⟨place, hlocate, hat⟩
  · rintro ⟨place, hlocate, hplace⟩
    exact ⟨.file data, ⟨place, hlocate, by rw [hplace]⟩, rfl⟩

/-- Whether a path leads to a file. -/
def IsFile (t : FileTree) (p : Path) : Prop := ∃ data, t.readFile p = .ok data

theorem isFile_iff : t.IsFile p ↔ (t.readFile p).isOk = true := by
  unfold IsFile
  cases t.readFile p <;> simp [Except.isOk, Except.toBool]

instance (t : FileTree) (p : Path) : Decidable (t.IsFile p) := decidable_of_iff' _ isFile_iff

theorem run_isFile (p : Path) (t : FileTree) :
    (FileSystem.isFile p : StateM FileTree Bool).run t = (decide (t.IsFile p), t) := by
  have hfile : decide (t.IsFile p) = (t.readFile p).isOk := by
    rw [Bool.eq_iff_iff, decide_eq_true_iff]
    exact isFile_iff
  have hanswer : ((FileSystem.isFile p : StateM FileTree Bool).run t).1 = (t.readFile p).isOk := by
    simp only [FileSystem.isFile, FileSystem.isDirectory?, readFile, StateT.run_bind, StateT.run_pure, StateT.run_get,
      pure_bind]
    cases t.content p with
    | error e => rfl
    | ok content => cases content <;> rfl
  exact Prod.ext (hanswer.trans hfile.symm) rfl

/-- Writing a file changes what stands where its path leads, and nothing else. -/
theorem writeFile_eq_ok_iff {data : Bytes} :
    t₁.writeFile p data = .ok t₂ ↔
      ∃ place, t₁.locate p = .ok place ∧ t₁.at? place ≠ some .directory ∧ t₂ = t₁.put place (.file data) := by
  simp only [writeFile, bind_eq_ok_iff]
  refine exists_congr fun place => and_congr_right fun _ => ?_
  cases t₁.at? place with
  | none => simp [eq_comm]
  | some content => cases content <;> simp [eq_comm]

/-- Moving a file takes it from where its old path leads and puts it where the new one does. -/
theorem renameFile_eq_ok_iff {source target : Path} :
    t₁.renameFile source target = .ok t₂ ↔
      ∃ start place data, t₁.locate source = .ok start ∧ t₁.at? start = some (.file data) ∧
        t₁.locate target = .ok place ∧ t₁.at? place ≠ some .directory ∧
          t₂ = (t₁.erase start).put place (.file data) := by
  simp only [renameFile, bind_eq_ok_iff]
  refine exists_congr fun start => ?_
  cases hstart : t₁.at? start with
  | none => simp
  | some content =>
    cases content with
    | directory => simp
    | file data =>
      simp only [bind_eq_ok_iff, Option.some.injEq, Content.file.injEq, exists_and_left, exists_eq_left']
      refine and_congr_right fun _ => exists_congr fun place => and_congr_right fun _ => ?_
      cases t₁.at? place with
      | none => simp [eq_comm]
      | some content => cases content <;> simp [eq_comm]

end FileTree
end UberJar
