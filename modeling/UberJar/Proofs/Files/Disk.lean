import UberJar.Proofs.Files.Location

namespace UberJar

/-- What befalls an operation. -/
structure Fault where
  error : OsError
  /-- How many bytes are written before the write breaks off; none if it is refused. -/
  written : Option Nat
  deriving DecidableEq, Repr

/-- A file tree, the faults that the operations on it are going to meet, and what lies outside of it. -/
structure Disk (ν : Type) where
  tree : FileTree
  faults : Nat → Option Fault
  outside : ν

namespace FileTree

/-- The bytes of the file at a location, if there is one. -/
def fileAt? (t : FileTree) (place : Location) : Option Bytes :=
  match t.at? place with
  | some (.file data) => some data
  | _ => none

/-- The tree after a write that met a fault. A file that is only created is created or not. -/
def breakOff (fault : Fault) (p : Path) (data : Bytes) (t : FileTree) : FileTree :=
  match fault.written with
  | some count => if data = [] then t else (t.writeFile p (data.take count)).toOption.getD t
  | none => t

theorem breakOff_nil (fault : Fault) (p : Path) (t : FileTree) : t.breakOff fault p [] = t := by
  unfold breakOff
  split <;> rfl

/-- A tree that has all directories of another one, and the same files at some places. -/
structure Spares (places : Location → Prop) (t t' : FileTree) : Prop where
  directories : t.KeepsDirectories t'
  files : ∀ place, places place → t'.fileAt? place = t.fileAt? place

variable {places : Location → Prop} {t t' t'' : FileTree} {p : Path} {place other : Location}

theorem Spares.refl (t : FileTree) : t.Spares places t := ⟨⟨rfl, fun _ h => h⟩, fun _ _ => rfl⟩

theorem Spares.trans (hfirst : t.Spares places t') (hsecond : t'.Spares places t'') : t.Spares places t'' where
  directories := hfirst.directories.trans hsecond.directories
  files place hplace := (hsecond.files place hplace).trans (hfirst.files place hplace)

theorem Grows.spares (hgrows : Grows t t') : t.Spares places t' where
  directories := hgrows.keepsDirectories
  files place _ := by
    rcases hgrows.at? place with hsame | ⟨hnone, hnew⟩
    · simp only [fileAt?, hsame]
    · simp only [fileAt?, hnone, hnew]

theorem fileAt?_put (hplace : place ≠ []) (data : Bytes) :
    (t.put place (.file data)).fileAt? other = if other = place then some data else t.fileAt? other := by
  simp only [fileAt?, at?_put hplace]
  split_ifs <;> rfl

theorem fileAt?_erase (hplace : place ≠ []) :
    (t.erase place).fileAt? other = if other = place then none else t.fileAt? other := by
  simp only [fileAt?, at?_erase hplace]
  split_ifs <;> rfl

theorem spares_put (hplace : t.at? place ≠ some .directory) (hnot : ¬places place) (data : Bytes) :
    t.Spares places (t.put place (.file data)) where
  directories := keepsDirectories_put hplace data
  files other hother := by
    rw [fileAt?_put (ne_nil_of_at? hplace), if_neg]
    rintro rfl
    exact hnot hother

theorem spares_erase (hplace : t.at? place ≠ some .directory) (hnot : ¬places place) :
    t.Spares places (t.erase place) where
  directories := keepsDirectories_erase hplace
  files other hother := by
    rw [fileAt?_erase (ne_nil_of_at? hplace), if_neg]
    rintro rfl
    exact hnot hother

/-- A tree is spared at some places, as long as the paths that are followed start from one place. -/
def SparesFrom (start : Location) (places : Location → Prop) (t t' : FileTree) : Prop :=
  t.workingDirectory = start → t.Spares places t'

instance (start : Location) (places : Location → Prop) : IsPreorder FileTree (SparesFrom start places) where
  refl t _ := .refl t
  trans _ _ _ hfirst hsecond hstart :=
    (hfirst hstart).trans (hsecond ((hfirst hstart).directories.workingDirectory.trans hstart))

variable {start : Location} {data : Bytes}

theorem sparesFrom_of_writeFile (hnot : ¬places (p.location start)) (hwrite : t.writeFile p data = .ok t') :
    SparesFrom start places t t' := by
  rintro rfl
  obtain ⟨place, hlocate, hplace, rfl⟩ := writeFile_eq_ok_iff.1 hwrite
  exact spares_put hplace (location_of_locate hlocate ▸ hnot) data

theorem sparesFrom_of_renameFile {q : Path} (hsource : ¬places (p.location start))
    (htarget : ¬places (q.location start)) (hrename : t.renameFile p q = .ok t') : SparesFrom start places t t' := by
  rintro rfl
  obtain ⟨first, place, data, hfirst, hdata, hlocate, hplace, rfl⟩ := renameFile_eq_ok_iff.1 hrename
  have hfile : t.at? first ≠ some .directory := by simp [hdata]
  have herased := spares_erase hfile (location_of_locate hfirst ▸ hsource)
  refine herased.trans (spares_put ?_ (location_of_locate hlocate ▸ htarget) data)
  rw [at?_erase (ne_nil_of_at? hfile)]
  split
  · simp
  · exact hplace

theorem sparesFrom_breakOff (fault : Fault) (hnot : ¬places (p.location start)) (t : FileTree) :
    SparesFrom start places t (t.breakOff fault p data) := by
  unfold breakOff
  split
  · next count _ =>
    split
    · exact Std.Refl.refl t
    · cases hwrite : t.writeFile p (data.take count) with
      | error e => exact Std.Refl.refl t
      | ok t' => exact sparesFrom_of_writeFile hnot hwrite
  · exact Std.Refl.refl t

end FileTree

namespace Disk

variable {ν α : Type}

/-- The disk when the next operation is over, which has left the tree as it is. -/
def next (d : Disk ν) : Disk ν := { d with faults := fun n => d.faults (n + 1) }

/-- An operation on the tree. -/
def onTree (operation : StateM FileTree α) : StateM (Disk ν) α := fun d =>
  ((operation.run d.tree).1, { d with tree := (operation.run d.tree).2 })

/-- An operation on the tree that may fail, and what becomes of the tree if it meets a fault. -/
def operate (operation : StateM FileTree (Except OsError α)) (broken : Fault → FileTree → FileTree) :
    StateM (Disk ν) (Except OsError α) := fun d =>
  match d.faults 0 with
  | none => (onTree operation).run d.next
  | some fault => (.error fault.error, { d.next with tree := broken fault d.tree })

instance : FileSystem (StateM (Disk ν)) where
  isDirectory? p := fun d =>
    match d.faults 0 with
    | none => (onTree (FileSystem.isDirectory? p)).run d.next
    | some _ => (none, d.next)
  readFile p := operate (FileSystem.readFile p) fun _ t => t
  listDirectory p := operate (FileSystem.listDirectory p) fun _ t => t
  makeDirectory p := operate (FileSystem.makeDirectory p) fun _ t => t
  writeFile p data := operate (FileSystem.writeFile p data) fun fault t => t.breakOff fault p data
  renameFile p q := operate (FileSystem.renameFile p q) fun _ t => t
  removeFile p := onTree (FileSystem.removeFile p)

/-- What happens outside of the tree. -/
def lift (x : StateM ν α) : StateM (Disk ν) α := fun d =>
  ((x.run d.outside).1, { d with outside := (x.run d.outside).2 })

/-- Disks of which the trees are in a relation. -/
def OnTrees (R : FileTree → FileTree → Prop) (d d' : Disk ν) : Prop := R d.tree d'.tree

variable {R : FileTree → FileTree → Prop}

theorem leads_operate {operation : StateM FileTree (Except OsError α)} {broken : Fault → FileTree → FileTree}
    (hoperation : Leads R operation) (hbroken : ∀ fault t, R t (broken fault t)) :
    Leads (OnTrees R) (operate operation broken : StateM (Disk ν) (Except OsError α)) := by
  intro d
  change OnTrees R d (operate operation broken d).2
  unfold operate
  split
  · exact hoperation d.tree
  · exact hbroken _ d.tree

/-- A change that a disk reports as done was made to the tree. -/
theorem change_eq_ok {f : FileTree → Except OsError FileTree} {broken : Fault → FileTree → FileTree} {d d' : Disk ν}
    (hrun : (operate (FileTree.change f) broken).run d = (.ok (), d')) : f d.tree = .ok d'.tree := by
  change operate (FileTree.change f) broken d = _ at hrun
  unfold operate at hrun
  split at hrun
  · obtain ⟨hresult, rfl⟩ := Prod.mk.inj hrun
    exact FileTree.change_eq_ok (eq_of_fst_eq hresult)
  · cases (Prod.mk.inj hrun).1

/-- A change that a disk refuses is not made, unless it breaks off. -/
theorem change_eq_error {f : FileTree → Except OsError FileTree} {broken : Fault → FileTree → FileTree} {d d' : Disk ν}
    {e : OsError} (hrun : (operate (FileTree.change f) broken).run d = (.error e, d')) :
    d'.tree = d.tree ∨ ∃ fault, d'.tree = broken fault d.tree := by
  change operate (FileTree.change f) broken d = _ at hrun
  unfold operate at hrun
  split at hrun
  · obtain ⟨hresult, rfl⟩ := Prod.mk.inj hrun
    exact .inl (FileTree.change_eq_error (eq_of_fst_eq hresult))
  · obtain ⟨-, rfl⟩ := Prod.mk.inj hrun
    exact .inr ⟨_, rfl⟩

variable [IsPreorder FileTree R]

instance : IsPreorder (Disk ν) (OnTrees R) where
  refl d := Std.Refl.refl d.tree
  trans d d' d'' := IsTrans.trans d.tree d'.tree d''.tree

theorem leads_change {f : FileTree → Except OsError FileTree} (hchange : ∀ t t', f t = .ok t' → R t t') :
    Leads (OnTrees R) (operate (FileTree.change f) fun _ t => t : StateM (Disk ν) (Except OsError Unit)) :=
  leads_operate (FileTree.leads_change Std.Refl.refl hchange) fun _ => Std.Refl.refl

theorem leads_isDirectory? (p : Path) :
    Leads (OnTrees R) (FileSystem.isDirectory? p : StateM (Disk ν) (Option Bool)) := by
  intro d
  change OnTrees R d (match d.faults 0 with
    | none => (onTree (FileSystem.isDirectory? p)).run d.next
    | some _ => (none, d.next)).2
  split <;> exact Std.Refl.refl d.tree

theorem leads_isFile (p : Path) : Leads (OnTrees R) (FileSystem.isFile p : StateM (Disk ν) Bool) :=
  Leads.bind (IsTrans.trans _ _ _) (leads_isDirectory? p) fun _ => leads_pure _

theorem leads_isDirectory (p : Path) : Leads (OnTrees R) (FileSystem.isDirectory p : StateM (Disk ν) Bool) :=
  Leads.bind (IsTrans.trans _ _ _) (leads_isDirectory? p) fun _ => leads_pure _

theorem leads_readFile (p : Path) :
    Leads (OnTrees R) (FileSystem.readFile p : StateM (Disk ν) (Except OsError Bytes)) :=
  leads_operate (fun t => Std.Refl.refl t) fun _ => Std.Refl.refl

theorem leads_listDirectory (p : Path) :
    Leads (OnTrees R) (FileSystem.listDirectory p : StateM (Disk ν) (Except OsError (List String))) :=
  leads_operate (fun t => Std.Refl.refl t) fun _ => Std.Refl.refl

theorem leads_lift (x : StateM ν α) : Leads (OnTrees R) (lift x : StateM (Disk ν) α) := fun d => Std.Refl.refl d.tree

variable {start : Location} {places : Location → Prop}

/-- Making directories spares the files. -/
theorem leads_makeDirectories (p : Path) :
    Leads (OnTrees (FileTree.SparesFrom start places))
      (FileSystem.makeDirectories p : StateM (Disk ν) (Except OsError Unit)) :=
  FileSystem.leads_makeDirectoriesWithin leads_isDirectory?
    (fun _ => leads_change fun _ _ hmade _ => (FileTree.grows_of_makeDirectory hmade).spares) _ p

theorem leads_writeFile {p : Path} (hnot : ¬places (p.location start)) (data : Bytes) :
    Leads (OnTrees (FileTree.SparesFrom start places))
      (FileSystem.writeFile p data : StateM (Disk ν) (Except OsError Unit)) :=
  leads_operate (FileTree.leads_change Std.Refl.refl fun _ _ => FileTree.sparesFrom_of_writeFile hnot)
    fun fault => FileTree.sparesFrom_breakOff fault hnot

theorem leads_renameFile {p q : Path} (hsource : ¬places (p.location start)) (htarget : ¬places (q.location start)) :
    Leads (OnTrees (FileTree.SparesFrom start places))
      (FileSystem.renameFile p q : StateM (Disk ν) (Except OsError Unit)) :=
  leads_change fun _ _ => FileTree.sparesFrom_of_renameFile hsource htarget

end Disk
end UberJar
