import UberJar.Proofs.ClassFile.Replacement
import UberJar.Proofs.Except
import UberJar.Proofs.Relocation.Kinds
import UberJar.Proofs.Relocation.ServiceLines
import UberJar.Relocation.Entries

namespace UberJar

namespace ClassFile

theorem texts_mapTexts (f : Bytes → Bytes) (c : ClassFile) : (c.mapTexts f).texts = c.texts.map f := by
  have hone (constant : Constant) : (constant.mapText f).text? = constant.text?.map f := by
    cases constant <;> rfl
  simp only [texts, mapTexts, List.filterMap_map, List.map_filterMap, Function.comp_def, hone]

/-- A class file is no text: its first byte would begin a character of two bytes, and its second ends none. -/
theorem decode?_magic_eq_none (rest : Bytes) :
    Text.Utf8.decode? (Bytes.ofNatBE 4 magic.toNat ++ rest) = none := by
  have hmagic : Bytes.ofNatBE 4 magic.toNat = [0xCA, 0xFE, 0xBA, 0xBE] := by decide
  have hpiece (rest : Bytes) : (Text.Utf8.piece 0xCA (0xFE :: rest)).1 = none := rfl
  rw [hmagic]
  exact Text.Utf8.decode?_eq_none (hpiece _)

theorem decode?_encode_eq_none (c : ClassFile) : Text.Utf8.decode? c.encode = none := by
  simp only [encode, List.append_assoc]
  exact decode?_magic_eq_none _

end ClassFile

namespace Relocation.Relocator

variable {relocator : Relocator}

/-- An entry in which there is nothing to relocate. -/
def Keeps (relocator : Relocator) (entry : Entry) : Prop :=
  ∀ origin, relocator.relocate entry origin true = .ok (entry, .kept)

theorem keeps_of_isEmpty (hempty : relocator.isEmpty = true) (entry : Entry) : relocator.Keeps entry := by
  intro origin
  rw [relocate, if_pos hempty]

theorem keeps_of_none {entry : Entry} (hdata : relocator.movedData? entry = .ok none)
    (hpath : relocator.movePath? entry.path.toList = none) : relocator.Keeps entry := by
  intro origin
  by_cases hempty : relocator.isEmpty = true
  · exact keeps_of_isEmpty hempty entry origin
  · simp [relocate, hempty, hdata, movedPath?, hpath]

theorem movedPath?_true (relocator : Relocator) (path : String) :
    relocator.movedPath? path true = (relocator.movePath? path.toList).map String.ofList := by
  rw [movedPath?, Bool.true_or, if_pos rfl]

/-- What relocating an entry comes to. -/
theorem relocate_eq_ok {entry moved : Entry} {origin : String} {move : Bool} {outcome : Outcome}
    (hrelocate : relocator.relocate entry origin move = .ok (moved, outcome)) :
    (relocator.isEmpty = true ∧ moved = entry ∧ outcome = .kept) ∨
      ∃ newPath newData, relocator.movedPath? entry.path move = newPath ∧ relocator.movedData? entry = .ok newData ∧
        moved.path = newPath.getD entry.path ∧ moved.data = newData.getD entry.data ∧
        outcome = if newPath.isSome || newData.isSome then .relocated newPath.isSome newData.isSome else .kept := by
  unfold relocate at hrelocate
  by_cases hempty : relocator.isEmpty = true
  · rw [if_pos hempty] at hrelocate
    obtain ⟨rfl, rfl⟩ := Prod.mk.inj (Except.ok.inj hrelocate)
    exact .inl ⟨hempty, rfl, rfl⟩
  · rw [if_neg hempty] at hrelocate
    cases hdata : relocator.movedData? entry with
    | error e => simp [hdata] at hrelocate
    | ok newData =>
      simp only [hdata, Except.ok.injEq, Prod.mk.injEq] at hrelocate
      obtain ⟨rfl, rfl⟩ := hrelocate
      exact .inr ⟨_, newData, rfl, rfl, rfl, rfl, rfl⟩

/-- What is kept once is kept again. -/
theorem keeps_of_kept {entry moved : Entry} {origin : String}
    (hrelocate : relocator.relocate entry origin true = .ok (moved, .kept)) :
    moved = entry ∧ relocator.Keeps entry := by
  rcases relocate_eq_ok hrelocate with
    ⟨hempty, rfl, -⟩ | ⟨newPath, newData, hpath, hdata, hmovedPath, hmovedData, hkept⟩
  · exact ⟨rfl, keeps_of_isEmpty hempty moved⟩
  · obtain ⟨rfl, rfl⟩ : newPath = none ∧ newData = none := by
      cases newPath <;> cases newData <;> simp at hkept ⊢
    rw [movedPath?_true, Option.map_eq_none_iff] at hpath
    exact ⟨congrArg₂ Entry.mk hmovedPath hmovedData, keeps_of_none hdata hpath⟩

theorem moveInClass?_eq_ok {data : Bytes} {newData : Option Bytes} (hmove : relocator.moveInClass? data = .ok newData) :
    ∃ (c : ClassFile) (renamed : Option ClassFile), c.WellFormed ∧ data = c.encode ∧
      c.replaceTexts relocator.moveReferences? = .ok renamed ∧ newData = renamed.map ClassFile.encode := by
  simp only [moveInClass?, bind_eq_ok_iff] at hmove
  obtain ⟨c, hparse, renamed, hreplace, hnew⟩ := hmove
  obtain ⟨hwf, hdata⟩ := ClassFile.parse_eq_ok_iff.1 hparse
  exact ⟨c, renamed, hwf, hdata, hreplace, (Except.ok.inj hnew).symm⟩

/-- The references of a class do not move twice. -/
theorem moveInClass?_moved (hseparate : relocator.isSeparate = true) {data : Bytes} {newData : Option Bytes}
    (hmove : relocator.moveInClass? data = .ok newData) :
    relocator.moveInClass? (newData.getD data) = .ok none ∧ ∃ c : ClassFile, newData.getD data = c.encode := by
  have hsettled {c : ClassFile} (hwf : c.WellFormed)
      (htexts : ∀ text ∈ c.texts, ClassFile.replacement relocator.moveReferences? text = text) :
      relocator.moveInClass? c.encode = .ok none := by
    simp [moveInClass?, ClassFile.parse_eq_ok_iff.2 ⟨hwf, rfl⟩, ClassFile.replaceTexts_eq_ok_none_iff.2 htexts,
      bind, Except.bind, pure, Except.pure]
  obtain ⟨c, renamed, hwf, rfl, hreplace, rfl⟩ := moveInClass?_eq_ok hmove
  cases renamed with
  | none => exact ⟨hsettled hwf (ClassFile.replaceTexts_eq_ok_none_iff.1 hreplace), c, rfl⟩
  | some new =>
    obtain ⟨rfl, hwf'⟩ := ClassFile.replaceTexts_eq_ok_some hwf hreplace
    refine ⟨hsettled hwf' fun text hmem => ?_, _, rfl⟩
    rw [ClassFile.texts_mapTexts] at hmem
    obtain ⟨old, -, rfl⟩ := List.mem_map.1 hmem
    rw [ClassFile.replacement, ClassFile.replacement, moveReferences?_moved hseparate, Option.getD_none]

theorem isServiceFile_eq_false_iff {path : String} :
    EntryPath.isServiceFile path = false ↔ EntryPath.service? path.toList = none := by
  rw [EntryPath.isServiceFile, Option.isSome_eq_false_iff, Option.isNone_iff_eq_none]

/-- The names in a service file do not move twice. -/
theorem moveInServiceFile?_settled (hseparate : relocator.isSeparate = true) (data : Bytes) :
    relocator.moveInServiceFile? ((relocator.moveInServiceFile? data).getD data) = none := by
  cases hmove : relocator.moveInServiceFile? data with
  | none => exact hmove
  | some newData => exact moveInServiceFile?_moved hseparate hmove

/-- A path does not move twice, and where it moves to it is no class and no service file that it was not before. -/
theorem settled_movedPath? (hseparate : relocator.isSeparate = true) {path newPath : String}
    (hnewPath : (relocator.movedPath? path true).getD path = newPath) :
    relocator.movePath? newPath.toList = none ∧ (EntryPath.isClass newPath = true → EntryPath.isClass path = true) ∧
      (EntryPath.isServiceFile path = false → EntryPath.isServiceFile newPath = false) := by
  rw [← hnewPath, movedPath?_true]
  cases hmove : relocator.movePath? path.toList with
  | none => exact ⟨hmove, id, id⟩
  | some moved =>
    simp only [Option.map_some, Option.getD_some, String.toList_ofList, EntryPath.isClass, isServiceFile_eq_false_iff,
      List.isSuffixOf_iff_suffix]
    exact ⟨movePath?_moved hseparate hmove, isClass_of_moved hseparate hmove, (service?_eq_none_moved hmove).2⟩

/-- What was relocated by separate rules is kept by them. -/
theorem keeps_of_relocated (hseparate : relocator.isSeparate = true) {entry moved : Entry} {origin : String}
    {outcome : Outcome} (hrelocate : relocator.relocate entry origin true = .ok (moved, outcome)) :
    relocator.Keeps moved := by
  rcases relocate_eq_ok hrelocate with ⟨hempty, -⟩ | ⟨newPath, newData, rfl, hdata, hmovedPath, hmovedData, -⟩
  · exact keeps_of_isEmpty hempty moved
  obtain ⟨hstays, hclass, hservice⟩ := settled_movedPath? hseparate hmovedPath.symm
  refine keeps_of_none ?_ hstays
  unfold movedData? at hdata ⊢
  rw [hmovedData]
  by_cases hwas : EntryPath.isClass entry.path = true
  · rw [if_pos hwas] at hdata
    obtain ⟨hsettled, c, hencode⟩ := moveInClass?_moved hseparate hdata
    by_cases his : EntryPath.isClass moved.path = true
    · rw [if_pos his, hsettled]
    · rw [if_neg his, hencode]
      simp [moveInServiceFile?, c.decode?_encode_eq_none]
  · rw [if_neg hwas] at hdata
    rw [if_neg (mt hclass hwas)]
    by_cases hserviceWas : EntryPath.isServiceFile entry.path = true
    · rw [if_pos hserviceWas] at hdata
      obtain rfl := Except.ok.inj hdata
      rw [moveInServiceFile?_settled hseparate, ite_self]
    · rw [if_neg hserviceWas] at hdata
      rw [hservice (Bool.eq_false_iff.2 hserviceWas)]
      rfl

theorem dropCause?_relocated {entry moved : Entry} {origin : String} {outcome : Outcome}
    (hrelocate : relocator.relocate entry origin true = .ok (moved, outcome))
    (hcarried : Disposition.dropCause? .dependency entry.path = none) :
    Disposition.dropCause? .dependency moved.path = none := by
  rcases relocate_eq_ok hrelocate with ⟨-, rfl, -⟩ | ⟨newPath, -, hnewPath, -, hpath, -⟩
  · exact hcarried
  · rw [hpath, ← hnewPath, movedPath?_true]
    cases hmove : relocator.movePath? entry.path.toList with
    | none => exact hcarried
    | some path => exact dropCause?_moved hmove hcarried

end Relocation.Relocator
end UberJar
