import UberJar.Proofs.Files.Lexical
import UberJar.Store

namespace UberJar

namespace Path

variable {rooted : Bool} {names : List (List Char)} {pieces : List (List Char)} {piece : List Char}

/-- Pieces that do not climb above their start go on from the names of any directory. -/
theorem descendAll_of_up_notMem (hstays : up ∉ descendAll false [] pieces) :
    descendAll rooted names pieces = descendAll false [] pieces ++ names := by
  induction pieces using List.reverseRecOn with
  | nil => rfl
  | append_singleton pieces piece ih =>
    rw [descendAll_concat] at hstays ⊢
    rw [descendAll_concat]
    generalize descendAll false [] pieces = relative at hstays ih
    by_cases htrivial : piece = [] ∨ piece = ['.']
    · rw [descend_of_trivial htrivial] at hstays ⊢
      rw [descend_of_trivial htrivial]
      exact ih hstays
    by_cases hup : piece = up
    · subst hup
      cases relative with
      | nil => exact absurd (up_mem_descend_up (.inl rfl)) hstays
      | cons last earlier =>
        have hlast : last ≠ up := by
          rintro rfl
          exact hstays (up_mem_descend_up (.inr ⟨earlier, rfl⟩))
        rw [descend_up_cons hlast] at hstays ⊢
        rw [ih (by simp [hlast.symm, hstays]), List.cons_append, descend_up_cons hlast]
    · rw [descend_of_name htrivial hup] at hstays ⊢
      rw [descend_of_name htrivial hup, ih fun hmem => hstays (List.mem_cons_of_mem _ hmem), List.cons_append]

theorem up_notMem_descend (hnames : up ∉ names) (hpiece : piece ≠ up) : up ∉ descend rooted names piece := by
  by_cases htrivial : piece = [] ∨ piece = ['.']
  · rwa [descend_of_trivial htrivial]
  · rw [descend_of_name htrivial hpiece]
    simp [hnames, hpiece.symm]

theorem up_notMem_descendAll (hnames : up ∉ names) (hpieces : up ∉ pieces) : up ∉ descendAll rooted names pieces := by
  induction pieces using List.reverseRecOn with
  | nil => exact hnames
  | append_singleton pieces piece ih =>
    simp only [List.mem_append, List.mem_singleton, not_or] at hpieces
    rw [descendAll_concat]
    exact up_notMem_descend (ih hpieces.1) (Ne.symm hpieces.2)

/-- The places below a directory that pieces lead to, whatever directory it is. -/
theorem isBelow_placeBelow_iff (path : String) :
    (∀ root : Path, (placeBelow root path).IsBelow root) ↔
      descendAll false [] (path.toList.splitOn '/') ≠ [] ∧ up ∉ descendAll false [] (path.toList.splitOn '/') := by
  constructor
  · intro hbelow
    obtain ⟨-, rest, hne, hrest, hresolved⟩ := hbelow ⟨""⟩
    have hstart : (Path.mk "").resolved = [] := by simp [resolved, pieces, isAbsolute, descendAll, descend]
    have habsolute : (Path.mk "").isAbsolute = false := by simp [isAbsolute]
    rw [(resolved_placeBelow _ _).2, hstart, habsolute, List.append_nil] at hresolved
    exact hresolved ▸ ⟨hne, hrest⟩
  · rintro ⟨hne, hstays⟩ root
    obtain ⟨habsolute, hresolved⟩ := resolved_placeBelow root path
    exact ⟨habsolute, _, hne, hstays, hresolved.trans (descendAll_of_up_notMem hstays)⟩

end Path

namespace Coordinate

open UberJar.Path

variable {c : Coordinate}

/-- The names that the repository path of a coordinate comes to on its own, latest first. -/
def names (c : Coordinate) : List (List Char) := descendAll false [] (c.repositoryPath.toList.splitOn '/')

/-- The artifact, the version and the file of a coordinate are names, and the first two do not lead up. -/
structure HasPlainNames (c : Coordinate) : Prop where
  artifact : '/' ∉ c.artifact.toList ∧ c.artifact ≠ ".."
  version : '/' ∉ c.version.toList ∧ c.version ≠ ".."
  fileName : '/' ∉ c.fileName.toList

theorem names_eq (hplain : c.HasPlainNames) :
    c.names = descend false (descendAll false []
      (c.groupPath.toList.splitOn '/' ++ [c.artifact.toList] ++ [c.version.toList])) c.fileName.toList := by
  have hpath : c.repositoryPath.toList.splitOn '/' =
      c.groupPath.toList.splitOn '/' ++ [c.artifact.toList] ++ [c.version.toList] ++ [c.fileName.toList] := by
    rw [← splitOn_slash hplain.artifact.1, ← splitOn_slash hplain.version.1, ← splitOn_slash hplain.fileName]
    simp [repositoryPath]
  rw [names, hpath, descendAll_concat]

/-- Groups are cut at their dots, so that no piece of them leads up. -/
theorem up_notMem_groupPath (c : Coordinate) : up ∉ c.groupPath.toList.splitOn '/' := by
  intro hup
  have hdot : '.' ∈ c.groupPath.toList := Text.mem_of_mem_segment hup '.' (by decide)
  rw [groupPath, String.toList_ofList, Text.replaceChar, List.mem_map] at hdot
  obtain ⟨d, -, hd⟩ := hdot
  split_ifs at hd with hsame
  · exact absurd hd (by decide)
  · exact hsame hd

theorem names_of_hasPlainNames (hplain : c.HasPlainNames) : c.names ≠ [] ∧ up ∉ c.names := by
  have hdash : '-' ∈ c.fileName.toList := by simp [fileName]
  have hname : ¬(c.fileName.toList = [] ∨ c.fileName.toList = ['.']) := by
    rintro (h | h) <;> simp [h] at hdash
  have hup : c.fileName.toList ≠ up := by
    intro h
    simp [h, up] at hdash
  have hpieces : up ∉ c.groupPath.toList.splitOn '/' ++ [c.artifact.toList] ++ [c.version.toList] := by
    have htext {text : String} (htext : text ≠ "..") : up ≠ text.toList :=
      fun h => htext (String.toList_inj.1 (h.symm.trans (by decide)))
    simp [up_notMem_groupPath, htext hplain.artifact.2, htext hplain.version.2]
  rw [names_eq hplain, descend_of_name hname hup]
  refine ⟨by simp, ?_⟩
  rw [List.mem_cons, not_or]
  exact ⟨hup.symm, up_notMem_descendAll (by simp) hpieces⟩

end Coordinate

namespace Store

open UberJar.Path

variable {m : Type → Type}

/-- The file of a coordinate lies below every cache directory exactly if its repository path does not climb above its
    own start. So it does where artifact, version and file are plain names. -/
theorem pathOf_isBelow_iff (c : Coordinate) :
    ((∀ store : Store m, (store.pathOf c).IsBelow store.cacheDir) ↔ c.names ≠ [] ∧ up ∉ c.names) ∧
      (c.HasPlainNames → ∀ store : Store m, (store.pathOf c).IsBelow store.cacheDir) := by
  have hiff : (∀ store : Store m, (store.pathOf c).IsBelow store.cacheDir) ↔ c.names ≠ [] ∧ up ∉ c.names := by
    refine Iff.trans ?_ (isBelow_placeBelow_iff c.repositoryPath)
    exact ⟨fun hbelow root => hbelow ⟨root, []⟩, fun hbelow store => hbelow store.cacheDir⟩
  exact ⟨hiff, fun hplain => hiff.2 (Coordinate.names_of_hasPlainNames hplain)⟩

theorem pathOf_isBelow_of_plain_parts :
    (Coordinate.mk "g" "a" "1" none "jar").HasPlainNames ∧
      ((Store.mk (m := StateM FileTree) ⟨"cache"⟩ []).pathOf (.mk "g" "a" "1" none "jar")).IsBelow ⟨"cache"⟩ := by
  have hplain : (Coordinate.mk "g" "a" "1" none "jar").HasPlainNames :=
    ⟨by decide +kernel, by decide +kernel, by decide +kernel⟩
  exact ⟨hplain, (pathOf_isBelow_iff (.mk "g" "a" "1" none "jar")).2 hplain ⟨⟨"cache"⟩, []⟩⟩

/-- A coordinate that a project may declare, whose file lies beside the cache. -/
theorem pathOf_beside_cache :
    ∃ c, Coordinate.parse "a:..:.." = .ok c ∧
      ¬((Store.mk (m := StateM FileTree) ⟨"cache"⟩ []).pathOf c).IsBelow ⟨"cache"⟩ := by
  refine ⟨{ group := "a", artifact := "..", version := ".." }, by decide +kernel, ?_⟩
  rintro ⟨-, rest, -, -, hresolved⟩
  have hbeside : ((Store.mk (m := StateM FileTree) ⟨"cache"⟩ []).pathOf
      { group := "a", artifact := "..", version := ".." }).resolved = ["..-...jar".toList] := by decide +kernel
  have hcache : (Path.mk "cache").resolved = ["cache".toList] := by decide +kernel
  rw [hbeside, hcache] at hresolved
  simpa using congrArg List.getLast? hresolved

end Store
end UberJar
