import UberJar.Proofs.Files.Lexical
import UberJar.Proofs.Store.Lookups

namespace UberJar

namespace FileTree

variable {t : FileTree} {start place : Location} {p : Path}

/-- A location whose name ends as the names of drafts do. -/
def IsDraft (place : Location) : Prop :=
  ∃ directory name, place = directory ++ [name ++ ".part"]

theorem walk_concat {before : List (List Char)} {piece : List Char}
    (hpiece : piece ≠ [] ∧ piece ≠ ['.'] ∧ piece ≠ ['.', '.'])
    (hwalk : t.walk start (before ++ [piece]) = .ok place) :
    ∃ directory, place = directory ++ [String.ofList piece] := by
  induction before generalizing start with
  | nil =>
    obtain ⟨hempty, hdot, hup⟩ := hpiece
    rw [List.nil_append, walk] at hwalk
    split at hwalk
    · cases hwalk
    · cases hwalk
    · rw [if_neg (by simp [hempty, hdot]), if_neg hup] at hwalk
      split at hwalk
      · cases hwalk
      · exact ⟨start, (Except.ok.inj hwalk).symm⟩
  | cons first before ih =>
    rw [List.cons_append, walk] at hwalk
    split at hwalk
    · cases hwalk
    · cases hwalk
    · split at hwalk
      · exact ih hwalk
      · split at hwalk
        · exact ih hwalk
        · split at hwalk
          · cases hwalk
          · exact ih hwalk

/-- A draft has a name of its own kind, unless it cannot be told from the file itself. -/
theorem isDraft_of_locate (hlocate : t.locate (Store.draftOf p) = .ok place) (hne : t.locate p ≠ .ok place) :
    IsDraft place := by
  rcases Path.withExtension_cases p (show '/' ∉ "part".toList by decide) with hsame | ⟨before, name, hpieces⟩
  · exact absurd (hsame ▸ hlocate) hne
  · have hpart : '.' :: "part".toList = ".part".toList := by decide
    have hname (short : List Char) (hshort : short.length < 5) : name ++ ".part".toList ≠ short := by
      intro h
      have hlength := congrArg List.length h
      rw [List.length_append, show ".part".toList.length = 5 by decide] at hlength
      omega
    rw [hpart] at hpieces
    unfold locate at hlocate
    rw [hpieces] at hlocate
    split_ifs at hlocate
    all_goals
      obtain ⟨directory, rfl⟩ :=
        walk_concat ⟨hname [] (by decide), hname ['.'] (by decide), hname ['.', '.'] (by decide)⟩ hlocate
      exact ⟨directory, String.ofList name, by rw [String.ofList_append, String.ofList_toList]⟩

end FileTree

namespace Store

variable {store : Store (StateM FileTree)} {t t' : FileTree} {place : Path} {data : Bytes}

/-- What is no draft stays there when files are fetched. -/
structure Outlasts (t t' : FileTree) : Prop where
  directories : t.KeepsDirectories t'
  files : ∀ place data, t.at? place = some (.file data) → ¬FileTree.IsDraft place →
    ∃ data, t'.at? place = some (.file data)

theorem Kept.outlasts (hkept : Kept t place data t') : Outlasts t t' where
  directories := hkept.directories
  files other found hother hdraft := by
    by_cases hplace : t'.locate place = .ok other
    · obtain ⟨other', hplace', hdata⟩ := FileTree.readFile_eq_ok_iff.1 hkept.data
      obtain rfl := Except.ok.inj (hplace'.symm.trans hplace)
      exact ⟨data, hdata⟩
    · have hnot : t'.locate (draftOf place) ≠ .ok other :=
        fun hlocate => hdraft (FileTree.isDraft_of_locate hlocate hplace)
      rcases hkept.others other hnot hplace with hsame | ⟨hnone, -⟩
      · exact ⟨found, hsame.trans hother⟩
      · cases hnone.symm.trans hother

theorem Fills.outlasts (hfills : store.Fills t t') : Outlasts t t' := by
  induction hfills with
  | refl => exact ⟨⟨rfl, fun _ h => h⟩, fun place data h _ => ⟨data, h⟩⟩
  | tail _ htakes ih =>
    obtain ⟨c, data, -, -, hkept⟩ := htakes
    refine ⟨ih.directories.trans hkept.outlasts.directories, fun place data hplace hdraft => ?_⟩
    obtain ⟨data', hplace'⟩ := ih.files place data hplace hdraft
    exact hkept.outlasts.files place data' hplace' hdraft

/-- A file that was there is still where its path leads, unless its name is that of a draft. -/
theorem Fills.isFile_or_isDraft (hfills : store.Fills t t') (hfile : t.IsFile place) :
    ∃ location, t'.locate place = .ok location ∧ (t'.IsFile place ∨ FileTree.IsDraft location) := by
  obtain ⟨data, hdata⟩ := hfile
  obtain ⟨location, hlocate, hat⟩ := FileTree.readFile_eq_ok_iff.1 hdata
  have hlocate' := hfills.outlasts.directories.locate hlocate
  refine ⟨location, hlocate', ?_⟩
  by_cases hdraft : FileTree.IsDraft location
  · exact .inr hdraft
  · obtain ⟨data', hat'⟩ := hfills.outlasts.files location data hat hdraft
    exact .inl ⟨data', FileTree.readFile_eq_ok_iff.2 ⟨location, hlocate', hat'⟩⟩

end Store
end UberJar
