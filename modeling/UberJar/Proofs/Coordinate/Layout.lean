import UberJar.Proofs.Files.Lexical
import UberJar.Store

namespace UberJar

/-- Characters that were replaced by one that did not occur are brought back. -/
theorem Text.replaceChar_replaceChar {old new : Char} {cs : List Char} (hnew : new ∉ cs) :
    replaceChar new old (replaceChar old new cs) = cs := by
  have hback : ∀ c ∈ cs, (if (if c = old then new else c) = new then old else if c = old then new else c) = c := by
    intro c hc
    by_cases hold : c = old
    · simp [hold]
    · have hother : c ≠ new := fun h => hnew (h ▸ hc)
      simp [hold, hother]
  rw [replaceChar, replaceChar, List.map_map]
  exact (List.map_congr_left hback).trans (List.map_id cs)

/-- The pieces of a place below a directory, those that are not empty, are those of the directory and then its own. -/
theorem Path.filter_pieces_placeBelow (root : Path) (path : String) :
    (placeBelow root path).pieces.filter (· ≠ []) =
      root.pieces.filter (· ≠ []) ++ (path.toList.splitOn '/').filter (· ≠ []) := by
  have hfilter (pieces start : List (List Char)) :
      pieces.foldl (fun names piece => if piece = [] then names else names ++ [piece]) start =
        start ++ pieces.filter (· ≠ []) := by
    induction pieces generalizing start with
    | nil => simp
    | cons piece pieces ih => by_cases hpiece : piece = [] <;> simp [ih, hpiece]
  have hfold := (foldl_pieces_placeBelow (f := fun names piece => if piece = [] then names else names ++ [piece])
    (fun _ => if_pos rfl) root path []).2
  rwa [hfilter, hfilter, hfilter, List.nil_append] at hfold

namespace Coordinate

variable {c d : Coordinate}

/-- A coordinate whose components name no directories, and whose extension goes back to the last dot. -/
structure IsFlat (c : Coordinate) : Prop where
  group : '/' ∉ c.group.toList
  artifact : '/' ∉ c.artifact.toList
  version : '/' ∉ c.version.toList
  classifier : ∀ classifier ∈ c.classifier, '/' ∉ classifier.toList
  extension : '/' ∉ c.extension.toList ∧ '.' ∉ c.extension.toList

/-- What stands between the version and the extension in the name of a file. -/
def classifierText (c : Coordinate) : List Char := c.classifier.elim [] ('-' :: ·.toList)

theorem toList_fileName (c : Coordinate) : c.fileName.toList =
    c.artifact.toList ++ '-' :: c.version.toList ++ (c.classifierText ++ '.' :: c.extension.toList) := by
  cases hclassifier : c.classifier <;> simp [fileName, classifierText, hclassifier]

theorem toList_repositoryPath (c : Coordinate) : c.repositoryPath.toList =
    c.groupPath.toList ++ '/' :: c.artifact.toList ++ '/' :: c.version.toList ++ '/' :: c.fileName.toList := by
  simp [repositoryPath]

theorem classifierText_inj (hclassifier : c.classifierText = d.classifierText) : c.classifier = d.classifier := by
  rw [classifierText, classifierText] at hclassifier
  cases hc : c.classifier <;> cases hd : d.classifier <;> simp_all [String.toList_inj]

theorem IsFlat.notMem_fileName (hc : c.IsFlat) : '/' ∉ c.fileName.toList := by
  have hclassifier : '/' ∉ c.classifierText := by
    rw [classifierText]
    cases hclassifier : c.classifier with
    | none => simp
    | some classifier => simp [hc.classifier classifier hclassifier]
  simp [toList_fileName, hc.artifact, hc.version, hc.extension.1, hclassifier]

/-- Of flat coordinates with one repository path all components are the same, one after the other from the end. -/
theorem IsFlat.eq_of_repositoryPath (hc : c.IsFlat) (hd : d.IsFlat) (hpath : c.repositoryPath = d.repositoryPath) :
    c = d := by
  have hpath := congrArg String.toList hpath
  rw [toList_repositoryPath, toList_repositoryPath,
    Text.append_cons_inj_of_last hc.notMem_fileName hd.notMem_fileName,
    Text.append_cons_inj_of_last hc.version hd.version, Text.append_cons_inj_of_last hc.artifact hd.artifact] at hpath
  obtain ⟨⟨⟨hgroup, hartifact⟩, hversion⟩, hfile⟩ := hpath
  -- The name of the file goes on behind artifact and version with the classifier, whose text may hold any dots.
  rw [toList_fileName, toList_fileName, hartifact, hversion, List.append_cancel_left_eq,
    Text.append_cons_inj_of_last hc.extension.2 hd.extension.2] at hfile
  -- A group without slashes is brought back from its directories.
  rw [groupPath, groupPath, String.toList_ofList, String.toList_ofList] at hgroup
  have hgroup := congrArg (Text.replaceChar '/' '.') hgroup
  rw [Text.replaceChar_replaceChar hc.group, Text.replaceChar_replaceChar hd.group] at hgroup
  have hclassifier := classifierText_inj hfile.1
  obtain ⟨group, artifact, version, classifier, extension⟩ := c
  obtain ⟨group', artifact', version', classifier', extension'⟩ := d
  simp_all [String.toList_inj]

theorem filter_splitOn (hnames : [] ∉ c.repositoryPath.toList.splitOn '/') :
    (c.repositoryPath.toList.splitOn '/').filter (· ≠ []) = c.repositoryPath.toList.splitOn '/' := by
  refine List.filter_eq_self.2 fun name hname => decide_eq_true ?_
  rintro rfl
  exact hnames hname

/-- Coordinates whose components hold no slash and whose extensions hold no dot are told apart by their repository path.
    They are told apart by their place in a cache, too, if no piece of these paths is empty, since an empty piece leads
    nowhere. -/
theorem repositoryPath_inj (hc : c.IsFlat) (hd : d.IsFlat) :
    (c.repositoryPath = d.repositoryPath ↔ c = d) ∧
      ([] ∉ c.repositoryPath.toList.splitOn '/' → [] ∉ d.repositoryPath.toList.splitOn '/' →
        ∀ {m : Type → Type} (store : Store m), store.pathOf c = store.pathOf d ↔ c = d) := by
  refine ⟨⟨hc.eq_of_repositoryPath hd, congrArg repositoryPath⟩,
    fun hnames hnames' _ store => ⟨fun hplace => ?_, congrArg store.pathOf⟩⟩
  have hpieces : (placeBelow store.cacheDir c.repositoryPath).pieces.filter (· ≠ []) =
      (placeBelow store.cacheDir d.repositoryPath).pieces.filter (· ≠ []) :=
    congrArg (fun place => place.pieces.filter (· ≠ [])) hplace
  rw [Path.filter_pieces_placeBelow, Path.filter_pieces_placeBelow, List.append_cancel_left_eq, filter_splitOn hnames,
    filter_splitOn hnames'] at hpieces
  refine hc.eq_of_repositoryPath hd (String.toList_injective ?_)
  calc c.repositoryPath.toList = ['/'].intercalate (c.repositoryPath.toList.splitOn '/') :=
        (List.intercalate_splitOn '/').symm
    _ = ['/'].intercalate (d.repositoryPath.toList.splitOn '/') := by rw [hpieces]
    _ = d.repositoryPath.toList := List.intercalate_splitOn '/'

/-- Two coordinates whose files have one name. -/
theorem repositoryPath_inj_of_same_fileName :
    ∃ c d, c.IsFlat ∧ d.IsFlat ∧ c = ⟨"g", "a-1", "2", none, "jar"⟩ ∧ d = ⟨"g", "a", "1", some "2", "jar"⟩ ∧
      c.fileName = d.fileName ∧ c.repositoryPath ≠ d.repositoryPath ∧
      ∀ store : Store (StateM FileTree), store.pathOf c ≠ store.pathOf d := by
  have hc : (Coordinate.mk "g" "a-1" "2" none "jar").IsFlat :=
    ⟨by decide, by decide, by decide, by decide, by decide⟩
  have hd : (Coordinate.mk "g" "a" "1" (some "2") "jar").IsFlat :=
    ⟨by decide, by decide, by decide, by decide, by decide⟩
  have hne : Coordinate.mk "g" "a-1" "2" none "jar" ≠ .mk "g" "a" "1" (some "2") "jar" := by decide
  exact ⟨_, _, hc, hd, rfl, rfl, by decide, fun hpath => hne ((repositoryPath_inj hc hd).1.1 hpath),
    fun store hplace => hne (((repositoryPath_inj hc hd).2 (by decide) (by decide) store).1 hplace)⟩

end Coordinate
end UberJar
