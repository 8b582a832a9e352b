import Mathlib.Data.List.Induction
import UberJar.Proofs.Text.Lines
import UberJar.Repository.Basic

namespace UberJar.Path

/-- The piece that stands for the directory above. -/
def up : List Char := ['.', '.']

/-- The names so far, latest first, after one more piece. At the root there is no directory above. -/
def descend (rooted : Bool) (names : List (List Char)) (piece : List Char) : List (List Char) :=
  if piece = [] ∨ piece = ['.'] then names
  else if piece = up then
    match names with
    | [] => if rooted then [] else [up]
    | last :: earlier => if last = up then up :: names else earlier
  else piece :: names

/-- The names that pieces come to behind some others, latest first. -/
def descendAll (rooted : Bool) (names : List (List Char)) (pieces : List (List Char)) : List (List Char) :=
  pieces.foldl (descend rooted) names

/-- The names that a path comes to, latest first. -/
def resolved (p : Path) : List (List Char) := descendAll p.isAbsolute [] p.pieces

/-- Whether a path leads below a directory: some names behind its own, and not above it. -/
def IsBelow (p root : Path) : Prop :=
  p.isAbsolute = root.isAbsolute ∧ ∃ rest, rest ≠ [] ∧ up ∉ rest ∧ p.resolved = rest ++ root.resolved

/-- What a path consists of behind the root's slash. -/
def body (p : Path) : List Char := if p.isAbsolute then p.text.toList.tail else p.text.toList

section Descend

variable {rooted : Bool} {names : List (List Char)} {piece : List Char}

theorem descend_of_trivial (htrivial : piece = [] ∨ piece = ['.']) : descend rooted names piece = names :=
  if_pos htrivial

theorem descend_of_name (hname : ¬(piece = [] ∨ piece = ['.'])) (hup : piece ≠ up) :
    descend rooted names piece = piece :: names := by
  unfold descend
  rw [if_neg hname, if_neg hup]

theorem descend_up_cons {last : List Char} (hlast : last ≠ up) : descend rooted (last :: names) up = names := by
  simp [descend, up] at hlast ⊢
  simp [hlast]

theorem up_mem_descend_up (hnames : names = [] ∨ ∃ earlier, names = up :: earlier) : up ∈ descend false names up := by
  rcases hnames with rfl | ⟨earlier, rfl⟩ <;> simp [descend, up]

end Descend

theorem descendAll_concat (rooted : Bool) (names : List (List Char)) (pieces : List (List Char)) (piece : List Char) :
    descendAll rooted names (pieces ++ [piece]) = descend rooted (descendAll rooted names pieces) piece := by
  simp [descendAll]

theorem splitOn_slash {piece : List Char} (hpiece : '/' ∉ piece) (front : List Char) :
    (front ++ '/' :: piece).splitOn '/' = front.splitOn '/' ++ [piece] := by
  have hsingle : piece.splitOnP (· == '/') = [piece] := by
    refine List.splitOnP_eq_singleton fun c hc => beq_eq_false_iff_ne.2 ?_
    rintro rfl
    exact hpiece hc
  rw [List.splitOn_eq_splitOnP, List.splitOnP_append_cons _ _ (by simp), hsingle]
  rfl

section Join

variable {piece : List Char}

theorem isAbsolute_piece (hpiece : '/' ∉ piece) : (Path.mk (.ofList piece)).isAbsolute = false := by
  rw [isAbsolute, String.toList_ofList, beq_eq_false_iff_ne]
  exact fun hhead => hpiece (List.mem_of_head? hhead)

theorem toList_join (hpiece : '/' ∉ piece) (p : Path) :
    (p.text.toList = [] ∧ (p.join ⟨.ofList piece⟩).text.toList = piece) ∨
      ∃ front, (p.text.toList = front ∨ p.text.toList = front ++ ['/']) ∧ p.text.toList ≠ [] ∧
        (p.join ⟨.ofList piece⟩).text.toList = front ++ '/' :: piece := by
  unfold join
  rw [isAbsolute_piece hpiece, Bool.false_or]
  by_cases hempty : p.text.isEmpty = true
  · rw [if_pos hempty, String.toList_ofList]
    exact .inl ⟨by simp [String.isEmpty_iff.1 hempty], rfl⟩
  · have hne : p.text.toList ≠ [] := by simpa [String.isEmpty_iff] using hempty
    rw [if_neg hempty]
    refine .inr ?_
    by_cases hslash : p.text.toList.getLast? = some '/'
    · obtain ⟨front, hfront⟩ := List.getLast?_eq_some_iff.1 hslash
      rw [if_pos (by simpa using hslash)]
      exact ⟨front, .inr hfront, hne, by simp [hfront]⟩
    · rw [if_neg (by simpa using hslash)]
      exact ⟨p.text.toList, .inl rfl, hne, by simp⟩

/-- A piece that is joined to a path goes behind its body. -/
theorem body_join (hpiece : '/' ∉ piece) (p : Path) :
    (p.join ⟨.ofList piece⟩).isAbsolute = p.isAbsolute ∧
      ((p.body = [] ∧ (p.join ⟨.ofList piece⟩).body = piece) ∨
        ∃ front, (p.body = front ∨ p.body = front ++ ['/']) ∧
          (p.join ⟨.ofList piece⟩).body = front ++ '/' :: piece) := by
  rcases toList_join hpiece p with ⟨hempty, hjoin⟩ | ⟨front, hfront, hne, hjoin⟩
  · have hrelative : p.isAbsolute = false := by simp [isAbsolute, hempty]
    have hsame : (p.join ⟨.ofList piece⟩).isAbsolute = false := by
      have hrel := isAbsolute_piece hpiece
      rwa [isAbsolute, String.toList_ofList, ← hjoin] at hrel
    exact ⟨hsame.trans hrelative.symm, .inl ⟨by simp [body, hrelative, hempty], by simp [body, hsame, hjoin]⟩⟩
  · cases front with
    | nil =>
      have hroot : p.text.toList = ['/'] := by simpa [hne] using hfront
      simp [isAbsolute, body, hroot, hjoin]
    | cons c front =>
      have hhead : p.text.toList.head? = some c := by rcases hfront with h | h <;> simp [h]
      have hsame : (p.join ⟨.ofList piece⟩).isAbsolute = p.isAbsolute := by simp [isAbsolute, hjoin, hhead]
      refine ⟨hsame, .inr ?_⟩
      simp only [body, hsame]
      cases habsolute : p.isAbsolute with
      | false => exact ⟨c :: front, hfront, hjoin⟩
      | true =>
        refine ⟨front, ?_, by simp [hjoin]⟩
        rcases hfront with h | h <;> simp [h]

section Fold

variable {β : Type} {f : β → List Char → β}

/-- Following a path with a piece joined to it is following the path, and then the piece. -/
theorem foldl_pieces_join (hempty : ∀ b, f b [] = b) (hpiece : '/' ∉ piece) (p : Path) (start : β) :
    (p.join ⟨.ofList piece⟩).pieces.foldl f start = f (p.pieces.foldl f start) piece := by
  have hsingle : piece.splitOn '/' = [piece] := List.splitOn_eq_singleton hpiece
  change ((p.join ⟨.ofList piece⟩).body.splitOn '/').foldl f start = f ((p.body.splitOn '/').foldl f start) piece
  obtain ⟨-, ⟨hbody, hjoin⟩ | ⟨front, hfront, hjoin⟩⟩ := body_join hpiece p
  · simp [hbody, hjoin, hsingle, hempty]
  · have hsame : (p.body.splitOn '/').foldl f start = (front.splitOn '/').foldl f start := by
      rcases hfront with h | h
      · rw [h]
      · rw [h, splitOn_slash (by simp), List.foldl_append, List.foldl_cons, List.foldl_nil, hempty]
    rw [hjoin, splitOn_slash hpiece, List.foldl_append, List.foldl_cons, List.foldl_nil, hsame]

/-- Following a place below a directory is following the directory, and then the pieces of the place. -/
theorem foldl_pieces_placeBelow (hempty : ∀ b, f b [] = b) (root : Path) (path : String) (start : β) :
    (placeBelow root path).isAbsolute = root.isAbsolute ∧
      (placeBelow root path).pieces.foldl f start =
        (path.toList.splitOn '/').foldl f (root.pieces.foldl f start) := by
  have hpieces : ∀ piece ∈ path.toList.splitOn '/', '/' ∉ piece := fun piece => Text.notMem_of_mem_splitOn
  unfold placeBelow
  generalize path.toList.splitOn '/' = pieces at hpieces
  induction pieces using List.reverseRecOn with
  | nil => exact ⟨rfl, rfl⟩
  | append_singleton pieces piece ih =>
    have hpiece : '/' ∉ piece := hpieces piece (by simp)
    obtain ⟨hroot, hnames⟩ := ih fun piece hmem => hpieces piece (List.mem_append_left _ hmem)
    rw [List.foldl_append, List.foldl_cons, List.foldl_nil, foldl_pieces_join hempty hpiece, hnames, List.foldl_append,
      List.foldl_cons, List.foldl_nil]
    exact ⟨((body_join hpiece _).1).trans hroot, rfl⟩

end Fold

/-- A place below a directory comes to the names of the directory, and then goes on with the pieces. -/
theorem resolved_placeBelow (root : Path) (path : String) :
    (placeBelow root path).isAbsolute = root.isAbsolute ∧
      (placeBelow root path).resolved = descendAll root.isAbsolute root.resolved (path.toList.splitOn '/') := by
  obtain ⟨hroot, hnames⟩ := foldl_pieces_placeBelow (f := descend root.isAbsolute)
    (fun _ => descend_of_trivial (.inl rfl)) root path []
  refine ⟨hroot, ?_⟩
  rw [resolved, hroot]
  exact hnames

end Join

section Extension

variable {p : Path} {piece : List Char}

theorem pieces_of_ends (hpiece : '/' ∉ piece)
    (hends : p.text.toList = piece ∨ ∃ front, p.text.toList = front ++ '/' :: piece) :
    ∃ before, p.pieces = before ++ [piece] := by
  have hsingle : piece.splitOn '/' = [piece] := List.splitOn_eq_singleton hpiece
  rcases hends with hends | ⟨front, hends⟩
  · have habsolute : p.isAbsolute = false := by
      have hrelative := isAbsolute_piece hpiece
      rwa [isAbsolute, String.toList_ofList, ← hends] at hrelative
    exact ⟨[], by rw [pieces, habsolute, if_neg Bool.false_ne_true, hends, hsingle, List.nil_append]⟩
  · cases front with
    | nil => exact ⟨[], by simp [pieces, isAbsolute, hends, hsingle]⟩
    | cons c front =>
      rw [pieces]
      split
      · exact ⟨front.splitOn '/', by rw [hends, List.cons_append, List.tail_cons, splitOn_slash hpiece]⟩
      · exact ⟨(c :: front).splitOn '/', by rw [hends, splitOn_slash hpiece]⟩

theorem intercalate_concat (names : List (List Char)) (piece : List Char) :
    ['/'].intercalate (names ++ [piece]) = piece ∨
      ∃ front, ['/'].intercalate (names ++ [piece]) = front ++ '/' :: piece := by
  induction names with
  | nil => exact .inl List.intercalate_singleton
  | cons name names ih =>
    refine .inr ?_
    rw [List.cons_append, List.intercalate_cons_of_ne_nil (by simp)]
    rcases ih with h | ⟨front, h⟩
    · exact ⟨name, by simp [h]⟩
    · exact ⟨name ++ '/' :: front, by simp [h]⟩

theorem pieces_ofReversed (hpiece : '/' ∉ piece) (p : Path) (earlier : List (List Char)) :
    ∃ before, (ofReversed p (piece :: earlier)).pieces = before ++ [piece] := by
  refine pieces_of_ends hpiece ?_
  have hbody := intercalate_concat earlier.reverse piece
  simp only [ofReversed, List.reverse_cons]
  split
  · rcases hbody with h | ⟨front, h⟩
    · exact .inr ⟨[], by simp [h]⟩
    · exact .inr ⟨'/' :: front, by simp [h]⟩
  · rcases hbody with h | ⟨front, h⟩
    · exact .inl (by rw [h, String.toList_ofList])
    · exact .inr ⟨front, by rw [h, String.toList_ofList]⟩

theorem significant_subset (p : Path) (reversed : List (List Char)) : significant p reversed ⊆ reversed := by
  induction reversed with
  | nil => exact List.Subset.refl _
  | cons piece earlier ih =>
    rw [significant]
    split
    · exact List.Subset.trans ih (List.subset_cons_self _ _)
    · exact List.Subset.refl _

theorem stem_subset (name : List Char) : stem name ⊆ name := by
  unfold stem
  split
  · next front back hsplit =>
    split
    · exact List.Subset.refl _
    · obtain ⟨⟨after, before⟩, hfirst, heq⟩ := Option.map_eq_some_iff.1 hsplit
      obtain ⟨rfl, -⟩ := Prod.mk.inj heq
      have hname := List.reverse_eq_iff.1 (Text.splitFirst?_eq_some hfirst).1
      rw [hname]
      simp
  · exact List.Subset.refl _

/-- A path with another extension is the path itself, if it has no name, or has a name that ends in the extension. -/
theorem withExtension_cases (p : Path) {extension : String} (hextension : '/' ∉ extension.toList) :
    p.withExtension extension = p ∨
      ∃ before name, (p.withExtension extension).pieces = before ++ [name ++ '.' :: extension.toList] := by
  unfold withExtension
  cases hsignificant : significant p p.pieces.reverse with
  | nil => exact .inl rfl
  | cons piece earlier =>
    simp only
    split
    · exact .inl rfl
    · have hmem : piece ∈ p.pieces := by
        have := significant_subset p p.pieces.reverse (hsignificant ▸ List.mem_cons_self)
        simpa using this
      have hslash : '/' ∉ stem piece ++ '.' :: extension.toList := by
        have hstem : '/' ∉ stem piece := fun h => Text.notMem_of_mem_splitOn hmem (stem_subset piece h)
        simp [hextension, hstem]
      obtain ⟨before, hbefore⟩ := pieces_ofReversed hslash p earlier
      exact .inr ⟨before, stem piece, hbefore⟩

end Extension

end UberJar.Path
