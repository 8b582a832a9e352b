import UberJar.Archive.Jar
import UberJar.Proofs.Files.Lexical
import UberJar.Proofs.Files.Tree

namespace UberJar

namespace Path

/-- Where one more piece of a path leads. From the root nothing leads up. -/
def follow (place : Location) (piece : List Char) : Location :=
  if piece = [] ∨ piece = ['.'] then place
  else if piece = up then place.dropLast
  else place ++ [String.ofList piece]

/-- The place that a path starts from. -/
def base (workingDirectory : Location) (p : Path) : Location := if p.isAbsolute then [] else workingDirectory

/-- Where a path leads, if the directories on its way are there. -/
def location (workingDirectory : Location) (p : Path) : Location := p.pieces.foldl follow (base workingDirectory p)

variable {place start : Location} {piece : List Char}

theorem follow_of_trivial (htrivial : piece = [] ∨ piece = ['.']) : follow place piece = place :=
  if_pos htrivial

theorem follow_of_name (hname : ¬(piece = [] ∨ piece = ['.'])) (hup : piece ≠ up) :
    follow place piece = place ++ [String.ofList piece] := by
  unfold follow
  rw [if_neg hname, if_neg hup]

/-- Pieces that do not climb above their start lead below any place. -/
theorem foldl_follow_of_up_notMem {pieces : List (List Char)} (hstays : up ∉ descendAll false [] pieces) :
    pieces.foldl follow place = place ++ (descendAll false [] pieces).reverse.map String.ofList := by
  induction pieces using List.reverseRecOn with
  | nil => simp [descendAll]
  | append_singleton pieces piece ih =>
    rw [descendAll_concat] at hstays ⊢
    rw [List.foldl_append, List.foldl_cons, List.foldl_nil]
    generalize descendAll false [] pieces = names at hstays ih
    by_cases htrivial : piece = [] ∨ piece = ['.']
    · rw [descend_of_trivial htrivial] at hstays ⊢
      rw [follow_of_trivial htrivial, ih hstays]
    by_cases hup : piece = up
    · subst hup
      cases names with
      | nil => exact absurd (up_mem_descend_up (.inl rfl)) hstays
      | cons last earlier =>
        have hlast : last ≠ up := by
          rintro rfl
          exact hstays (up_mem_descend_up (.inr ⟨earlier, rfl⟩))
        rw [descend_up_cons hlast] at hstays ⊢
        rw [ih (by simp [hlast.symm, hstays]), follow, if_neg htrivial, if_pos rfl]
        simp
    · rw [descend_of_name htrivial hup] at hstays ⊢
      rw [follow_of_name htrivial hup, ih fun hmem => hstays (List.mem_cons_of_mem _ hmem)]
      simp

theorem location_join (hpiece : '/' ∉ piece) (p : Path) :
    (p.join ⟨.ofList piece⟩).location start = follow (p.location start) piece := by
  rw [location, base, (body_join hpiece p).1]
  exact foldl_pieces_join (fun _ => follow_of_trivial (.inl rfl)) hpiece p _

theorem location_placeBelow (root : Path) (path : String) :
    (placeBelow root path).location start = (path.toList.splitOn '/').foldl follow (root.location start) := by
  obtain ⟨hroot, hpieces⟩ := foldl_pieces_placeBelow (f := follow) (fun _ => follow_of_trivial (.inl rfl)) root path
    (base start root)
  rw [location, base, hroot]
  exact hpieces

section Reversed

variable {p : Path} {names : List (List Char)}

/-- A relative path that goes on does not begin with an empty piece. -/
theorem first_ne_nil (hrelative : p.isAbsolute = false) {first : List Char} {rest : List (List Char)}
    (hpieces : p.pieces = first :: rest) (hrest : rest ≠ []) : first ≠ [] := by
  rintro rfl
  have hbody : ['/'].intercalate p.pieces = p.body := List.intercalate_splitOn '/'
  rw [hpieces, List.intercalate_cons_of_ne_nil hrest] at hbody
  rw [body, hrelative, if_neg Bool.false_ne_true] at hbody
  rw [isAbsolute, ← hbody] at hrelative
  exact absurd rfl (beq_eq_false_iff_ne.1 hrelative)

/-- A path made of some pieces has these pieces. -/
theorem pieces_ofReversed_eq (hne : names ≠ []) (hslash : ∀ piece ∈ names, '/' ∉ piece)
    (hfirst : p.isAbsolute = false → ∀ rest, names.reverse = [] :: rest → rest = []) :
    (ofReversed p names).isAbsolute = p.isAbsolute ∧ (ofReversed p names).pieces = names.reverse := by
  have hsplit : (['/'].intercalate names.reverse).splitOn '/' = names.reverse :=
    List.splitOn_intercalate '/' (by simpa using hslash) (by simpa using hne)
  cases hrooted : p.isAbsolute with
  | true =>
    have htext : (ofReversed p names).text.toList = '/' :: ['/'].intercalate names.reverse := by
      simp [ofReversed, hrooted]
    have habsolute : (ofReversed p names).isAbsolute = true := by simp [isAbsolute, htext]
    exact ⟨habsolute, by rw [pieces, habsolute, if_pos rfl, htext, List.tail_cons, hsplit]⟩
  | false =>
    have htext : (ofReversed p names).text.toList = ['/'].intercalate names.reverse := by
      simp [ofReversed, hrooted]
    have habsolute : (ofReversed p names).isAbsolute = false := by
      rw [isAbsolute, htext, beq_eq_false_iff_ne]
      intro hhead
      obtain ⟨first, rest, hnames⟩ := List.exists_cons_of_ne_nil (show names.reverse ≠ [] by simpa using hne)
      have hmem : first ∈ names := List.mem_reverse.1 (hnames ▸ List.mem_cons_self)
      cases first with
      | nil =>
        obtain rfl := hfirst hrooted rest hnames
        simp [hnames] at hhead
      | cons c first =>
        have hc : c = '/' := by
          rw [hnames] at hhead
          cases rest with
          | nil => simpa using hhead
          | cons second rest => simpa [List.intercalate_cons_of_ne_nil] using hhead
        exact hslash _ hmem (by simp [hc])
    exact ⟨habsolute, by rw [pieces, habsolute, if_neg Bool.false_ne_true, htext, hsplit]⟩

theorem first_of_initial (hinitial : names.reverse <+: p.pieces) :
    p.isAbsolute = false → ∀ rest, names.reverse = [] :: rest → rest = [] := by
  intro hrelative rest hnames
  obtain ⟨after, hafter⟩ := hinitial
  rw [hnames, List.cons_append] at hafter
  by_contra hrest
  exact first_ne_nil hrelative hafter.symm (by simp [hrest]) rfl

theorem notMem_of_initial (hinitial : names.reverse <+: p.pieces) : ∀ piece ∈ names, '/' ∉ piece :=
  fun _ hmem => Text.notMem_of_mem_splitOn (hinitial.subset (List.mem_reverse.2 hmem))

theorem location_ofReversed (hslash : ∀ piece ∈ names, '/' ∉ piece)
    (hfirst : p.isAbsolute = false → ∀ rest, names.reverse = [] :: rest → rest = []) :
    (ofReversed p names).location start = names.reverse.foldl follow (base start p) := by
  by_cases hne : names = []
  · subst hne
    have hroot : location start ⟨"/"⟩ = [] := by simp [location, base, pieces, isAbsolute, follow]
    have hempty : location start ⟨""⟩ = start := by simp [location, base, pieces, isAbsolute, follow]
    cases hrooted : p.isAbsolute with
    | true =>
      rw [base, hrooted, ofReversed, hrooted]
      exact hroot
    | false =>
      rw [base, hrooted, ofReversed, hrooted]
      exact hempty
  · obtain ⟨habsolute, hpieces⟩ := pieces_ofReversed_eq hne hslash hfirst
    rw [location, base, habsolute, hpieces, base]

end Reversed

section Significant

variable {p : Path} {earlier : List (List Char)}

theorem significant_suffix (p : Path) (reversed : List (List Char)) : significant p reversed <:+ reversed := by
  induction reversed with
  | nil => exact List.suffix_rfl
  | cons piece earlier ih =>
    rw [significant]
    split
    · exact ih.trans (List.suffix_cons _ _)
    · exact List.suffix_rfl

theorem foldl_follow_significant (p : Path) (reversed : List (List Char)) (place : Location) :
    (significant p reversed).reverse.foldl follow place = reversed.reverse.foldl follow place := by
  induction reversed with
  | nil => rfl
  | cons piece earlier ih =>
    rw [significant]
    split
    · next htrivial =>
      have hpiece : piece = [] ∨ piece = ['.'] := by
        simp only [isTrivial, Bool.or_eq_true, Bool.and_eq_true, List.isEmpty_iff, beq_iff_eq] at htrivial
        exact htrivial.imp id And.left
      rw [ih, List.reverse_cons, List.foldl_append, List.foldl_cons, List.foldl_nil, follow_of_trivial hpiece]
    · rfl

theorem ne_nil_of_significant {reversed : List (List Char)} (hsignificant : significant p reversed = piece :: earlier) :
    piece ≠ [] := by
  induction reversed with
  | nil => cases hsignificant
  | cons first reversed ih =>
    rw [significant] at hsignificant
    split at hsignificant
    · exact ih hsignificant
    · next htrivial =>
      obtain ⟨rfl, -⟩ := List.cons.inj hsignificant
      rintro rfl
      exact htrivial rfl

/-- A path whose last piece is a name leads to that name in the place that the pieces before it lead to. -/
theorem location_of_name (hsignificant : significant p p.pieces.reverse = piece :: earlier)
    (hname : ¬(piece = ['.'] ∨ piece = up)) :
    p.location start = earlier.reverse.foldl follow (base start p) ++ [String.ofList piece] := by
  have hne : ¬(piece = [] ∨ piece = ['.']) := not_or.2 ⟨ne_nil_of_significant hsignificant, mt .inl hname⟩
  have hpieces := foldl_follow_significant p p.pieces.reverse (base start p)
  rw [List.reverse_reverse, hsignificant, List.reverse_cons, List.foldl_append, List.foldl_cons, List.foldl_nil,
    follow_of_name hne (mt .inr hname)] at hpieces
  exact hpieces.symm

theorem initial_of_significant (hsignificant : significant p p.pieces.reverse = piece :: earlier) :
    (piece :: earlier).reverse <+: p.pieces := by
  have hsuffix := significant_suffix p p.pieces.reverse
  rwa [hsignificant, ← List.reverse_prefix, List.reverse_reverse] at hsuffix

/-- A path with another extension leads where it led before, or to another name beside it. -/
theorem location_withExtension (p : Path) {extension : String} (hextension : '/' ∉ extension.toList)
    (hlong : 2 ≤ extension.toList.length) (start : Location) :
    (p.withExtension extension).location start = p.location start ∨
      ∃ directory name name', p.location start = directory ++ [name] ∧
        (p.withExtension extension).location start = directory ++ [name'] := by
  unfold withExtension
  cases hsignificant : significant p p.pieces.reverse with
  | nil => exact .inl rfl
  | cons piece earlier =>
    simp only
    by_cases hname : piece = ['.'] ∨ piece = ['.', '.']
    · rw [if_pos hname]
      exact .inl rfl
    · have hinitial := initial_of_significant hsignificant
      have hpiece : '/' ∉ piece := notMem_of_initial hinitial piece List.mem_cons_self
      have hslash : ∀ other ∈ (stem piece ++ '.' :: extension.toList) :: earlier, '/' ∉ other := by
        intro other hother
        rcases List.mem_cons.1 hother with rfl | hother
        · have hstem : '/' ∉ stem piece := fun h => hpiece (stem_subset piece h)
          simp [hextension, hstem]
        · exact notMem_of_initial hinitial other (List.mem_cons_of_mem _ hother)
      have hfirst : p.isAbsolute = false → ∀ rest,
          ((stem piece ++ '.' :: extension.toList) :: earlier).reverse = [] :: rest → rest = [] := by
        intro hrelative rest hrest
        cases hearlier : earlier.reverse with
        | nil => simp [hearlier] at hrest
        | cons first more =>
          obtain ⟨after, hafter⟩ := hinitial
          rw [List.reverse_cons, hearlier, List.cons_append, List.cons_append] at hafter
          rw [List.reverse_cons, hearlier, List.cons_append, List.cons.injEq] at hrest
          exact absurd hrest.1 (first_ne_nil hrelative hafter.symm (by simp))
      have hlength : 2 < (stem piece ++ '.' :: extension.toList).length := by simp; omega
      refine .inr ⟨_, _, String.ofList (stem piece ++ '.' :: extension.toList), location_of_name hsignificant hname, ?_⟩
      rw [if_neg hname, location_ofReversed hslash hfirst, List.reverse_cons, List.foldl_append, List.foldl_cons,
        List.foldl_nil, follow_of_name (not_or.2 ⟨?_, ?_⟩) ?_]
      all_goals
        intro h
        rw [h] at hlength
        exact absurd hlength (by decide)

theorem location_join_name {name : String} (hslash : '/' ∉ name.toList) (hlong : 2 < name.toList.length) (p : Path) :
    (p.join ⟨name⟩).location start = p.location start ++ [name] := by
  have hjoin : (p.join ⟨String.ofList name.toList⟩).location start = _ := location_join hslash p
  rw [String.ofList_toList] at hjoin
  rw [hjoin, follow_of_name (not_or.2 ⟨?_, ?_⟩) ?_, String.ofList_toList]
  all_goals
    intro h
    rw [h] at hlong
    exact absurd hlong (by decide)

/-- The draft of a jar stands beside it, or in the directory where it was to be if its path has no name. -/
theorem location_draftPath (p : Path) (start : Location) :
    (∃ directory name, p.location start = directory ++ [name] ∧
        (Jar.draftPath p).location start = directory ++ ["." ++ name ++ ".tmp"]) ∨
      (Jar.draftPath p).location start = p.location start ++ [".output.jar.tmp"] := by
  have hunnamed : (p.join ⟨"." ++ "output.jar" ++ ".tmp"⟩).location start = p.location start ++ [".output.jar.tmp"] :=
    location_join_name (by decide) (by decide) p
  unfold Jar.draftPath withFileName fileName? parent?
  cases hsignificant : significant p p.pieces.reverse with
  | nil => exact .inr hunnamed
  | cons piece earlier =>
    simp only
    by_cases hname : piece = ['.'] ∨ piece = ['.', '.']
    · rw [if_pos hname]
      exact .inr hunnamed
    · have hinitial := initial_of_significant hsignificant
      have hpiece : '/' ∉ piece := notMem_of_initial hinitial piece List.mem_cons_self
      have hsuffix : significant p earlier <:+ piece :: earlier :=
        (significant_suffix p earlier).trans (List.suffix_cons piece earlier)
      have hbelow : (significant p earlier).reverse <+: (piece :: earlier).reverse := List.reverse_prefix.2 hsuffix
      have habove : (significant p earlier).reverse <+: p.pieces := hbelow.trans hinitial
      rw [if_neg hname]
      refine .inl ⟨_, _, location_of_name hsignificant hname, ?_⟩
      simp only [Option.getD_some]
      rw [location_join_name (by simp [hpiece]) (by simp),
        location_ofReversed (notMem_of_initial habove) (first_of_initial habove), foldl_follow_significant]

theorem location_draftPath_ne (p : Path) (start : Location) : (Jar.draftPath p).location start ≠ p.location start := by
  intro hsame
  rcases location_draftPath p start with ⟨directory, name, hlocation, hdraft⟩ | hdraft
  · rw [hdraft, hlocation, List.append_cancel_left_eq, List.singleton_inj] at hsame
    have hlength := congrArg (fun text => text.toList.length) hsame
    simp only [String.toList_append, List.length_append] at hlength
    have hdot : ".".toList.length = 1 := by decide
    omega
  · rw [hdraft] at hsame
    simp at hsame

end Significant

end Path

theorem FileTree.foldl_follow_of_walk {t : FileTree} {start place : Location} {pieces : List (List Char)}
    (hwalk : t.walk start pieces = .ok place) : pieces.foldl Path.follow start = place := by
  induction pieces generalizing start with
  | nil => exact Except.ok.inj hwalk
  | cons piece pieces ih =>
    rw [walk] at hwalk
    rw [List.foldl_cons, Path.follow, Path.up]
    split at hwalk
    · cases hwalk
    · cases hwalk
    · split_ifs at hwalk ⊢
      · exact ih hwalk
      · exact ih hwalk
      · exact ih hwalk

/-- A path that leads somewhere leads to its location. -/
theorem FileTree.location_of_locate {t : FileTree} {p : Path} {place : Location} (hlocate : t.locate p = .ok place) :
    p.location t.workingDirectory = place := by
  unfold locate at hlocate
  split_ifs at hlocate with _ _ _ habsolute
  · rw [Path.location, Path.base, if_pos habsolute]
    exact foldl_follow_of_walk hlocate
  · rw [Path.location, Path.base, if_neg habsolute]
    exact foldl_follow_of_walk hlocate

end UberJar
