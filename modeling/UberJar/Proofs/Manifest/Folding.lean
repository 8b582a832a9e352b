import UberJar.Manifest.Line
import UberJar.Proofs.Text.Lines

namespace UberJar.Manifest

open Text

/-- Whether a text has no line break. -/
def IsUnbroken (text : List Char) : Prop := '\n' ∉ text ∧ '\r' ∉ text

instance (text : List Char) : Decidable (IsUnbroken text) := inferInstanceAs (Decidable (_ ∧ _))

/-- A text that stands for itself as a line of a block: a space at its start would join it to the line before. -/
structure IsLine (text : List Char) : Prop where
  ne_nil : text ≠ []
  space : text.head? ≠ some ' '
  unbroken : IsUnbroken text

theorem IsUnbroken.subset {text part : List Char} (htext : IsUnbroken text) (hpart : part ⊆ text) : IsUnbroken part :=
  ⟨fun hmem => htext.1 (hpart hmem), fun hmem => htext.2 (hpart hmem)⟩

/-- The pieces make up the text. -/
theorem flatten_foldOnto (limit room : Nat) (piece text : List Char) :
    (foldOnto limit room piece text).flatten = piece.reverse ++ text := by
  induction text generalizing room piece with
  | nil => simp [foldOnto]
  | cons c text ih =>
    rw [foldOnto]
    split
    · simp [ih]
    · simp [ih]

theorem ne_nil_of_mem_foldOnto {limit room : Nat} {piece text : List Char} (hpiece : piece ≠ []) :
    ∀ part ∈ foldOnto limit room piece text, part ≠ [] := by
  induction text generalizing room piece with
  | nil => simpa [foldOnto] using hpiece
  | cons c text ih =>
    rw [foldOnto]
    split
    · exact ih (by simp)
    · simpa [hpiece] using ih (by simp)

/-- A line has room for any first character, so that no piece is empty. -/
theorem ne_nil_of_mem_foldLine {text : List Char} (htext : text ≠ []) : ∀ part ∈ foldLine text, part ≠ [] := by
  cases text with
  | nil => exact absurd rfl htext
  | cons c text =>
    have hroom : c.utf8Size ≤ maxLine := Nat.le_trans c.utf8Size_le_four (by decide)
    rw [foldLine, foldOnto, if_pos hroom]
    exact ne_nil_of_mem_foldOnto (by simp)

theorem foldOnto_ne_nil (limit room : Nat) (piece text : List Char) : foldOnto limit room piece text ≠ [] := by
  induction text generalizing room piece with
  | nil => simp [foldOnto]
  | cons c text ih =>
    rw [foldOnto]
    split
    · exact ih _ _
    · simp

/-- The lines that a text takes: its pieces, with a space before all but the first. -/
def foldedLines (text : List Char) : List (List Char) :=
  match foldLine text with
  | [] => []
  | first :: others => first :: others.map (' ' :: ·)

theorem exists_foldLine_eq (text : List Char) :
    ∃ first others, foldLine text = first :: others ∧ foldedLines text = first :: others.map (' ' :: ·) ∧
      text = first ++ others.flatten := by
  obtain ⟨first, others, hpieces⟩ := List.exists_cons_of_ne_nil (foldOnto_ne_nil (maxLine - 1) maxLine [] text)
  change foldLine text = first :: others at hpieces
  refine ⟨first, others, hpieces, by rw [foldedLines, hpieces], ?_⟩
  have hflatten : (foldLine text).flatten = text := flatten_foldOnto (maxLine - 1) maxLine [] text
  rw [← hflatten, hpieces, List.flatten_cons]

theorem renderLine_eq (text : List Char) : renderLine text = (foldedLines text).flatMap (· ++ ['\r', '\n']) := by
  obtain ⟨first, others, hpieces, hfolded, -⟩ := exists_foldLine_eq text
  rw [renderLine, hpieces, hfolded]
  clear hpieces hfolded
  induction others generalizing first with
  | nil => simp
  | cons second others ih =>
    rw [List.intercalate_cons_cons, List.append_assoc, ih second]
    simp

theorem foldedLines_spec {text : List Char} (hne : text ≠ []) (hunbroken : IsUnbroken text) :
    ∀ line ∈ foldedLines text, line ≠ [] ∧ IsUnbroken line := by
  obtain ⟨first, others, hpieces, hfolded, hparts⟩ := exists_foldLine_eq text
  intro line hline
  rw [hfolded, List.mem_cons, List.mem_map] at hline
  rcases hline with rfl | ⟨part, hpart, rfl⟩
  · refine ⟨ne_nil_of_mem_foldLine hne line (hpieces ▸ List.mem_cons_self), hunbroken.subset ?_⟩
    rw [hparts]
    exact List.subset_append_left line others.flatten
  · have hsubset : part ⊆ text := by
      rw [hparts]
      exact fun c hc => List.mem_append_right _ (List.mem_flatten_of_mem hpart hc)
    obtain ⟨hfeed, hreturn⟩ := hunbroken.subset hsubset
    exact ⟨by simp, by simpa using hfeed, by simpa using hreturn⟩

theorem joinOnto_continued (line : List Char) (earlier others rest : List (List Char)) :
    joinOnto (line :: earlier) (others.map (' ' :: ·) ++ rest) =
      joinOnto ((line ++ others.flatten) :: earlier) rest := by
  induction others generalizing line with
  | nil => simp
  | cons part others ih => rw [List.map_cons, List.cons_append, joinOnto, ih, List.flatten_cons, List.append_assoc]

theorem joinOnto_cons {line : List Char} (hspace : line.head? ≠ some ' ') (lines rest : List (List Char)) :
    joinOnto lines (line :: rest) = joinOnto (line :: lines) rest := by
  rw [joinOnto]
  intro more previous earlier hline
  simp [hline] at hspace

/-- The lines that a text takes are joined to the text. -/
theorem joinOnto_foldedLines {text : List Char} (htext : IsLine text) (lines rest : List (List Char)) :
    joinOnto lines (foldedLines text ++ rest) = joinOnto (text :: lines) rest := by
  obtain ⟨first, others, hpieces, hfolded, hparts⟩ := exists_foldLine_eq text
  have hne : first ≠ [] := ne_nil_of_mem_foldLine htext.ne_nil first (hpieces ▸ List.mem_cons_self)
  have hspace : first.head? ≠ some ' ' := by
    have hhead := htext.space
    rwa [hparts, List.head?_append_of_ne_nil _ hne] at hhead
  rw [hfolded, List.cons_append, joinOnto_cons hspace, joinOnto_continued, ← hparts]

theorem joinOnto_block {texts : List (List Char)} (htexts : ∀ text ∈ texts, IsLine text) (lines : List (List Char)) :
    joinOnto lines (texts.flatMap foldedLines) = lines.reverse ++ texts := by
  induction texts generalizing lines with
  | nil => simp [joinOnto]
  | cons text texts ih =>
    rw [List.flatMap_cons, joinOnto_foldedLines (htexts text List.mem_cons_self),
      ih fun text htext => htexts text (List.mem_cons_of_mem _ htext)]
    simp

theorem unifyBreaks_append {front : List Char} (hfront : IsUnbroken front) (rest : List Char) :
    unifyBreaks false (front ++ rest) = front ++ unifyBreaks false rest := by
  induction front with
  | nil => rfl
  | cons c front ih =>
    have hrest : IsUnbroken front := hfront.subset (List.subset_cons_self c front)
    have hreturn : c ≠ '\r' := fun heq => hfront.2 (heq ▸ List.mem_cons_self)
    rw [List.cons_append, unifyBreaks, if_neg (by simp), if_neg hreturn, ih hrest, List.cons_append]

/-- Lines that end in a carriage return and a line feed are read as lines that end in a line feed. -/
theorem unifyBreaks_lines {lines : List (List Char)} (hlines : ∀ line ∈ lines, IsUnbroken line) :
    unifyBreaks false (lines.flatMap (· ++ ['\r', '\n'])) = lines.flatMap (· ++ ['\n']) := by
  induction lines with
  | nil => rfl
  | cons line lines ih =>
    have hbreak (rest : List Char) : unifyBreaks false ('\r' :: '\n' :: rest) = '\n' :: unifyBreaks false rest := by
      simp [unifyBreaks]
    rw [List.flatMap_cons, List.flatMap_cons, List.append_assoc, List.append_assoc,
      unifyBreaks_append (hlines line List.mem_cons_self), List.cons_append, List.cons_append, hbreak, List.nil_append,
      ih fun line hline => hlines line (List.mem_cons_of_mem _ hline), List.singleton_append]

theorem return_notMem_unifyBreaks (afterReturn : Bool) (text : List Char) : '\r' ∉ unifyBreaks afterReturn text := by
  induction text generalizing afterReturn with
  | nil => simp [unifyBreaks]
  | cons c text ih =>
    rw [unifyBreaks]
    split
    · exact ih false
    · split
      · simpa using ih true
      · rename_i hreturn
        simpa [eq_comm, hreturn] using ih false

/-- Empty lines cut a row of lines into the groups that they end. -/
theorem splitOnP_groups {groups : List (List (List Char))} (hgroups : ∀ group ∈ groups, ∀ line ∈ group, line ≠ []) :
    (groups.flatMap (· ++ [[]]) ++ [[]]).splitOnP List.isEmpty = groups ++ [[], []] := by
  induction groups with
  | nil => rfl
  | cons group groups ih =>
    have hgroup : ∀ line ∈ group, line.isEmpty = false := by simpa using hgroups group List.mem_cons_self
    rw [List.flatMap_cons, List.append_assoc, List.append_assoc, List.singleton_append,
      List.splitOnP_append_cons_of_forall_mem hgroup [] rfl,
      ih fun group hgroup => hgroups group (List.mem_cons_of_mem _ hgroup), List.cons_append]

theorem isEmpty_flatMap_foldedLines (texts : List (List Char)) :
    (texts.flatMap foldedLines).isEmpty = texts.isEmpty := by
  cases texts with
  | nil => rfl
  | cons text texts =>
    obtain ⟨first, others, -, hfolded, -⟩ := exists_foldLine_eq text
    simp [hfolded]

/-- The bytes of a block: the lines of its texts and an empty line, each with its line break. -/
theorem render_block (texts : List (List Char)) :
    texts.flatMap renderLine ++ ['\r', '\n'] = (texts.flatMap foldedLines ++ [[]]).flatMap (· ++ ['\r', '\n']) := by
  rw [List.flatMap_append, List.flatMap_assoc, funext renderLine_eq]
  simp

/-- What is written of blocks of lines is read as those blocks that are not empty. -/
theorem blocks_written {groups : List (List (List Char))} (hgroups : ∀ group ∈ groups, ∀ text ∈ group, IsLine text) :
    blocks (groups.flatMap fun group => group.flatMap renderLine ++ ['\r', '\n']) = groups.filter (!·.isEmpty) := by
  let folded := groups.map (·.flatMap foldedLines)
  have hfolded : ∀ lines ∈ folded, ∀ line ∈ lines, line ≠ [] ∧ IsUnbroken line := by
    intro lines hlines line hline
    obtain ⟨group, hmem, rfl⟩ := List.mem_map.1 hlines
    obtain ⟨text, htext, hline⟩ := List.mem_flatMap.1 hline
    have hline' := hgroups group hmem text htext
    exact foldedLines_spec hline'.ne_nil hline'.unbroken line hline
  have hlines : ∀ line ∈ folded.flatMap (· ++ [[]]), IsUnbroken line := by
    intro line hline
    obtain ⟨lines, hmem, hline⟩ := List.mem_flatMap.1 hline
    rcases List.mem_append.1 hline with hline | hline
    · exact (hfolded lines hmem line hline).2
    · obtain rfl := List.mem_singleton.1 hline
      exact ⟨by simp, by simp⟩
  have htext : (groups.flatMap fun group => group.flatMap renderLine ++ ['\r', '\n']) =
      (folded.flatMap (· ++ [[]])).flatMap (· ++ ['\r', '\n']) := by
    rw [funext render_block, ← List.flatMap_assoc, List.flatMap_map]
  have hkept : folded.filter (!·.isEmpty) = (groups.filter (!·.isEmpty)).map (·.flatMap foldedLines) := by
    rw [List.filter_map]
    exact congrArg _ (List.filter_congr fun group _ => congrArg (!·) (isEmpty_flatMap_foldedLines group))
  have hnone : ([[], []] : List (List (List Char))).filter (!·.isEmpty) = [] := rfl
  rw [blocks, htext, unifyBreaks_lines hlines, splitOn_lines fun line hline => (hlines line hline).1,
    splitOnP_groups fun lines hmem line hline => (hfolded lines hmem line hline).1, List.filter_append, hkept, hnone,
    List.append_nil, List.map_map]
  refine (List.map_congr_left fun group hmem => ?_).trans (List.map_id _)
  exact joinOnto_block (hgroups group (List.mem_filter.1 hmem).1) []

theorem isUnbroken_joinOnto {lines rest : List (List Char)} (hlines : ∀ line ∈ lines, IsUnbroken line)
    (hrest : ∀ line ∈ rest, IsUnbroken line) : ∀ line ∈ joinOnto lines rest, IsUnbroken line := by
  fun_induction joinOnto lines rest with
  | case1 lines => simpa using hlines
  | case2 rest more previous earlier ih =>
    obtain ⟨hprevious, hearlier⟩ := List.forall_mem_cons.1 hlines
    obtain ⟨hcontinued, hrest⟩ := List.forall_mem_cons.1 hrest
    refine ih (List.forall_mem_cons.2 ⟨?_, hearlier⟩) hrest
    have hmore := hcontinued.subset (List.subset_cons_self ' ' more)
    simp only [IsUnbroken, List.mem_append, not_or]
    exact ⟨⟨hprevious.1, hmore.1⟩, hprevious.2, hmore.2⟩
  | case3 lines line rest hnot ih =>
    obtain ⟨hline, hrest⟩ := List.forall_mem_cons.1 hrest
    exact ih (List.forall_mem_cons.2 ⟨hline, hlines⟩) hrest

/-- No line of a block has a line break. -/
theorem isUnbroken_of_mem_blocks {text : List Char} : ∀ block ∈ blocks text, ∀ line ∈ block, IsUnbroken line := by
  intro block hblock
  obtain ⟨group, hgroup, rfl⟩ := List.mem_map.1 hblock
  refine isUnbroken_joinOnto (by simp) fun line hline => ?_
  have hpiece := mem_of_mem_splitOnP (List.mem_filter.1 hgroup).1 line hline
  refine ⟨notMem_of_mem_splitOn hpiece, fun hreturn => ?_⟩
  exact return_notMem_unifyBreaks false text (mem_of_mem_segment hpiece _ hreturn)

end UberJar.Manifest
