namespace UberJar.Text

/-- The text before and after the first `sep`. -/
def splitFirst? (sep : Char) (cs : List Char) : Option (List Char × List Char) :=
  match cs.dropWhile (· != sep) with
  | [] => none
  | _ :: after => some (cs.takeWhile (· != sep), after)

/-- The text before and after the last `sep`. -/
def splitLast? (sep : Char) (cs : List Char) : Option (List Char × List Char) :=
  (splitFirst? sep cs.reverse).map fun (after, before) => (before.reverse, after.reverse)

/-- The text before the first `sep`, or the whole text. -/
def before (sep : Char) (cs : List Char) : List Char := cs.takeWhile (· != sep)

theorem splitFirst?_eq_some {sep : Char} {cs a b : List Char} (h : splitFirst? sep cs = some (a, b)) :
    cs = a ++ sep :: b ∧ sep ∉ a := by
  unfold splitFirst? at h
  split at h
  · simp at h
  · rename_i c after hdrop
    simp only [Option.some.injEq, Prod.mk.injEq] at h
    obtain ⟨rfl, rfl⟩ := h
    have hc : c = sep := by
      have := List.head?_dropWhile_not (· != sep) cs
      simpa [hdrop] using this
    refine ⟨?_, fun hmem => ?_⟩
    · have hcut := List.takeWhile_append_dropWhile (p := (· != sep)) (l := cs)
      rw [hdrop, hc] at hcut
      exact hcut.symm
    · have := List.all_eq_true.1 (List.all_takeWhile (p := (· != sep)) (l := cs)) sep hmem
      simp at this

theorem splitFirst?_append {front back : List Char} {separator : Char} (hfront : separator ∉ front) :
    splitFirst? separator (front ++ separator :: back) = some (front, back) := by
  have hkept : ∀ c ∈ front, (c != separator) = true := by
    intro c hc
    rw [bne_iff_ne]
    rintro rfl
    exact hfront hc
  unfold splitFirst?
  rw [List.dropWhile_append_of_pos hkept, List.takeWhile_append_of_pos hkept]
  simp

theorem splitFirst?_eq_none_iff {sep : Char} {cs : List Char} : splitFirst? sep cs = none ↔ sep ∉ cs := by
  constructor
  · intro hnone hmem
    obtain ⟨front, back, rfl, hfront⟩ := List.eq_append_cons_of_mem hmem
    rw [splitFirst?_append hfront] at hnone
    cases hnone
  · intro hmem
    cases hsplit : splitFirst? sep cs with
    | none => rfl
    | some pair => exact absurd (by simp [(splitFirst?_eq_some hsplit).1]) hmem

theorem splitLast?_eq_some_iff {sep : Char} {cs front back : List Char} :
    splitLast? sep cs = some (front, back) ↔ cs = front ++ sep :: back ∧ sep ∉ back := by
  rw [splitLast?, Option.map_eq_some_iff]
  constructor
  · rintro ⟨⟨after, before⟩, hsplit, hpair⟩
    obtain ⟨rfl, rfl⟩ := Prod.mk.inj hpair
    obtain ⟨hcs, hafter⟩ := splitFirst?_eq_some hsplit
    exact ⟨by rw [← List.reverse_reverse cs, hcs]; simp, by simpa using hafter⟩
  · rintro ⟨rfl, hback⟩
    refine ⟨(back.reverse, front.reverse), ?_, by simp⟩
    rw [List.reverse_append, List.reverse_cons, List.append_assoc]
    exact splitFirst?_append (by simpa using hback)

theorem splitLast?_eq_none_iff {sep : Char} {cs : List Char} : splitLast? sep cs = none ↔ sep ∉ cs := by
  rw [splitLast?, Option.map_eq_none_iff, splitFirst?_eq_none_iff, List.mem_reverse]

/-- A text is cut at the last separator in one way. -/
theorem append_cons_inj_of_last {sep : Char} {front front' back back' : List Char} (hback : sep ∉ back)
    (hback' : sep ∉ back') : front ++ sep :: back = front' ++ sep :: back' ↔ front = front' ∧ back = back' := by
  constructor
  · intro hsame
    have hsplit : splitLast? sep (front ++ sep :: back) = some (front, back) := splitLast?_eq_some_iff.2 ⟨rfl, hback⟩
    rw [hsame, splitLast?_eq_some_iff.2 ⟨rfl, hback'⟩] at hsplit
    obtain ⟨rfl, rfl⟩ := Prod.mk.inj (Option.some.inj hsplit)
    exact ⟨rfl, rfl⟩
  · rintro ⟨rfl, rfl⟩
    rfl

/-- The rest of a text after a leading `word`. -/
def dropPrefix? (word : List Char) (cs : List Char) : Option (List Char) :=
  if word.isPrefixOf cs then some (cs.drop word.length) else none

theorem dropPrefix?_eq_some {word cs rest : List Char} :
    dropPrefix? word cs = some rest ↔ cs = word ++ rest := by
  unfold dropPrefix?
  split
  · rename_i h
    obtain ⟨tail, rfl⟩ := List.isPrefixOf_iff_prefix.1 h
    simp [eq_comm]
  · rename_i h
    simp only [reduceCtorEq, false_iff]
    rintro rfl
    exact h (List.isPrefixOf_iff_prefix.2 ⟨rest, rfl⟩)

/-- The text before the first occurrence of `word`, and the text after that occurrence. -/
def splitAtWord? (word : List Char) : List Char → Option (List Char × List Char)
  | [] => if word.isEmpty then some ([], []) else none
  | c :: cs =>
    match dropPrefix? word (c :: cs) with
    | some rest => some ([], rest)
    | none => (splitAtWord? word cs).map fun (a, b) => (c :: a, b)

/-- Whether `word` occurs in a text. -/
def contains (word cs : List Char) : Bool := (splitAtWord? word cs).isSome

/-- Puts the line feeds back behind pieces that were cut at line feeds; an empty last piece is no line. -/
def endLines : List (List Char) → List (List Char)
  | [] => []
  | [last] => if last.isEmpty then [] else [last]
  | line :: lines => (line ++ ['\n']) :: endLines lines

/-- The lines of a text, each with its line feed. -/
def linesWithEnds (cs : List Char) : List (List Char) := endLines (cs.splitOn '\n')

/-- Replaces every occurrence of one character by another. -/
def replaceChar (old new : Char) (cs : List Char) : List Char :=
  cs.map fun c => if c = old then new else c

end UberJar.Text
