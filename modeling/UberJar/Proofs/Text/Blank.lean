import UberJar.Text.Blank

namespace UberJar.Text

variable {p : Char → Bool}

theorem dropWhile_eq_nil_or_cons (p : Char → Bool) (cs : List Char) :
    cs.dropWhile p = [] ∨ ∃ c rest, cs.dropWhile p = c :: rest ∧ p c = false := by
  cases hdrop : cs.dropWhile p with
  | nil => exact .inl rfl
  | cons c rest =>
    have hhead := List.head?_dropWhile_not p cs
    simp only [hdrop, List.head?_cons] at hhead
    exact .inr ⟨c, rest, rfl, by simpa using hhead⟩

theorem takeWhile_append_cons {front back : List Char} {c : Char} (hfront : ∀ d ∈ front, p d = true)
    (hc : p c = false) :
    (front ++ c :: back).takeWhile p = front ∧ (front ++ c :: back).dropWhile p = c :: back := by
  rw [List.takeWhile_append_of_pos hfront, List.dropWhile_append_of_pos hfront,
    List.takeWhile_cons_of_neg (by simp [hc]), List.dropWhile_cons_of_neg (by simp [hc]), List.append_nil]
  exact ⟨rfl, rfl⟩

/-- What is taken off the end of a text, and what is left. -/
theorem dropEndWhile_spec (p : Char → Bool) (cs : List Char) :
    ∃ back, cs = dropEndWhile p cs ++ back ∧ (∀ c ∈ back, p c = true) ∧
      (dropEndWhile p cs = [] ∨ ∃ front c, dropEndWhile p cs = front ++ [c] ∧ p c = false) := by
  refine ⟨(cs.reverse.takeWhile p).reverse, ?_, ?_, ?_⟩
  · rw [dropEndWhile, ← List.reverse_append, List.takeWhile_append_dropWhile, List.reverse_reverse]
  · intro c hc
    exact List.all_eq_true.1 List.all_takeWhile c (List.mem_reverse.1 hc)
  · rcases dropWhile_eq_nil_or_cons p cs.reverse with hnil | ⟨c, rest, hcons, hc⟩
    · exact .inl (by simp [dropEndWhile, hnil])
    · exact .inr ⟨rest.reverse, c, by simp [dropEndWhile, hcons], hc⟩

theorem dropEndWhile_append_cons {front : List Char} {c : Char} (hc : p c = false) (back : List Char) :
    dropEndWhile p (front ++ c :: back) = front ++ c :: dropEndWhile p back := by
  have hreverse : (front ++ c :: back).reverse = back.reverse ++ c :: front.reverse := by simp
  rw [dropEndWhile, dropEndWhile, hreverse, List.dropWhile_append, List.dropWhile_cons_of_neg (by simp [hc])]
  split
  · rename_i hnil
    simp [List.isEmpty_iff.1 hnil]
  · simp

theorem dropEndWhile_append_of_pos {cs back : List Char} (hback : ∀ d ∈ back, p d = true) :
    dropEndWhile p (cs ++ back) = dropEndWhile p cs := by
  have hback' : ∀ d ∈ back.reverse, p d = true := fun d hd => hback d (List.mem_reverse.1 hd)
  rw [dropEndWhile, dropEndWhile, List.reverse_append, List.dropWhile_append_of_pos hback']

theorem dropEndWhile_eq_nil {back : List Char} (hback : ∀ d ∈ back, p d = true) : dropEndWhile p back = [] := by
  rw [← List.nil_append back, dropEndWhile_append_of_pos hback]
  rfl

theorem dropEndWhile_append {front back : List Char} {c : Char} (hc : p c = false) (hback : ∀ d ∈ back, p d = true) :
    dropEndWhile p (front ++ [c] ++ back) = front ++ [c] := by
  rw [List.append_assoc, List.singleton_append, dropEndWhile_append_cons hc, dropEndWhile_eq_nil hback]

/-- What trimming takes off the ends of a text is blank. -/
theorem trim_spec (cs : List Char) :
    ∃ front back, cs = front ++ trim cs ++ back ∧ (∀ c ∈ front, isBlank c = true) ∧ ∀ c ∈ back, isBlank c = true := by
  obtain ⟨back, hback, hblank, -⟩ := dropEndWhile_spec isBlank (cs.dropWhile isBlank)
  refine ⟨cs.takeWhile isBlank, back, ?_, List.all_eq_true.1 List.all_takeWhile, hblank⟩
  rw [trim, dropAround, List.append_assoc, ← hback, List.takeWhile_append_dropWhile]

theorem infix_dropAround (p : Char → Bool) (cs : List Char) : dropAround p cs <:+: cs := by
  obtain ⟨back, hback, -, -⟩ := dropEndWhile_spec p (cs.dropWhile p)
  have hfront : dropAround p cs <+: cs.dropWhile p := by
    rw [hback]
    exact List.prefix_append _ back
  exact hfront.isInfix.trans (List.dropWhile_suffix p).isInfix

theorem trim_sublist (cs : List Char) : (trim cs).Sublist cs := (infix_dropAround isBlank cs).sublist

theorem trim_subset (cs : List Char) : trim cs ⊆ cs := (trim_sublist cs).subset

theorem isBlank_of_trim_eq_cons {cs rest : List Char} {c : Char} (htrim : trim cs = c :: rest) : isBlank c = false := by
  obtain ⟨back, hback, -, -⟩ := dropEndWhile_spec isBlank (cs.dropWhile isBlank)
  have hdrop : cs.dropWhile isBlank = c :: (rest ++ back) := by
    rw [hback]
    exact congrArg (· ++ back) htrim
  rcases dropWhile_eq_nil_or_cons isBlank cs with hnil | ⟨d, rest', hcons, hd⟩
  · simp [hnil] at hdrop
  · obtain ⟨rfl, -⟩ := List.cons.inj (hcons.symm.trans hdrop)
    exact hd

/-- Blanks behind a text are taken off it. -/
theorem trim_append_of_blank {cs back : List Char} (hback : ∀ c ∈ back, isBlank c = true) :
    trim (cs ++ back) = trim cs := by
  have hdrop : (back ++ []).dropWhile isBlank = [] := List.dropWhile_append_of_pos hback
  rw [List.append_nil] at hdrop
  rw [trim, trim, dropAround, dropAround, List.dropWhile_append, hdrop]
  split
  · rename_i hnil
    rw [List.isEmpty_iff.1 hnil]
  · exact dropEndWhile_append_of_pos hback

/-- A text that was cut down at both ends is cut down already. -/
theorem trim_trim (cs : List Char) : trim (trim cs) = trim cs := by
  obtain ⟨back, hback, -, hlast⟩ := dropEndWhile_spec isBlank (cs.dropWhile isBlank)
  change cs.dropWhile isBlank = trim cs ++ back at hback
  rcases hlast with hnil | ⟨front, c, hfront, hc⟩
  · change trim cs = [] at hnil
    rw [hnil]
    rfl
  · change trim cs = front ++ [c] at hfront
    have hstart : (trim cs).dropWhile isBlank = trim cs := by
      rcases dropWhile_eq_nil_or_cons isBlank cs with hnil | ⟨d, rest, hcons, hd⟩
      · simp [hnil, hfront] at hback
      · rw [hcons] at hback
        cases htrim : trim cs with
        | nil => rfl
        | cons e body =>
          rw [htrim, List.cons_append] at hback
          obtain ⟨rfl, -⟩ := List.cons.inj hback
          exact List.dropWhile_cons_of_neg (by simp [hd])
    have hend : dropEndWhile isBlank (front ++ [c] ++ []) = front ++ [c] := dropEndWhile_append hc (by simp)
    rw [List.append_nil, ← hfront] at hend
    rw [trim, dropAround, hstart, hend]

variable {text word : List Char}

/-- The first word of a text: nothing but blanks stands before it, and it goes on to a blank or to the end. -/
def IsFirstWord (text word : List Char) : Prop :=
  word ≠ [] ∧ (∀ c ∈ word, isBlank c = false) ∧
    ∃ front back, text = front ++ word ++ back ∧ (∀ c ∈ front, isBlank c = true) ∧
      ∀ c, back.head? = some c → isBlank c = true

/-- The words of a text, cut at its blanks. -/
def words (text : List Char) : List (List Char) := (text.splitOnP isBlank).filter (· ≠ [])

theorem words_append_cons {c : Char} (hc : isBlank c = true) (front back : List Char) :
    words (front ++ c :: back) = words front ++ words back := by
  rw [words, List.splitOnP_append_cons front back hc, List.filter_append, words, words]

theorem words_append_of_blank {front : List Char} (hfront : ∀ c ∈ front, isBlank c = true) (text : List Char) :
    words (front ++ text) = words text := by
  induction front with
  | nil => rfl
  | cons c front ih =>
    have hc := hfront c List.mem_cons_self
    have hrest := ih fun d hd => hfront d (List.mem_cons_of_mem c hd)
    rw [List.cons_append, ← List.nil_append (c :: _), words_append_cons hc, hrest]
    rfl

theorem words_eq_singleton (hne : word ≠ []) (hword : ∀ c ∈ word, isBlank c = false) : words word = [word] := by
  rw [words, List.splitOnP_eq_singleton hword]
  simp [hne]

theorem IsFirstWord.head?_words (hfirst : IsFirstWord text word) : (words text).head? = some word := by
  obtain ⟨hne, hword, front, back, rfl, hfront, hback⟩ := hfirst
  rw [List.append_assoc, words_append_of_blank hfront]
  cases back with
  | nil => rw [List.append_nil, words_eq_singleton hne hword, List.head?_cons]
  | cons c back =>
    rw [words_append_cons (hback c rfl), words_eq_singleton hne hword, List.singleton_append, List.head?_cons]

/-- Of the words of a text the first one is its first word. -/
theorem head?_words_eq_some_iff : (words text).head? = some word ↔ IsFirstWord text word := by
  refine ⟨fun hhead => ?_, IsFirstWord.head?_words⟩
  have htext : text.takeWhile isBlank ++ text.dropWhile isBlank = text := List.takeWhile_append_dropWhile
  have hfront : ∀ c ∈ text.takeWhile isBlank, isBlank c = true := List.all_eq_true.1 List.all_takeWhile
  rcases dropWhile_eq_nil_or_cons isBlank text with hnil | ⟨c, rest, hcons, hc⟩
  · have hwords := words_append_of_blank hfront []
    rw [← hnil, htext, hnil] at hwords
    rw [hwords] at hhead
    cases hhead
  · -- The word goes on from the first character that is no blank.
    let found := (c :: rest).takeWhile (!isBlank ·)
    let back := (c :: rest).dropWhile (!isBlank ·)
    have hsplit : text = text.takeWhile isBlank ++ found ++ back := by
      rw [List.append_assoc, List.takeWhile_append_dropWhile, ← hcons, htext]
    have hne : found ≠ [] := by simp [found, hc]
    have hfound : ∀ d ∈ found, isBlank d = false := by
      intro d hd
      simpa using List.all_eq_true.1 List.all_takeWhile d hd
    have hback (d : Char) (hd : back.head? = some d) : isBlank d = true := by
      have hstop := List.head?_dropWhile_not (!isBlank ·) (c :: rest)
      rw [hd] at hstop
      simpa using hstop
    have hfirst : IsFirstWord text found := ⟨hne, hfound, _, back, hsplit, hfront, hback⟩
    obtain rfl := Option.some.inj (hfirst.head?_words.symm.trans hhead)
    exact hfirst

end UberJar.Text
