import UberJar.Proofs.Text.Ascii
import UberJar.Relocation.References

namespace UberJar

namespace Text

theorem mem_of_mem_splitOn {separator : Char} {text : List Char} {d : Char} (hd : d ∈ text) :
    d = separator ∨ ∃ segment ∈ text.splitOn separator, d ∈ segment := by
  induction text with
  | nil => simp at hd
  | cons c cs ih =>
    obtain ⟨first, others, hsplit⟩ := List.exists_cons_of_ne_nil (List.splitOn_ne_nil separator cs)
    rw [List.splitOn_cons_eq_if_modifyHead, hsplit]
    rw [hsplit] at ih
    by_cases hc : c = separator
    · rcases List.mem_cons.1 hd with rfl | hd
      · exact .inl hc
      · simpa [hc] using ih hd
    · simp only [beq_iff_eq, hc, if_false, List.modifyHead_cons, List.mem_cons, exists_eq_or_imp]
      rcases List.mem_cons.1 hd with rfl | hd
      · exact .inr (.inl (.inl rfl))
      · rcases ih hd with hsep | ⟨segment, hmem, hin⟩
        · exact .inl hsep
        · rcases List.mem_cons.1 hmem with rfl | hmem
          · exact .inr (.inl (.inr hin))
          · exact .inr (.inr ⟨segment, hmem, hin⟩)

/-- A text whose segments are not empty begins with a character of a segment. -/
theorem cons_of_splitOn {P : Char → Prop} {separator : Char} {text : List Char}
    (htext : ∀ segment ∈ text.splitOn separator, segment ≠ [] ∧ ∀ c ∈ segment, P c) :
    ∃ c rest, text = c :: rest ∧ P c ∧ ∀ d ∈ rest, P d ∨ d = separator := by
  have hall (d : Char) (hd : d ∈ text) : P d ∨ d = separator := by
    rcases mem_of_mem_splitOn hd with hsep | ⟨segment, hmem, hin⟩
    · exact .inr hsep
    · exact .inl ((htext segment hmem).2 d hin)
  cases text with
  | nil => simp at htext
  | cons c rest =>
    refine ⟨c, rest, rfl, ?_, fun d hd => hall d (List.mem_cons_of_mem _ hd)⟩
    rcases hall c List.mem_cons_self with hc | rfl
    · exact hc
    · exact absurd rfl (htext [] (by simp [List.splitOn_cons_eq_if_modifyHead])).1

end Text

namespace Relocation

/-- Whether a character may stand in a segment of a name. -/
def isSegmentChar (c : Char) : Bool := c.isAlphanum || c == '_' || c == '$'

theorem toNat_lt_of_isSegmentChar {c : Char} (hc : isSegmentChar c = true) : c.toNat < 128 := by
  have hbelow {d : Char} (hd : d.toNat < 128) (hle : c.val ≤ d.val) : c.toNat < 128 :=
    Nat.lt_of_le_of_lt (UInt32.le_iff_toNat_le.1 hle) hd
  simp only [isSegmentChar, Bool.or_eq_true, beq_iff_eq] at hc
  rcases hc with (halphanum | rfl) | rfl
  · rcases (Bool.or_eq_true _ _).mp halphanum with halpha | hdigit
    · rcases (Bool.or_eq_true _ _).mp halpha with hupper | hlower
      · exact hbelow (d := 'Z') (by decide) (of_decide_eq_true hupper).2
      · exact hbelow (d := 'z') (by decide) (of_decide_eq_true ((Bool.and_eq_true _ _).mp hlower).2)
    · exact hbelow (d := '9') (by decide) (of_decide_eq_true ((Bool.and_eq_true _ _).mp hdigit).2)
  · decide
  · decide

/-- A package begins with a segment character and holds nothing but these and dots. -/
theorem isPackage_cons {text : List Char} (htext : isPackage text = true) :
    ∃ c rest, text = c :: rest ∧ isSegmentChar c = true ∧ ∀ d ∈ rest, isSegmentChar d = true ∨ d = '.' := by
  refine Text.cons_of_splitOn fun segment hmem => ?_
  have hsegment := List.all_eq_true.1 htext segment hmem
  cases segment with
  | nil => simp [isSegment] at hsegment
  | cons c rest =>
    simp only [isSegment, isSegmentStart, Bool.and_eq_true, List.all_eq_true] at hsegment
    refine ⟨by simp, fun d hd => ?_⟩
    rcases List.mem_cons.1 hd with rfl | hd
    · simp only [Bool.or_eq_true] at hsegment
      simp only [isSegmentChar, Char.isAlphanum, Bool.or_eq_true]
      rcases hsegment.1 with (halpha | hunder) | hdollar
      · exact .inl (.inl (.inl halpha))
      · exact .inl (.inr hunder)
      · exact .inr hdollar
    · exact hsegment.2 d hd

theorem isSegmentChar_or_dot {text : List Char} (htext : isPackage text = true) :
    ∀ c ∈ text, isSegmentChar c = true ∨ c = '.' := by
  obtain ⟨first, rest, rfl, hfirst, hrest⟩ := isPackage_cons htext
  intro c hc
  rcases List.mem_cons.1 hc with rfl | hc
  · exact .inl hfirst
  · exact hrest c hc

namespace Rule

/-- The slash form of a rule. -/
def slashForm (r : Rule) : Form := ⟨Text.Utf8.encode r.sourcePath, Text.Utf8.encode r.destinationPath, 0x2F⟩

/-- The dotted form of a rule. -/
def dotForm (r : Rule) : Form := ⟨Text.Utf8.encode r.source, Text.Utf8.encode r.destination, 0x2E⟩

theorem forms_eq (r : Rule) : r.forms = [r.slashForm, r.dotForm] := rfl

end Rule
end Relocation
end UberJar
