import Mathlib.Data.List.Infix
import UberJar.Text.Split

namespace UberJar.Text

variable {word cs front back : List Char}

theorem dropPrefix?_eq_none_iff : dropPrefix? word cs = none ↔ ¬word <+: cs := by
  rw [dropPrefix?, ite_eq_right_iff, ← List.isPrefixOf_iff_prefix]
  simp

theorem splitAtWord?_eq_some (hsplit : splitAtWord? word cs = some (front, back)) : cs = front ++ word ++ back := by
  induction cs generalizing front with
  | nil =>
    rw [splitAtWord?] at hsplit
    split at hsplit
    · rename_i hempty
      obtain ⟨rfl, rfl⟩ := Prod.mk.inj (Option.some.inj hsplit)
      simp [List.isEmpty_iff.1 hempty]
    · cases hsplit
  | cons c cs ih =>
    rw [splitAtWord?] at hsplit
    split at hsplit
    · rename_i rest hrest
      obtain ⟨rfl, rfl⟩ := Prod.mk.inj (Option.some.inj hsplit)
      rw [dropPrefix?_eq_some.1 hrest, List.nil_append]
    · obtain ⟨⟨front', back'⟩, hsplit', hpair⟩ := Option.map_eq_some_iff.1 hsplit
      obtain ⟨rfl, rfl⟩ := Prod.mk.inj hpair
      rw [ih hsplit', List.cons_append, List.cons_append]

theorem contains_iff_infix : contains word cs = true ↔ word <:+: cs := by
  rw [contains, Option.isSome_iff_exists]
  constructor
  · rintro ⟨⟨front, back⟩, hsplit⟩
    exact ⟨front, back, (splitAtWord?_eq_some hsplit).symm⟩
  · intro hinfix
    induction cs with
    | nil => simp [splitAtWord?, List.infix_nil.1 hinfix]
    | cons c cs ih =>
      rw [splitAtWord?]
      cases hdrop : dropPrefix? word (c :: cs) with
      | some rest => exact ⟨_, rfl⟩
      | none =>
        obtain ⟨found, hfound⟩ :=
          ih ((List.infix_cons_iff.1 hinfix).resolve_left (dropPrefix?_eq_none_iff.1 hdrop))
        exact ⟨_, by rw [hfound]; rfl⟩

theorem contains_eq_false_iff : contains word cs = false ↔ ¬word <:+: cs := by
  rw [← contains_iff_infix, Bool.not_eq_true]

theorem contains_eq_false_of_infix (hcs : contains word cs = false) (hpart : front <:+: cs) :
    contains word front = false :=
  contains_eq_false_iff.2 fun hword => contains_eq_false_iff.1 hcs (hword.trans hpart)

/-- In front of the place where a text is cut the word does not stand. -/
theorem contains_of_splitAtWord? (hword : word ≠ []) (hsplit : splitAtWord? word cs = some (front, back)) :
    contains word front = false := by
  rw [contains_eq_false_iff]
  induction cs generalizing front with
  | nil => simp [splitAtWord?, hword] at hsplit
  | cons c cs ih =>
    have hcs := splitAtWord?_eq_some hsplit
    rw [splitAtWord?] at hsplit
    split at hsplit
    · obtain ⟨rfl, rfl⟩ := Prod.mk.inj (Option.some.inj hsplit)
      rwa [List.infix_nil]
    · rename_i hdrop
      obtain ⟨⟨front', back'⟩, hsplit', hpair⟩ := Option.map_eq_some_iff.1 hsplit
      obtain ⟨rfl, rfl⟩ := Prod.mk.inj hpair
      rw [List.infix_cons_iff, not_or]
      refine ⟨fun hstart => dropPrefix?_eq_none_iff.1 hdrop ?_, ih hsplit'⟩
      rw [hcs, List.append_assoc]
      exact hstart.trans (List.prefix_append _ _)

/-- A word of two characters stands in the one or the other of two texts, or across the seam between them. -/
theorem pair_infix_append {c d : Char} : [c, d] <:+: front ++ back ↔
    [c, d] <:+: front ∨ [c, d] <:+: back ∨ front.getLast? = some c ∧ back.head? = some d := by
  induction front with
  | nil => simp
  | cons a front ih =>
    rw [List.cons_append, List.infix_cons_iff, List.infix_cons_iff, ih]
    cases front with
    | nil =>
      cases back with
      | nil => simp
      | cons b back =>
        have hstart : [c, d] <+: a :: ([] ++ b :: back) ↔ a = c ∧ b = d := by
          simp [List.cons_prefix_cons, eq_comm (a := c), eq_comm (a := d)]
        rw [hstart]
        simp [or_comm]
    | cons b front =>
      have hstart : [c, d] <+: a :: (b :: front ++ back) ↔ [c, d] <+: a :: b :: front := by
        simp [List.cons_prefix_cons]
      rw [hstart, List.getLast?_cons_cons, or_assoc]

/-- A word of two different characters does not overlap with itself, so that a text is cut at the word that is put
    behind a text without it. -/
theorem splitAtWord?_pair {c d : Char} (hne : c ≠ d) (hfront : contains [c, d] front = false) :
    splitAtWord? [c, d] (front ++ [c, d] ++ back) = some (front, back) := by
  rw [contains_eq_false_iff] at hfront
  induction front with
  | nil => simp [splitAtWord?, dropPrefix?]
  | cons a front ih =>
    rw [List.infix_cons_iff, not_or] at hfront
    have hnone : dropPrefix? [c, d] (a :: (front ++ [c, d] ++ back)) = none := by
      rw [dropPrefix?_eq_none_iff]
      intro hstart
      cases front with
      | nil =>
        simp only [List.nil_append, List.cons_append, List.cons_prefix_cons] at hstart
        exact hne hstart.2.1.symm
      | cons b front =>
        refine hfront.1 ?_
        simp only [List.cons_append, List.cons_prefix_cons] at hstart ⊢
        exact ⟨hstart.1, hstart.2.1, List.nil_prefix⟩
    rw [List.cons_append, List.cons_append, splitAtWord?, hnone, ih hfront.2]
    rfl

end UberJar.Text
