import Mathlib.Data.List.Induction
import Mathlib.Data.List.Nodup

namespace UberJar

theorem exists_first {α : Type} {P : α → Prop} {as : List α} (h : ∃ a ∈ as, P a) :
    ∃ front a back, as = front ++ a :: back ∧ P a ∧ ∀ b ∈ front, ¬P b := by
  classical
  obtain ⟨a, ha, hP⟩ := h
  cases hfind : as.find? fun a => decide (P a) with
  | none => exact absurd hP (by simpa using List.find?_eq_none.1 hfind a ha)
  | some first =>
    obtain ⟨hfirst, front, back, has, hfront⟩ := List.find?_eq_some_iff_append.1 hfind
    exact ⟨front, first, back, has, by simpa using hfirst, fun b hb => by simpa using hfront b hb⟩

/-- What is added at the end stays if it is not the same as something before. -/
theorem eraseDupsBy_concat {α : Type} (same : α → α → Bool) (l : List α) (a : α) :
    (l ++ [a]).eraseDupsBy same =
      if (l.eraseDupsBy same).any (same a) then l.eraseDupsBy same else l.eraseDupsBy same ++ [a] := by
  have hloop (l acc : List α) : List.eraseDupsBy.loop same (l ++ [a]) acc =
      if (List.eraseDupsBy.loop same l acc).any (same a) then List.eraseDupsBy.loop same l acc
      else List.eraseDupsBy.loop same l acc ++ [a] := by
    induction l generalizing acc with
    | nil =>
      simp only [List.nil_append, List.eraseDupsBy.loop, List.any_reverse]
      cases acc.any (same a) <;> simp
    | cons b l ih =>
      rw [List.cons_append, List.eraseDupsBy.loop, List.eraseDupsBy.loop]
      cases acc.any (same b) <;> exact ih _
  exact hloop l []

theorem eraseDupsBy_subset {α : Type} (same : α → α → Bool) (l : List α) : l.eraseDupsBy same ⊆ l := by
  induction l using List.reverseRecOn with
  | nil => exact List.Subset.refl _
  | append_singleton l a ih =>
    rw [eraseDupsBy_concat]
    split
    · exact List.Subset.trans ih (List.subset_append_left _ _)
    · exact List.append_subset.2
        ⟨List.Subset.trans ih (List.subset_append_left _ _), List.subset_append_right _ _⟩

variable {α : Type} [BEq α] [LawfulBEq α]

theorem nodup_eraseDups : (l : List α) → l.eraseDups.Nodup
  | [] => List.nodup_nil
  | a :: l => by
    rw [List.eraseDups_cons, List.nodup_cons, List.mem_eraseDups, List.mem_filter]
    exact ⟨by simp, nodup_eraseDups _⟩
termination_by l => l.length
decreasing_by exact Nat.lt_succ_of_le (List.length_filter_le _ _)

theorem eraseDups_of_nodup {l : List α} (hl : l.Nodup) : l.eraseDups = l := by
  induction l with
  | nil => rfl
  | cons a l ih =>
    obtain ⟨ha, hl⟩ := List.nodup_cons.1 hl
    have hkept : l.filter (fun b => !b == a) = l := by
      rw [List.filter_eq_self]
      intro b hb
      have hne : b ≠ a := fun h => ha (h ▸ hb)
      simpa using hne
    rw [List.eraseDups_cons, hkept, ih hl]

/-- What is added behind a list does not depend on its repetitions. -/
theorem eraseDups_append_congr {xs ys : List α} (hsame : xs.eraseDups = ys.eraseDups) (zs : List α) :
    (xs ++ zs).eraseDups = (ys ++ zs).eraseDups := by
  have hmem (a : α) : a ∈ xs ↔ a ∈ ys := by rw [← List.mem_eraseDups, hsame, List.mem_eraseDups]
  have hrest : zs.removeAll xs = zs.removeAll ys := by
    refine List.filter_congr fun a _ => ?_
    simp only [List.elem_eq_mem, hmem]
  rw [List.eraseDups_append, List.eraseDups_append, hsame, hrest]

theorem eraseDups_append_of_subset {xs ys : List α} (hsub : ys ⊆ xs) : (xs ++ ys).eraseDups = xs.eraseDups := by
  have hnone : ys.removeAll xs = [] := by
    rw [List.removeAll, List.filter_eq_nil_iff]
    intro a ha
    simpa using hsub ha
  rw [List.eraseDups_append, hnone, List.eraseDups_nil, List.append_nil]

end UberJar
