import Mathlib.Data.List.Basic
import UberJar.Text.Split

namespace UberJar.Text

/-- Lines with their line feeds; the last one may lack it, but is not empty. -/
inductive AreLines : List (List Char) → Prop
  | nil : AreLines []
  | last {line : List Char} (hne : line ≠ []) (hfeed : '\n' ∉ line) : AreLines [line]
  | cons {line : List Char} {lines : List (List Char)} (hfeed : '\n' ∉ line) (hlines : AreLines lines) :
    AreLines ((line ++ ['\n']) :: lines)

theorem notMem_of_mem_splitOn {separator : Char} {text piece : List Char} (hpiece : piece ∈ text.splitOn separator) :
    separator ∉ piece := by
  induction hn : text.length using Nat.strongRecOn generalizing text with
  | _ n ih =>
    by_cases hmem : separator ∈ text
    · obtain ⟨front, rest, rfl, hfront⟩ := List.eq_append_cons_of_mem hmem
      rw [List.splitOn_append_cons_self_of_not_mem hfront] at hpiece
      rw [List.length_append, List.length_cons] at hn
      rcases List.mem_cons.1 hpiece with rfl | hpiece
      · exact hfront
      · exact ih rest.length (by omega) hpiece rfl
    · rw [List.splitOn_eq_singleton hmem, List.mem_singleton] at hpiece
      exact hpiece ▸ hmem

theorem mem_of_mem_splitOnP {α : Type} {p : α → Bool} {items group : List α} (hgroup : group ∈ items.splitOnP p) :
    ∀ a ∈ group, a ∈ items := by
  induction items generalizing group with
  | nil =>
    rw [List.splitOnP_nil, List.mem_singleton] at hgroup
    simp [hgroup]
  | cons b items ih =>
    obtain ⟨first, others, hsplit⟩ := List.exists_cons_of_ne_nil (List.splitOnP_ne_nil p items)
    rw [List.splitOnP_cons_eq_if_modifyHead, hsplit] at hgroup
    rw [hsplit] at ih
    intro a ha
    cases hb : p b with
    | true =>
      simp only [hb, if_true, List.mem_cons] at hgroup
      rcases hgroup with rfl | hgroup
      · cases ha
      · exact List.mem_cons_of_mem _ (ih (List.mem_cons.2 hgroup) a ha)
    | false =>
      simp only [hb, Bool.false_eq_true, if_false, List.modifyHead_cons, List.mem_cons] at hgroup
      rcases hgroup with rfl | hgroup
      · rcases List.mem_cons.1 ha with rfl | ha
        · exact List.mem_cons_self
        · exact List.mem_cons_of_mem _ (ih List.mem_cons_self a ha)
      · exact List.mem_cons_of_mem _ (ih (List.mem_cons_of_mem _ hgroup) a ha)

theorem mem_of_mem_segment {separator : Char} {text segment : List Char} (hmem : segment ∈ text.splitOn separator) :
    ∀ c ∈ segment, c ∈ text := by
  rw [List.splitOn_eq_splitOnP] at hmem
  exact mem_of_mem_splitOnP hmem

theorem splitOn_lines {lines : List (List Char)} (hlines : ∀ line ∈ lines, '\n' ∉ line) :
    (lines.flatMap (· ++ ['\n'])).splitOn '\n' = lines ++ [[]] := by
  induction lines with
  | nil => rfl
  | cons line lines ih =>
    rw [List.flatMap_cons, List.append_assoc, List.singleton_append,
      List.splitOn_append_cons_self_of_not_mem (hlines line List.mem_cons_self),
      ih fun line hline => hlines line (List.mem_cons_of_mem _ hline), List.cons_append]

theorem linesWithEnds_of_not_mem {line : List Char} (hfeed : '\n' ∉ line) :
    linesWithEnds line = if line.isEmpty then [] else [line] := by
  rw [linesWithEnds, List.splitOn_eq_singleton hfeed]
  rfl

theorem linesWithEnds_append {line : List Char} (hfeed : '\n' ∉ line) (rest : List Char) :
    linesWithEnds (line ++ '\n' :: rest) = (line ++ ['\n']) :: linesWithEnds rest := by
  obtain ⟨first, others, hsplit⟩ := List.exists_cons_of_ne_nil (List.splitOn_ne_nil '\n' rest)
  rw [linesWithEnds, linesWithEnds, List.splitOn_append_cons_self_of_not_mem hfeed, hsplit]
  rfl

theorem linesWithEnds_flatten {lines : List (List Char)} (hlines : AreLines lines) :
    linesWithEnds lines.flatten = lines := by
  induction hlines with
  | nil => rfl
  | @last line hne hfeed =>
    rw [List.flatten_singleton, linesWithEnds_of_not_mem hfeed, if_neg (by simpa using hne)]
  | cons hfeed _ ih => rw [List.flatten_cons, List.append_assoc, List.singleton_append, linesWithEnds_append hfeed, ih]

theorem areLines_linesWithEnds (text : List Char) :
    AreLines (linesWithEnds text) ∧ (linesWithEnds text).flatten = text := by
  induction hn : text.length using Nat.strongRecOn generalizing text with
  | _ n ih =>
    by_cases hmem : '\n' ∈ text
    · obtain ⟨line, rest, rfl, hfeed⟩ := List.eq_append_cons_of_mem hmem
      rw [List.length_append, List.length_cons] at hn
      obtain ⟨hlines, hflatten⟩ := ih rest.length (by omega) rest rfl
      rw [linesWithEnds_append hfeed, List.flatten_cons, hflatten, List.append_assoc, List.singleton_append]
      exact ⟨.cons hfeed hlines, rfl⟩
    · rw [linesWithEnds_of_not_mem hmem]
      cases text with
      | nil => exact ⟨.nil, rfl⟩
      | cons c text => exact ⟨.last (by simp) hmem, by simp⟩

/-- A line whose text changes by a piece, as far as its line feed is concerned. -/
structure SameEnd (line line' : List Char) : Prop where
  last : line ≠ [] → '\n' ∉ line → line' ≠ [] ∧ '\n' ∉ line'
  feed : ∀ front, line = front ++ ['\n'] → '\n' ∉ front → ∃ front', line' = front' ++ ['\n'] ∧ '\n' ∉ front'

theorem SameEnd.refl (line : List Char) : SameEnd line line :=
  ⟨fun hne hfeed => ⟨hne, hfeed⟩, fun front hfront hfeed => ⟨front, hfront, hfeed⟩⟩

theorem SameEnd.replace {front piece piece' back : List Char} (hpiece : '\n' ∉ piece) (hpiece' : '\n' ∉ piece')
    (hne : piece ≠ []) (hne' : piece' ≠ []) : SameEnd (front ++ piece ++ back) (front ++ piece' ++ back) := by
  constructor
  · intro _ hfeed
    simp only [List.mem_append, not_or] at hfeed ⊢
    exact ⟨by simp [hne'], ⟨hfeed.1.1, hpiece'⟩, hfeed.2⟩
  · intro before hbefore hfeed
    rcases List.eq_nil_or_concat' back with rfl | ⟨back, c, rfl⟩
    · obtain ⟨start, c, rfl⟩ := (List.eq_nil_or_concat' piece).resolve_left hne
      rw [List.append_nil, ← List.append_assoc] at hbefore
      obtain ⟨-, hc⟩ := List.append_inj' hbefore rfl
      exact absurd (by simp [hc]) hpiece
    · rw [← List.append_assoc] at hbefore
      obtain ⟨rfl, hc⟩ := List.append_inj' hbefore rfl
      obtain rfl := (List.cons.inj hc).1
      simp only [List.mem_append, not_or] at hfeed
      refine ⟨front ++ piece' ++ back, by simp, ?_⟩
      simp only [List.mem_append, not_or]
      exact ⟨⟨hfeed.1.1, hpiece'⟩, hfeed.2⟩

theorem AreLines.map {lines : List (List Char)} (hlines : AreLines lines) {f : List Char → List Char}
    (hf : ∀ line, SameEnd line (f line)) : AreLines (lines.map f) := by
  induction hlines with
  | nil => exact .nil
  | last hne hfeed =>
    obtain ⟨hne', hfeed'⟩ := (hf _).last hne hfeed
    exact .last hne' hfeed'
  | cons hfeed _ ih =>
    obtain ⟨front, hfront, hfeed'⟩ := (hf _).feed _ rfl hfeed
    rw [List.map_cons, hfront]
    exact .cons hfeed' ih

end UberJar.Text
