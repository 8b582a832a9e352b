import Mathlib.Algebra.Ring.Nat
import UberJar.Proofs.Merge.Additions
import UberJar.Proofs.Merge.Jar

namespace UberJar

open Relocation

namespace Summary

theorem total_foldl (outcomes : List Outcome) (summary : Summary) :
    (outcomes.foldl record summary).total = summary.total + outcomes.length := by
  have hrecord (summary : Summary) (outcome : Outcome) : (record summary outcome).total = summary.total + 1 := by
    cases outcome <;> simp only [record, total] <;> omega
  rw [@foldl_record total (fun _ => true) hrecord, List.countP_true]

theorem excluded_foldl (outcomes : List Outcome) (summary : Summary) :
    (outcomes.foldl record summary).excluded = summary.excluded + outcomes.countP Outcome.isExcluded :=
  foldl_record (fun _ outcome => by cases outcome <;> rfl) outcomes summary

/-- The places that the entries of an archive took up. -/
def places (summary : Summary) : Nat := summary.kept + summary.relocated

theorem places_foldl (outcomes : List Outcome) (summary : Summary) :
    (outcomes.foldl record summary).places = summary.places + outcomes.countP Outcome.takesPlace := by
  refine foldl_record (fun summary outcome => ?_) outcomes summary
  cases outcome with
  | kept => simp only [record, places, Outcome.takesPlace, if_true]; omega
  | relocated pathMoved contentChanged => rfl
  | _ => rfl

theorem label_foldl (outcomes : List Outcome) (summary : Summary) :
    (outcomes.foldl record summary).label = summary.label := by
  induction outcomes generalizing summary with
  | nil => rfl
  | cons outcome outcomes ih =>
    rw [List.foldl_cons, ih]
    cases outcome <;> rfl

end Summary

section Tallies

variable {tallies : Std.TreeMap String Nat compare} {pattern : String}

/-- The exclusions that were counted with any pattern. -/
def tallied (tallies : Std.TreeMap String Nat compare) : Nat := (tallies.toList.map Prod.snd).sum

theorem tallied_insert (count : Nat) :
    tallied (tallies.insert pattern count) =
      count + ((tallies.toList.filter (¬pattern == ·.1)).map Prod.snd).sum := by
  rw [tallied, (Std.TreeMap.toList_insert_perm.map Prod.snd).sum_nat, List.map_cons, List.sum_cons]

/-- Writing down what is counted with a pattern changes nothing. -/
theorem tallied_insert_getD (tallies : Std.TreeMap String Nat compare) (pattern : String) :
    tallied (tallies.insert pattern (tallies.getD pattern 0)) = tallied tallies := by
  cases hfound : tallies[pattern]? with
  | some count =>
    have hsame : (tallies.insert pattern (tallies.getD pattern 0)).toList = tallies.toList := by
      refine Std.TreeMap.Equiv.toList_eq (Std.TreeMap.Equiv.of_forall_constGet?_eq fun other => ?_)
      rw [getElem?_insert]
      by_cases hother : pattern = other
      · rw [if_pos hother, Std.TreeMap.getD_eq_getD_getElem?, hfound, ← hother, hfound, Option.getD_some]
      · rw [if_neg hother]
    rw [tallied, tallied, hsame]
  | none =>
    have hfilter : tallies.toList.filter (¬pattern == ·.1) = tallies.toList := by
      refine List.filter_eq_self.2 fun tally htally => ?_
      rw [Std.TreeMap.mem_toList_iff_getElem?_eq_some] at htally
      have hother : pattern ≠ tally.1 := by
        rintro rfl
        rw [hfound] at htally
        cases htally
      simpa using hother
    rw [tallied_insert, hfilter, Std.TreeMap.getD_eq_getD_getElem?, hfound, Option.getD_none, Nat.zero_add, tallied]

theorem tallied_countExclusion : tallied (Staging.countExclusion tallies pattern) = tallied tallies + 1 := by
  rw [Staging.countExclusion, tallied_insert, ← tallied_insert_getD tallies pattern, tallied_insert]
  omega

end Tallies

/-- An entry is left out by a declared pattern. -/
theorem Disposition.mem_texts_of_excluded {relocator : Relocator} {policy : MergePolicy} {role : Role} {origin : String}
    {entry : Entry} {pattern : String} (hentry : ofEntry relocator policy role origin entry = .ok (.excluded pattern)) :
    pattern ∈ policy.filter.texts := by
  cases hdrop : dropCause? role entry.path with
  | some reason =>
    rw [ofEntry_of_dropped hdrop] at hentry
    cases hentry
  | none =>
    cases hmatch : policy.filter.matching? entry.path with
    | some found =>
      simp only [ofEntry_of_matched hdrop hmatch, Except.ok.injEq, excluded.injEq] at hentry
      exact hentry ▸ EntryFilter.mem_texts_of_matching? hmatch
    | none =>
      rw [ofEntry_of_carried hdrop hmatch] at hentry
      simp only [bind_eq_ok_iff, Except.ok.injEq] at hentry
      obtain ⟨-, -, ⟨moved, outcome⟩, -, hexcluded⟩ := hentry
      unfold ofRelocated at hexcluded
      split at hexcluded
      · cases hmoved : policy.filter.matching? moved.path with
        | none => simp [hmoved] at hexcluded
        | some found =>
          simp only [hmoved, Option.elim_some, excluded.injEq] at hexcluded
          exact hexcluded ▸ EntryFilter.mem_texts_of_matching? hmoved
      · cases hexcluded

namespace Staging

variable {relocator : Relocator} {policy : MergePolicy} {s s' : Staging} {role : Role} {origin : String} {entry : Entry}
  {entries : List Entry} {outcome : Outcome} {outcomes : List Outcome} {additions before : List Addition}

/-- An entry is counted with a declared pattern if it was left out, and with none otherwise. -/
theorem tallies_process (hprocess : s.process role origin entry = .ok (s', outcome)) :
    (outcome.isExcluded = false ∧ s'.tallies = s.tallies) ∨
      (outcome.isExcluded = true ∧
        ∃ pattern ∈ s.policy.filter.texts, s'.tallies = countExclusion s.tallies pattern) := by
  rcases process_eq_ok hprocess with ⟨reason, -, rfl, rfl⟩ | ⟨pattern, hentry, rfl, rfl⟩ |
    ⟨moved, given, hentry, hplace⟩
  · exact .inl ⟨rfl, rfl⟩
  · exact .inr ⟨rfl, pattern, Disposition.mem_texts_of_excluded hentry, rfl⟩
  · refine .inl ⟨?_, tallies_place hplace⟩
    rcases place_eq_ok hplace with ⟨-, rfl, -⟩ | ⟨-, -, -, rfl, -⟩ | ⟨-, -, -, -, -, rfl, -⟩
    · exact Outcome.isExcluded_of_takesPlace (Disposition.takesPlace_of_contributed hentry)
    · rfl
    · rfl

/-- Exactly the declared patterns are counted with. -/
def TalliesDeclared (s : Staging) : Prop := ∀ text, text ∈ s.tallies ↔ text ∈ s.policy.filter.texts

theorem Takes.talliesDeclared (htakes : Takes role origin s entries outcomes s') (hdeclared : s.TalliesDeclared) :
    s'.TalliesDeclared := by
  induction htakes with
  | nil s => exact hdeclared
  | cons hprocess _ ih =>
    refine ih fun text => ?_
    rw [(process_frame hprocess).2.1, ← hdeclared text]
    rcases tallies_process hprocess with ⟨-, hsame⟩ | ⟨-, pattern, hpattern, hcounted⟩
    · rw [hsame]
    · rw [hcounted, countExclusion, Std.TreeMap.mem_insert, Std.LawfulEqCmp.compare_eq_iff_eq, or_iff_right_iff_imp]
      rintro rfl
      exact (hdeclared _).2 hpattern

/-- The exclusions of an archive are counted by its outcomes. -/
theorem Takes.tallied_eq (htakes : Takes role origin s entries outcomes s') :
    tallied s'.tallies = tallied s.tallies + outcomes.countP Outcome.isExcluded := by
  induction htakes with
  | nil s => rfl
  | cons hprocess _ ih =>
    rw [ih, List.countP_cons]
    rcases tallies_process hprocess with ⟨hexcluded, hsame⟩ | ⟨hexcluded, pattern, -, hcounted⟩
    · rw [hsame, hexcluded]
      rfl
    · rw [hcounted, hexcluded, tallied_countExclusion, if_pos rfl]
      omega

/-- The counts of a merge are those of the archives that were added to it. -/
structure Accounts (additions : List Addition) (s : Staging) : Prop where
  totals : s.summaries.map (fun summary => (summary.label, summary.total)) =
    additions.map fun a => (a.archive.label, a.archive.entries.length)
  patterns : s.TalliesDeclared
  excluded : tallied s.tallies = (s.summaries.map (·.excluded)).sum
  places : s.staged.size = (s.summaries.map (·.places)).sum

theorem getElem?_foldl_insert_zero (texts : List String) (tallies : Std.TreeMap String Nat compare) (text : String) :
    (texts.foldl (fun m text => m.insert text 0) tallies)[text]? = if text ∈ texts then some 0 else tallies[text]? := by
  induction texts generalizing tallies with
  | nil => rfl
  | cons first texts ih =>
    rw [List.foldl_cons, ih, getElem?_insert]
    by_cases hmem : text ∈ texts
    · rw [if_pos hmem, if_pos (List.mem_cons_of_mem _ hmem)]
    · simp [hmem, eq_comm]

/-- Nothing was counted before the first archive, and that is written down for each declared pattern. -/
theorem accounts_start (relocator : Relocator) (policy : MergePolicy) : (start relocator policy).Accounts [] := by
  have htallies (text : String) : (start relocator policy).tallies[text]? =
      if text ∈ policy.filter.texts then some 0 else none :=
    (getElem?_foldl_insert_zero policy.filter.texts ∅ text).trans (by rw [Std.TreeMap.getElem?_emptyc])
  refine ⟨rfl, fun text => ?_, ?_, Std.TreeMap.size_emptyc⟩
  · rw [Std.TreeMap.mem_iff_isSome_getElem?, htallies]
    change _ ↔ text ∈ policy.filter.texts
    by_cases hmem : text ∈ policy.filter.texts <;> simp [hmem]
  · refine List.sum_eq_zero_iff_forall_eq_nat.2 fun count hcount => ?_
    obtain ⟨⟨text, _⟩, htally, rfl⟩ := List.mem_map.1 hcount
    rw [Std.TreeMap.mem_toList_iff_getElem?_eq_some, htallies] at htally
    split at htally
    · exact (Option.some.inj htally).symm
    · cases htally

/-- An archive adds what its own summary counts. -/
theorem Accounts.add (haccounts : s.Accounts before) {a : Addition}
    (hadd : s.add a.role a.archive a.requestedBy = (s', .ok ())) : s'.Accounts (before ++ [a]) := by
  obtain ⟨outcomes, s₁, htakes, rfl⟩ := add_eq_ok_iff.1 hadd
  have hsummaries := htakes.frame.2.2
  obtain ⟨htotals, hpatterns, hexcluded, hplaces⟩ := haccounts
  refine ⟨?_, htakes.talliesDeclared hpatterns, ?_, ?_⟩
  · simp only [List.map_append, hsummaries, htotals, List.map_cons, List.map_nil, Summary.label_foldl,
      Summary.total_foldl, htakes.length_eq]
    simp [openSummary, Summary.total]
  · simp only [List.map_append, List.sum_append, hsummaries, ← hexcluded, List.map_cons, List.map_nil,
      List.sum_singleton, Summary.excluded_foldl, htakes.tallied_eq]
    simp [openSummary]
  · simp only [List.map_append, List.sum_append, hsummaries, ← hplaces, List.map_cons, List.map_nil,
      List.sum_singleton, Summary.places_foldl, htakes.size_eq]
    simp [openSummary, Summary.places]

theorem Accounts.addAll (haccounts : s.Accounts before) (hall : s.addAll additions = .ok s') :
    s'.Accounts (before ++ additions) := by
  induction additions generalizing before s with
  | nil =>
    obtain rfl := Except.ok.inj hall
    simpa using haccounts
  | cons a additions ih =>
    obtain ⟨s₁, hadd, hrest⟩ := addAll_cons_eq_ok_iff.1 hall
    rw [List.append_cons]
    exact ih (haccounts.add hadd) hrest

end Staging

/-- Archives that were added are accounted for: each summary counts the entries of its archive; the declared patterns,
    and no others, are listed, with all exclusions that the summaries count; and the jar has a file for each entry that
    was kept or relocated, and a manifest of its own if none was among them. -/
theorem addAll_accounts {relocator : Relocator} {policy : MergePolicy} {additions : List Addition} {s : Staging}
    (hall : (Staging.start relocator policy).addAll additions = .ok s) :
    s.finish.summaries.map (fun summary => (summary.label, summary.total)) =
        additions.map (fun a => (a.archive.label, a.archive.entries.length)) ∧
      (s.finish.tallies.map Prod.fst).Nodup ∧
      (∀ text, text ∈ s.finish.tallies.map Prod.fst ↔ text ∈ policy.filter.texts) ∧
      (s.finish.tallies.map Prod.snd).sum = (s.finish.summaries.map (·.excluded)).sum ∧
      s.finish.entries.length = (s.finish.summaries.map fun summary => summary.kept + summary.relocated).sum +
        if s.staged.contains EntryPath.manifest then 0 else 1 := by
  have haccounts := (Staging.accounts_start relocator policy).addAll hall
  have hpolicy := (Staging.hasTaken_of_addAll hall).policy_eq
  refine ⟨haccounts.totals, ?_, fun text => ?_, haccounts.excluded, ?_⟩
  · change (s.tallies.toList.map Prod.fst).Nodup
    rw [Std.TreeMap.map_fst_toList_eq_keys]
    exact Std.TreeMap.nodup_keys
  · change text ∈ s.tallies.toList.map Prod.fst ↔ _
    rw [Std.TreeMap.map_fst_toList_eq_keys, Std.TreeMap.mem_keys, haccounts.patterns, hpolicy]
  · have hplaces : s.staged.size = (s.finish.summaries.map fun summary => summary.kept + summary.relocated).sum :=
      haccounts.places
    have hlength := s.length_others
    rw [Staging.finish_entries, List.length_cons, ← hplaces, ← hlength]
    split <;> rfl

/-- Entries that are kept, relocated, merged, repeated, dropped for each reason, and left out before and after a move,
    by patterns of which one is declared twice. -/
theorem addAll_accounts_all_outcomes :
    ∃ rule relocator filter additions s, Rule.make "a".toList "b".toList = .ok rule ∧
      Relocator.ofRules [rule] = .ok relocator ∧ EntryFilter.parse ["n", "b/Z", "n"] = .ok filter ∧
      additions = [⟨.primary, ⟨"app", ⟨"app.jar"⟩, [⟨EntryPath.manifest, [7]⟩, ⟨"X", [1]⟩, ⟨"n", [2]⟩,
          ⟨"META-INF/services/s", [112, 10]⟩]⟩, none⟩,
        ⟨.dependency, ⟨"one", ⟨"one.jar"⟩, [⟨EntryPath.manifest, [8]⟩, ⟨"../a", [3]⟩, ⟨"module-info.class", [4]⟩,
          ⟨"a/Z", [5]⟩, ⟨"n", [6]⟩, ⟨"X", [1]⟩, ⟨"META-INF/services/s", [113, 10]⟩, ⟨"a/Y", [9]⟩]⟩, none⟩] ∧
      (Staging.start relocator { filter, mergeServiceFiles := true }).addAll additions = .ok s ∧
      s.finish.tallies = [("b/Z", 1), ("n", 2)] ∧ s.finish.entries.length = 4 ∧
      s.finish.summaries.map (fun summary => (summary.label, summary.total)) = [("app", 4), ("one", 8)] ∧
      (∀ text, text ∈ ["b/Z", "n"] ↔ text ∈ filter.texts) ∧ (s.finish.summaries.map (·.excluded)).sum = 3 ∧
      (s.finish.summaries.map fun summary => summary.kept + summary.relocated).sum = 4 ∧
      s.staged.contains EntryPath.manifest = true := by
  let relocator : Relocator := ⟨[⟨['a'], ['b'], by decide, by decide, by decide⟩], by simp⟩
  let filter : EntryFilter := ⟨[⟨"n", [.literal 'n']⟩,
    ⟨"b/Z", [.literal 'b', .literal '/', .literal 'Z']⟩, ⟨"n", [.literal 'n']⟩]⟩
  let additions : List Addition :=
    [⟨.primary, ⟨"app", ⟨"app.jar"⟩, [⟨EntryPath.manifest, [7]⟩, ⟨"X", [1]⟩, ⟨"n", [2]⟩,
        ⟨"META-INF/services/s", [112, 10]⟩]⟩, none⟩,
      ⟨.dependency, ⟨"one", ⟨"one.jar"⟩, [⟨EntryPath.manifest, [8]⟩, ⟨"../a", [3]⟩, ⟨"module-info.class", [4]⟩,
        ⟨"a/Z", [5]⟩, ⟨"n", [6]⟩, ⟨"X", [1]⟩, ⟨"META-INF/services/s", [113, 10]⟩, ⟨"a/Y", [9]⟩]⟩, none⟩]
  have hmerged : ((Staging.start relocator { filter, mergeServiceFiles := true }).addAll additions).toOption.any
      (fun s => s.finish.tallies = [("b/Z", 1), ("n", 2)] ∧ s.finish.entries.length = 4 ∧
        s.staged.contains EntryPath.manifest = true) = true := by
    decide +kernel
  obtain ⟨s, hall, hread⟩ := exists_ok_of_any hmerged
  obtain ⟨htallies, hlength, hmanifest⟩ := of_decide_eq_true hread
  obtain ⟨htotals, -, hpatterns, hexcluded, hfiles⟩ := addAll_accounts hall
  rw [htallies] at hpatterns hexcluded
  rw [hlength, hmanifest] at hfiles
  exact ⟨_, relocator, filter, additions, s, by decide, rfl, by cbv, rfl, hall, htallies, hlength, htotals, hpatterns,
    hexcluded.symm, hfiles.symm, hmanifest⟩

end UberJar
