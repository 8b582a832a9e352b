import UberJar.Archive.Jar
import UberJar.Proofs.Merge.History
import UberJar.Proofs.Merge.Jar

namespace UberJar

open Relocation

namespace Jar

variable {a b c : String} {entries entries' : List Entry}

theorem precedes_iff : precedes a b = true ↔ a = EntryPath.manifest ∨ b ≠ EntryPath.manifest ∧ a ≤ b := by
  unfold precedes
  by_cases ha : a = EntryPath.manifest
  · simp [ha]
  · by_cases hb : b = EntryPath.manifest
    · simp [ha, hb]
    · simp [ha, hb]

theorem precedes_total (a b : String) : (precedes a b || precedes b a) = true := by
  rw [Bool.or_eq_true, precedes_iff, precedes_iff]
  by_cases ha : a = EntryPath.manifest
  · exact .inl (.inl ha)
  · by_cases hb : b = EntryPath.manifest
    · exact .inr (.inl hb)
    · rcases String.le_total a b with hle | hle
      · exact .inl (.inr ⟨hb, hle⟩)
      · exact .inr (.inr ⟨ha, hle⟩)

theorem precedes_trans (hab : precedes a b = true) (hbc : precedes b c = true) : precedes a c = true := by
  rw [precedes_iff] at hab hbc ⊢
  rcases hab with ha | ⟨hb, hle⟩
  · exact .inl ha
  · rcases hbc with hmanifest | ⟨hc, hle'⟩
    · exact absurd hmanifest hb
    · exact .inr ⟨hc, String.le_trans hle hle'⟩

theorem precedes_antisymm (hab : precedes a b = true) (hba : precedes b a = true) : a = b := by
  rw [precedes_iff] at hab hba
  rcases hab with ha | ⟨hb, hle⟩
  · rcases hba with hb | ⟨hother, -⟩
    · exact ha.trans hb.symm
    · exact absurd ha hother
  · rcases hba with hmanifest | ⟨-, hle'⟩
    · exact absurd hmanifest hb
    · exact String.le_antisymm hle hle'

theorem perm_arrange (entries : List Entry) : (arrange entries).Perm entries := List.mergeSort_perm entries _

theorem pairwise_arrange (entries : List Entry) :
    (arrange entries).Pairwise fun a b => precedes a.path b.path = true := by
  apply List.pairwise_mergeSort
  · exact fun _ _ _ => precedes_trans
  · exact fun a b => precedes_total a.path b.path

/-- Entries with different paths are written in the same order, in whichever order they are given. -/
theorem arrange_eq_of_perm (hpaths : (entries.map (·.path)).Nodup) (hperm : entries.Perm entries') :
    arrange entries = arrange entries' := by
  have hsame : (arrange entries).Perm (arrange entries') :=
    ((perm_arrange entries).trans hperm).trans (perm_arrange entries').symm
  refine hsame.eq_of_pairwise (fun a b ha hb hab hba => ?_) (pairwise_arrange entries) (pairwise_arrange entries')
  have ha : a ∈ entries := (perm_arrange entries).mem_iff.1 ha
  have hb : b ∈ entries := hperm.mem_iff.2 ((perm_arrange entries').mem_iff.1 hb)
  exact List.inj_on_of_nodup_map hpaths ha hb (precedes_antisymm hab hba)

end Jar

namespace Staging

theorem pairwise_path_others (s : Staging) : (s.others.map (·.path)).Pairwise (· < ·) :=
  List.pairwise_map.2 (s.pairwise_others.imp compareOfLessAndEq_eq_lt.1)

theorem manifest_notMem_others (s : Staging) : EntryPath.manifest ∉ s.others.map (·.path) := by
  intro hmem
  obtain ⟨entry, hentry, hpath⟩ := List.mem_map.1 hmem
  exact (mem_others_iff.1 hentry).1 hpath

/-- The entries of a merged jar are in the order in which they are written. -/
theorem arrange_finish (s : Staging) : Jar.arrange s.finish.entries = s.finish.entries := by
  refine List.mergeSort_of_pairwise ?_
  rw [finish_entries, List.pairwise_cons]
  constructor
  · intro entry _
    exact Jar.precedes_iff.2 (.inl rfl)
  · refine (List.pairwise_map.1 s.pairwise_path_others).imp_of_mem fun _ hentry hlt => ?_
    exact Jar.precedes_iff.2 (.inr ⟨(mem_others_iff.1 hentry).1, Std.le_of_lt hlt⟩)

end Staging

/-- Whatever is added and whether it fails or not, the jar has its manifest first and no path twice, in the order in
    which its entries are written; and entries with different paths are written in one order, in whichever they are
    given. -/
theorem addEach_arranged (relocator : Relocator) (policy : MergePolicy) (additions : List Addition) :
    (∃ manifest others, ((Staging.start relocator policy).addEach additions).finish.entries = manifest :: others ∧
      manifest.path = EntryPath.manifest ∧ (others.map (·.path)).Pairwise (· < ·) ∧
      EntryPath.manifest ∉ others.map (·.path)) ∧
    Jar.arrange ((Staging.start relocator policy).addEach additions).finish.entries =
      ((Staging.start relocator policy).addEach additions).finish.entries ∧
    ∀ entries entries' : List Entry, (entries.map (·.path)).Nodup → entries.Perm entries' →
      Jar.arrange entries = Jar.arrange entries' ∧
        ∀ method, Jar.encode method entries = Jar.encode method entries' := by
  let s := (Staging.start relocator policy).addEach additions
  refine ⟨⟨s.manifest, s.others, s.finish_entries, rfl, s.pairwise_path_others, s.manifest_notMem_others⟩,
    s.arrange_finish, fun entries entries' hpaths hperm => ?_⟩
  have harrange := Jar.arrange_eq_of_perm hpaths hperm
  refine ⟨harrange, fun method => ?_⟩
  rw [Jar.encode, Jar.encode, harrange]

/-- `A` comes before the manifest as a text, and behind it in the jar; what comes behind a conflict is not in the
    jar. The entries are written in that order even if they are given the other way round. -/
theorem addEach_arranged_reversed :
    ∃ relocator additions entries, Relocator.ofRules [] = .ok relocator ∧
      additions = [⟨.primary, ⟨"app", ⟨"app.jar"⟩, [⟨"z", [1]⟩, ⟨EntryPath.manifest, [7]⟩]⟩, none⟩,
        ⟨.dependency, ⟨"one", ⟨"one.jar"⟩, [⟨"A", [2]⟩, ⟨"z", [3]⟩, ⟨"b", [4]⟩]⟩, none⟩] ∧
      entries = [⟨EntryPath.manifest, [7]⟩, ⟨"A", [2]⟩, ⟨"z", [1]⟩] ∧
      ((Staging.start relocator {}).addEach additions).finish.entries = entries ∧
      (entries.reverse.map (·.path)).Nodup ∧ entries.reverse.Perm entries ∧
      Jar.arrange entries = entries ∧ Jar.arrange entries.reverse = Jar.arrange entries ∧
      ∀ method, Jar.encode method entries.reverse = Jar.encode method entries := by
  let relocator : Relocator := ⟨[], by simp⟩
  let additions : List Addition :=
    [⟨.primary, ⟨"app", ⟨"app.jar"⟩, [⟨"z", [1]⟩, ⟨EntryPath.manifest, [7]⟩]⟩, none⟩,
      ⟨.dependency, ⟨"one", ⟨"one.jar"⟩, [⟨"A", [2]⟩, ⟨"z", [3]⟩, ⟨"b", [4]⟩]⟩, none⟩]
  let entries : List Entry := [⟨EntryPath.manifest, [7]⟩, ⟨"A", [2]⟩, ⟨"z", [1]⟩]
  obtain ⟨-, hjar, hwritten⟩ := addEach_arranged relocator {} additions
  have hentries : ((Staging.start relocator {}).addEach additions).finish.entries = entries := by decide +kernel
  have hpaths : (entries.reverse.map (·.path)).Nodup := by decide
  have hperm : entries.reverse.Perm entries := List.reverse_perm entries
  obtain ⟨harrange, hencode⟩ := hwritten entries.reverse entries hpaths hperm
  rw [hentries] at hjar
  exact ⟨relocator, additions, entries, rfl, rfl, rfl, hentries, hpaths, hperm, hjar, harrange, hencode⟩

end UberJar
