import UberJar.Proofs.Merge.Additions

namespace UberJar

open Relocation

variable {relocator : Relocator} {policy : MergePolicy}

namespace Offer

/-- An offered entry passes the checks on it: that of its release, and relocation. An entry that is left out is not
    checked. -/
def Passes (relocator : Relocator) (policy : MergePolicy) (o : Offer) : Prop :=
  Disposition.dropCause? o.role o.entry.path = none → policy.filter.matching? o.entry.path = none →
    (o.role = .dependency → Disposition.requireRelease policy o.entry o.origin = .ok ()) ∧
      ∃ read, Disposition.relocate relocator policy o.role o.entry o.origin = .ok read

theorem passes_iff {o : Offer} :
    o.Passes relocator policy ↔ ∃ disposition, o.disposition relocator policy = .ok disposition := by
  unfold Passes disposition
  cases hdrop : Disposition.dropCause? o.role o.entry.path with
  | some reason => simp [Disposition.ofEntry_of_dropped hdrop]
  | none =>
    cases hmatch : policy.filter.matching? o.entry.path with
    | some pattern => simp [Disposition.ofEntry_of_matched hdrop hmatch]
    | none =>
      rw [Disposition.ofEntry_of_carried hdrop hmatch, ← Disposition.guard_eq_ok_iff]
      simp only [bind_eq_ok_iff, mapError_eq_ok_iff, Except.ok.injEq, forall_const]
      constructor
      · rintro ⟨hrelease, read, hread⟩
        exact ⟨_, (), hrelease, read, hread, rfl⟩
      · rintro ⟨disposition, ⟨⟩, hrelease, read, hread, -⟩
        exact ⟨hrelease, read, hread⟩

end Offer

/-- Every entry passes its checks. One behind contributions that clash may fail them, as a merge does not get to it. -/
def PassChecks (relocator : Relocator) (policy : MergePolicy) (offers : List Offer) : Prop :=
  ∀ before o after, offers = before ++ o :: after →
    (∀ a ∈ contributions relocator policy before, ∀ b ∈ contributions relocator policy before, ¬Clash policy a b) →
    o.Passes relocator policy

theorem passChecks_of_forall {offers : List Offer} (hall : ∀ o ∈ offers, o.Passes relocator policy) :
    PassChecks relocator policy offers := by
  rintro before o after rfl -
  exact hall o (List.mem_append_right _ List.mem_cons_self)

/-- The first contribution of a row that clashes with the earliest one at its path, and that earliest one. -/
def FirstClash (policy : MergePolicy) (row : List Contribution) (first c : Contribution) : Prop :=
  ∃ before after, row = before ++ c :: after ∧ (∀ a ∈ before, ∀ b ∈ before, ¬Clash policy a b) ∧
    earliest? before c.entry.path = some first ∧ Clash policy first c

theorem FirstClash.exists_clash {row : List Contribution} {first c : Contribution}
    (hclash : FirstClash policy row first c) : ∃ a ∈ row, ∃ b ∈ row, Clash policy a b := by
  obtain ⟨before, after, rfl, -, hfirst, hclash⟩ := hclash
  have hmem := (earliest?_eq_some hfirst).1
  exact ⟨first, List.mem_append_left _ hmem, c, List.mem_append_right _ List.mem_cons_self, hclash⟩

theorem firstClash_of_addAll {additions : List Addition} {failure : Failure}
    (hpass : PassChecks relocator policy (additions.flatMap Addition.offers))
    (hall : (Staging.start relocator policy).addAll additions = .error failure) :
    ∃ first c, FirstClash policy (contributions relocator policy (additions.flatMap Addition.offers)) first c ∧
      failure = .conflict ⟨c.entry.path, first.origin, c.origin⟩ := by
  obtain ⟨before, o, after, hsplit, hfree, hfailed⟩ := Staging.addAll_eq_error hall
  obtain ⟨disposition, hsettled⟩ := Offer.passes_iff.1 (hpass before o after hsplit hfree)
  rcases hfailed with ho | ⟨c, first, hc, hfirst, hclash, hfailure⟩
  · rw [hsettled] at ho
    cases ho
  · rw [hsplit, contributions_split hc]
    exact ⟨first, c, ⟨_, _, rfl, hfree, hfirst, hclash⟩, hfailure⟩

/-- While entries pass their checks, a merge fails exactly if two contributions clash, and the conflict that it tells of
    is that of the first one that clashes with the earliest at its path. -/
theorem addAll_conflicts {additions : List Addition}
    (hpass : PassChecks relocator policy (additions.flatMap Addition.offers)) :
    ((∃ failure, (Staging.start relocator policy).addAll additions = .error failure) ↔
        ∃ a ∈ contributions relocator policy (additions.flatMap Addition.offers),
          ∃ b ∈ contributions relocator policy (additions.flatMap Addition.offers), Clash policy a b) ∧
      ∀ failure, (Staging.start relocator policy).addAll additions = .error failure →
        ∃ first c, FirstClash policy (contributions relocator policy (additions.flatMap Addition.offers)) first c ∧
          failure = .conflict ⟨c.entry.path, first.origin, c.origin⟩ := by
  refine ⟨⟨?_, fun hclash => Staging.addAll_fails_iff.2 (.inr hclash)⟩, fun _ => firstClash_of_addAll hpass⟩
  rintro ⟨failure, hall⟩
  obtain ⟨first, c, hclash, -⟩ := firstClash_of_addAll hpass hall
  exact hclash.exists_clash

/-- Two dependencies that have different bytes at `b/x`: one because its `a/x` is moved there. -/
theorem addAll_conflicts_moved :
    ∃ rule relocator, Rule.make "a".toList "b".toList = .ok rule ∧ Relocator.ofRules [rule] = .ok relocator ∧
      (Staging.start relocator {}).addAll
          [⟨.dependency, ⟨"one", ⟨"one.jar"⟩, [⟨"a/x", [1]⟩]⟩, none⟩,
            ⟨.dependency, ⟨"two", ⟨"two.jar"⟩, [⟨"b/x", [2]⟩]⟩, none⟩] =
        .error (.conflict ⟨"b/x", "one", "two"⟩) := by
  let relocator : Relocator := ⟨[⟨['a'], ['b'], by decide, by decide, by decide⟩], by simp⟩
  let additions : List Addition :=
    [⟨.dependency, ⟨"one", ⟨"one.jar"⟩, [⟨"a/x", [1]⟩]⟩, none⟩,
      ⟨.dependency, ⟨"two", ⟨"two.jar"⟩, [⟨"b/x", [2]⟩]⟩, none⟩]
  have hcontributions : contributions relocator {} (additions.flatMap Addition.offers) =
      [⟨⟨"b/x", [1]⟩, "one"⟩, ⟨⟨"b/x", [2]⟩, "two"⟩] := rfl
  have hpass : PassChecks relocator {} (additions.flatMap Addition.offers) :=
    passChecks_of_forall (List.forall_mem_cons.2 ⟨Offer.passes_iff.2 ⟨_, rfl⟩,
      List.forall_mem_singleton.2 (Offer.passes_iff.2 ⟨_, rfl⟩)⟩)
  obtain ⟨hfails, hconflict⟩ := addAll_conflicts hpass
  rw [hcontributions] at hfails hconflict
  obtain ⟨failure, hall⟩ :=
    hfails.2 ⟨_, List.mem_cons_self, _, List.mem_cons_of_mem _ List.mem_cons_self, rfl, by decide, rfl⟩
  refine ⟨_, relocator, by decide, rfl, hall.trans (congrArg _ ?_)⟩
  obtain ⟨first, c, ⟨before, after, hrow, -, hfirst, -⟩, rfl⟩ := hconflict failure hall
  rcases before with _ | ⟨b, _ | ⟨b', before⟩⟩
  · cases hfirst
  · obtain ⟨rfl, hrest⟩ := List.cons.inj hrow
    obtain ⟨rfl, -⟩ := List.cons.inj hrest
    obtain rfl := Option.some.inj hfirst
    rfl
  · simp at hrow

end UberJar
