import UberJar.Proofs.Merge.Contributions

namespace UberJar

open Relocation

/-- An archive to add to a merge. -/
structure Addition where
  role : Role
  archive : Archive
  requestedBy : Option String := none

def Addition.offers (a : Addition) : List Offer := a.archive.offers a.role

namespace Staging

/-- Adds archives, up to the first that fails. -/
def addAll (s : Staging) : List Addition → Except Failure Staging
  | [] => .ok s
  | a :: additions =>
    match s.add a.role a.archive a.requestedBy with
    | (s, .ok ()) => addAll s additions
    | (_, .error failure) => .error failure

theorem addAll_cons_eq_ok_iff {s s' : Staging} {a : Addition} {additions : List Addition} :
    s.addAll (a :: additions) = .ok s' ↔
      ∃ s₁, s.add a.role a.archive a.requestedBy = (s₁, .ok ()) ∧ s₁.addAll additions = .ok s' := by
  cases hadd : s.add a.role a.archive a.requestedBy with
  | mk s₁ result =>
    cases result with
    | error e => simp [addAll, hadd]
    | ok done => simp [addAll, hadd]

def countExclusion (tallies : Std.TreeMap String Nat compare) (pattern : String) : Std.TreeMap String Nat compare :=
  tallies.insert pattern (tallies.getD pattern 0 + 1)

/-- The state of a merge that took in `offers`. -/
structure HasTaken (relocator : Relocator) (policy : MergePolicy) (offers : List Offer) (s : Staging) : Prop where
  relocator_eq : s.relocator = relocator
  policy_eq : s.policy = policy
  settled : ∀ o ∈ offers, ∃ disposition, o.disposition relocator policy = .ok disposition
  reflects : s.Reflects (contributions relocator policy offers)
  tallies : s.tallies = (exclusions relocator policy offers).foldl countExclusion (start relocator policy).tallies

variable {relocator : Relocator} {policy : MergePolicy} {offers : List Offer} {s s' : Staging} {o : Offer}

theorem hasTaken_start (relocator : Relocator) (policy : MergePolicy) :
    HasTaken relocator policy [] (start relocator policy) where
  relocator_eq := rfl
  policy_eq := rfl
  settled o ho := by cases ho
  reflects := reflects_start
  tallies := rfl

theorem tallies_place {entry : Entry} {origin : String} {given outcome : Outcome}
    (hplace : s.place entry origin given = .ok (s', outcome)) : s'.tallies = s.tallies := by
  rcases place_eq_ok hplace with ⟨-, -, rfl⟩ | ⟨-, -, -, -, rfl⟩ | ⟨-, -, -, -, -, -, rfl⟩ <;> rfl

/-- What one entry does to a merge that takes it in. -/
theorem process_spec {outcome : Outcome} (hprocess : s.process o.role o.origin o.entry = .ok (s', outcome)) :
    ∃ disposition, o.disposition s.relocator s.policy = .ok disposition ∧
      (∀ row, s.Reflects row → s'.Reflects (row ++ (o.contribution? s.relocator s.policy).toList)) ∧
      s'.tallies = (o.exclusion? s.relocator s.policy).toList.foldl countExclusion s.tallies := by
  rcases process_eq_ok hprocess with ⟨reason, ho, -, rfl⟩ | ⟨pattern, ho, -, rfl⟩ | ⟨moved, given, ho, hplace⟩ <;>
    rw [← Offer.disposition] at ho <;>
    rw [Offer.contribution?_of_settled ho, Offer.exclusion?_of_settled ho] <;>
    refine ⟨_, ho, fun row hreflects => ?_, ?_⟩
  · simpa [Disposition.contributed?] using hreflects
  · rfl
  · simpa [Disposition.contributed?] using hreflects.tally pattern
  · rfl
  · exact hreflects.place hplace
  · exact tallies_place hplace

/-- An entry at which a merge fails comes to nothing, or what it contributes clashes. -/
theorem process_eq_error {failure : Failure} (hprocess : s.process o.role o.origin o.entry = .error failure) :
    o.disposition s.relocator s.policy = .error failure ∨
      ∃ c outcome conflict, o.contribution? s.relocator s.policy = some c ∧
        s.place c.entry c.origin outcome = .error conflict ∧ failure = .conflict conflict := by
  unfold process at hprocess
  cases ho : o.disposition s.relocator s.policy with
  | error e =>
    rw [← Offer.disposition, ho] at hprocess
    exact .inl (congrArg _ (Except.error.inj hprocess))
  | ok disposition =>
    rw [← Offer.disposition, ho] at hprocess
    cases disposition with
    | dropped reason => cases hprocess
    | excluded pattern => cases hprocess
    | contributed moved given =>
      cases hplace : s.place moved o.origin given with
      | ok result =>
        simp only [hplace] at hprocess
        cases hprocess
      | error conflict =>
        simp only [hplace, Except.error.injEq] at hprocess
        exact .inr ⟨⟨moved, o.origin⟩, given, conflict, Offer.contribution?_of_settled ho, hplace, hprocess.symm⟩

namespace HasTaken

theorem process (htaken : HasTaken relocator policy offers s) {outcome : Outcome}
    (hprocess : s.process o.role o.origin o.entry = .ok (s', outcome)) :
    HasTaken relocator policy (offers ++ [o]) s' := by
  obtain ⟨hrelocator, hpolicy, -⟩ := process_frame hprocess
  obtain ⟨disposition, ho, hreflects, htallies⟩ := process_spec hprocess
  rw [htaken.relocator_eq, htaken.policy_eq] at ho hreflects htallies
  refine ⟨hrelocator.trans htaken.relocator_eq, hpolicy.trans htaken.policy_eq, fun given hgiven => ?_, ?_, ?_⟩
  · rcases List.mem_append.1 hgiven with hgiven | hgiven
    · exact htaken.settled given hgiven
    · exact List.mem_singleton.1 hgiven ▸ ⟨disposition, ho⟩
  · rw [contributions_concat]
    exact hreflects _ htaken.reflects
  · rw [exclusions_concat, List.foldl_append, ← htaken.tallies, htallies]

theorem process_error (htaken : HasTaken relocator policy offers s) {failure : Failure}
    (hprocess : s.process o.role o.origin o.entry = .error failure) :
    o.disposition relocator policy = .error failure ∨
      ∃ c first, o.contribution? relocator policy = some c ∧
        earliest? (contributions relocator policy offers) c.entry.path = some first ∧ Clash policy first c ∧
        failure = .conflict ⟨c.entry.path, first.origin, c.origin⟩ := by
  have hread := process_eq_error hprocess
  rw [htaken.relocator_eq, htaken.policy_eq] at hread
  rcases hread with hfailed | ⟨c, outcome, conflict, hc, hplace, rfl⟩
  · exact .inl hfailed
  · obtain ⟨first, hfirst, hclash, rfl⟩ := htaken.reflects.place_error hplace
    exact .inr ⟨c, first, hc, hfirst, htaken.policy_eq ▸ hclash, rfl⟩

theorem takes (htaken : HasTaken relocator policy offers s) {role : Role} {origin : String} {entries : List Entry}
    {outcomes : List Outcome} (htakes : Takes role origin s entries outcomes s') :
    HasTaken relocator policy (offers ++ entries.map (⟨role, origin, ·⟩)) s' := by
  induction htakes generalizing offers with
  | nil s => simpa using htaken
  | @cons s s₁ s₂ entry entries outcome outcomes hprocess _ ih =>
    rw [List.map_cons, List.append_cons]
    exact ih (htaken.process (o := ⟨role, origin, entry⟩) hprocess)

end HasTaken

/-- Where a row of entries fails, those before it were taken in. -/
theorem exists_takes_of_error {role : Role} {origin : String} {entries : List Entry} {summary : Summary}
    {failure : Failure} (hall : processAll role origin s summary entries = (s', .error failure)) :
    ∃ before entry after outcomes, entries = before ++ entry :: after ∧ Takes role origin s before outcomes s' ∧
      s'.process role origin entry = .error failure := by
  induction entries generalizing s summary with
  | nil => cases (Prod.mk.inj hall).2
  | cons entry entries ih =>
    cases hprocess : s.process role origin entry with
    | error e =>
      simp only [processAll_of_error hprocess, Prod.mk.injEq, Except.error.injEq] at hall
      obtain ⟨rfl, rfl⟩ := hall
      exact ⟨[], entry, entries, [], rfl, .nil s, hprocess⟩
    | ok result =>
      obtain ⟨s₁, outcome⟩ := result
      rw [processAll_of_ok hprocess] at hall
      obtain ⟨before, failed, after, outcomes, rfl, htakes, hfailed⟩ := ih hall
      exact ⟨entry :: before, failed, after, outcome :: outcomes, rfl, .cons hprocess htakes, hfailed⟩

theorem add_eq_error {role : Role} {archive : Archive} {requestedBy : Option String} {failure : Failure}
    (hadd : s.add role archive requestedBy = (s', .error failure)) :
    ∃ before entry after outcomes, archive.entries = before ++ entry :: after ∧
      Takes role archive.label s before outcomes s' ∧ s'.process role archive.label entry = .error failure := by
  cases hall : processAll role archive.label s (openSummary role archive requestedBy) archive.entries with
  | mk s₁ result =>
    unfold openSummary at hall
    cases result with
    | ok summary =>
      simp only [add, hall] at hadd
      cases (Prod.mk.inj hadd).2
    | error e =>
      simp only [add, hall, Prod.mk.injEq, Except.error.injEq] at hadd
      obtain ⟨rfl, rfl⟩ := hadd
      exact exists_takes_of_error hall

/-- An archive fails where an entry of it does. -/
theorem Takes.add_eq_error {role : Role} {archive : Archive} {entry : Entry} {before after : List Entry}
    {outcomes : List Outcome} (htakes : Takes role archive.label s before outcomes s')
    (hentries : archive.entries = before ++ entry :: after) {failure : Failure}
    (hprocess : s'.process role archive.label entry = .error failure) (requestedBy : Option String) :
    s.add role archive requestedBy = (s', .error failure) := by
  have hall (summary : Summary) :
      processAll role archive.label s summary (before ++ entry :: after) = (s', .error failure) := by
    clear hentries
    induction htakes generalizing summary with
    | nil s => exact processAll_of_error hprocess summary
    | cons hfirst _ ih =>
      rw [List.cons_append, processAll_of_ok hfirst]
      exact ih hprocess _
  simp only [add, hentries, hall]

namespace HasTaken

theorem add (htaken : HasTaken relocator policy offers s) {a : Addition}
    (hadd : s.add a.role a.archive a.requestedBy = (s', .ok ())) :
    HasTaken relocator policy (offers ++ a.offers) s' := by
  obtain ⟨outcomes, s₁, htakes, rfl⟩ := add_eq_ok_iff.1 hadd
  obtain ⟨hrelocator, hpolicy, hsettled, hreflects, htallies⟩ := htaken.takes htakes
  exact ⟨hrelocator, hpolicy, hsettled, hreflects.summarize _, htallies⟩

theorem addAll (htaken : HasTaken relocator policy offers s) {additions : List Addition}
    (hall : s.addAll additions = .ok s') :
    HasTaken relocator policy (offers ++ additions.flatMap Addition.offers) s' := by
  induction additions generalizing offers s with
  | nil =>
    obtain rfl := Except.ok.inj hall
    simpa using htaken
  | cons a additions ih =>
    obtain ⟨s₁, hadd, hrest⟩ := addAll_cons_eq_ok_iff.1 hall
    rw [List.flatMap_cons, ← List.append_assoc]
    exact ih (htaken.add hadd) hrest

/-- A merge that fails has taken in what comes before the entry that fails it. -/
theorem addAll_error (htaken : HasTaken relocator policy offers s) {additions : List Addition} {failure : Failure}
    (hall : s.addAll additions = .error failure) :
    ∃ before o after s', additions.flatMap Addition.offers = before ++ o :: after ∧
      HasTaken relocator policy (offers ++ before) s' ∧ s'.process o.role o.origin o.entry = .error failure := by
  induction additions generalizing offers s with
  | nil => cases hall
  | cons a additions ih =>
    cases hadd : s.add a.role a.archive a.requestedBy with
    | mk s₁ result =>
      cases result with
      | error e =>
        simp only [Staging.addAll, hadd, Except.error.injEq] at hall
        obtain ⟨before, entry, after, outcomes, hentries, htakes, hprocess⟩ := add_eq_error hadd
        refine ⟨before.map (⟨a.role, a.archive.label, ·⟩), ⟨a.role, a.archive.label, entry⟩,
          after.map (⟨a.role, a.archive.label, ·⟩) ++ additions.flatMap Addition.offers, s₁, ?_, htaken.takes htakes,
          hall ▸ hprocess⟩
        simp [Addition.offers, Archive.offers, hentries]
      | ok done =>
        simp only [Staging.addAll, hadd] at hall
        obtain ⟨before, o, after, s', hsplit, htaken', hprocess⟩ := ih (htaken.add hadd) hall
        refine ⟨a.offers ++ before, o, after, s', by rw [List.flatMap_cons, hsplit, List.append_assoc], ?_, hprocess⟩
        rw [← List.append_assoc]
        exact htaken'

end HasTaken

section Start

variable {additions : List Addition}

theorem hasTaken_of_addAll (hall : (start relocator policy).addAll additions = .ok s') :
    HasTaken relocator policy (additions.flatMap Addition.offers) s' := by
  simpa using (hasTaken_start relocator policy).addAll hall

/-- A merge fails at the first entry that comes to nothing, or that clashes with an earlier contribution. -/
theorem addAll_eq_error {failure : Failure} (hall : (start relocator policy).addAll additions = .error failure) :
    ∃ before o after, additions.flatMap Addition.offers = before ++ o :: after ∧
      (∀ a ∈ contributions relocator policy before, ∀ b ∈ contributions relocator policy before, ¬Clash policy a b) ∧
      (o.disposition relocator policy = .error failure ∨
        ∃ c first, o.contribution? relocator policy = some c ∧
          earliest? (contributions relocator policy before) c.entry.path = some first ∧ Clash policy first c ∧
          failure = .conflict ⟨c.entry.path, first.origin, c.origin⟩) := by
  obtain ⟨before, o, after, s', hsplit, htaken, hprocess⟩ := (hasTaken_start relocator policy).addAll_error hall
  rw [List.nil_append] at htaken
  refine ⟨before, o, after, hsplit, fun a ha b hb => ?_, htaken.process_error hprocess⟩
  rw [← htaken.policy_eq]
  exact htaken.reflects.not_clash ha hb

/-- A merge fails exactly if an entry comes to nothing, or two contributions clash. -/
theorem addAll_fails_iff :
    (∃ failure, (start relocator policy).addAll additions = .error failure) ↔
      (∃ o ∈ additions.flatMap Addition.offers, ∃ e, o.disposition relocator policy = .error e) ∨
        ∃ a ∈ contributions relocator policy (additions.flatMap Addition.offers),
          ∃ b ∈ contributions relocator policy (additions.flatMap Addition.offers), Clash policy a b := by
  constructor
  · rintro ⟨failure, hall⟩
    obtain ⟨before, o, after, hsplit, -, hfailed⟩ := addAll_eq_error hall
    rw [hsplit]
    rcases hfailed with ho | ⟨c, first, hc, hfirst, hclash, -⟩
    · exact .inl ⟨o, by simp, failure, ho⟩
    · have hmem := (earliest?_eq_some hfirst).1
      rw [contributions_split hc]
      exact .inr ⟨first, List.mem_append_left _ hmem, c, by simp, hclash⟩
  · intro hfails
    cases hall : (start relocator policy).addAll additions with
    | error failure => exact ⟨failure, rfl⟩
    | ok s' =>
      have htaken := hasTaken_of_addAll hall
      rcases hfails with ⟨o, ho, e, hfailed⟩ | ⟨a, ha, b, hb, hclash⟩
      · obtain ⟨disposition, hsettled⟩ := htaken.settled o ho
        rw [hsettled] at hfailed
        cases hfailed
      · rw [← htaken.policy_eq] at hclash
        exact absurd hclash (htaken.reflects.not_clash ha hb)

end Start
end Staging
end UberJar
