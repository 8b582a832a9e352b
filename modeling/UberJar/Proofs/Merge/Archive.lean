import UberJar.Proofs.Merge.Staging

namespace UberJar.Staging

variable {s s' : Staging} {role : Role} {origin : String} {entry : Entry} {entries : List Entry} {outcome : Outcome}
  {outcomes : List Outcome}

/-- Entries that are taken in one after the other, with their outcomes. -/
inductive Takes (role : Role) (origin : String) : Staging → List Entry → List Outcome → Staging → Prop
  | nil (s : Staging) : Takes role origin s [] [] s
  | cons {s s₁ s₂ : Staging} {entry : Entry} {entries : List Entry} {outcome : Outcome} {outcomes : List Outcome}
    (hprocess : s.process role origin entry = .ok (s₁, outcome)) (hrest : Takes role origin s₁ entries outcomes s₂) :
    Takes role origin s (entry :: entries) (outcome :: outcomes) s₂

theorem processAll_of_error {failure : Failure} (hprocess : s.process role origin entry = .error failure)
    (summary : Summary) : processAll role origin s summary (entry :: entries) = (s, .error failure) := by
  unfold processAll
  simp only [hprocess]

theorem processAll_of_ok (hprocess : s.process role origin entry = .ok (s', outcome)) (summary : Summary) :
    processAll role origin s summary (entry :: entries) =
      processAll role origin s' (summary.record outcome) entries := by
  conv =>
    lhs
    unfold processAll
  simp only [hprocess]

theorem Takes.processAll_eq (htakes : Takes role origin s entries outcomes s') (summary : Summary) :
    processAll role origin s summary entries = (s', .ok (outcomes.foldl Summary.record summary)) := by
  induction htakes generalizing summary with
  | nil s => rfl
  | cons hprocess _ ih => rw [processAll_of_ok hprocess, ih, List.foldl_cons]

theorem takes_of_processAll {summary summary' : Summary}
    (hall : processAll role origin s summary entries = (s', .ok summary')) :
    ∃ outcomes, Takes role origin s entries outcomes s' ∧ summary' = outcomes.foldl Summary.record summary := by
  induction entries generalizing s summary with
  | nil =>
    obtain ⟨rfl, hsummary⟩ := Prod.mk.inj hall
    exact ⟨[], .nil _, (Except.ok.inj hsummary).symm⟩
  | cons entry entries ih =>
    cases hprocess : s.process role origin entry with
    | error e =>
      rw [processAll_of_error hprocess] at hall
      cases (Prod.mk.inj hall).2
    | ok result =>
      obtain ⟨s₁, outcome⟩ := result
      rw [processAll_of_ok hprocess] at hall
      obtain ⟨outcomes, htakes, rfl⟩ := ih hall
      exact ⟨outcome :: outcomes, .cons hprocess htakes, rfl⟩

/-- The summary of an archive of which nothing was taken in yet. -/
def openSummary (role : Role) (archive : Archive) (requestedBy : Option String) : Summary :=
  { label := archive.label
    path := archive.path
    isPrimary := role == .primary
    requestedBy := requestedBy.filter (· != archive.label) }

theorem add_eq_ok_iff {archive : Archive} {requestedBy : Option String} :
    s.add role archive requestedBy = (s', .ok ()) ↔
      ∃ outcomes s₁, Takes role archive.label s archive.entries outcomes s₁ ∧
        s' = { s₁ with
          summaries := s₁.summaries ++ [outcomes.foldl Summary.record (openSummary role archive requestedBy)] } := by
  constructor
  · intro hadd
    cases hall : processAll role archive.label s (openSummary role archive requestedBy) archive.entries with
    | mk s₁ result =>
      unfold openSummary at hall
      cases result with
      | error e =>
        simp only [add, hall] at hadd
        cases (Prod.mk.inj hadd).2
      | ok summary =>
        simp only [add, hall, Prod.mk.injEq, and_true] at hadd
        obtain ⟨outcomes, htakes, rfl⟩ := takes_of_processAll hall
        exact ⟨outcomes, s₁, htakes, hadd.symm⟩
  · rintro ⟨outcomes, s₁, htakes, rfl⟩
    simp [add, htakes.processAll_eq, openSummary]

namespace Takes

theorem frame (htakes : Takes role origin s entries outcomes s') :
    s'.relocator = s.relocator ∧ s'.policy = s.policy ∧ s'.summaries = s.summaries := by
  induction htakes with
  | nil s => exact ⟨rfl, rfl, rfl⟩
  | cons hprocess _ ih =>
    obtain ⟨hrelocator, hpolicy, hsummaries⟩ := process_frame hprocess
    exact ⟨ih.1.trans hrelocator, ih.2.1.trans hpolicy, ih.2.2.trans hsummaries⟩

theorem length_eq (htakes : Takes role origin s entries outcomes s') : outcomes.length = entries.length := by
  induction htakes with
  | nil s => rfl
  | cons _ _ ih => simp [ih]

/-- The places that an archive takes up are counted by its outcomes. -/
theorem size_eq (htakes : Takes role origin s entries outcomes s') :
    s'.staged.size = s.staged.size + outcomes.countP Outcome.takesPlace := by
  induction htakes with
  | nil s => rfl
  | cons hprocess _ ih =>
    rw [ih, size_process hprocess, List.countP_cons]
    omega

/-- If every entry takes up a place, every entry was contributed, with one of the outcomes. -/
theorem contributed (htakes : Takes role origin s entries outcomes s')
    (hplaces : ∀ outcome ∈ outcomes, outcome.takesPlace = true) :
    ∀ entry ∈ entries, ∃ outcome ∈ outcomes, ∃ moved,
      Disposition.ofEntry s.relocator s.policy role origin entry = .ok (.contributed moved outcome) := by
  induction htakes with
  | nil s => simp
  | cons hprocess _ ih =>
    obtain ⟨hrelocator, hpolicy, -⟩ := process_frame hprocess
    rw [hrelocator, hpolicy] at ih
    intro entry hentry
    rcases List.mem_cons.1 hentry with rfl | hentry
    · exact ⟨_, List.mem_cons_self, contributed_of_takesPlace hprocess (hplaces _ List.mem_cons_self)⟩
    · have hplaces' := fun outcome hmem => hplaces outcome (List.mem_cons_of_mem _ hmem)
      obtain ⟨outcome, hmem, hrest⟩ := ih hplaces' entry hentry
      exact ⟨outcome, List.mem_cons_of_mem _ hmem, hrest⟩

/-- Nothing counts as relocated unless it was contributed as such. -/
theorem not_isRelocated (htakes : Takes role origin s entries outcomes s')
    (hstays : ∀ entry ∈ entries, ∀ moved outcome,
      Disposition.ofEntry s.relocator s.policy role origin entry = .ok (.contributed moved outcome) →
        outcome.isRelocated = false) :
    ∀ outcome ∈ outcomes, outcome.isRelocated = false := by
  induction htakes with
  | nil s => simp
  | @cons s s₁ s₂ entry entries outcome outcomes hprocess hrest ih =>
    obtain ⟨hrelocator, hpolicy, -⟩ := process_frame hprocess
    rw [hrelocator, hpolicy] at ih
    intro outcome hmem
    rcases List.mem_cons.1 hmem with rfl | hmem
    · rw [← Bool.not_eq_true]
      intro hrelocated
      obtain ⟨moved, hentry⟩ := contributed_of_isRelocated hprocess hrelocated
      rw [hstays entry List.mem_cons_self moved outcome hentry] at hrelocated
      cases hrelocated
    · exact ih (fun entry hentry => hstays entry (List.mem_cons_of_mem _ hentry)) outcome hmem

end Takes

/-- An entry whose place is taken by its own bytes. -/
def Holds (s : Staging) (entry : Entry) : Prop := ∃ origin, s.staged[entry.path]? = some ⟨entry.data, origin⟩

/-- What an entry contributes to a merge. -/
def Contributes (s : Staging) (role : Role) (origin : String) (entry moved : Entry) : Prop :=
  ∃ outcome, Disposition.ofEntry s.relocator s.policy role origin entry = .ok (.contributed moved outcome)

theorem Holds.unique {first second : Entry} (hfirst : s.Holds first) (hsecond : s.Holds second)
    (hpath : first.path = second.path) : first = second := by
  obtain ⟨origin, hfirst⟩ := hfirst
  obtain ⟨origin', hsecond⟩ := hsecond
  obtain ⟨path, data⟩ := first
  obtain ⟨path', data'⟩ := second
  obtain rfl : path = path' := hpath
  rw [hfirst] at hsecond
  obtain ⟨rfl, -⟩ := StagedEntry.mk.inj (Option.some.inj hsecond)
  rfl

theorem Contributes.unique {first second : Entry} (hfirst : s.Contributes role origin entry first)
    (hsecond : s.Contributes role origin entry second) : first = second := by
  obtain ⟨outcome, hfirst⟩ := hfirst
  obtain ⟨outcome', hsecond⟩ := hsecond
  rw [hfirst] at hsecond
  exact (Disposition.contributed.inj (Except.ok.inj hsecond)).1

/-- Taking in an entry adds what it contributes, and nothing else. -/
theorem holds_process_iff (hmerge : s.policy.mergeServiceFiles = false)
    (hprocess : s.process role origin entry = .ok (s', outcome)) {held : Entry} :
    s'.Holds held ↔ s.Holds held ∨ s.Contributes role origin entry held := by
  have hno {disposition : Disposition}
      (hentry : Disposition.ofEntry s.relocator s.policy role origin entry = .ok disposition)
      (hother : ∀ outcome, disposition ≠ .contributed held outcome) : ¬s.Contributes role origin entry held := by
    rintro ⟨outcome, hsome⟩
    rw [hentry] at hsome
    exact hother outcome (Except.ok.inj hsome)
  rcases process_eq_ok hprocess with ⟨reason, hentry, -, hs⟩ | ⟨pattern, hentry, -, hs⟩ | ⟨moved, given, hentry, hplace⟩
  · rw [or_iff_left (hno hentry (by simp)), hs]
  · rw [or_iff_left (hno hentry (by simp)), hs]
    rfl
  · have hcontributes : s.Contributes role origin entry moved := ⟨given, hentry⟩
    have hiff : s.Contributes role origin entry held ↔ held = moved :=
      ⟨fun h => h.unique hcontributes, fun h => h ▸ hcontributes⟩
    rw [hiff]
    rcases place_eq_ok hplace with ⟨hnone, -, rfl⟩ | ⟨existing, hsome, hsame, -, rfl⟩ | ⟨-, -, -, htrue, -⟩
    · simp only [Holds, getElem?_insert]
      by_cases hpath : moved.path = held.path
      · obtain ⟨path, data⟩ := held
        obtain rfl : moved.path = path := hpath
        simp only [if_true, hnone, Option.some.injEq, StagedEntry.mk.injEq, reduceCtorEq, exists_false, false_or]
        constructor
        · rintro ⟨-, rfl, -⟩
          rfl
        · exact fun h => ⟨origin, congrArg Entry.data h.symm, rfl⟩
      · have hne : held ≠ moved := fun h => hpath (congrArg Entry.path h).symm
        simp only [if_neg hpath, hne, or_false]
    · constructor
      · exact .inl
      · rintro (hholds | rfl)
        · exact hholds
        · exact ⟨existing.origin, hsame ▸ hsome⟩
    · rw [hmerge] at htrue
      cases htrue

/-- What holds a place after an entry, or is contributed by those behind it. -/
theorem holds_or_contributes_process_iff (hmerge : s.policy.mergeServiceFiles = false)
    (hprocess : s.process role origin entry = .ok (s', outcome)) {held : Entry} :
    (s'.Holds held ∨ ∃ other ∈ entries, s'.Contributes role origin other held) ↔
      s.Holds held ∨ ∃ other ∈ entry :: entries, s.Contributes role origin other held := by
  obtain ⟨hrelocator, hpolicy, -⟩ := process_frame hprocess
  have hsame (other : Entry) : s'.Contributes role origin other held ↔ s.Contributes role origin other held := by
    rw [Contributes, Contributes, hrelocator, hpolicy]
  rw [holds_process_iff hmerge hprocess]
  simp only [hsame, List.mem_cons, exists_eq_or_imp, or_assoc]

/-- The staged entries after an archive. -/
theorem Takes.holds_iff (hmerge : s.policy.mergeServiceFiles = false) (htakes : Takes role origin s entries outcomes s')
    {held : Entry} :
    s'.Holds held ↔ s.Holds held ∨ ∃ entry ∈ entries, s.Contributes role origin entry held := by
  induction htakes with
  | nil s => simp
  | @cons s s₁ s₂ entry entries outcome outcomes hprocess hrest ih =>
    obtain ⟨-, hpolicy, -⟩ := process_frame hprocess
    exact (ih (hpolicy ▸ hmerge)).trans (holds_or_contributes_process_iff hmerge hprocess)

/-- An entry is taken in if it comes to something, and that is no other entry than the one at its place. -/
theorem exists_process (hentry : ∃ disposition,
      Disposition.ofEntry s.relocator s.policy role origin entry = .ok disposition)
    (hagree : ∀ held moved,
      s.Holds held → s.Contributes role origin entry moved → held.path = moved.path → held = moved) :
    ∃ s' outcome, s.process role origin entry = .ok (s', outcome) := by
  obtain ⟨disposition, hentry⟩ := hentry
  cases disposition with
  | dropped reason => exact ⟨s, .dropped reason, by simp [process, hentry]⟩
  | excluded pattern => exact ⟨s.tally pattern, .excluded pattern, by simp [process, hentry]⟩
  | contributed moved given =>
    cases hfound : s.staged[moved.path]? with
    | none => exact ⟨_, given, by simp only [process, hentry, place, hfound]; rfl⟩
    | some existing =>
      have hsame := hagree ⟨moved.path, existing.data⟩ moved ⟨existing.origin, hfound⟩ ⟨given, hentry⟩ rfl
      have hdata : existing.data = moved.data := congrArg Entry.data hsame
      exact ⟨s, .duplicate, by simp [process, hentry, place, hfound, hdata]⟩

/-- Entries are taken in if each comes to something and no two contributions differ at one path. -/
theorem exists_takes (hmerge : s.policy.mergeServiceFiles = false)
    (hentries : ∀ entry ∈ entries, ∃ disposition,
      Disposition.ofEntry s.relocator s.policy role origin entry = .ok disposition)
    (hagree : ∀ first second, (s.Holds first ∨ ∃ entry ∈ entries, s.Contributes role origin entry first) →
      (s.Holds second ∨ ∃ entry ∈ entries, s.Contributes role origin entry second) →
      first.path = second.path → first = second) :
    ∃ outcomes s', Takes role origin s entries outcomes s' := by
  induction entries generalizing s with
  | nil => exact ⟨[], s, .nil s⟩
  | cons entry entries ih =>
    obtain ⟨s₁, outcome, hprocess⟩ := exists_process (hentries entry List.mem_cons_self) fun held moved hheld hmoved =>
      hagree held moved (.inl hheld) (.inr ⟨entry, List.mem_cons_self, hmoved⟩)
    obtain ⟨hrelocator, hpolicy, -⟩ := process_frame hprocess
    have hholds {held : Entry} :
        (s₁.Holds held ∨ ∃ entry ∈ entries, s₁.Contributes role origin entry held) ↔
          s.Holds held ∨ ∃ e ∈ entry :: entries, s.Contributes role origin e held :=
      holds_or_contributes_process_iff hmerge hprocess
    obtain ⟨outcomes, s₂, htakes⟩ := ih (hpolicy ▸ hmerge)
      (fun e he => hrelocator ▸ hpolicy ▸ hentries e (List.mem_cons_of_mem _ he))
      (fun first second hfirst hsecond => hagree first second (hholds.1 hfirst) (hholds.1 hsecond))
    exact ⟨outcome :: outcomes, s₂, .cons hprocess htakes⟩

end UberJar.Staging
