import UberJar.Merge.Staging
import UberJar.Proofs.Except
import UberJar.Proofs.Table

namespace UberJar

namespace Outcome

/-- Whether an entry got a new path. -/
def movesPath : Outcome → Bool
  | relocated pathMoved _ => pathMoved
  | _ => false

/-- Whether an entry got a new path or new bytes. -/
def isRelocated : Outcome → Bool
  | relocated _ _ => true
  | _ => false

/-- Whether an entry was left out by a pattern. -/
def isExcluded : Outcome → Bool
  | excluded _ => true
  | _ => false

theorem isExcluded_of_takesPlace {outcome : Outcome} (hplace : outcome.takesPlace = true) :
    outcome.isExcluded = false := by
  cases outcome with
  | excluded pattern => cases hplace
  | _ => rfl

theorem eq_kept {outcome : Outcome} (hplace : outcome.takesPlace = true) (hstays : outcome.isRelocated = false) :
    outcome = kept := by
  cases outcome with
  | kept => rfl
  | relocated pathMoved contentChanged => exact absurd hstays (by simp [isRelocated])
  | _ => cases hplace

end Outcome

/-- A field of a summary that goes up by one for some outcomes counts these outcomes. -/
theorem Summary.foldl_record {field : Summary → Nat} {counted : Outcome → Bool}
    (hrecord : ∀ summary outcome, field (record summary outcome) = field summary + if counted outcome then 1 else 0)
    (outcomes : List Outcome) (summary : Summary) :
    field (outcomes.foldl record summary) = field summary + outcomes.countP counted := by
  induction outcomes generalizing summary with
  | nil => rfl
  | cons outcome outcomes ih =>
    rw [List.foldl_cons, ih, hrecord, List.countP_cons]
    omega

/-- A summary counts the relocated entries. -/
theorem Summary.relocated_foldl (outcomes : List Outcome) (summary : Summary) :
    (outcomes.foldl record summary).relocated = summary.relocated + outcomes.countP Outcome.isRelocated :=
  foldl_record (fun _ outcome => by cases outcome <;> rfl) outcomes summary

namespace Disposition

variable {relocator : Relocation.Relocator} {policy : MergePolicy} {role : Role} {origin : String}
  {entry moved : Entry} {outcome : Outcome}

/-- What a relocated entry comes to: it may be excluded under its new path. -/
def ofRelocated (policy : MergePolicy) (moved : Entry) (outcome : Outcome) : Disposition :=
  if outcome.movesPath then (policy.filter.matching? moved.path).elim (contributed moved outcome) excluded
  else contributed moved outcome

theorem ofEntry_of_dropped {reason : DropCause} (hdrop : dropCause? role entry.path = some reason) :
    ofEntry relocator policy role origin entry = .ok (dropped reason) := by
  simp only [ofEntry, hdrop]

theorem ofEntry_of_matched {pattern : String} (hdrop : dropCause? role entry.path = none)
    (hmatch : policy.filter.matching? entry.path = some pattern) :
    ofEntry relocator policy role origin entry = .ok (excluded pattern) := by
  simp only [ofEntry, hdrop, hmatch]

theorem ofEntry_of_carried (hdrop : dropCause? role entry.path = none)
    (hmatch : policy.filter.matching? entry.path = none) :
    ofEntry relocator policy role origin entry =
      (if role = .dependency then requireRelease policy entry origin else .ok ()) >>= fun _ =>
        (relocate relocator policy role entry origin).mapError .archive >>= fun read =>
          .ok (ofRelocated policy read.1 read.2) := by
  unfold ofEntry
  simp only [hdrop, hmatch]
  cases relocate relocator policy role entry origin with
  | error e => cases role <;> rfl
  | ok read =>
    obtain ⟨moved, outcome⟩ := read
    cases outcome with
    | relocated path content =>
      cases path with
      | false => cases role <;> rfl
      | true =>
        cases hmoved : policy.filter.matching? moved.path <;> cases role <;>
          simp [ofRelocated, Outcome.movesPath, hmoved, bind, Except.bind, pure, Except.pure, mapError_ok]
    | _ => cases role <;> rfl

theorem ofRelocated_eq_contributed_iff {found : Entry} {given : Outcome} :
    ofRelocated policy found given = contributed moved outcome ↔
      found = moved ∧ given = outcome ∧ (outcome.movesPath = true → policy.filter.matching? moved.path = none) := by
  unfold ofRelocated
  by_cases hmoves : given.movesPath = true
  · rw [if_pos hmoves]
    cases hmoved : policy.filter.matching? found.path with
    | none =>
      simp only [Option.elim_none, contributed.injEq]
      constructor
      · rintro ⟨rfl, rfl⟩
        exact ⟨rfl, rfl, fun _ => hmoved⟩
      · exact fun h => ⟨h.1, h.2.1⟩
    | some pattern =>
      simp only [Option.elim_some, reduceCtorEq, false_iff]
      rintro ⟨rfl, rfl, hno⟩
      rw [hno hmoves] at hmoved
      cases hmoved
  · rw [if_neg hmoves]
    simp only [contributed.injEq]
    constructor
    · rintro ⟨rfl, rfl⟩
      exact ⟨rfl, rfl, fun h => absurd h hmoves⟩
    · exact fun h => ⟨h.1, h.2.1⟩

theorem guard_eq_ok_iff {ε : Type} {check : Except ε Unit} :
    (if role = .dependency then check else .ok ()) = .ok () ↔ (role = .dependency → check = .ok ()) := by
  by_cases hrole : role = .dependency <;> simp [hrole]

/-- An entry is contributed if it is carried, not excluded under either of its paths, not too new, and relocated. -/
theorem ofEntry_eq_contributed_iff :
    ofEntry relocator policy role origin entry = .ok (contributed moved outcome) ↔
      dropCause? role entry.path = none ∧ policy.filter.matching? entry.path = none ∧
        (role = .dependency → requireRelease policy entry origin = .ok ()) ∧
        relocate relocator policy role entry origin = .ok (moved, outcome) ∧
        (outcome.movesPath = true → policy.filter.matching? moved.path = none) := by
  cases hdrop : dropCause? role entry.path with
  | some reason => simp [ofEntry_of_dropped hdrop]
  | none =>
    cases hmatch : policy.filter.matching? entry.path with
    | some pattern => simp [ofEntry_of_matched hdrop hmatch]
    | none =>
      rw [ofEntry_of_carried hdrop hmatch]
      simp only [bind_eq_ok_iff, mapError_eq_ok_iff, Except.ok.injEq, ofRelocated_eq_contributed_iff,
        ← guard_eq_ok_iff, true_and]
      constructor
      · rintro ⟨⟨⟩, hok, ⟨found, given⟩, hrelocate, rfl, rfl, hno⟩
        exact ⟨hok, hrelocate, hno⟩
      · rintro ⟨hok, hrelocate, hno⟩
        exact ⟨(), hok, (moved, outcome), hrelocate, rfl, rfl, hno⟩

/-- What is contributed was kept or relocated. -/
theorem takesPlace_of_contributed
    (hentry : ofEntry relocator policy role origin entry = .ok (contributed moved outcome)) :
    outcome.takesPlace = true := by
  obtain ⟨-, -, -, hrelocate, -⟩ := ofEntry_eq_contributed_iff.1 hentry
  have hrule {move : Bool} (h : relocator.relocate entry origin move = .ok (moved, outcome)) :
      outcome.takesPlace = true := by
    unfold Relocation.Relocator.relocate at h
    split at h
    · obtain ⟨-, rfl⟩ := Prod.mk.inj (Except.ok.inj h)
      rfl
    · split at h
      · cases h
      · obtain ⟨-, rfl⟩ := Prod.mk.inj (Except.ok.inj h)
        split <;> rfl
  unfold relocate at hrelocate
  cases role with
  | dependency => exact hrule hrelocate
  | primary =>
    simp only at hrelocate
    split at hrelocate
    · exact hrule hrelocate
    · obtain ⟨-, rfl⟩ := Prod.mk.inj (Except.ok.inj hrelocate)
      rfl

end Disposition

namespace Staging

variable {s s' : Staging} {role : Role} {origin : String} {entry moved : Entry} {outcome outcome' : Outcome}

/-- An entry gets a free place, or it agrees with the entry that has the place, or it is merged with that one. -/
theorem place_eq_ok (hplace : s.place entry origin outcome = .ok (s', outcome')) :
    (s.staged[entry.path]? = none ∧ outcome' = outcome ∧
      s' = { s with staged := s.staged.insert entry.path ⟨entry.data, origin⟩ }) ∨
    (∃ existing, s.staged[entry.path]? = some existing ∧ existing.data = entry.data ∧ outcome' = .duplicate ∧ s' = s) ∨
    (∃ existing, s.staged[entry.path]? = some existing ∧ existing.data ≠ entry.data ∧
      s.policy.mergeServiceFiles = true ∧ EntryPath.isServiceFile entry.path = true ∧ outcome' = .serviceMerged ∧
      s' = { s with
        staged := s.staged.insert entry.path ⟨Services.merge existing.data entry.data, existing.origin⟩ }) := by
  unfold place at hplace
  cases hfound : s.staged[entry.path]? with
  | none =>
    simp only [hfound, Except.ok.injEq, Prod.mk.injEq] at hplace
    exact .inl ⟨rfl, hplace.2.symm, hplace.1.symm⟩
  | some existing =>
    simp only [hfound] at hplace
    by_cases hsame : existing.data = entry.data
    · simp only [if_pos hsame, Except.ok.injEq, Prod.mk.injEq] at hplace
      exact .inr (.inl ⟨existing, rfl, hsame, hplace.2.symm, hplace.1.symm⟩)
    · by_cases hservice : (s.policy.mergeServiceFiles && EntryPath.isServiceFile entry.path) = true
      · simp only [if_neg hsame, hservice, if_true, Except.ok.injEq, Prod.mk.injEq] at hplace
        obtain ⟨hmerge, hfile⟩ := Bool.and_eq_true_iff.1 hservice
        exact .inr (.inr ⟨existing, rfl, hsame, hmerge, hfile, hplace.2.symm, hplace.1.symm⟩)
      · simp [hsame, hservice] at hplace

/-- An entry is dropped, counted as excluded, or given its place. -/
theorem process_eq_ok (hprocess : s.process role origin entry = .ok (s', outcome)) :
    (∃ reason, Disposition.ofEntry s.relocator s.policy role origin entry = .ok (.dropped reason) ∧
      outcome = .dropped reason ∧ s' = s) ∨
    (∃ pattern, Disposition.ofEntry s.relocator s.policy role origin entry = .ok (.excluded pattern) ∧
      outcome = .excluded pattern ∧ s' = s.tally pattern) ∨
    (∃ moved given, Disposition.ofEntry s.relocator s.policy role origin entry = .ok (.contributed moved given) ∧
      s.place moved origin given = .ok (s', outcome)) := by
  unfold process at hprocess
  cases hentry : Disposition.ofEntry s.relocator s.policy role origin entry with
  | error e => simp [hentry] at hprocess
  | ok disposition =>
    cases disposition with
    | dropped reason =>
      simp only [hentry, Except.ok.injEq, Prod.mk.injEq] at hprocess
      exact .inl ⟨reason, rfl, hprocess.2.symm, hprocess.1.symm⟩
    | excluded pattern =>
      simp only [hentry, Except.ok.injEq, Prod.mk.injEq] at hprocess
      exact .inr (.inl ⟨pattern, rfl, hprocess.2.symm, hprocess.1.symm⟩)
    | contributed moved given =>
      simp only [hentry] at hprocess
      cases hplace : s.place moved origin given with
      | error c => simp [hplace] at hprocess
      | ok result =>
        simp only [hplace, Except.ok.injEq] at hprocess
        exact .inr (.inr ⟨moved, given, rfl, hprocess ▸ hplace⟩)

/-- What no step of a merge changes. -/
theorem process_frame (hprocess : s.process role origin entry = .ok (s', outcome)) :
    s'.relocator = s.relocator ∧ s'.policy = s.policy ∧ s'.summaries = s.summaries := by
  rcases process_eq_ok hprocess with ⟨-, -, -, rfl⟩ | ⟨-, -, -, rfl⟩ | ⟨moved, given, -, hplace⟩
  · exact ⟨rfl, rfl, rfl⟩
  · exact ⟨rfl, rfl, rfl⟩
  · rcases place_eq_ok hplace with ⟨-, -, rfl⟩ | ⟨-, -, -, -, rfl⟩ | ⟨-, -, -, -, -, -, rfl⟩ <;> exact ⟨rfl, rfl, rfl⟩

/-- An entry takes up one more place exactly if it was kept or relocated. -/
theorem size_process (hprocess : s.process role origin entry = .ok (s', outcome)) :
    s'.staged.size = s.staged.size + (if outcome.takesPlace then 1 else 0) := by
  rcases process_eq_ok hprocess with ⟨reason, -, rfl, rfl⟩ | ⟨pattern, -, rfl, rfl⟩ | ⟨moved, given, hentry, hplace⟩
  · rfl
  · rfl
  · rcases place_eq_ok hplace with ⟨hnone, rfl, rfl⟩ | ⟨existing, -, -, rfl, rfl⟩ |
      ⟨existing, hsome, -, -, -, rfl, rfl⟩
    · rw [if_pos (Disposition.takesPlace_of_contributed hentry), Std.TreeMap.size_insert,
        Std.TreeMap.contains_eq_isSome_getElem? (t := s.staged), hnone]
      rfl
    · rfl
    · rw [Std.TreeMap.size_insert, Std.TreeMap.contains_eq_isSome_getElem? (t := s.staged), hsome]
      rfl

/-- An entry that takes up a place was contributed, with its own outcome. -/
theorem contributed_of_takesPlace (hprocess : s.process role origin entry = .ok (s', outcome))
    (hplaces : outcome.takesPlace = true) :
    ∃ moved, Disposition.ofEntry s.relocator s.policy role origin entry = .ok (.contributed moved outcome) := by
  rcases process_eq_ok hprocess with ⟨reason, -, rfl, -⟩ | ⟨pattern, -, rfl, -⟩ | ⟨moved, given, hentry, hplace⟩
  · cases hplaces
  · cases hplaces
  · rcases place_eq_ok hplace with ⟨-, rfl, -⟩ | ⟨-, -, -, rfl, -⟩ | ⟨-, -, -, -, -, rfl, -⟩
    · exact ⟨moved, hentry⟩
    · cases hplaces
    · cases hplaces

/-- An entry that counts as relocated was contributed as such. -/
theorem contributed_of_isRelocated (hprocess : s.process role origin entry = .ok (s', outcome))
    (hrelocated : outcome.isRelocated = true) :
    ∃ moved, Disposition.ofEntry s.relocator s.policy role origin entry = .ok (.contributed moved outcome) := by
  refine contributed_of_takesPlace hprocess ?_
  cases outcome <;> first | rfl | cases hrelocated

end Staging
end UberJar
