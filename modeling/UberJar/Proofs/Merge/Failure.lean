import UberJar.Proofs.Merge.Additions
import UberJar.Proofs.State

namespace UberJar

open Relocation

/-- The archive up to the entry with index `k`. -/
def Archive.cut (a : Archive) (k : Nat) : Archive := { a with entries := a.entries.take k }

namespace Staging

variable {s s' : Staging} {role : Role} {origin : String} {entry : Entry} {entries : List Entry} {outcome : Outcome}
  {failure : Failure} {k : Nat}

/-- Leaves out a path if a pattern matches it, and counts that. -/
def exclude? (path : String) : ExceptT Failure (StateM Staging) (Option Outcome) := do
  let s ← get
  match s.policy.filter.matching? path with
  | none => return none
  | some pattern =>
    set (s.tally pattern)
    return some (.excluded pattern)

/-- Leaves out an entry whose path has moved, if a pattern matches its new path. -/
def excludeMoved? (moved : Entry) (outcome : Outcome) : ExceptT Failure (StateM Staging) (Option Outcome) :=
  if outcome.movesPath then exclude? moved.path else pure none

/-- Goes on with the result of a check, or fails as the check does. -/
def demand {α : Type} (result : Except Failure α) : ExceptT Failure (StateM Staging) α := ExceptT.mk (pure result)

/-- Puts an entry at its place, if it is free, or to the entry that has it. -/
def stage (entry : Entry) (origin : String) (outcome : Outcome) : ExceptT Failure (StateM Staging) Outcome := do
  let s ← get
  match s.staged[entry.path]? with
  | none =>
    set { s with staged := s.staged.insert entry.path ⟨entry.data, origin⟩ }
    return outcome
  | some existing =>
    if existing.data = entry.data then return .duplicate
    else if s.policy.mergeServiceFiles && EntryPath.isServiceFile entry.path then
      let data := Services.merge existing.data entry.data
      set { s with staged := s.staged.insert entry.path { existing with data } }
      return .serviceMerged
    else throw (.conflict ⟨entry.path, existing.origin, origin⟩)

/-- Takes in an entry that no pattern leaves out under the path that it comes with. -/
def carry (role : Role) (origin : String) (entry : Entry) : ExceptT Failure (StateM Staging) Outcome := do
  let s ← get
  demand (if role = .dependency then Disposition.requireRelease s.policy entry origin else .ok ())
  let (moved, outcome) ← demand ((Disposition.relocate s.relocator s.policy role entry origin).mapError .archive)
  match ← excludeMoved? moved outcome with
  | some excluded => return excluded
  | none => stage moved origin outcome

/-- Takes in an entry step by step. -/
def takeIn (role : Role) (origin : String) (entry : Entry) : ExceptT Failure (StateM Staging) Outcome := do
  match Disposition.dropCause? role entry.path with
  | some reason => return .dropped reason
  | none =>
    match ← exclude? entry.path with
    | some excluded => return excluded
    | none => carry role origin entry

/-- The end of steps that leave the state as it was if they fail. -/
def endOf {ε : Type} (s : Staging) : Except ε (Staging × Outcome) → Except ε Outcome × Staging
  | .ok (s', outcome) => (.ok outcome, s')
  | .error e => (.error e, s)

theorem endOf_eq_ok_iff {ε : Type} {result : Except ε (Staging × Outcome)} :
    endOf s result = (.ok outcome, s') ↔ result = .ok (s', outcome) := by
  rcases result with e | ⟨s₁, found⟩
  · simp [endOf]
  · simp [endOf, and_comm]

theorem endOf_eq_error_iff {ε : Type} {result : Except ε (Staging × Outcome)} {e : ε} :
    endOf s result = (.error e, s') ↔ result = .error e ∧ s' = s := by
  rcases result with e | ⟨s₁, found⟩
  · simp [endOf, eq_comm]
  · simp [endOf]

theorem run_exclude? (s : Staging) (path : String) : (exclude? path).run.run s =
    (s.policy.filter.matching? path).elim (.ok none, s) fun pattern =>
      (.ok (some (.excluded pattern)), s.tally pattern) := by
  rw [exclude?, run_get_bind]
  cases s.policy.filter.matching? path <;> rfl

theorem run_stage (s : Staging) (entry : Entry) (origin : String) (outcome : Outcome) :
    (stage entry origin outcome).run.run s = endOf s ((s.place entry origin outcome).mapError .conflict) := by
  rw [stage, run_get_bind, place]
  cases s.staged[entry.path]? with
  | none => rfl
  | some existing =>
    dsimp only
    split
    · rfl
    · split <;> rfl

theorem run_excludeMoved? (s : Staging) (moved : Entry) (outcome : Outcome) :
    (∃ pattern, Disposition.ofRelocated s.policy moved outcome = .excluded pattern ∧
      (excludeMoved? moved outcome).run.run s = (.ok (some (.excluded pattern)), s.tally pattern)) ∨
    (Disposition.ofRelocated s.policy moved outcome = .contributed moved outcome ∧
      (excludeMoved? moved outcome).run.run s = (.ok none, s)) := by
  unfold excludeMoved? Disposition.ofRelocated
  split
  · rw [run_exclude?]
    cases s.policy.filter.matching? moved.path with
    | none => exact .inr ⟨rfl, rfl⟩
    | some pattern => exact .inl ⟨pattern, rfl, rfl⟩
  · exact .inr ⟨rfl, rfl⟩

theorem run_carry (s : Staging) (origin : String) (hdrop : Disposition.dropCause? role entry.path = none)
    (hmatch : s.policy.filter.matching? entry.path = none) :
    (carry role origin entry).run.run s = endOf s (s.process role origin entry) := by
  -- Neither check records anything, so that an error of theirs ends in `s`, and staging starts there.
  have hentry : Disposition.ofEntry s.relocator s.policy role origin entry = _ :=
    Disposition.ofEntry_of_carried hdrop hmatch
  rw [carry, run_get_bind]
  cases hcheck : if role = .dependency then Disposition.requireRelease s.policy entry origin else .ok () with
  | error e =>
    rw [process, hentry, hcheck]
    rfl
  | ok done =>
    cases hrelocate : Disposition.relocate s.relocator s.policy role entry origin with
    | error e =>
      rw [process, hentry, hcheck, hrelocate]
      rfl
    | ok read =>
      obtain ⟨moved, outcome⟩ := read
      rw [hcheck, hrelocate] at hentry
      change Disposition.ofEntry s.relocator s.policy role origin entry =
        .ok (Disposition.ofRelocated s.policy moved outcome) at hentry
      change (excludeMoved? moved outcome >>= fun excluded? => match excluded? with
        | some excluded => pure excluded
        | none => stage moved origin outcome).run.run s = _
      rcases run_excludeMoved? s moved outcome with ⟨pattern, hexcluded, hrun⟩ | ⟨hcontributed, hrun⟩
      · rw [process, hentry, hexcluded]
        exact run_bind_of_ok hrun
      · rw [process, hentry, hcontributed, run_bind_of_ok hrun]
        dsimp only
        rw [run_stage]
        cases s.place moved origin outcome <;> rfl

theorem run_takeIn (s : Staging) (role : Role) (origin : String) (entry : Entry) :
    (takeIn role origin entry).run.run s = endOf s (s.process role origin entry) := by
  rw [takeIn]
  cases hdrop : Disposition.dropCause? role entry.path with
  | some reason =>
    have hprocess : s.process role origin entry = .ok (s, .dropped reason) := by
      simp only [process, Disposition.ofEntry_of_dropped hdrop]
    rw [hprocess]
    rfl
  | none =>
    have hexclude := run_exclude? s entry.path
    cases hmatch : s.policy.filter.matching? entry.path with
    | some pattern =>
      rw [hmatch] at hexclude
      have hprocess : s.process role origin entry = .ok (s.tally pattern, .excluded pattern) := by
        simp only [process, Disposition.ofEntry_of_matched hdrop hmatch]
      rw [hprocess]
      exact run_bind_of_ok hexclude
    | none =>
      rw [hmatch] at hexclude
      exact (run_bind_of_ok hexclude).trans (run_carry s origin hdrop hmatch)

theorem run_takeIn_eq_ok_iff :
    (takeIn role origin entry).run.run s = (.ok outcome, s') ↔ s.process role origin entry = .ok (s', outcome) := by
  rw [run_takeIn]
  exact endOf_eq_ok_iff

/-- An entry fails without a change, wherever it does. -/
theorem run_takeIn_eq_error_iff :
    (takeIn role origin entry).run.run s = (.error failure, s') ↔
      s.process role origin entry = .error failure ∧ s' = s := by
  rw [run_takeIn]
  exact endOf_eq_error_iff

/-- Entries are taken in step by step until the one with index `k` fails, which ends in the state `s'`. -/
inductive FailsAt (role : Role) (origin : String) : Staging → List Entry → Nat → Failure → Staging → Prop
  | here {s s' : Staging} {entry : Entry} {failure : Failure} (entries : List Entry)
    (hfails : (takeIn role origin entry).run.run s = (.error failure, s')) :
    FailsAt role origin s (entry :: entries) 0 failure s'
  | later {s s₁ s' : Staging} {entry : Entry} {entries : List Entry} {outcome : Outcome} {k : Nat} {failure : Failure}
    (htaken : (takeIn role origin entry).run.run s = (.ok outcome, s₁))
    (hrest : FailsAt role origin s₁ entries k failure s') : FailsAt role origin s (entry :: entries) (k + 1) failure s'

theorem failsAt_iff :
    FailsAt role origin s entries k failure s' ↔
      ∃ before entry after outcomes, entries = before ++ entry :: after ∧ before.length = k ∧
        Takes role origin s before outcomes s' ∧ s'.process role origin entry = .error failure := by
  constructor
  · intro hfails
    induction hfails with
    | @here s s' entry failure entries hfails =>
      obtain ⟨hprocess, rfl⟩ := run_takeIn_eq_error_iff.1 hfails
      exact ⟨[], entry, entries, [], rfl, rfl, .nil _, hprocess⟩
    | @later s s₁ s' entry entries outcome k failure htaken _ ih =>
      obtain ⟨before, failed, after, outcomes, rfl, rfl, htakes, hprocess⟩ := ih
      exact ⟨entry :: before, failed, after, outcome :: outcomes, rfl, rfl,
        .cons (run_takeIn_eq_ok_iff.1 htaken) htakes, hprocess⟩
  · rintro ⟨before, entry, after, outcomes, rfl, rfl, htakes, hprocess⟩
    induction htakes with
    | nil s => exact .here after (run_takeIn_eq_error_iff.2 ⟨hprocess, rfl⟩)
    | cons hfirst _ ih => exact .later (run_takeIn_eq_ok_iff.2 hfirst) (ih hprocess)

/-- An archive fails where the steps for one of its entries do. -/
theorem add_eq_error_iff {archive : Archive} {requestedBy : Option String} :
    s.add role archive requestedBy = (s', .error failure) ↔
      ∃ k, FailsAt role archive.label s archive.entries k failure s' := by
  constructor
  · intro hadd
    obtain ⟨before, entry, after, outcomes, hentries, htakes, hprocess⟩ := add_eq_error hadd
    exact ⟨before.length, failsAt_iff.2 ⟨before, entry, after, outcomes, hentries, rfl, htakes, hprocess⟩⟩
  · rintro ⟨k, hfails⟩
    obtain ⟨before, entry, after, outcomes, hentries, -, htakes, hprocess⟩ := failsAt_iff.1 hfails
    exact htakes.add_eq_error hentries hprocess requestedBy

/-- Where an archive fails, the state is that of the archive up to there, but for the summary. -/
theorem FailsAt.exists_add_cut {archive : Archive} (hfails : FailsAt role archive.label s archive.entries k failure s')
    (requestedBy : Option String) :
    ∃ s₁, s.add role (archive.cut k) requestedBy = (s₁, .ok ()) ∧ s' = { s₁ with summaries := s.summaries } := by
  obtain ⟨before, entry, after, outcomes, hentries, rfl, htakes, -⟩ := failsAt_iff.1 hfails
  have hcut : (archive.cut before.length).entries = before := by
    rw [Archive.cut, hentries, List.take_left]
  refine ⟨_, add_eq_ok_iff.2 ⟨outcomes, s', hcut.symm ▸ htakes, rfl⟩, ?_⟩
  rw [← htakes.frame.2.2]

end Staging

/-- An archive fails exactly if the steps for one of its entries do, whatever they have recorded by then. What is
    left of it is what the archive without this entry and those behind it leaves, but for a summary. -/
theorem add_fails_unchanged (s s' : Staging) (role : Role) (archive : Archive) (requestedBy : Option String)
    (failure : Failure) :
    (s.add role archive requestedBy = (s', .error failure) ↔
      ∃ k, Staging.FailsAt role archive.label s archive.entries k failure s') ∧
    ∀ k, Staging.FailsAt role archive.label s archive.entries k failure s' →
      ∃ s₁, s.add role (archive.cut k) requestedBy = (s₁, .ok ()) ∧ s'.staged = s₁.staged ∧ s'.tallies = s₁.tallies ∧
        s'.summaries = s.summaries := by
  refine ⟨Staging.add_eq_error_iff, fun k hfails => ?_⟩
  obtain ⟨s₁, hadd, rfl⟩ := hfails.exists_add_cut requestedBy
  exact ⟨s₁, hadd, rfl, rfl, rfl⟩

/-- The entry with index 3 is moved to the path of another one. Of those before it, one is left out under its own
    path, one under its new path, and one has a place. -/
theorem add_fails_unchanged_at_conflict :
    ∃ rule relocator filter s s' archive failure, Rule.make "a".toList "b".toList = .ok rule ∧
      Relocator.ofRules [rule] = .ok relocator ∧ EntryFilter.parse ["x", "b/Z"] = .ok filter ∧
      (Staging.start relocator { filter }).add .primary ⟨"app", ⟨"app.jar"⟩, [⟨"b/Q", [9]⟩]⟩ none = (s, .ok ()) ∧
      archive = ⟨"one", ⟨"one.jar"⟩, [⟨"x", [1]⟩, ⟨"a/Z", [2]⟩, ⟨"a/Y", [3]⟩, ⟨"a/Q", [4]⟩, ⟨"w", [5]⟩]⟩ ∧
      failure = .conflict ⟨"b/Q", "app", "one"⟩ ∧
      Staging.FailsAt .dependency archive.label s archive.entries 3 failure s' ∧
      s.add .dependency archive none = (s', .error failure) ∧
      (∃ s₁, s.add .dependency (archive.cut 3) none = (s₁, .ok ()) ∧ s'.staged = s₁.staged ∧ s'.tallies = s₁.tallies ∧
        s'.summaries = s.summaries) ∧
      s'.staged.toList = [("b/Q", ⟨[9], "app"⟩), ("b/Y", ⟨[3], "one"⟩)] ∧ s'.tallies.toList = [("b/Z", 1), ("x", 1)] ∧
      s'.summaries.map (·.label) = ["app"] := by
  let relocator : Relocator := ⟨[⟨['a'], ['b'], by decide, by decide, by decide⟩], by simp⟩
  let filter : EntryFilter := ⟨[⟨"x", [.literal 'x']⟩, ⟨"b/Z", [.literal 'b', .literal '/', .literal 'Z']⟩]⟩
  let s := ((Staging.start relocator { filter }).add .primary ⟨"app", ⟨"app.jar"⟩, [⟨"b/Q", [9]⟩]⟩ none).1
  let archive : Archive :=
    ⟨"one", ⟨"one.jar"⟩, [⟨"x", [1]⟩, ⟨"a/Z", [2]⟩, ⟨"a/Y", [3]⟩, ⟨"a/Q", [4]⟩, ⟨"w", [5]⟩]⟩
  let after (entries : List Entry) : Staging :=
    entries.foldl (fun s entry => ((Staging.takeIn .dependency archive.label entry).run.run s).2) s
  let s' := after (archive.entries.take 4)
  have hexcluded : (Staging.takeIn .dependency archive.label ⟨"x", [1]⟩).run.run s =
      (.ok (.excluded "x"), after (archive.entries.take 1)) := eq_of_fst_eq (by decide +kernel)
  have hmoved : (Staging.takeIn .dependency archive.label ⟨"a/Z", [2]⟩).run.run (after (archive.entries.take 1)) =
      (.ok (.excluded "b/Z"), after (archive.entries.take 2)) := eq_of_fst_eq (by decide +kernel)
  have hstaged : (Staging.takeIn .dependency archive.label ⟨"a/Y", [3]⟩).run.run (after (archive.entries.take 2)) =
      (.ok (.relocated true false), after (archive.entries.take 3)) := eq_of_fst_eq (by decide +kernel)
  have hconflict : (Staging.takeIn .dependency archive.label ⟨"a/Q", [4]⟩).run.run (after (archive.entries.take 3)) =
      (.error (.conflict ⟨"b/Q", "app", "one"⟩), s') := eq_of_fst_eq (by decide +kernel)
  have hfails : Staging.FailsAt .dependency archive.label s archive.entries 3 (.conflict ⟨"b/Q", "app", "one"⟩) s' :=
    .later hexcluded (.later hmoved (.later hstaged (.here _ hconflict)))
  obtain ⟨hadd, hcut⟩ := add_fails_unchanged s s' .dependency archive none (.conflict ⟨"b/Q", "app", "one"⟩)
  exact ⟨_, relocator, filter, s, s', archive, _, by decide, rfl, by cbv, rfl, rfl, rfl, hfails, hadd.2 ⟨3, hfails⟩,
    hcut 3 hfails, by decide +kernel, by decide +kernel, by decide +kernel⟩

end UberJar
