import UberJar.Proofs.Merge.Additions

namespace UberJar

open Relocation

/-- An entry that a merge took in, and what became of it. -/
structure Taken where
  offer : Offer
  outcome : Outcome

namespace Staging

variable {relocator : Relocator} {policy : MergePolicy} {s s₁ s₂ : Staging} {row row' : List Taken}

/-- The entries that a merge takes in, up to the first that fails. -/
def takenOf (role : Role) (origin : String) (s : Staging) : List Entry → List Taken
  | [] => []
  | entry :: rest =>
    match s.process role origin entry with
    | .error _ => []
    | .ok (s, outcome) => ⟨⟨role, origin, entry⟩, outcome⟩ :: takenOf role origin s rest

/-- Adds archives one after the other. One that fails leaves in the merge what it brought in before. -/
def addEach (s : Staging) (additions : List Addition) : Staging :=
  additions.foldl (fun s a => (s.add a.role a.archive a.requestedBy).1) s

/-- What the archives of a merge bring in. -/
def history (s : Staging) : List Addition → List Taken
  | [] => []
  | a :: additions =>
    takenOf a.role a.archive.label s a.archive.entries ++ history (s.add a.role a.archive a.requestedBy).1 additions

/-- A later state of a merge, with what was taken in between. -/
inductive Reaches (s : Staging) : List Taken → Staging → Prop
  | refl : Reaches s [] s
  | process {row : List Taken} {s₁ s₂ : Staging} {o : Offer} {outcome : Outcome} (hreaches : Reaches s row s₁)
    (hprocess : s₁.process o.role o.origin o.entry = .ok (s₂, outcome)) : Reaches s (row ++ [⟨o, outcome⟩]) s₂
  | summarize {row : List Taken} {s₁ : Staging} (hreaches : Reaches s row s₁) (summaries : List Summary) :
    Reaches s row { s₁ with summaries }

theorem Reaches.trans (hfirst : s.Reaches row s₁) (hsecond : s₁.Reaches row' s₂) : s.Reaches (row ++ row') s₂ := by
  induction hsecond with
  | refl => simpa using hfirst
  | process _ hprocess ih =>
    rw [← List.append_assoc]
    exact ih.process hprocess
  | summarize _ summaries ih => exact ih.summarize summaries

section Entries

variable {role : Role} {origin : String} {entry : Entry} {entries : List Entry}

theorem takenOf_of_error {failure : Failure} (hprocess : s.process role origin entry = .error failure) :
    takenOf role origin s (entry :: entries) = [] := by
  unfold takenOf
  simp only [hprocess]

theorem takenOf_of_ok {outcome : Outcome} (hprocess : s.process role origin entry = .ok (s₁, outcome)) :
    takenOf role origin s (entry :: entries) =
      ⟨⟨role, origin, entry⟩, outcome⟩ :: takenOf role origin s₁ entries := by
  conv =>
    lhs
    unfold takenOf
  simp only [hprocess]

theorem reaches_processAll {summary : Summary} {result : Except Failure Summary}
    (hall : processAll role origin s summary entries = (s₁, result)) :
    s.Reaches (takenOf role origin s entries) s₁ := by
  induction entries generalizing s summary with
  | nil =>
    obtain ⟨rfl, -⟩ := Prod.mk.inj hall
    exact .refl
  | cons entry entries ih =>
    cases hprocess : s.process role origin entry with
    | error e =>
      rw [processAll_of_error hprocess] at hall
      obtain ⟨rfl, -⟩ := Prod.mk.inj hall
      rw [takenOf_of_error hprocess]
      exact .refl
    | ok step =>
      obtain ⟨next, outcome⟩ := step
      rw [processAll_of_ok hprocess] at hall
      rw [takenOf_of_ok hprocess]
      exact (Reaches.refl.process (o := ⟨role, origin, entry⟩) hprocess).trans (ih hall)

theorem Takes.map_offer {outcomes : List Outcome} (htakes : Takes role origin s entries outcomes s₁) :
    (takenOf role origin s entries).map (·.offer) = entries.map (⟨role, origin, ·⟩) := by
  induction htakes with
  | nil s => rfl
  | cons hprocess _ ih => rw [takenOf_of_ok hprocess, List.map_cons, List.map_cons, ih]

end Entries

theorem reaches_add (s : Staging) (a : Addition) :
    s.Reaches (takenOf a.role a.archive.label s a.archive.entries) (s.add a.role a.archive a.requestedBy).1 := by
  cases hall : processAll a.role a.archive.label s (openSummary a.role a.archive a.requestedBy) a.archive.entries with
  | mk next result =>
    unfold openSummary at hall
    cases result with
    | error e =>
      simp only [add, hall]
      exact reaches_processAll hall
    | ok summary =>
      simp only [add, hall]
      exact (reaches_processAll hall).summarize _

/-- Archives that were added lead from state to state, whether they failed or not. -/
theorem reaches_addEach (s : Staging) (additions : List Addition) :
    s.Reaches (s.history additions) (s.addEach additions) := by
  induction additions generalizing s with
  | nil => exact .refl
  | cons a additions ih => exact (s.reaches_add a).trans (ih _)

theorem Reaches.frame (hreaches : s.Reaches row s₁) : s₁.relocator = s.relocator ∧ s₁.policy = s.policy := by
  induction hreaches with
  | refl => exact ⟨rfl, rfl⟩
  | process _ hprocess ih =>
    obtain ⟨hrelocator, hpolicy, -⟩ := process_frame hprocess
    exact ⟨hrelocator.trans ih.1, hpolicy.trans ih.2⟩
  | summarize _ _ ih => exact ih

theorem HasTaken.reaches {offers : List Offer} (htaken : HasTaken relocator policy offers s)
    (hreaches : s.Reaches row s₁) : HasTaken relocator policy (offers ++ row.map (·.offer)) s₁ := by
  induction hreaches with
  | refl => simpa using htaken
  | process _ hprocess ih =>
    rw [List.map_append, ← List.append_assoc]
    exact ih.process hprocess
  | summarize _ summaries ih =>
    exact ⟨ih.relocator_eq, ih.policy_eq, ih.settled, ih.reflects.summarize summaries, ih.tallies⟩

theorem Reaches.hasTaken (hreaches : (start relocator policy).Reaches row s) :
    HasTaken relocator policy (row.map (·.offer)) s :=
  (hasTaken_start relocator policy).reaches hreaches

/-- An archive that does not fail brings in all its entries. -/
theorem map_offer_of_add {role : Role} {archive : Archive} {requestedBy : Option String}
    (hadd : s.add role archive requestedBy = (s₁, .ok ())) :
    (takenOf role archive.label s archive.entries).map (·.offer) = archive.offers role := by
  obtain ⟨outcomes, s₂, htakes, -⟩ := add_eq_ok_iff.1 hadd
  exact htakes.map_offer

theorem addEach_of_addAll {additions : List Addition} (hall : s.addAll additions = .ok s₁) :
    s.addEach additions = s₁ ∧ (s.history additions).map (·.offer) = additions.flatMap Addition.offers := by
  induction additions generalizing s with
  | nil => exact ⟨Except.ok.inj hall, rfl⟩
  | cons a additions ih =>
    obtain ⟨next, hadd, hrest⟩ := addAll_cons_eq_ok_iff.1 hall
    obtain ⟨hstate, hoffers⟩ := ih hrest
    rw [addEach, List.foldl_cons, history, List.map_append, map_offer_of_add hadd, List.flatMap_cons, hadd]
    exact ⟨hstate, congrArg (a.offers ++ ·) hoffers⟩

end Staging
end UberJar
