import UberJar.Proofs.Merge.Archive
import UberJar.Proofs.Merge.Providers

namespace UberJar

open Relocation

/-- An entry that an archive offers to a merge. -/
structure Offer where
  role : Role
  origin : String
  entry : Entry

/-- An entry under its final path, and the archive that it came from. -/
structure Contribution where
  entry : Entry
  origin : String

def Archive.offers (a : Archive) (role : Role) : List Offer := a.entries.map fun entry => ⟨role, a.label, entry⟩

/-- Whether entries that differ are merged at a path. -/
def MergePolicy.merges (policy : MergePolicy) (path : String) : Bool :=
  policy.mergeServiceFiles && EntryPath.isServiceFile path

theorem MergePolicy.merges_manifest (policy : MergePolicy) : policy.merges EntryPath.manifest = false := by
  rw [merges, show EntryPath.isServiceFile EntryPath.manifest = false by decide, Bool.and_false]

variable {relocator : Relocator} {policy : MergePolicy}

namespace Disposition

def contributed? : Disposition → Option Entry
  | contributed moved _ => some moved
  | _ => none

def excluded? : Disposition → Option String
  | excluded pattern => some pattern
  | _ => none

end Disposition

namespace Offer

def disposition (relocator : Relocator) (policy : MergePolicy) (o : Offer) : Except Failure Disposition :=
  Disposition.ofEntry relocator policy o.role o.origin o.entry

/-- What an offered entry contributes, if it is neither dropped nor excluded. -/
def contribution? (relocator : Relocator) (policy : MergePolicy) (o : Offer) : Option Contribution :=
  ((o.disposition relocator policy).toOption.bind Disposition.contributed?).map (⟨·, o.origin⟩)

/-- The pattern that leaves an offered entry out, if one does. -/
def exclusion? (relocator : Relocator) (policy : MergePolicy) (o : Offer) : Option String :=
  (o.disposition relocator policy).toOption.bind Disposition.excluded?

variable {o : Offer} {disposition : Disposition}

theorem contribution?_of_settled (ho : o.disposition relocator policy = .ok disposition) :
    o.contribution? relocator policy = disposition.contributed?.map (⟨·, o.origin⟩) := by
  rw [contribution?, ho]
  rfl

theorem contribution?_eq_some {c : Contribution} (hc : o.contribution? relocator policy = some c) :
    ∃ outcome, o.disposition relocator policy = .ok (.contributed c.entry outcome) := by
  unfold contribution? at hc
  obtain ⟨moved, hmoved, rfl⟩ := Option.map_eq_some_iff.1 hc
  cases ho : o.disposition relocator policy with
  | error e =>
    rw [ho] at hmoved
    cases hmoved
  | ok disposition =>
    rw [ho] at hmoved
    cases disposition with
    | dropped reason => cases hmoved
    | excluded pattern => cases hmoved
    | contributed given outcome =>
      obtain rfl := Option.some.inj hmoved
      exact ⟨outcome, rfl⟩

theorem exclusion?_of_settled (ho : o.disposition relocator policy = .ok disposition) :
    o.exclusion? relocator policy = disposition.excluded? := by
  rw [exclusion?, ho]
  rfl

end Offer

def contributions (relocator : Relocator) (policy : MergePolicy) (offers : List Offer) : List Contribution :=
  offers.filterMap (·.contribution? relocator policy)

def exclusions (relocator : Relocator) (policy : MergePolicy) (offers : List Offer) : List String :=
  offers.filterMap (·.exclusion? relocator policy)

theorem contributions_concat (offers : List Offer) (o : Offer) :
    contributions relocator policy (offers ++ [o]) =
      contributions relocator policy offers ++ (o.contribution? relocator policy).toList := by
  rw [contributions, List.filterMap_append]
  cases ho : o.contribution? relocator policy <;> simp [contributions, ho]

theorem contributions_split {before after : List Offer} {o : Offer} {c : Contribution}
    (hc : o.contribution? relocator policy = some c) :
    contributions relocator policy (before ++ o :: after) =
      contributions relocator policy before ++ c :: contributions relocator policy after := by
  rw [contributions, List.filterMap_append, List.filterMap_cons_some hc]
  rfl

theorem exclusions_concat (offers : List Offer) (o : Offer) :
    exclusions relocator policy (offers ++ [o]) =
      exclusions relocator policy offers ++ (o.exclusion? relocator policy).toList := by
  rw [exclusions, List.filterMap_append]
  cases ho : o.exclusion? relocator policy <;> simp [exclusions, ho]

/-- Contributions that differ at one path, where they are not merged. -/
def Clash (policy : MergePolicy) (a b : Contribution) : Prop :=
  a.entry.path = b.entry.path ∧ a.entry.data ≠ b.entry.data ∧ policy.merges a.entry.path = false

/-- The earliest contribution at a path. -/
def earliest? (row : List Contribution) (path : String) : Option Contribution := row.find? (·.entry.path == path)

theorem map_origin_earliest?_concat (row : List Contribution) (c : Contribution) (path : String) :
    (earliest? (row ++ [c]) path).map (·.origin) =
      ((earliest? row path).map (·.origin)).or (if c.entry.path = path then some c.origin else none) := by
  rw [earliest?, earliest?, List.find?_append, Option.map_or]
  by_cases hpath : c.entry.path = path <;> simp [hpath]

theorem earliest?_eq_none {row : List Contribution} {path : String} (hnone : earliest? row path = none) :
    ∀ c ∈ row, c.entry.path ≠ path := by
  intro c hc hpath
  exact List.find?_eq_none.1 hnone c hc (beq_iff_eq.2 hpath)

theorem earliest?_eq_some {row : List Contribution} {path : String} {c : Contribution}
    (hsome : earliest? row path = some c) : c ∈ row ∧ c.entry.path = path := by
  unfold earliest? at hsome
  exact ⟨List.mem_of_find?_eq_some hsome, beq_iff_eq.1 (List.find?_some hsome :)⟩

namespace Staging

variable {s s' : Staging} {row : List Contribution} {entry : Entry} {origin : String} {outcome outcome' : Outcome}

/-- The staged entries are what a row of contributions comes to. -/
structure Reflects (s : Staging) (row : List Contribution) : Prop where
  origin : ∀ path, (s.staged[path]?).map (·.origin) = (earliest? row path).map (·.origin)
  data : ∀ c ∈ row, s.policy.merges c.entry.path = false → s.Holds c.entry
  providers : ∀ path staged, s.staged[path]? = some staged → ∀ name,
    name ∈ Services.providers staged.data ↔ ∃ c ∈ row, c.entry.path = path ∧ name ∈ Services.providers c.entry.data

theorem getElem?_staged_start (path : String) : (start relocator policy).staged[path]? = none :=
  Std.TreeMap.getElem?_emptyc

theorem reflects_start : (start relocator policy).Reflects [] where
  origin path := by
    rw [getElem?_staged_start]
    rfl
  data c hc := by cases hc
  providers path staged hstaged := by
    rw [getElem?_staged_start] at hstaged
    cases hstaged

theorem Reflects.tally (hreflects : s.Reflects row) (pattern : String) : (s.tally pattern).Reflects row :=
  ⟨hreflects.origin, hreflects.data, hreflects.providers⟩

theorem Reflects.summarize (hreflects : s.Reflects row) (summaries : List Summary) :
    Reflects { s with summaries } row :=
  ⟨hreflects.origin, hreflects.data, hreflects.providers⟩

theorem Reflects.exists_staged (hreflects : s.Reflects row) {c : Contribution} (hc : c ∈ row) :
    ∃ staged, s.staged[c.entry.path]? = some staged := by
  rw [← Option.ne_none_iff_exists']
  intro hnone
  have horigin := hreflects.origin c.entry.path
  rw [hnone, Option.map_none, eq_comm, Option.map_eq_none_iff] at horigin
  exact earliest?_eq_none horigin c hc rfl

theorem Reflects.isSome_iff (hreflects : s.Reflects row) {path : String} :
    (s.staged[path]?).isSome = true ↔ ∃ c ∈ row, c.entry.path = path := by
  constructor
  · intro hsome
    rw [← Option.isSome_map, hreflects.origin, Option.isSome_map, Option.isSome_iff_exists] at hsome
    obtain ⟨c, hc⟩ := hsome
    exact ⟨c, earliest?_eq_some hc⟩
  · rintro ⟨c, hc, rfl⟩
    obtain ⟨staged, hstaged⟩ := hreflects.exists_staged hc
    rw [hstaged]
    rfl

/-- Where entries are not merged, a place has the bytes of the first contribution there. -/
theorem Reflects.data_earliest? (hreflects : s.Reflects row) {path : String} (hmerges : s.policy.merges path = false) :
    (s.staged[path]?).map (·.data) = (earliest? row path).map (·.entry.data) := by
  cases hfirst : earliest? row path with
  | none =>
    have horigin := hreflects.origin path
    rw [hfirst, Option.map_none, Option.map_eq_none_iff] at horigin
    rw [horigin]
    rfl
  | some first =>
    obtain ⟨hmem, hpath⟩ := earliest?_eq_some hfirst
    obtain ⟨origin, hheld⟩ := hreflects.data first hmem (hpath ▸ hmerges)
    rw [← hpath, hheld]
    rfl

theorem Reflects.not_clash (hreflects : s.Reflects row) {a b : Contribution} (ha : a ∈ row) (hb : b ∈ row) :
    ¬Clash s.policy a b := by
  rintro ⟨hpath, hdata, hmerges⟩
  have hsame := (hreflects.data a ha hmerges).unique (hreflects.data b hb (hpath ▸ hmerges)) hpath
  exact hdata (congrArg Entry.data hsame)

theorem Reflects.insert (hreflects : s.Reflects row) {staged : StagedEntry}
    (horigin : staged.origin = ((s.staged[entry.path]?).map (·.origin)).getD origin)
    (hdata : s.policy.merges entry.path = false → s.staged[entry.path]? = none ∧ staged.data = entry.data)
    (hproviders : ∀ name, name ∈ Services.providers staged.data ↔
      (∃ existing, s.staged[entry.path]? = some existing ∧ name ∈ Services.providers existing.data) ∨
        name ∈ Services.providers entry.data) :
    Reflects { s with staged := s.staged.insert entry.path staged } (row ++ [⟨entry, origin⟩]) := by
  constructor
  · intro path
    rw [map_origin_earliest?_concat, ← hreflects.origin, getElem?_insert]
    by_cases hpath : entry.path = path
    · rw [if_pos hpath, if_pos hpath, ← hpath, Option.map_some, horigin]
      cases s.staged[entry.path]? <;> rfl
    · rw [if_neg hpath, if_neg hpath, Option.or_none]
  · intro c hc hmerges
    rcases List.mem_append.1 hc with hc | hc
    · -- Without merging, the new entry went to a free place, which is not that of an earlier one.
      obtain ⟨origin', hheld⟩ := hreflects.data c hc hmerges
      have hpath : entry.path ≠ c.entry.path := by
        intro hpath
        rw [← hpath] at hmerges hheld
        rw [(hdata hmerges).1] at hheld
        cases hheld
      exact ⟨origin', by rw [getElem?_insert, if_neg hpath, hheld]⟩
    · obtain rfl := List.mem_singleton.1 hc
      exact ⟨staged.origin, by rw [getElem?_insert, if_pos rfl, ← (hdata hmerges).2]⟩
  · intro path found hfound name
    simp only [List.mem_append, List.mem_singleton, or_and_right, exists_or, exists_eq_left]
    rw [getElem?_insert] at hfound
    by_cases hpath : entry.path = path
    · rw [if_pos hpath, Option.some.injEq] at hfound
      rw [← hfound, hproviders, ← hpath]
      refine or_congr ?_ (and_iff_right rfl).symm
      constructor
      · rintro ⟨existing, hexisting, hname⟩
        exact (hreflects.providers _ _ hexisting name).1 hname
      · rintro ⟨c, hc, hsame, hname⟩
        obtain ⟨existing, hexisting⟩ := hreflects.exists_staged hc
        rw [hsame] at hexisting
        exact ⟨existing, hexisting, (hreflects.providers _ _ hexisting name).2 ⟨c, hc, hsame, hname⟩⟩
    · rw [if_neg hpath] at hfound
      rw [hreflects.providers path found hfound name, or_iff_left fun h => hpath h.1]

/-- A contribution that repeats what is staged changes nothing. -/
theorem Reflects.repeat (hreflects : s.Reflects row) {existing : StagedEntry}
    (hexisting : s.staged[entry.path]? = some existing) (hdata : existing.data = entry.data) :
    s.Reflects (row ++ [⟨entry, origin⟩]) := by
  constructor
  · intro path
    rw [map_origin_earliest?_concat, ← hreflects.origin]
    by_cases hpath : entry.path = path
    · rw [← hpath, hexisting]
      rfl
    · rw [if_neg hpath, Option.or_none]
  · intro c hc hmerges
    rcases List.mem_append.1 hc with hc | hc
    · exact hreflects.data c hc hmerges
    · obtain rfl := List.mem_singleton.1 hc
      exact ⟨existing.origin, hdata ▸ hexisting⟩
  · intro path found hfound name
    simp only [List.mem_append, List.mem_singleton, or_and_right, exists_or, exists_eq_left]
    rw [hreflects.providers path found hfound name, iff_self_or]
    rintro ⟨rfl, hname⟩
    rw [hexisting, Option.some.injEq] at hfound
    rw [← hreflects.providers _ existing hexisting, hdata]
    exact hname

theorem Reflects.place (hreflects : s.Reflects row) (hplace : s.place entry origin outcome = .ok (s', outcome')) :
    s'.Reflects (row ++ [⟨entry, origin⟩]) := by
  rcases place_eq_ok hplace with ⟨hfree, -, rfl⟩ | ⟨existing, hexisting, hsame, -, rfl⟩ |
    ⟨existing, hexisting, -, hmerge, hservice, -, rfl⟩
  · refine hreflects.insert ?_ (fun _ => ⟨hfree, rfl⟩) fun name => ?_
    · rw [hfree]
      rfl
    · simp [hfree]
  · exact hreflects.repeat hexisting hsame
  · refine hreflects.insert ?_ (fun hmerges => ?_) fun name => ?_
    · rw [hexisting]
      rfl
    · rw [MergePolicy.merges, hmerge, hservice] at hmerges
      cases hmerges
    · simp only [Services.mem_providers_merge, hexisting, Option.some.injEq, exists_eq_left']

theorem place_eq_error {conflict : Conflict} (hplace : s.place entry origin outcome = .error conflict) :
    ∃ existing, s.staged[entry.path]? = some existing ∧ existing.data ≠ entry.data ∧
      s.policy.merges entry.path = false ∧ conflict = ⟨entry.path, existing.origin, origin⟩ := by
  unfold Staging.place at hplace
  cases hfound : s.staged[entry.path]? with
  | none => simp [hfound] at hplace
  | some existing =>
    by_cases hsame : existing.data = entry.data
    · simp [hfound, hsame] at hplace
    · have hmerge : (s.policy.mergeServiceFiles && EntryPath.isServiceFile entry.path) = s.policy.merges entry.path :=
        rfl
      cases hmerges : s.policy.merges entry.path with
      | true =>
        simp only [hfound, if_neg hsame, hmerge, hmerges, if_true] at hplace
        cases hplace
      | false =>
        simp only [hfound, if_neg hsame, hmerge, hmerges, Bool.false_eq_true, if_false, Except.error.injEq] at hplace
        exact ⟨existing, rfl, hsame, rfl, hplace.symm⟩

/-- A contribution is refused if it clashes with the earliest one at its path. -/
theorem Reflects.place_error (hreflects : s.Reflects row) {conflict : Conflict}
    (hplace : s.place entry origin outcome = .error conflict) :
    ∃ first, earliest? row entry.path = some first ∧ Clash s.policy first ⟨entry, origin⟩ ∧
      conflict = ⟨entry.path, first.origin, origin⟩ := by
  obtain ⟨existing, hexisting, hdata, hmerges, rfl⟩ := place_eq_error hplace
  have horigin := hreflects.origin entry.path
  rw [hexisting, Option.map_some, eq_comm, Option.map_eq_some_iff] at horigin
  obtain ⟨first, hfirst, horigin⟩ := horigin
  -- Nothing was merged at this path, so that the first contribution has the staged bytes.
  obtain ⟨hmem, hpath⟩ := earliest?_eq_some hfirst
  obtain ⟨origin', hheld⟩ := hreflects.data first hmem (hpath ▸ hmerges)
  rw [hpath, hexisting, Option.some.injEq] at hheld
  refine ⟨first, hfirst, ⟨hpath, ?_, hpath ▸ hmerges⟩, by rw [horigin]⟩
  intro hsame
  rw [hheld] at hdata
  exact hdata hsame

end Staging
end UberJar
