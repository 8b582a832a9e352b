import UberJar.Proofs.Merge.History
import UberJar.Proofs.Merge.Jar

namespace UberJar

open Relocation

variable {relocator : Relocator} {policy : MergePolicy}

/-- The providers in what was contributed to a path, in the order of the contributions. -/
def namedAt (row : List Contribution) (path : String) : List (List Char) :=
  (row.filter (·.entry.path == path)).flatMap (Services.providers ·.entry.data)

/-- What was taken in was merged into the file at a path. -/
def Taken.MergesInto (relocator : Relocator) (policy : MergePolicy) (taken : Taken) (path : String) : Prop :=
  taken.outcome = .serviceMerged ∧ ∃ c ∈ taken.offer.contribution? relocator policy, c.entry.path = path

instance (taken : Taken) (path : String) : Decidable (taken.MergesInto relocator policy path) :=
  inferInstanceAs (Decidable (_ ∧ _))

theorem namedAt_concat_self (row : List Contribution) (c : Contribution) :
    namedAt (row ++ [c]) c.entry.path = namedAt row c.entry.path ++ Services.providers c.entry.data := by
  simp [namedAt]

theorem namedAt_concat_of_ne (row : List Contribution) {c : Contribution} {path : String}
    (hpath : path ≠ c.entry.path) : namedAt (row ++ [c]) path = namedAt row path := by
  simp [namedAt, hpath.symm]

namespace Staging

variable {s s' : Staging} {row : List Contribution} {o : Offer} {c : Contribution} {given outcome : Outcome}

/-- The staged files name the providers of a row of contributions, those that came first in front. -/
def Names (s : Staging) (row : List Contribution) : Prop :=
  ∀ path staged, s.staged[path]? = some staged →
    (Services.providers staged.data).eraseDups = (namedAt row path).eraseDups

/-- A contribution changes its own place only. A free place gets its bytes; in a place that is taken it repeats what is
    there, or it is merged with that. -/
theorem place_lookup (hplace : s.place c.entry c.origin given = .ok (s', outcome)) :
    (∀ path, path ≠ c.entry.path → s'.staged[path]? = s.staged[path]?) ∧
      ∃ staged, s'.staged[c.entry.path]? = some staged ∧
        (s.staged[c.entry.path]? = none ∧ staged.data = c.entry.data ∧ outcome = given ∨
          ∃ existing, s.staged[c.entry.path]? = some existing ∧
            (existing.data = c.entry.data ∧ staged = existing ∧ outcome = .duplicate ∨
              staged.data = Services.merge existing.data c.entry.data ∧ outcome = .serviceMerged)) := by
  rcases place_eq_ok hplace with ⟨hfree, houtcome, rfl⟩ | ⟨existing, hexisting, hsame, houtcome, rfl⟩ |
    ⟨existing, hexisting, -, -, -, houtcome, rfl⟩
  · exact ⟨fun path hpath => by rw [getElem?_insert, if_neg hpath.symm],
      _, by rw [getElem?_insert, if_pos rfl], .inl ⟨hfree, rfl, houtcome⟩⟩
  · exact ⟨fun _ _ => rfl, existing, hexisting, .inr ⟨existing, hexisting, .inl ⟨hsame, rfl, houtcome⟩⟩⟩
  · exact ⟨fun path hpath => by rw [getElem?_insert, if_neg hpath.symm],
      _, by rw [getElem?_insert, if_pos rfl], .inr ⟨existing, hexisting, .inr ⟨rfl, houtcome⟩⟩⟩

/-- An entry that is taken in contributes nothing, or what it contributes gets its place. -/
theorem process_contribution (hprocess : s.process o.role o.origin o.entry = .ok (s', outcome)) :
    (o.contribution? s.relocator s.policy = none ∧ s'.staged = s.staged) ∨
      ∃ c given, o.contribution? s.relocator s.policy = some c ∧ given.takesPlace = true ∧
        s.place c.entry c.origin given = .ok (s', outcome) := by
  rcases process_eq_ok hprocess with ⟨reason, ho, -, rfl⟩ | ⟨pattern, ho, -, rfl⟩ | ⟨moved, given, ho, hplace⟩
  · exact .inl ⟨Offer.contribution?_of_settled ho, rfl⟩
  · exact .inl ⟨Offer.contribution?_of_settled ho, rfl⟩
  · exact .inr ⟨⟨moved, o.origin⟩, given, Offer.contribution?_of_settled ho,
      Disposition.takesPlace_of_contributed ho, hplace⟩

/-- What holds before anything is staged, depends on what is staged only, and is kept by each placement, holds of every
    state of a merge and all that was contributed up to there. -/
theorem Reaches.placements {P : Staging → List Contribution → Prop} (hstart : P (start relocator policy) [])
    (hstaged : ∀ {s s' : Staging} {row}, P s row → s'.staged = s.staged → P s' row)
    (hplace : ∀ {s s' : Staging} {row c given outcome}, P s row → s.Reflects row →
      s.place c.entry c.origin given = .ok (s', outcome) → P s' (row ++ [c]))
    {taken : List Taken} (hreaches : (start relocator policy).Reaches taken s) :
    P s (contributions relocator policy (taken.map (·.offer))) := by
  induction hreaches with
  | refl => exact hstart
  | @process taken s₁ s₂ o outcome hreaches hprocess ih =>
    have htaken := hreaches.hasTaken
    have hcontribution := process_contribution hprocess
    rw [htaken.relocator_eq, htaken.policy_eq] at hcontribution
    rw [List.map_append, List.map_singleton, contributions_concat]
    rcases hcontribution with ⟨hnone, hsame⟩ | ⟨c, given, hc, -, hplaced⟩
    · rw [hnone, Option.toList_none, List.append_nil]
      exact hstaged ih hsame
    · rw [hc]
      exact hplace ih htaken.reflects hplaced
  | summarize _ _ ih => exact hstaged ih rfl

theorem Names.place (hnames : s.Names row) (hreflects : s.Reflects row)
    (hplace : s.place c.entry c.origin given = .ok (s', outcome)) : s'.Names (row ++ [c]) := by
  obtain ⟨hothers, staged, hstaged, hcases⟩ := place_lookup hplace
  intro path found hfound
  by_cases hpath : path = c.entry.path
  · subst hpath
    rw [hstaged, Option.some.injEq] at hfound
    rw [← hfound, namedAt_concat_self]
    rcases hcases with ⟨hfree, hdata, -⟩ | ⟨existing, hexisting, hcases⟩
    · have hnone : namedAt row c.entry.path = [] := by
        have hearlier := hreflects.origin c.entry.path
        rw [hfree, Option.map_none, eq_comm, Option.map_eq_none_iff] at hearlier
        rw [namedAt, List.filter_eq_nil_iff.2 fun b hb => by simpa using earliest?_eq_none hearlier b hb,
          List.flatMap_nil]
      rw [hdata, hnone, List.nil_append]
    · -- What the file names so far may be put for what was contributed so far.
      rw [← eraseDups_append_congr (hnames _ existing hexisting)]
      rcases hcases with ⟨hsame, rfl, -⟩ | ⟨hdata, -⟩
      · rw [hsame, eraseDups_append_of_subset (List.Subset.refl _)]
      · rw [hdata, Services.providers_merge, eraseDups_of_nodup (nodup_eraseDups _)]
  · rw [hothers path hpath] at hfound
    rw [namedAt_concat_of_ne row hpath]
    exact hnames path found hfound

theorem Reaches.names {taken : List Taken} (hreaches : (start relocator policy).Reaches taken s) :
    s.Names (contributions relocator policy (taken.map (·.offer))) := by
  refine hreaches.placements (fun path staged hstaged => ?_) (fun hnames hsame path staged hstaged => ?_)
    fun hnames hreflects hplace => hnames.place hreflects hplace
  · rw [getElem?_staged_start] at hstaged
    cases hstaged
  · exact hnames path staged (hsame ▸ hstaged)

/-- A file that is a plain list stays one. -/
theorem isListing_process (hprocess : s.process o.role o.origin o.entry = .ok (s', outcome)) {path : String}
    {staged : StagedEntry} (hstaged : s.staged[path]? = some staged) (hlisting : Services.IsListing staged.data) :
    ∃ staged', s'.staged[path]? = some staged' ∧ Services.IsListing staged'.data := by
  rcases process_contribution hprocess with ⟨-, hsame⟩ | ⟨c, given, -, -, hplace⟩
  · exact ⟨staged, hsame ▸ hstaged, hlisting⟩
  · obtain ⟨hothers, staged', hstaged', hcases⟩ := place_lookup hplace
    by_cases hpath : path = c.entry.path
    · subst hpath
      refine ⟨staged', hstaged', ?_⟩
      rcases hcases with ⟨hfree, -⟩ | ⟨existing, hexisting, ⟨-, rfl, -⟩ | ⟨hdata, -⟩⟩
      · rw [hfree] at hstaged
        cases hstaged
      · rw [hexisting, Option.some.injEq] at hstaged
        exact hstaged ▸ hlisting
      · exact hdata ▸ Services.isListing_merge _ _
    · exact ⟨staged, (hothers path hpath).trans hstaged, hlisting⟩

theorem Reaches.isListing {row : List Taken} (hreaches : s.Reaches row s') {taken : Taken} (htaken : taken ∈ row)
    {path : String} (hmerges : taken.MergesInto s.relocator s.policy path) :
    ∃ staged, s'.staged[path]? = some staged ∧ Services.IsListing staged.data := by
  induction hreaches with
  | refl => cases htaken
  | @process row s₁ s₂ o outcome hreaches hprocess ih =>
    rcases List.mem_append.1 htaken with htaken | htaken
    · obtain ⟨staged, hstaged, hlisting⟩ := ih htaken
      exact isListing_process hprocess hstaged hlisting
    · obtain rfl := List.mem_singleton.1 htaken
      obtain ⟨rfl, c, hc, rfl⟩ := hmerges
      obtain ⟨hrelocator, hpolicy⟩ := hreaches.frame
      rw [← hrelocator, ← hpolicy, Option.mem_def] at hc
      rcases process_contribution hprocess with ⟨hnone, -⟩ | ⟨c', given, hc', hplaces, hplace⟩
      · rw [hnone] at hc
        cases hc
      · obtain rfl := Option.some.inj (hc.symm.trans hc')
        obtain ⟨-, staged, hstaged, ⟨-, -, houtcome⟩ | ⟨existing, -, ⟨-, -, houtcome⟩ | ⟨hdata, -⟩⟩⟩ :=
          place_lookup hplace
        · cases houtcome ▸ hplaces
        · cases houtcome
        · exact ⟨staged, hstaged, hdata ▸ Services.isListing_merge _ _⟩
  | summarize _ _ ih => exact ih htaken

end Staging

open Staging in
/-- A service file of the jar names the providers of all that was contributed to it, in the order in which they first
    came; and if something was merged into it, it names each once and in a line of its own, without comments. -/
theorem serviceFile_names_contributed {additions : List Addition} {s : Staging}
    (hall : (start relocator policy).addAll additions = .ok s) {file : Entry} (hfile : file ∈ s.finish.entries)
    (hservice : EntryPath.isServiceFile file.path = true) :
    (Services.providers file.data).eraseDups =
        (namedAt (contributions relocator policy (additions.flatMap Addition.offers)) file.path).eraseDups ∧
      ((∃ taken ∈ (start relocator policy).history additions, taken.MergesInto relocator policy file.path) →
        Services.IsListing file.data) := by
  obtain ⟨rfl, hoffers⟩ := addEach_of_addAll hall
  have hreaches := (start relocator policy).reaches_addEach additions
  have hother : file ∈ ((start relocator policy).addEach additions).others := by
    rw [finish_entries, List.mem_cons] at hfile
    refine hfile.resolve_left ?_
    rintro rfl
    change EntryPath.isServiceFile EntryPath.manifest = true at hservice
    exact absurd hservice (by decide)
  obtain ⟨origin, hstaged⟩ := (mem_others_iff.1 hother).2
  constructor
  · rw [← hoffers]
    exact hreaches.names file.path _ hstaged
  · rintro ⟨taken, htaken, hmerges⟩
    obtain ⟨staged, hfound, hlisting⟩ := hreaches.isListing htaken hmerges
    rw [hstaged, Option.some.injEq] at hfound
    rwa [← hfound] at hlisting

/-- A provider with a comment behind it, and a dependency that names two in a file that moves to the same place; the
    third archive repeats what the two came to. -/
theorem serviceFile_names_contributed_moved :
    ∃ rule relocator additions s, Rule.make "a".toList "b".toList = .ok rule ∧
      Relocator.ofRules [rule] = .ok relocator ∧ additions =
        [⟨.primary, ⟨"app", ⟨"app.jar"⟩, [⟨"META-INF/services/b.S", [112, 32, 35, 99]⟩]⟩, none⟩,
        ⟨.dependency, ⟨"one", ⟨"one.jar"⟩, [⟨"META-INF/services/a.S", [97, 46, 81, 10, 112, 10]⟩]⟩, none⟩,
        ⟨.dependency, ⟨"two", ⟨"two.jar"⟩, [⟨"META-INF/services/b.S", [112, 10, 98, 46, 81, 10]⟩]⟩, none⟩] ∧
      (Staging.start relocator { mergeServiceFiles := true }).addAll additions = .ok s ∧
      ⟨"META-INF/services/b.S", [112, 10, 98, 46, 81, 10]⟩ ∈ s.finish.entries ∧
      EntryPath.isServiceFile "META-INF/services/b.S" = true ∧
      namedAt (contributions relocator { mergeServiceFiles := true } (additions.flatMap Addition.offers))
        "META-INF/services/b.S" = ["p".toList, "b.Q".toList, "p".toList, "p".toList, "b.Q".toList] ∧
      (Services.providers [112, 10, 98, 46, 81, 10]).eraseDups =
        ["p".toList, "b.Q".toList, "p".toList, "p".toList, "b.Q".toList].eraseDups ∧
      (∃ taken ∈ (Staging.start relocator { mergeServiceFiles := true }).history additions,
        taken.MergesInto relocator { mergeServiceFiles := true } "META-INF/services/b.S") ∧
      Services.IsListing [112, 10, 98, 46, 81, 10] := by
  let relocator : Relocator := ⟨[⟨['a'], ['b'], by decide, by decide, by decide⟩], by simp⟩
  let additions : List Addition :=
    [⟨.primary, ⟨"app", ⟨"app.jar"⟩, [⟨"META-INF/services/b.S", [112, 32, 35, 99]⟩]⟩, none⟩,
      ⟨.dependency, ⟨"one", ⟨"one.jar"⟩, [⟨"META-INF/services/a.S", [97, 46, 81, 10, 112, 10]⟩]⟩, none⟩,
      ⟨.dependency, ⟨"two", ⟨"two.jar"⟩, [⟨"META-INF/services/b.S", [112, 10, 98, 46, 81, 10]⟩]⟩, none⟩]
  have hmerged : ((Staging.start relocator { mergeServiceFiles := true }).addAll additions).toOption.any
      (⟨"META-INF/services/b.S", [112, 10, 98, 46, 81, 10]⟩ ∈ ·.finish.entries) = true := by decide +kernel
  obtain ⟨s, hall, hread⟩ := exists_ok_of_any hmerged
  have hfile := of_decide_eq_true hread
  obtain ⟨hnames, hlisting⟩ := serviceFile_names_contributed hall hfile (by decide)
  have hnamed : namedAt (contributions relocator { mergeServiceFiles := true } (additions.flatMap Addition.offers))
      "META-INF/services/b.S" = ["p".toList, "b.Q".toList, "p".toList, "p".toList, "b.Q".toList] := by decide +kernel
  have hmerges : ∃ taken ∈ (Staging.start relocator { mergeServiceFiles := true }).history additions,
      taken.MergesInto relocator { mergeServiceFiles := true } "META-INF/services/b.S" := by
    decide +kernel
  rw [hnamed] at hnames
  exact ⟨_, relocator, additions, s, by decide, rfl, rfl, hall, hfile, by decide, hnamed, hnames, hmerges,
    hlisting hmerges⟩

end UberJar
