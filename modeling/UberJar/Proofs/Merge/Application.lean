import UberJar.Proofs.Merge.History
import UberJar.Proofs.Merge.Jar

namespace UberJar

open Relocation

variable {relocator : Relocator} {policy : MergePolicy} {entry : Entry} {origin : String}

/-- A file of a jar that an entry became: it has the bytes of the entry or, where files are merged, all providers that
    the entry names. -/
structure MergePolicy.StandsFor (policy : MergePolicy) (file entry : Entry) : Prop where
  path : file.path = entry.path
  data : file.data = entry.data ∨
    policy.merges entry.path = true ∧ Services.providers entry.data ⊆ Services.providers file.data

/-- Entries of the application are contributed as they are. -/
theorem Disposition.ofEntry_primary (hstays : policy.relocatePrimary = false)
    (hsafe : EntryPath.isSafe entry.path = true)
    (hfilter : ∀ pattern ∈ policy.filter.patterns, pattern.isMatch entry.path = false) :
    ofEntry relocator policy .primary origin entry = .ok (.contributed entry .kept) := by
  refine ofEntry_eq_contributed_iff.2 ⟨?_, EntryFilter.matching?_eq_none_iff.2 hfilter, ?_, ?_, ?_⟩
  · simp [dropCause?, hsafe]
  · rintro ⟨⟩
  · simp [relocate, hstays]
  · rintro ⟨⟩

namespace Staging

theorem add_eq_of_isOk {s : Staging} {role : Role} {archive : Archive} {requestedBy : Option String}
    (hok : (s.add role archive requestedBy).2.isOk = true) :
    s.add role archive requestedBy = ((s.add role archive requestedBy).1, .ok ()) :=
  Prod.ext rfl (eq_ok_of_isOk hok)

variable {s : Staging} {row : List Contribution} {c : Contribution}

/-- What was contributed to a merge has a file in the jar, unless it is the manifest. -/
theorem Reflects.exists_standsFor (hreflects : s.Reflects row) (hc : c ∈ row)
    (hmanifest : c.entry.path ≠ EntryPath.manifest) : ∃ file ∈ s.finish.entries, s.policy.StandsFor file c.entry := by
  obtain ⟨staged, hstaged⟩ := hreflects.exists_staged hc
  have hfile : (⟨c.entry.path, staged.data⟩ : Entry) ∈ s.finish.entries := by
    rw [finish_entries, List.mem_cons]
    exact .inr (mem_others_iff.2 ⟨hmanifest, staged.origin, hstaged⟩)
  refine ⟨_, hfile, rfl, ?_⟩
  cases hmerges : s.policy.merges c.entry.path with
  | true =>
    refine .inr ⟨rfl, fun name hname => ?_⟩
    exact (hreflects.providers _ staged hstaged name).2 ⟨c, hc, rfl, hname⟩
  | false =>
    obtain ⟨origin, hheld⟩ := hreflects.data c hc hmerges
    rw [hstaged, Option.some.injEq] at hheld
    exact .inl (congrArg StagedEntry.data hheld)

/-- A manifest that was contributed is the manifest of the jar if there is nothing to set in it. -/
theorem Reflects.head_eq_manifest (hreflects : s.Reflects row) (hc : c ∈ row)
    (hmanifest : c.entry.path = EntryPath.manifest) (hnone : s.policy.manifestAttributes = []) :
    s.finish.entries.head? = some c.entry := by
  obtain ⟨origin, hheld⟩ := hreflects.data c hc (hmanifest ▸ s.policy.merges_manifest)
  rw [hmanifest] at hheld
  rw [finish_entries, List.head?_cons, manifest, hheld, hnone, ← hmanifest]
  rfl

end Staging

/-- The entries of an application that was added keep their places and their bytes, but for providers that service
    files are merged with, and its manifest is that of the jar, whatever is added before or later, and whether that
    fails or not. -/
theorem application_stays {application : Archive} {requestedBy : Option String} {earlier : List Addition} {s : Staging}
    (hstays : policy.relocatePrimary = false)
    (hadd : ((Staging.start relocator policy).addEach earlier).add .primary application requestedBy = (s, .ok ()))
    (additions : List Addition) :
    (∀ entry ∈ application.entries, EntryPath.isSafe entry.path = true →
      (∀ pattern ∈ policy.filter.patterns, pattern.isMatch entry.path = false) → entry.path ≠ EntryPath.manifest →
        ∃ file ∈ (s.addEach additions).finish.entries, policy.StandsFor file entry) ∧
    ∀ entry ∈ application.entries, entry.path = EntryPath.manifest →
      (∀ pattern ∈ policy.filter.patterns, pattern.isMatch entry.path = false) → policy.manifestAttributes = [] →
        (s.addEach additions).finish.entries.head? = some entry := by
  have hearlier := ((Staging.start relocator policy).reaches_addEach earlier).hasTaken
  have htaken := (hearlier.add (a := ⟨.primary, application, requestedBy⟩) hadd).reaches (s.reaches_addEach additions)
  -- The application did not fail, so that all its entries were taken in, and contributed as they are.
  have hcontributed {entry : Entry} (hentry : entry ∈ application.entries)
      (hsafe : EntryPath.isSafe entry.path = true)
      (hfilter : ∀ pattern ∈ policy.filter.patterns, pattern.isMatch entry.path = false) (before after : List Offer) :
      ⟨entry, application.label⟩ ∈ contributions relocator policy (before ++ application.offers .primary ++ after) := by
    let o : Offer := ⟨.primary, application.label, entry⟩
    have ho : o ∈ application.offers .primary := List.mem_map.2 ⟨entry, hentry, rfl⟩
    have hsettled : o.disposition relocator policy = .ok (.contributed entry .kept) :=
      Disposition.ofEntry_primary hstays hsafe hfilter
    refine List.mem_filterMap.2 ⟨o, ?_, Offer.contribution?_of_settled hsettled⟩
    exact List.mem_append_left _ (List.mem_append_right _ ho)
  constructor
  · intro entry hentry hsafe hfilter hmanifest
    rw [← htaken.policy_eq]
    exact htaken.reflects.exists_standsFor (hcontributed hentry hsafe hfilter _ _) hmanifest
  · intro entry hentry hmanifest hfilter hnone
    have hsafe : EntryPath.isSafe entry.path = true := by
      rw [hmanifest]
      decide
    exact htaken.reflects.head_eq_manifest (hcontributed hentry hsafe hfilter _ _) hmanifest (htaken.policy_eq ▸ hnone)

/-- An application with a class, a service file and a manifest, and a provider that was there before. Behind it one
    dependency fails, whose `c/X` would move to the place of the class, and another one is merged into the service
    file. -/
theorem application_stays_beside_failure :
    ∃ rule relocator s jar, Rule.make "c".toList "a".toList = .ok rule ∧ Relocator.ofRules [rule] = .ok relocator ∧
      ((Staging.start relocator { mergeServiceFiles := true }).addEach
        [⟨.dependency, ⟨"zero", ⟨"zero.jar"⟩, [⟨"META-INF/services/s", [111, 10]⟩]⟩, none⟩]).add .primary
          ⟨"app", ⟨"app.jar"⟩, [⟨"a/X", [1]⟩, ⟨"META-INF/services/s", [112, 10]⟩, ⟨EntryPath.manifest, [7]⟩]⟩ none =
            (s, .ok ()) ∧
      jar = (s.addEach [⟨.dependency, ⟨"one", ⟨"one.jar"⟩, [⟨"a/Y", [2]⟩, ⟨"c/X", [3]⟩]⟩, none⟩, ⟨.dependency,
        ⟨"two", ⟨"two.jar"⟩, [⟨EntryPath.manifest, [8]⟩, ⟨"META-INF/services/s", [113, 10]⟩]⟩, none⟩]).finish ∧
      (∃ file ∈ jar.entries, MergePolicy.StandsFor { mergeServiceFiles := true } file ⟨"a/X", [1]⟩) ∧
      (∃ file ∈ jar.entries,
        MergePolicy.StandsFor { mergeServiceFiles := true } file ⟨"META-INF/services/s", [112, 10]⟩) ∧
      jar.entries.head? = some ⟨EntryPath.manifest, [7]⟩ ∧
      jar.entries.tail = [⟨"META-INF/services/s", [111, 10, 112, 10, 113, 10]⟩, ⟨"a/X", [1]⟩, ⟨"a/Y", [2]⟩] := by
  let relocator : Relocator := ⟨[⟨['c'], ['a'], by decide, by decide, by decide⟩], by simp⟩
  let earlier : List Addition :=
    [⟨.dependency, ⟨"zero", ⟨"zero.jar"⟩, [⟨"META-INF/services/s", [111, 10]⟩]⟩, none⟩]
  let application : Archive := ⟨"app", ⟨"app.jar"⟩,
    [⟨"a/X", [1]⟩, ⟨"META-INF/services/s", [112, 10]⟩, ⟨EntryPath.manifest, [7]⟩]⟩
  have hok : (((Staging.start relocator { mergeServiceFiles := true }).addEach earlier).add .primary application
      none).2.isOk = true := by
    decide +kernel
  have hadd := Staging.add_eq_of_isOk hok
  obtain ⟨hfiles, hmanifest⟩ := application_stays rfl hadd
    [⟨.dependency, ⟨"one", ⟨"one.jar"⟩, [⟨"a/Y", [2]⟩, ⟨"c/X", [3]⟩]⟩, none⟩, ⟨.dependency,
      ⟨"two", ⟨"two.jar"⟩, [⟨EntryPath.manifest, [8]⟩, ⟨"META-INF/services/s", [113, 10]⟩]⟩, none⟩]
  refine ⟨_, relocator, _, _, by decide, rfl, hadd, rfl, ?_, ?_, ?_, by decide +kernel⟩
  · exact hfiles _ (by simp [application]) (by decide) (by simp) (by decide)
  · exact hfiles _ (by simp [application]) (by decide) (by simp) (by decide)
  · exact hmanifest _ (by simp [application]) rfl (by simp) rfl

end UberJar
