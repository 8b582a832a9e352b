import UberJar.Proofs.Merge.Jar
import UberJar.Proofs.Relocation.Entries

namespace UberJar

open Relocation

variable {relocator : Relocator} {application application' dependency dependency' : Archive}
  {requestedBy requestedBy' : Option String} {jar : MergedJar}

/-- A dependency is shaded alone: beside an application without entries, with nothing else asked for. -/
def ShadesTo (relocator : Relocator) (application dependency : Archive) (requestedBy : Option String)
    (jar : MergedJar) : Prop :=
  application.entries = [] ∧ ∃ s₁ s₂, (Staging.start relocator {}).add .primary application none = (s₁, .ok ()) ∧
    s₁.add .dependency dependency requestedBy = (s₂, .ok ()) ∧ jar = s₂.finish

/-- No entry that an archive brings to the jar is relocated on. -/
def Relocation.Relocator.Settles (relocator : Relocator) (archive : Archive) : Prop :=
  ∀ entry ∈ archive.entries, Disposition.dropCause? .dependency entry.path = none → ∀ moved outcome,
    relocator.relocate entry archive.label true = .ok (moved, outcome) → relocator.Keeps moved

namespace Staging

/-- The state after an application without entries. -/
def afterEmpty (relocator : Relocator) (application : Archive) : Staging :=
  { start relocator {} with summaries := [openSummary .primary application none] }

theorem holds_afterEmpty (relocator : Relocator) (application : Archive) (held : Entry) :
    ¬(afterEmpty relocator application).Holds held := by
  rintro ⟨origin, hsome⟩
  have hnone : (afterEmpty relocator application).staged[held.path]? = none := Std.TreeMap.getElem?_emptyc
  rw [hnone] at hsome
  cases hsome

/-- With nothing else asked for, a dependency contributes what it carries, relocated. -/
theorem ofEntry_afterEmpty_iff {origin : String} {entry moved : Entry} {outcome : Outcome} :
    Disposition.ofEntry relocator {} .dependency origin entry = .ok (.contributed moved outcome) ↔
      Disposition.dropCause? .dependency entry.path = none ∧
        relocator.relocate entry origin true = .ok (moved, outcome) := by
  rw [Disposition.ofEntry_eq_contributed_iff]
  constructor
  · exact fun h => ⟨h.1, h.2.2.2.1⟩
  · exact fun h => ⟨h.1, rfl, fun _ => rfl, h.2, fun _ => rfl⟩

theorem dropCause?_manifest : Disposition.dropCause? .dependency EntryPath.manifest ≠ none :=
  fun hnone => (dropCause?_eq_none_iff.1 hnone).2.1 rfl

theorem ofEntry_manifest (relocator : Relocator) (policy : MergePolicy) (origin : String) (data : Bytes) :
    ∃ reason, Disposition.ofEntry relocator policy .dependency origin ⟨EntryPath.manifest, data⟩ =
      .ok (.dropped reason) := by
  obtain ⟨reason, hdrop⟩ := Option.ne_none_iff_exists'.1 dropCause?_manifest
  exact ⟨reason, Disposition.ofEntry_of_dropped hdrop⟩

end Staging

open Staging

/-- The jar of a dependency that was shaded alone. -/
structure IsJarOf (relocator : Relocator) (application dependency : Archive) (requestedBy : Option String)
    (jar : MergedJar) (outcomes : List Outcome) (s : Staging) : Prop where
  takes : Takes .dependency dependency.label (afterEmpty relocator application) dependency.entries outcomes s
  holds : ∀ held, s.Holds held ↔ ∃ entry ∈ dependency.entries, Disposition.dropCause? .dependency entry.path = none ∧
    ∃ outcome, relocator.relocate entry dependency.label true = .ok (held, outcome)
  noManifest : s.staged[EntryPath.manifest]? = none
  entries : jar.entries = ⟨EntryPath.manifest, Manifest.build none []⟩ :: s.others
  summaries : jar.summaries = [openSummary .primary application none,
    outcomes.foldl Summary.record (openSummary .dependency dependency requestedBy)]

theorem add_empty_iff (hempty : application.entries = []) {s : Staging} :
    (Staging.start relocator {}).add .primary application none = (s, .ok ()) ↔
      s = afterEmpty relocator application := by
  rw [add_eq_ok_iff, hempty]
  constructor
  · rintro ⟨outcomes, s₁, htakes, rfl⟩
    cases htakes
    rfl
  · rintro rfl
    exact ⟨[], _, .nil _, rfl⟩

theorem exists_shadesTo (hempty : application.entries = []) {outcomes : List Outcome} {s : Staging}
    (htakes : Takes .dependency dependency.label (afterEmpty relocator application) dependency.entries outcomes s) :
    ∃ jar, ShadesTo relocator application dependency requestedBy jar :=
  ⟨_, hempty, _, _, (add_empty_iff hempty).2 rfl, add_eq_ok_iff.2 ⟨outcomes, s, htakes, rfl⟩, rfl⟩

theorem exists_isJarOf (hjar : ShadesTo relocator application dependency requestedBy jar) :
    ∃ outcomes s, IsJarOf relocator application dependency requestedBy jar outcomes s := by
  obtain ⟨hempty, s₁, s₂, hfirst, hsecond, rfl⟩ := hjar
  obtain rfl := (add_empty_iff hempty).1 hfirst
  obtain ⟨outcomes, s, htakes, rfl⟩ := add_eq_ok_iff.1 hsecond
  obtain ⟨-, hpolicy, hsummaries⟩ := htakes.frame
  have hholds (held : Entry) : s.Holds held ↔ ∃ entry ∈ dependency.entries,
      Disposition.dropCause? .dependency entry.path = none ∧
        ∃ outcome, relocator.relocate entry dependency.label true = .ok (held, outcome) := by
    rw [htakes.holds_iff rfl, or_iff_right (holds_afterEmpty relocator application held)]
    refine exists_congr fun entry => and_congr_right fun _ => ?_
    rw [← exists_and_left]
    exact exists_congr fun outcome => ofEntry_afterEmpty_iff
  have hnone : s.staged[EntryPath.manifest]? = none := by
    cases hstaged : s.staged[EntryPath.manifest]? with
    | none => rfl
    | some staged =>
      obtain ⟨entry, -, hcarried, outcome, hrelocate⟩ :=
        (hholds ⟨EntryPath.manifest, staged.data⟩).1 ⟨staged.origin, hstaged⟩
      exact absurd (Relocator.dropCause?_relocated hrelocate hcarried) dropCause?_manifest
  refine ⟨outcomes, s, htakes, hholds, hnone, ?_, ?_⟩
  · rw [finish_entries]
    refine congrArg₂ List.cons ?_ rfl
    simp only [manifest, hnone, hpolicy]
    rfl
  · change s.summaries ++ _ = _
    rw [hsummaries]
    rfl

namespace IsJarOf

variable {outcomes outcomes' : List Outcome} {s s' : Staging} {jar' : MergedJar}

/-- What comes behind the manifest was carried. -/
theorem carried_of_mem (hjar : IsJarOf relocator application dependency requestedBy jar outcomes s) {entry : Entry}
    (hentry : entry ∈ s.others) : Disposition.dropCause? .dependency entry.path = none := by
  obtain ⟨old, -, hcarried, outcome, hrelocate⟩ := (hjar.holds entry).1 (mem_others_iff.1 hentry).2
  exact Relocator.dropCause?_relocated hrelocate hcarried

theorem mem_others (hjar : IsJarOf relocator application dependency requestedBy jar outcomes s) {entry : Entry} :
    entry ∈ s.others ↔ s.Holds entry := by
  rw [mem_others_iff, and_iff_right_iff_imp]
  rintro ⟨origin, hstaged⟩ hpath
  rw [hpath, hjar.noManifest] at hstaged
  cases hstaged

/-- Relocation settles exactly if every entry of the jar behind its manifest is kept. -/
theorem settles_iff (hjar : IsJarOf relocator application dependency requestedBy jar outcomes s) :
    relocator.Settles dependency ↔ ∀ entry ∈ s.others, relocator.Keeps entry := by
  simp only [hjar.mem_others, hjar.holds, Relocator.Settles]
  constructor
  · rintro hsettles moved ⟨entry, hentry, hcarried, outcome, hrelocate⟩
    exact hsettles entry hentry hcarried moved outcome hrelocate
  · intro hkeeps entry hentry hcarried moved outcome hrelocate
    exact hkeeps moved ⟨entry, hentry, hcarried, outcome, hrelocate⟩

/-- What the entries of the jar contribute to another one, if they are kept: themselves, but not the manifest. -/
theorem contributed_again_iff (hjar : IsJarOf relocator application dependency requestedBy jar outcomes s)
    (hkeeps : ∀ entry ∈ s.others, relocator.Keeps entry) {origin : String} {moved : Entry} {outcome : Outcome} :
    (∃ entry ∈ jar.entries,
        Disposition.ofEntry relocator {} .dependency origin entry = .ok (.contributed moved outcome)) ↔
      outcome = .kept ∧ moved ∈ s.others := by
  rw [hjar.entries]
  simp only [ofEntry_afterEmpty_iff, List.mem_cons, exists_eq_or_imp, dropCause?_manifest, false_and, false_or]
  constructor
  · rintro ⟨entry, hentry, -, hrelocate⟩
    rw [hkeeps entry hentry origin] at hrelocate
    obtain ⟨rfl, rfl⟩ := Prod.mk.inj (Except.ok.inj hrelocate)
    exact ⟨rfl, hentry⟩
  · rintro ⟨rfl, hmoved⟩
    exact ⟨moved, hmoved, hjar.carried_of_mem hmoved, hkeeps moved hmoved origin⟩

/-- What the jar holds behind its manifest, it contributes to another one, and nothing else. -/
theorem contributes_iff (hjar : IsJarOf relocator application dependency requestedBy jar outcomes s)
    (hkeeps : ∀ entry ∈ s.others, relocator.Keeps entry) {origin : String} {held : Entry} :
    (∃ entry ∈ jar.entries, (afterEmpty relocator application').Contributes .dependency origin entry held) ↔
      held ∈ s.others := by
  constructor
  · rintro ⟨entry, hentry, outcome, hsome⟩
    exact ((hjar.contributed_again_iff hkeeps).1 ⟨entry, hentry, hsome⟩).2
  · intro hheld
    obtain ⟨entry, hentry, hsome⟩ := (hjar.contributed_again_iff hkeeps).2 ⟨rfl, hheld⟩
    exact ⟨entry, hentry, .kept, hsome⟩

/-- Nothing in the jar is in the way of another entry of it. -/
theorem exists_takes_again (hjar : IsJarOf relocator application dependency requestedBy jar outcomes s)
    (hkeeps : ∀ entry ∈ s.others, relocator.Keeps entry) (application' : Archive) (origin : String) :
    ∃ outcomes' s', Takes .dependency origin (afterEmpty relocator application') jar.entries outcomes' s' := by
  refine exists_takes rfl (fun entry hentry => ?_) fun first second hfirst hsecond hpath => ?_
  · rw [hjar.entries] at hentry
    rcases List.mem_cons.1 hentry with rfl | hentry
    · obtain ⟨reason, hdropped⟩ := ofEntry_manifest relocator {} origin (Manifest.build none [])
      exact ⟨.dropped reason, hdropped⟩
    · exact ⟨.contributed entry .kept, ofEntry_afterEmpty_iff.2 ⟨hjar.carried_of_mem hentry, hkeeps entry hentry _⟩⟩
  · rw [or_iff_right (holds_afterEmpty _ _ _), hjar.contributes_iff hkeeps, hjar.mem_others] at hfirst hsecond
    exact hfirst.unique hsecond hpath

/-- Kept entries make up the same jar again, and none of them counts as relocated. -/
theorem shades_again (hjar : IsJarOf relocator application dependency requestedBy jar outcomes s)
    (hkeeps : ∀ entry ∈ s.others, relocator.Keeps entry) (hempty : application'.entries = [])
    (hagain : dependency'.entries = jar.entries) :
    ∃ jar', ShadesTo relocator application' dependency' requestedBy' jar' ∧ jar'.entries = jar.entries ∧
      ∀ summary ∈ jar'.summaries, summary.relocated = 0 := by
  obtain ⟨outcomes', s', htakes⟩ := hjar.exists_takes_again hkeeps application' dependency'.label
  obtain ⟨jar', hshades⟩ : ∃ jar', ShadesTo relocator application' dependency' requestedBy' jar' :=
    exists_shadesTo hempty (hagain ▸ htakes)
  obtain ⟨outcomes', s', hjar'⟩ := exists_isJarOf hshades
  refine ⟨jar', hshades, ?_, ?_⟩
  · rw [hjar'.entries, hjar.entries]
    refine congrArg _ (others_eq fun entry _ => ?_)
    rw [hjar'.takes.holds_iff rfl, or_iff_right (holds_afterEmpty _ _ _), hagain, hjar.contributes_iff hkeeps,
      hjar.mem_others]
  · have hstays : outcomes'.countP Outcome.isRelocated = 0 := by
      rw [List.countP_eq_zero]
      intro outcome hmem
      rw [hjar'.takes.not_isRelocated (fun entry hentry moved outcome hsome => ?_) outcome hmem]
      · exact Bool.false_ne_true
      · rw [hagain] at hentry
        rw [((hjar.contributed_again_iff hkeeps).1 ⟨entry, hentry, hsome⟩).1]
        rfl
    intro summary hsummary
    rw [hjar'.summaries, List.mem_cons, List.mem_singleton] at hsummary
    rcases hsummary with rfl | rfl
    · rfl
    · rw [Summary.relocated_foldl, hstays]
      rfl

/-- The same jar without relocated entries leaves no room for duplicates, so that every entry was kept. -/
theorem keeps_of_shades_again (hjar : IsJarOf relocator application dependency requestedBy jar outcomes s)
    (hjar' : IsJarOf relocator application' dependency' requestedBy' jar' outcomes' s')
    (hagain : dependency'.entries = jar.entries) (hsame : jar'.entries = jar.entries)
    (hzero : ∀ summary ∈ jar'.summaries, summary.relocated = 0) : ∀ entry ∈ s.others, relocator.Keeps entry := by
  have hothers : s'.others = s.others := by
    rw [hjar.entries, hjar'.entries] at hsame
    exact (List.cons.inj hsame).2
  have htakes := hjar'.takes
  rw [hagain, hjar.entries] at htakes
  cases htakes with
  | @cons _ s₁ _ _ _ outcome outcomes' hmanifest hrest =>
    obtain ⟨reason, hdropped⟩ := ofEntry_manifest relocator {} dependency'.label (Manifest.build none [])
    have hunplaced : outcome.takesPlace = false := by
      rw [← Bool.not_eq_true]
      intro hplaces
      obtain ⟨moved, hsome⟩ := contributed_of_takesPlace hmanifest hplaces
      cases hdropped.symm.trans hsome
    have hplaces : ∀ outcome ∈ outcomes', outcome.takesPlace = true := by
      have hempty : (afterEmpty relocator application').staged.size = 0 := Std.TreeMap.size_emptyc
      have hno : s'.staged.contains EntryPath.manifest = false := by
        rw [← Std.TreeMap.isSome_getElem?_eq_contains (t := s'.staged), hjar'.noManifest]
        rfl
      have hlength := s'.length_others
      rw [hno, hrest.size_eq, size_process hmanifest, hunplaced, hempty] at hlength
      rw [← List.countP_eq_length, hrest.length_eq, ← hothers]
      simpa using hlength.symm
    have hstays : ∀ outcome ∈ outcomes', outcome.isRelocated = false := by
      have hnone := hzero _ (hjar'.summaries ▸ List.mem_cons_of_mem _ List.mem_cons_self)
      rw [Summary.relocated_foldl, Nat.add_eq_zero_iff, List.countP_eq_zero] at hnone
      exact fun outcome hmem => Bool.eq_false_iff.2 (hnone.2 outcome (List.mem_cons_of_mem _ hmem))
    intro entry hentry
    obtain ⟨given, hgiven, moved, hsome⟩ := hrest.contributed hplaces entry hentry
    obtain ⟨hrelocator, hpolicy, -⟩ := process_frame hmanifest
    rw [hrelocator, hpolicy, Outcome.eq_kept (hplaces given hgiven) (hstays given hgiven)] at hsome
    exact (Relocator.keeps_of_kept (ofEntry_afterEmpty_iff.1 hsome).2).2

end IsJarOf

/-- Shading a shaded jar once more gives the same entries, none of them relocated, exactly if no relocated entry of the
    dependency is relocated on. Under separate rules none is. -/
theorem shades_again_iff (hjar : ShadesTo relocator application dependency requestedBy jar)
    (hempty : application'.entries = []) (hagain : dependency'.entries = jar.entries) (requestedBy' : Option String) :
    ((∃ jar', ShadesTo relocator application' dependency' requestedBy' jar' ∧ jar'.entries = jar.entries ∧
        ∀ summary ∈ jar'.summaries, summary.relocated = 0) ↔ relocator.Settles dependency) ∧
      (relocator.isSeparate = true → relocator.Settles dependency) := by
  obtain ⟨outcomes, s, hisJar⟩ := exists_isJarOf hjar
  refine ⟨?_, fun hseparate entry _ _ moved outcome hrelocate => Relocator.keeps_of_relocated hseparate hrelocate⟩
  rw [hisJar.settles_iff]
  constructor
  · rintro ⟨jar', hshades, hsame, hzero⟩
    obtain ⟨outcomes', s', hisJar'⟩ := exists_isJarOf hshades
    exact hisJar.keeps_of_shades_again hisJar' hagain hsame hzero
  · exact fun hkeeps => hisJar.shades_again hkeeps hempty hagain

/-- One rule, and an entry that it moves: the jar of the jar is the same. -/
theorem shades_again_behind_one_rule :
    ∃ rule relocator jar, Rule.make "a".toList "b".toList = .ok rule ∧ Relocator.ofRules [rule] = .ok relocator ∧
      relocator.isSeparate = true ∧
      ShadesTo relocator ⟨"app", ⟨"app.jar"⟩, []⟩ ⟨"dep", ⟨"dep.jar"⟩, [⟨"a/x", []⟩]⟩ none jar ∧
      ⟨"b/x", []⟩ ∈ jar.entries ∧
      ∃ jar', ShadesTo relocator ⟨"app", ⟨"app.jar"⟩, []⟩ ⟨"dep", ⟨"dep.jar"⟩, jar.entries⟩ none jar' ∧
        jar'.entries = jar.entries ∧ ∀ summary ∈ jar'.summaries, summary.relocated = 0 := by
  let rule : Rule := ⟨['a'], ['b'], by decide, by decide, by decide⟩
  have hseparate : Relocator.isSeparate ⟨[rule], by simp⟩ = true := by decide
  obtain ⟨jar, hjar, hmoved⟩ : ∃ jar, ShadesTo ⟨[rule], by simp⟩ ⟨"app", ⟨"app.jar"⟩, []⟩
      ⟨"dep", ⟨"dep.jar"⟩, [⟨"a/x", []⟩]⟩ none jar ∧ ⟨"b/x", []⟩ ∈ jar.entries :=
    ⟨_, ⟨rfl, _, _, rfl, rfl, rfl⟩, by decide +kernel⟩
  have hagain := shades_again_iff hjar (rfl : (⟨"app", ⟨"app.jar"⟩, []⟩ : Archive).entries = [])
    (rfl : (⟨"dep", ⟨"dep.jar"⟩, jar.entries⟩ : Archive).entries = jar.entries) none
  exact ⟨rule, _, jar, by decide, rfl, hseparate, hjar, hmoved, hagain.1.2 (hagain.2 hseparate)⟩

/-- Two rules of which the second moves what the first one moved: `a/x` goes to `b/x`, and the jar of that jar has
    it at `c/x`. -/
theorem shades_on_along_chain :
    ∃ first second relocator jar, Rule.make "a".toList "b".toList = .ok first ∧
      Rule.make "b".toList "c".toList = .ok second ∧ Relocator.ofRules [first, second] = .ok relocator ∧
      ShadesTo relocator ⟨"app", ⟨"app.jar"⟩, []⟩ ⟨"dep", ⟨"dep.jar"⟩, [⟨"a/x", []⟩]⟩ none jar ∧
      ∀ jar', ShadesTo relocator ⟨"app", ⟨"app.jar"⟩, []⟩ ⟨"dep", ⟨"dep.jar"⟩, jar.entries⟩ none jar' →
        jar'.entries ≠ jar.entries := by
  refine ⟨⟨['a'], ['b'], by decide, by decide, by decide⟩, ⟨['b'], ['c'], by decide, by decide, by decide⟩,
    ⟨[_, _], by decide⟩, _, by decide, by decide, rfl, ⟨rfl, _, _, rfl, rfl, rfl⟩, ?_⟩
  rintro jar' ⟨-, s₁, s₂, hfirst, hsecond, rfl⟩
  obtain rfl := (Prod.mk.inj hfirst).1
  obtain rfl := (Prod.mk.inj hsecond).1
  decide +kernel

end UberJar
