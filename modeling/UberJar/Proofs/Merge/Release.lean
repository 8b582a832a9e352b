import UberJar.Proofs.Merge.Admission
import UberJar.Proofs.Merge.ServiceFiles

namespace UberJar

open Relocation

namespace ClassFile

theorem majorVersion_eq_ok_iff {bytes : Bytes} {major : UInt16} :
    majorVersion bytes = .ok major ↔ ∃ minor rest, readVersions bytes = .ok (minor, major, rest) := by
  unfold majorVersion
  rw [bind_eq_ok_iff]
  constructor
  · rintro ⟨⟨minor, found, rest⟩, hread, hmajor⟩
    obtain rfl := Except.ok.inj hmajor
    exact ⟨minor, rest, hread⟩
  · rintro ⟨minor, rest, hread⟩
    exact ⟨(minor, major, rest), hread, rfl⟩

theorem versionOf?_eq_some_iff {release version : UInt16} :
    versionOf? release = some version ↔ version.toNat = release.toNat + 44 := by
  have hsum : (release + releaseOffset).toNat = (release.toNat + 44) % 2 ^ 16 :=
    UInt16.toNat_add release releaseOffset
  have hoffset : releaseOffset.toNat = 44 := rfl
  have hsize : UInt16.size = 2 ^ 16 := rfl
  unfold versionOf?
  rw [hoffset, hsize]
  split
  · rename_i hfits
    rw [Nat.mod_eq_of_lt hfits] at hsum
    rw [Option.some.injEq, ← UInt16.toNat_inj, hsum]
    exact eq_comm
  · have hversion := version.toNat_lt
    simp only [reduceCtorEq, false_iff]
    omega

theorem versionOf?_eq_none_iff {release : UInt16} : versionOf? release = none ↔ 2 ^ 16 ≤ release.toNat + 44 := by
  have hoffset : releaseOffset.toNat = 44 := rfl
  have hsize : UInt16.size = 2 ^ 16 := rfl
  unfold versionOf?
  rw [hoffset, hsize, ite_eq_right_iff, ← Nat.not_lt]
  simp

theorem majorVersion_encode (c : ClassFile) : majorVersion c.encode = .ok c.major := by
  refine majorVersion_eq_ok_iff.2 ⟨c.minor,
    Bytes.ofNatBE 2 c.count.toNat ++ (c.constants.flatMap Constant.encode ++ c.tail), readVersions_eq_ok_iff.2 ?_⟩
  simp only [encode, List.append_assoc]

/-- No text has the header of a class file. -/
theorem majorVersion_utf8_ne (text : List Char) (major : UInt16) :
    majorVersion (Text.Utf8.encode text) ≠ .ok major := by
  intro hmajor
  obtain ⟨minor, rest, hread⟩ := majorVersion_eq_ok_iff.1 hmajor
  have hnone := decode?_magic_eq_none (Bytes.ofNatBE 2 minor.toNat ++ (Bytes.ofNatBE 2 major.toNat ++ rest))
  rw [← readVersions_eq_ok_iff.1 hread, Text.Utf8.decode?_encode] at hnone
  cases hnone

end ClassFile

namespace Relocation.Relocator

variable {relocator : Relocator}

/-- Moved references leave the version of a class as it is. -/
theorem majorVersion_moveInClass? {data : Bytes} {newData : Option Bytes}
    (hmove : relocator.moveInClass? data = .ok newData) :
    ClassFile.majorVersion (newData.getD data) = ClassFile.majorVersion data := by
  obtain ⟨c, renamed, hwf, rfl, hreplace, rfl⟩ := moveInClass?_eq_ok hmove
  cases renamed with
  | none => rfl
  | some new =>
    obtain ⟨rfl, -⟩ := ClassFile.replaceTexts_eq_ok_some hwf hreplace
    rw [Option.map_some, Option.getD_some, ClassFile.majorVersion_encode, ClassFile.majorVersion_encode]
    rfl

theorem majorVersion_relocate {entry moved : Entry} {origin : String} {move : Bool} {outcome : Outcome}
    (hclass : EntryPath.isClass entry.path = true)
    (hrelocate : relocator.relocate entry origin move = .ok (moved, outcome)) :
    ClassFile.majorVersion moved.data = ClassFile.majorVersion entry.data := by
  rcases relocate_eq_ok hrelocate with ⟨-, rfl, -⟩ | ⟨-, newData, -, hdata, -, hmoved, -⟩
  · rfl
  · rw [movedData?, if_pos hclass] at hdata
    rw [hmoved]
    exact majorVersion_moveInClass? hdata

end Relocation.Relocator

variable {relocator : Relocator} {policy : MergePolicy} {release major : UInt16}

/-- A class whose version is compared with the target release if it is a dependency's. -/
structure MergePolicy.ChecksVersion (policy : MergePolicy) (entry : Entry) : Prop where
  safe : EntryPath.isSafe entry.path = true
  isClass : EntryPath.isClass entry.path = true
  unversioned : EntryPath.isVersioned entry.path = false
  noDescriptor : EntryPath.isModuleDescriptor entry.path = false
  unmatched : ∀ pattern ∈ policy.filter.patterns, pattern.isMatch entry.path = false

theorem MergePolicy.ChecksVersion.dropCause?_eq_none {entry : Entry} (hchecks : policy.ChecksVersion entry) :
    Disposition.dropCause? .dependency entry.path = none := by
  refine dropCause?_eq_none_iff.2 ⟨isSafe_iff.1 hchecks.safe, ?_, hchecks.noDescriptor⟩
  intro hmanifest
  have hclass := hchecks.isClass
  rw [hmanifest] at hclass
  exact absurd hclass (by decide)

namespace Disposition

variable {entry : Entry} {origin : String}

/-- An entry that is no class, or one for a certain release, is not compared with the target. -/
theorem requireRelease_of_unchecked
    (hunchecked : ¬(EntryPath.isClass entry.path = true ∧ EntryPath.isVersioned entry.path = false)) :
    requireRelease policy entry origin = .ok () := by
  unfold requireRelease
  cases policy.targetRelease with
  | none => rfl
  | some target =>
    apply if_pos
    cases hclass : EntryPath.isClass entry.path with
    | false => rfl
    | true => simpa [hclass] using hunchecked

theorem requireRelease_of_unreadable {e : ClassFile.FormatError} (hrelease : policy.targetRelease = some release)
    (hclass : EntryPath.isClass entry.path = true) (hversioned : EntryPath.isVersioned entry.path = false)
    (hmajor : ClassFile.majorVersion entry.data = .error e) :
    requireRelease policy entry origin = .error (.archive (.malformedClass entry.path origin e)) := by
  simp [requireRelease, hrelease, hclass, hversioned, hmajor]

/-- A class is refused if its version is above that of the target release, and let in if it is not. If 16 bits do
    not hold the version of the target, the program breaks off. -/
theorem requireRelease_cases (origin : String) (hrelease : policy.targetRelease = some release)
    (hclass : EntryPath.isClass entry.path = true) (hversioned : EntryPath.isVersioned entry.path = false)
    (hmajor : ClassFile.majorVersion entry.data = .ok major) :
    (2 ^ 16 ≤ release.toNat + 44 ∧ requireRelease policy entry origin = .error .overflow) ∨
    (release.toNat + 44 < major.toNat ∧ requireRelease policy entry origin =
      .error (.archive (.unsupportedClassVersion entry.path origin major release))) ∨
    (release.toNat + 44 < 2 ^ 16 ∧ major.toNat ≤ release.toNat + 44 ∧ requireRelease policy entry origin = .ok ()) := by
  simp only [requireRelease, hrelease, hclass, hversioned, hmajor, Bool.not_true, Bool.or_self, Bool.false_eq_true,
    if_false]
  cases hversion : ClassFile.versionOf? release with
  | none => exact .inl ⟨ClassFile.versionOf?_eq_none_iff.1 hversion, rfl⟩
  | some newest =>
    have hnewest := ClassFile.versionOf?_eq_some_iff.1 hversion
    have hbound := newest.toNat_lt
    by_cases hnewer : major > newest
    · have hlt := UInt16.lt_iff_toNat_lt.1 hnewer
      exact .inr (.inl ⟨by omega, if_pos hnewer⟩)
    · have hle := UInt16.le_iff_toNat_le.1 (UInt16.not_lt.1 hnewer)
      exact .inr (.inr ⟨by omega, by omega, if_neg hnewer⟩)

/-- A class that is let in has a version, which is not above that of the target release. -/
theorem exists_majorVersion_of_requireRelease (hrelease : policy.targetRelease = some release)
    (hclass : EntryPath.isClass entry.path = true) (hversioned : EntryPath.isVersioned entry.path = false)
    (hok : requireRelease policy entry origin = .ok ()) :
    ∃ major, ClassFile.majorVersion entry.data = .ok major ∧ major.toNat ≤ release.toNat + 44 := by
  cases hmajor : ClassFile.majorVersion entry.data with
  | error e =>
    rw [requireRelease_of_unreadable hrelease hclass hversioned hmajor] at hok
    cases hok
  | ok major =>
    rcases requireRelease_cases origin hrelease hclass hversioned hmajor with
      ⟨-, hresult⟩ | ⟨-, hresult⟩ | ⟨-, hle, -⟩
    · cases hresult.symm.trans hok
    · cases hresult.symm.trans hok
    · exact ⟨major, rfl, hle⟩

end Disposition

/-- What is true of the target release where a merge fails as it does. -/
def Failure.IsWarranted (release : UInt16) : Failure → Prop
  | overflow => 2 ^ 16 ≤ release.toNat + 44
  | archive (.unsupportedClassVersion _ _ major _) => release.toNat + 44 < major.toNat
  | _ => True

namespace Disposition

variable {entry : Entry} {origin : String} {failure : Failure}

theorem isWarranted_of_requireRelease (hrelease : policy.targetRelease = some release)
    (hcheck : requireRelease policy entry origin = .error failure) : failure.IsWarranted release := by
  by_cases hchecked : EntryPath.isClass entry.path = true ∧ EntryPath.isVersioned entry.path = false
  · obtain ⟨hclass, hversioned⟩ := hchecked
    cases hmajor : ClassFile.majorVersion entry.data with
    | error e =>
      rw [requireRelease_of_unreadable hrelease hclass hversioned hmajor] at hcheck
      obtain rfl := Except.error.inj hcheck
      trivial
    | ok major =>
      rcases requireRelease_cases origin hrelease hclass hversioned hmajor with
        ⟨hover, hresult⟩ | ⟨hnewer, hresult⟩ | ⟨-, -, hresult⟩
      · obtain rfl := Except.error.inj (hresult.symm.trans hcheck)
        exact hover
      · obtain rfl := Except.error.inj (hresult.symm.trans hcheck)
        exact hnewer
      · cases hresult.symm.trans hcheck
  · rw [requireRelease_of_unchecked hchecked] at hcheck
    cases hcheck

/-- Relocation finds nothing to say about releases. -/
theorem isWarranted_of_relocate {role : Role} {e : ArchiveError}
    (hrelocate : relocate relocator policy role entry origin = .error e) :
    (Failure.archive e).IsWarranted release := by
  have hrule {move : Bool} (hrelocate : relocator.relocate entry origin move = .error e) :
      (Failure.archive e).IsWarranted release := by
    unfold Relocator.relocate at hrelocate
    split at hrelocate
    · cases hrelocate
    · split at hrelocate
      · obtain rfl := Except.error.inj hrelocate
        trivial
      · cases hrelocate
  unfold relocate at hrelocate
  cases role with
  | dependency => exact hrule hrelocate
  | primary =>
    dsimp only at hrelocate
    split at hrelocate
    · exact hrule hrelocate
    · cases hrelocate

theorem isWarranted_of_ofEntry {role : Role} (hrelease : policy.targetRelease = some release)
    (hentry : ofEntry relocator policy role origin entry = .error failure) : failure.IsWarranted release := by
  cases hdrop : dropCause? role entry.path with
  | some reason =>
    rw [ofEntry_of_dropped hdrop] at hentry
    cases hentry
  | none =>
    cases hmatch : policy.filter.matching? entry.path with
    | some pattern =>
      rw [ofEntry_of_matched hdrop hmatch] at hentry
      cases hentry
    | none =>
      rw [ofEntry_of_carried hdrop hmatch, bind_eq_error_iff] at hentry
      rcases hentry with hrefused | ⟨_, _, hmoved⟩
      · split at hrefused
        · exact isWarranted_of_requireRelease hrelease hrefused
        · cases hrefused
      · rw [bind_eq_error_iff] at hmoved
        rcases hmoved with hmoved | ⟨_, _, hdone⟩
        · obtain ⟨e, hrelocate, rfl⟩ := mapError_eq_error_iff.1 hmoved
          exact isWarranted_of_relocate hrelocate
        · cases hdone

end Disposition

namespace Staging

variable {s s' s₁ : Staging} {role : Role} {archive : Archive} {entry : Entry} {failure : Failure}

/-- An archive that fails for the release of a class does so with reason. -/
theorem isWarranted_of_add {requestedBy : Option String} (hrelease : s.policy.targetRelease = some release)
    (hadd : s.add role archive requestedBy = (s', .error failure)) : failure.IsWarranted release := by
  obtain ⟨before, failed, after, outcomes, -, htakes, hprocess⟩ := add_eq_error hadd
  rw [← htakes.frame.2.1] at hrelease
  rcases process_eq_error (o := ⟨role, archive.label, failed⟩) hprocess with hentry | ⟨_, _, conflict, _, _, rfl⟩
  · exact Disposition.isWarranted_of_ofEntry hrelease hentry
  · trivial

/-- The entry of a dependency that comes next, a class with a version that is compared with the target release. -/
structure MeetsClass (s : Staging) (archive : Archive) (s₁ : Staging) (entry : Entry) (major : UInt16) : Prop where
  reached : ∃ before after outcomes, archive.entries = before ++ entry :: after ∧
    Takes .dependency archive.label s before outcomes s₁
  checks : s.policy.ChecksVersion entry
  readable : ClassFile.majorVersion entry.data = .ok major

/-- A dependency fails at a class at which the check against the target release does. -/
theorem MeetsClass.add_eq_error (hmeets : s.MeetsClass archive s₁ entry major)
    (hcheck : Disposition.requireRelease s.policy entry archive.label = .error failure) (requestedBy : Option String) :
    s.add .dependency archive requestedBy = (s₁, .error failure) := by
  obtain ⟨⟨before, after, outcomes, hentries, htakes⟩, hchecks, -⟩ := hmeets
  rw [← htakes.frame.2.1] at hchecks hcheck
  have hprocess : s₁.process .dependency archive.label entry = .error failure := by
    have hmatch := EntryFilter.matching?_eq_none_iff.2 hchecks.unmatched
    unfold process
    rw [Disposition.ofEntry_of_carried hchecks.dropCause?_eq_none hmatch, if_pos rfl, hcheck]
    rfl
  exact htakes.add_eq_error hentries hprocess requestedBy

/-- A dependency is refused for a class exactly if the class is newer than the target release, and the program
    breaks off at the class exactly if 16 bits do not hold the version of the target. -/
theorem MeetsClass.add_eq_error_iff (hmeets : s.MeetsClass archive s₁ entry major)
    (hrelease : s.policy.targetRelease = some release) (requestedBy : Option String) :
    (s.add .dependency archive requestedBy =
        (s₁, .error (.archive (.unsupportedClassVersion entry.path archive.label major release))) ↔
      release.toNat + 44 < major.toNat) ∧
    (s.add .dependency archive requestedBy = (s₁, .error .overflow) ↔ 2 ^ 16 ≤ release.toNat + 44) := by
  have hmajor := major.toNat_lt
  have hcheck := Disposition.requireRelease_cases archive.label hrelease hmeets.checks.isClass hmeets.checks.unversioned
    hmeets.readable
  constructor
  · refine ⟨isWarranted_of_add hrelease, fun hnewer => hmeets.add_eq_error ?_ requestedBy⟩
    rcases hcheck with ⟨hover, -⟩ | ⟨-, hrefused⟩ | ⟨-, hle, -⟩
    · omega
    · exact hrefused
    · omega
  · refine ⟨isWarranted_of_add hrelease, fun hover => hmeets.add_eq_error ?_ requestedBy⟩
    rcases hcheck with ⟨-, hbreaks⟩ | ⟨hnewer, -⟩ | ⟨hfits, -, -⟩
    · exact hbreaks
    · omega
    · omega

/-- The check lets in a class exactly if 16 bits hold the version of the target release, and that of the class is
    not above it. -/
theorem MeetsClass.requireRelease_eq_ok_iff (hmeets : s.MeetsClass archive s₁ entry major)
    (hrelease : s.policy.targetRelease = some release) :
    Disposition.requireRelease s.policy entry archive.label = .ok () ↔
      release.toNat + 44 < 2 ^ 16 ∧ major.toNat ≤ release.toNat + 44 := by
  rcases Disposition.requireRelease_cases archive.label hrelease hmeets.checks.isClass hmeets.checks.unversioned
      hmeets.readable with ⟨hover, hresult⟩ | ⟨hnewer, hresult⟩ | ⟨hfits, hle, hresult⟩
  · simp only [hresult, reduceCtorEq, false_iff]
    omega
  · simp only [hresult, reduceCtorEq, false_iff]
    omega
  · simp only [hresult, true_iff]
    exact ⟨hfits, hle⟩

/-- Where a file has the header of a class, everything that was contributed to its place has its bytes. -/
def KeepsClasses (s : Staging) (row : List Contribution) : Prop :=
  ∀ path staged, s.staged[path]? = some staged → ∀ major, ClassFile.majorVersion staged.data = .ok major →
    ∀ c ∈ row, c.entry.path = path → c.entry.data = staged.data

theorem KeepsClasses.place {row : List Contribution} {c : Contribution} {given outcome : Outcome}
    (hkeeps : s.KeepsClasses row) (hreflects : s.Reflects row)
    (hplace : s.place c.entry c.origin given = .ok (s', outcome)) : s'.KeepsClasses (row ++ [c]) := by
  obtain ⟨hothers, staged, hstaged, hcases⟩ := place_lookup hplace
  intro path found hfound major hmajor b hb hpath
  rcases List.mem_append.1 hb with hb | hb
  · by_cases hsame : path = c.entry.path
    · subst hsame
      rw [hstaged, Option.some.injEq] at hfound
      subst hfound
      rcases hcases with ⟨hfree, -⟩ | ⟨existing, hexisting, ⟨-, rfl, -⟩ | ⟨hmerged, -⟩⟩
      · obtain ⟨existing, hexisting⟩ := hreflects.exists_staged hb
        rw [hpath, hfree] at hexisting
        cases hexisting
      · exact hkeeps _ staged hexisting major hmajor b hb hpath
      · rw [hmerged, Services.merge] at hmajor
        exact absurd hmajor (ClassFile.majorVersion_utf8_ne _ _)
    · rw [hothers path hsame] at hfound
      exact hkeeps path found hfound major hmajor b hb hpath
  · obtain rfl := List.mem_singleton.1 hb
    subst hpath
    rw [hstaged, Option.some.injEq] at hfound
    subst hfound
    rcases hcases with ⟨-, hdata, -⟩ | ⟨existing, -, ⟨hdata, rfl, -⟩ | ⟨hmerged, -⟩⟩
    · exact hdata.symm
    · exact hdata.symm
    · rw [hmerged, Services.merge] at hmajor
      exact absurd hmajor (ClassFile.majorVersion_utf8_ne _ _)

theorem Reaches.keepsClasses {taken : List Taken} (hreaches : (start relocator policy).Reaches taken s) :
    s.KeepsClasses (contributions relocator policy (taken.map (·.offer))) := by
  refine hreaches.placements (fun path staged hstaged => ?_) (fun hkeeps hsame path staged hstaged => ?_)
    fun hkeeps hreflects hplace => hkeeps.place hreflects hplace
  · rw [getElem?_staged_start] at hstaged
    cases hstaged
  · exact hkeeps path staged (hsame ▸ hstaged)

/-- What is left in a jar of a class that the check let in. -/
structure HasClass (s : Staging) (contributed : Entry) (major : UInt16) : Prop where
  readable : ClassFile.majorVersion contributed.data = .ok major
  held : s.policy.merges contributed.path = false → contributed ∈ s.finish.entries
  only : ∀ file ∈ s.finish.entries, file.path = contributed.path →
    ∀ found, ClassFile.majorVersion file.data = .ok found → found = major

/-- In the jar a class of a dependency has the version with which it passed the check. -/
theorem hasClass_of_contribution? {additions : List Addition}
    (hall : (start relocator policy).addAll additions = .ok s) (hrelease : policy.targetRelease = some release)
    {o : Offer} (ho : o ∈ additions.flatMap Addition.offers) (hrole : o.role = .dependency)
    (hchecks : policy.ChecksVersion o.entry) {c : Contribution} (hc : o.contribution? relocator policy = some c) :
    ∃ major, ClassFile.majorVersion o.entry.data = .ok major ∧ major.toNat ≤ release.toNat + 44 ∧
      s.HasClass c.entry major := by
  obtain ⟨outcome, hdisposition⟩ := Offer.contribution?_eq_some hc
  unfold Offer.disposition at hdisposition
  obtain ⟨-, -, hpasses, hrelocate, -⟩ := Disposition.ofEntry_eq_contributed_iff.1 hdisposition
  rw [hrole] at hrelocate
  obtain ⟨major, hmajor, hle⟩ := Disposition.exists_majorVersion_of_requireRelease hrelease hchecks.isClass
    hchecks.unversioned (hpasses hrole)
  have hmoved : ClassFile.majorVersion c.entry.data = .ok major :=
    (Relocator.majorVersion_relocate hchecks.isClass hrelocate).trans hmajor
  obtain ⟨rfl, hoffers⟩ := addEach_of_addAll hall
  have hreaches := (start relocator policy).reaches_addEach additions
  have hmem : c ∈ contributions relocator policy (((start relocator policy).history additions).map (·.offer)) := by
    rw [hoffers]
    exact List.mem_filterMap.2 ⟨o, ho, hc⟩
  have hmanifest := (Offer.not_special_of_dependency hrole hc).1
  refine ⟨major, hmajor, hle, hmoved, fun hmerges => ?_, fun file hfile hpath found hfound => ?_⟩
  · rw [finish_entries]
    exact List.mem_cons_of_mem _ (mem_others_iff.2 ⟨hmanifest, hreaches.hasTaken.reflects.data c hmem hmerges⟩)
  · rw [finish_entries, List.mem_cons] at hfile
    rcases hfile with rfl | hfile
    · exact absurd hpath.symm hmanifest
    · obtain ⟨origin, hstaged⟩ := (mem_others_iff.1 hfile).2
      have hdata := hreaches.keepsClasses file.path _ hstaged found hfound c hmem hpath.symm
      rw [hdata] at hmoved
      exact Except.ok.inj (hfound.symm.trans hmoved)

end Staging

/-- A dependency is refused for a class exactly if the version of the class is above that of the target release. The
    class is let in exactly if it is not and 16 bits hold the version of the target; if they do not, the program
    breaks off. So no class in the jar is newer than the target: it has the version with which its dependency
    brought it in. -/
theorem release_check_outcome (hrelease : policy.targetRelease = some release) :
    (∀ (s s₁ : Staging) (archive : Archive) (requestedBy : Option String) (entry : Entry) (major : UInt16),
      s.policy = policy → s.MeetsClass archive s₁ entry major →
        (s.add .dependency archive requestedBy =
            (s₁, .error (.archive (.unsupportedClassVersion entry.path archive.label major release))) ↔
          release.toNat + 44 < major.toNat) ∧
        (Disposition.requireRelease policy entry archive.label = .ok () ↔
          release.toNat + 44 < 2 ^ 16 ∧ major.toNat ≤ release.toNat + 44) ∧
        (s.add .dependency archive requestedBy = (s₁, .error .overflow) ↔ 2 ^ 16 ≤ release.toNat + 44)) ∧
    ∀ (relocator : Relocator) (additions : List Addition) (s : Staging),
      (Staging.start relocator policy).addAll additions = .ok s →
        ∀ o ∈ additions.flatMap Addition.offers, o.role = .dependency → policy.ChecksVersion o.entry →
          ∀ c, o.contribution? relocator policy = some c →
            ∃ major, ClassFile.majorVersion o.entry.data = .ok major ∧ major.toNat ≤ release.toNat + 44 ∧
              s.HasClass c.entry major := by
  constructor
  · rintro s s₁ archive requestedBy entry major rfl hmeets
    obtain ⟨hrefused, hbreaks⟩ := hmeets.add_eq_error_iff hrelease requestedBy
    exact ⟨hrefused, hmeets.requireRelease_eq_ok_iff hrelease, hbreaks⟩
  · intro relocator additions s hall o ho hrole hchecks c hc
    exact Staging.hasClass_of_contribution? hall hrelease ho hrole hchecks hc

/-- For release 8, a class of version 53 is refused. One of version 52 is let in, moved and written anew. -/
theorem release_check_outcome_for_8 :
    ∃ rule relocator start older newer entry s c, Rule.make "a".toList "b".toList = .ok rule ∧
      Relocator.ofRules [rule] = .ok relocator ∧ start = Staging.start relocator { targetRelease := some 8 } ∧
      newer = ⟨"two", ⟨"two.jar"⟩, [⟨"N.class", [0xCA, 0xFE, 0xBA, 0xBE, 0, 0, 0, 53]⟩]⟩ ∧
      start.add .dependency newer none =
        (start, .error (.archive (.unsupportedClassVersion "N.class" "two" 53 8))) ∧
      older = ⟨"one", ⟨"one.jar"⟩, [entry]⟩ ∧
      entry = ⟨"a/A.class", [0xCA, 0xFE, 0xBA, 0xBE, 0, 0, 0, 52, 0, 2, 1, 0, 3, 0x61, 0x2F, 0x41, 0x21]⟩ ∧
      Disposition.requireRelease { targetRelease := some 8 } entry "one" = .ok () ∧
      start.addAll [⟨.dependency, older, none⟩] = .ok s ∧
      (Offer.mk .dependency "one" entry).contribution? relocator { targetRelease := some 8 } = some c ∧
      c.entry = ⟨"b/A.class", [0xCA, 0xFE, 0xBA, 0xBE, 0, 0, 0, 52, 0, 2, 1, 0, 3, 0x62, 0x2F, 0x41, 0x21]⟩ ∧
      ∃ major, ClassFile.majorVersion entry.data = .ok major ∧ major.toNat ≤ 8 + 44 ∧ s.HasClass c.entry major := by
  let relocator : Relocator := ⟨[⟨['a'], ['b'], by decide, by decide, by decide⟩], by simp⟩
  let policy : MergePolicy := { targetRelease := some 8 }
  let start : Staging := .start relocator policy
  let tooNew : Entry := ⟨"N.class", [0xCA, 0xFE, 0xBA, 0xBE, 0, 0, 0, 53]⟩
  let newer : Archive := ⟨"two", ⟨"two.jar"⟩, [tooNew]⟩
  let entry : Entry := ⟨"a/A.class", [0xCA, 0xFE, 0xBA, 0xBE, 0, 0, 0, 52, 0, 2, 1, 0, 3, 0x61, 0x2F, 0x41, 0x21]⟩
  let older : Archive := ⟨"one", ⟨"one.jar"⟩, [entry]⟩
  have hchecks : policy.ChecksVersion entry := ⟨by decide, by decide, by decide, by decide, by simp [policy]⟩
  have hmeets : start.MeetsClass older start entry 52 := ⟨⟨[], [], [], rfl, .nil _⟩, hchecks, rfl⟩
  have hmeetsNewer : start.MeetsClass newer start tooNew 53 :=
    ⟨⟨[], [], [], rfl, .nil _⟩,
      ⟨by decide, by decide, by decide, by decide, by simp [start, policy, Staging.start]⟩, rfl⟩
  obtain ⟨s, hall, -⟩ : ∃ s, start.addAll [⟨.dependency, older, none⟩] = .ok s ∧ true :=
    exists_ok_of_any (by decide +kernel)
  have hcontribution : ((Offer.mk .dependency "one" entry).contribution? relocator policy).any
      (·.entry = ⟨"b/A.class",
        [0xCA, 0xFE, 0xBA, 0xBE, 0, 0, 0, 52, 0, 2, 1, 0, 3, 0x62, 0x2F, 0x41, 0x21]⟩) = true := by
    decide +kernel
  obtain ⟨c, hc, hentry⟩ := (Option.any_eq_true _ _).1 hcontribution
  have hrelease : policy.targetRelease = some 8 := rfl
  obtain ⟨hcheck, hclasses⟩ := release_check_outcome hrelease
  have hrefused := (hcheck start start newer none tooNew 53 rfl hmeetsNewer).1.2 (by decide)
  have hletIn := (hcheck start start older none entry 52 rfl hmeets).2.1.2 (by decide)
  have hin := hclasses relocator _ s hall ⟨.dependency, "one", entry⟩ (by simp [Addition.offers, Archive.offers, older])
    rfl hchecks c hc
  exact ⟨_, relocator, start, older, newer, entry, s, c, by decide, rfl, rfl, rfl, hrefused, rfl, rfl, hletIn, hall, hc,
    of_decide_eq_true hentry, hin⟩

/-- The version of release 65535 does not fit, so that the program breaks off at a class of version 52, which is no
    newer than the target. -/
theorem release_check_breaks_off :
    ∃ archive entry, archive = ⟨"dep", ⟨"dep.jar"⟩, [entry]⟩ ∧
      entry = ⟨"X.class", [0xCA, 0xFE, 0xBA, 0xBE, 0, 0, 0, 52]⟩ ∧
      MergePolicy.ChecksVersion { targetRelease := some 65535 } entry ∧ ClassFile.majorVersion entry.data = .ok 52 ∧
      ((Staging.start .empty { targetRelease := some 65535 }).add .dependency archive none).2 = .error .overflow ∧
      ¬65535 + 44 < 52 := by
  refine ⟨_, _, rfl, rfl, ⟨by decide, by decide, by decide, by decide, by simp⟩, rfl, ?_, by decide⟩
  rfl

end UberJar
