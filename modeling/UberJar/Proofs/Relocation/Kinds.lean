import UberJar.Proofs.Relocation.Paths
import UberJar.Proofs.Text.Lines

namespace UberJar.Relocation

/-- A path that stays below the place where an archive is unpacked. -/
structure IsSafePath (path : List Char) : Prop where
  ne_nil : path ≠ []
  head : path.head? ≠ some '/'
  backslash : '\\' ∉ path
  parent : ['.', '.'] ∉ path.splitOn '/'

theorem isSafe_iff {path : String} : EntryPath.isSafe path = true ↔ IsSafePath path.toList := by
  simp only [EntryPath.isSafe, Bool.and_eq_true, Bool.not_eq_true', List.isEmpty_eq_false_iff, bne_iff_ne,
    List.contains_eq_mem, decide_eq_false_iff_not]
  constructor
  · rintro ⟨⟨⟨hne, hhead⟩, hbackslash⟩, hparent⟩
    exact ⟨hne, hhead, hbackslash, hparent⟩
  · rintro ⟨hne, hhead, hbackslash, hparent⟩
    exact ⟨⟨⟨hne, hhead⟩, hbackslash⟩, hparent⟩

/-- A path of a module descriptor, for all releases or for certain ones. -/
def IsModuleDescriptor (path : List Char) : Prop :=
  path = "module-info.class".toList ∨ (EntryPath.versions <+: path ∧ '/' :: "module-info.class".toList <:+ path)

theorem isModuleDescriptor_iff {path : String} :
    EntryPath.isModuleDescriptor path = true ↔ IsModuleDescriptor path.toList := by
  simp only [EntryPath.isModuleDescriptor, EntryPath.isVersioned, Bool.or_eq_true, beq_iff_eq, Bool.and_eq_true,
    List.isPrefixOf_iff_prefix, List.isSuffixOf_iff_suffix, IsModuleDescriptor, ← String.toList_inj]
  rfl

theorem dropCause?_eq_none_iff {path : String} :
    Disposition.dropCause? .dependency path = none ↔
      IsSafePath path.toList ∧ path ≠ EntryPath.manifest ∧ EntryPath.isModuleDescriptor path = false := by
  unfold Disposition.dropCause?
  rw [← isSafe_iff]
  cases EntryPath.isSafe path <;> cases EntryPath.isModuleDescriptor path <;>
    by_cases hmanifest : path = EntryPath.manifest <;> simp [hmanifest]

theorem dropCause?_primary_eq_none_iff {path : String} :
    Disposition.dropCause? .primary path = none ↔ IsSafePath path.toList := by
  unfold Disposition.dropCause?
  rw [← isSafe_iff]
  cases EntryPath.isSafe path <;> simp

/-- A part of a path that begins at a segment may be replaced if what comes instead names no parent. -/
theorem IsSafePath.replace {front back back' : List Char} (hsafe : IsSafePath (front ++ back))
    (hfront : front = [] ∨ ∃ directory, front = directory ++ ['/']) (hne : back' ≠ []) (hhead : back'.head? ≠ some '/')
    (hbackslash : '\\' ∉ back') (hparent : ['.', '.'] ∈ back'.splitOn '/' → ['.', '.'] ∈ back.splitOn '/') :
    IsSafePath (front ++ back') := by
  have hpart : '\\' ∉ front := fun hmem => hsafe.backslash (List.mem_append_left _ hmem)
  rcases hfront with rfl | ⟨directory, rfl⟩
  · exact ⟨hne, hhead, hbackslash, fun hmem => hsafe.parent (hparent hmem)⟩
  · have hsplit (rest : List Char) : (directory ++ ['/'] ++ rest).splitOn '/' =
        directory.splitOn '/' ++ rest.splitOn '/' := by
      rw [List.append_assoc, List.singleton_append, List.splitOn_append_cons_self]
    have hold := hsafe.parent
    rw [hsplit, List.mem_append, not_or] at hold
    refine ⟨by simp, ?_, ?_, ?_⟩
    · have hslash := hsafe.head
      cases directory with
      | nil => simp at hslash
      | cons c directory => simpa using hslash
    · rw [List.mem_append, not_or]
      exact ⟨hpart, hbackslash⟩
    · rw [hsplit, List.mem_append, not_or]
      exact ⟨hold.1, fun hmem => hold.2 (hparent hmem)⟩

/-- Parents are named only behind the directory of a package. -/
theorem parent_below {directory tail : List Char} (hdirectory : ∀ c ∈ directory, isPathChar c = true)
    (htail : IsBelow tail) (hmem : ['.', '.'] ∈ (directory ++ tail).splitOn '/') (other : List Char) :
    ['.', '.'] ∈ (other ++ tail).splitOn '/' := by
  have hno : ['.', '.'] ∉ directory.splitOn '/' := by
    intro hmem
    exact absurd (hdirectory _ (Text.mem_of_mem_segment hmem '.' (by simp))) (by decide)
  rcases htail with rfl | ⟨_, rest, rfl, rfl⟩
  · rw [List.append_nil] at hmem
    exact absurd hmem hno
  · rw [List.splitOn_append_cons_self, List.mem_append] at hmem ⊢
    exact .inr (hmem.resolve_left hno)

/-- A word without slashes ends a path only inside its last segment. -/
theorem suffix_after_slash {word front rest : List Char} (hword : '/' ∉ word) :
    word <:+ front ++ '/' :: rest ↔ word <:+ rest := by
  have hrest : '/' :: rest <:+ front ++ '/' :: rest := List.suffix_append _ _
  constructor
  · intro hends
    rcases List.suffix_or_suffix_of_suffix hends hrest with hends | hends
    · rcases List.suffix_cons_iff.1 hends with rfl | hends
      · exact absurd List.mem_cons_self hword
      · exact hends
    · exact absurd (hends.subset List.mem_cons_self) hword
  · exact fun hends => hends.trans ((List.suffix_cons _ _).trans hrest)

/-- A last segment ends a path behind any slash. -/
theorem segment_suffix_after_slash {segment front rest : List Char} (hsegment : '/' ∉ segment) :
    '/' :: segment <:+ front ++ '/' :: rest ↔ segment = rest ∨ '/' :: segment <:+ rest := by
  have hrest : '/' :: rest <:+ front ++ '/' :: rest := List.suffix_append _ _
  constructor
  · intro hends
    rcases List.suffix_or_suffix_of_suffix hends hrest with hends | hends
    · rcases List.suffix_cons_iff.1 hends with heq | hends
      · exact .inl (List.cons.inj heq).2
      · exact .inr hends
    · rcases List.suffix_cons_iff.1 hends with heq | hends
      · exact .inl (List.cons.inj heq).2.symm
      · exact absurd (hends.subset List.mem_cons_self) hsegment
  · rintro (rfl | hends)
    · exact hrest
    · exact hends.trans ((List.suffix_cons _ _).trans hrest)

/-- What a path ends in does not depend on the directory of a package before it. -/
theorem suffix_below_iff {word front directory tail : List Char} (hword : '/' ∉ word) (hdot : '.' ∈ word)
    (hfront : front = [] ∨ ∃ parent, front = parent ++ ['/']) (hdirectory : ∀ c ∈ directory, isPathChar c = true)
    (htail : IsBelow tail) :
    word <:+ front ++ (directory ++ tail) ↔ ∃ rest, tail = '/' :: rest ∧ word <:+ rest := by
  have hno : ¬word <:+ directory := fun hends => absurd (hdirectory _ (hends.subset hdot)) (by decide)
  rcases htail with rfl | ⟨_, rest, rfl, rfl⟩
  · simp only [List.append_nil, List.nil_eq, reduceCtorEq, false_and, exists_false, iff_false]
    rcases hfront with rfl | ⟨parent, rfl⟩
    · exact hno
    · rw [List.append_assoc, List.singleton_append, suffix_after_slash hword]
      exact hno
  · rw [← List.append_assoc, suffix_after_slash hword]
    constructor
    · exact fun hends => ⟨rest, rfl, hends⟩
    · rintro ⟨rest', heq, hends⟩
      exact (List.cons.inj heq).2 ▸ hends

namespace Rule

/-- Moving the part behind `front` keeps a path safe. -/
theorem isSafePath_below (r : Rule) {front tail : List Char}
    (hfront : front = [] ∨ ∃ directory, front = directory ++ ['/']) (htail : IsBelow tail)
    (hsafe : IsSafePath (front ++ (r.sourcePath ++ tail))) :
    IsSafePath (front ++ (r.destinationPath ++ tail)) := by
  obtain ⟨c, rest, hcons, hc⟩ := r.destinationPath_cons
  refine hsafe.replace hfront (by simp [hcons]) ?_ ?_ fun hmem => ?_
  · have hslash : c ≠ '/' := by
      rintro rfl
      exact absurd hc (by decide)
    simpa [hcons] using hslash
  · rw [List.mem_append, not_or]
    refine ⟨fun hmem => absurd (r.isPathChar_destinationPath _ hmem) (by decide), fun hmem => ?_⟩
    exact hsafe.backslash (List.mem_append_right _ (List.mem_append_right _ hmem))
  · exact parent_below r.isPathChar_destinationPath htail hmem _

theorem minus_notMem_destinationPath (r : Rule) : '-' ∉ r.destinationPath :=
  fun hmem => absurd (r.isPathChar_destinationPath _ hmem) (by decide)

theorem below_ne_moduleInfo (r : Rule) {tail : List Char} (htail : IsBelow tail) :
    r.destinationPath ++ tail ≠ "module-info.class".toList := by
  intro heq
  rcases htail with rfl | ⟨_, rest, rfl, rfl⟩
  · rw [List.append_nil] at heq
    exact r.minus_notMem_destinationPath (heq ▸ by decide)
  · have hslash : '/' ∈ "module-info.class".toList := by simp [← heq]
    exact absurd hslash (by decide)

/-- A path that ends like a module descriptor does so below the package, whatever this is. -/
theorem moduleInfo_suffix_below (r : Rule) {front tail : List Char} (htail : IsBelow tail)
    (hends : '/' :: "module-info.class".toList <:+ front ++ '/' :: (r.destinationPath ++ tail)) :
    '/' :: "module-info.class".toList <:+ front ++ '/' :: (r.sourcePath ++ tail) := by
  rw [segment_suffix_after_slash (by decide)] at hends ⊢
  rcases hends with heq | hends
  · exact absurd heq.symm (r.below_ne_moduleInfo htail)
  · rcases htail with rfl | ⟨_, rest, rfl, rfl⟩
    · rw [List.append_nil] at hends
      exact absurd (hends.subset (by decide)) r.minus_notMem_destinationPath
    · rw [segment_suffix_after_slash (by decide)] at hends ⊢
      exact .inr hends

end Rule

namespace Relocator

variable {relocator : Relocator}

theorem isSafePath_moved {path moved : List Char} (hsafe : IsSafePath path)
    (hmove : relocator.movePath? path = some moved) : IsSafePath moved := by
  rcases movePath?_cases hmove with ⟨name, name', hservice, hname, rfl⟩ |
    ⟨directory, rest, rest', hversion, hrest, rfl⟩ | hwhole
  · obtain ⟨rfl, -, -⟩ := service?_eq_some.1 hservice
    obtain ⟨-, hne, hslash⟩ := service?_eq_some.1 (service?_moved hservice hname)
    obtain ⟨r, -, tail, -, rfl, rfl⟩ := moveName?_eq_some hname
    obtain ⟨c, rest, hcons, hc, -⟩ := isPackage_cons r.destination_valid
    have hfront : EntryPath.services = "META-INF/services".toList ++ ['/'] := by decide
    refine hsafe.replace (.inr ⟨_, hfront⟩) hne ?_ ?_ ?_
    · exact fun hhead => hslash (List.mem_of_mem_head? hhead)
    · rw [List.mem_append, not_or]
      refine ⟨fun hmem => ?_, fun hmem => hsafe.backslash (by simp [hmem])⟩
      rcases isSegmentChar_or_dot r.destination_valid _ hmem with hsegment | hdot
      · exact absurd hsegment (by decide)
      · exact absurd hdot (by decide)
    · rw [List.splitOn_eq_singleton hslash, List.mem_singleton, hcons]
      intro heq
      obtain ⟨rfl, -⟩ := List.cons.inj heq
      exact absurd hc (by decide)
  · obtain ⟨⟨version, -, -, rfl⟩, rfl⟩ := splitVersion?_eq_some.1 hversion
    obtain ⟨r, -, tail, htail, rfl, rfl⟩ := moveUnversioned?_eq_some hrest
    exact r.isSafePath_below (.inr ⟨_, rfl⟩) htail hsafe
  · obtain ⟨r, -, tail, htail, rfl, rfl⟩ := moveUnversioned?_eq_some hwhole
    exact r.isSafePath_below (.inl rfl) htail hsafe

/-- No dependency's manifest comes out of a move, and no module descriptor. -/
theorem not_special_moved {path moved : List Char} (hmove : relocator.movePath? path = some moved)
    (hpath : ¬IsModuleDescriptor path) : moved ≠ EntryPath.manifest.toList ∧ ¬IsModuleDescriptor moved := by
  have hmanifest : EntryPath.manifest.toList = reserved ++ 'M' :: "ANIFEST.MF".toList := by decide
  have hnotReserved (rest : List Char) : reserved ++ rest ≠ "module-info.class".toList := by
    intro heq
    exact absurd (heq ▸ List.prefix_append _ _ : reserved <+: "module-info.class".toList) (by decide)
  rcases movePath?_cases hmove with ⟨name, name', hservice, hname, rfl⟩ |
    ⟨directory, rest, rest', hversion, hrest, rfl⟩ | hwhole
  · rw [hmanifest, services_eq, List.append_assoc]
    refine ⟨fun heq => ?_, ?_⟩
    · exact absurd (List.cons.inj (List.append_cancel_left heq)).1 (by decide)
    · rintro (heq | ⟨hversions, -⟩)
      · exact hnotReserved _ heq
      · rw [versions_eq, List.prefix_append_right_inj, List.cons_append, List.cons_prefix_cons] at hversions
        exact absurd hversions.1 (by decide)
  · obtain ⟨⟨version, -, -, rfl⟩, rfl⟩ := splitVersion?_eq_some.1 hversion
    obtain ⟨r, -, tail, htail, rfl, rfl⟩ := moveUnversioned?_eq_some hrest
    refine ⟨fun heq => ?_, ?_⟩
    · rw [hmanifest, versions_eq, List.append_assoc, List.append_assoc, List.append_assoc] at heq
      exact absurd (List.cons.inj (List.append_cancel_left heq)).1 (by decide)
    · rintro (heq | ⟨-, hends⟩)
      · rw [versions_eq, List.append_assoc, List.append_assoc, List.append_assoc] at heq
        exact hnotReserved _ heq
      · refine hpath (.inr ⟨?_, ?_⟩)
        · rw [List.append_assoc, List.append_assoc]
          exact List.prefix_append _ _
        · rw [List.append_assoc _ ['/'], List.singleton_append] at hends ⊢
          exact r.moduleInfo_suffix_below htail hends
  · obtain ⟨r, -, tail, htail, rfl, rfl⟩ := moveUnversioned?_eq_some hwhole
    have hreserved := not_reserved r.isPathChar_destinationPath htail
    refine ⟨fun heq => ?_, ?_⟩
    · rw [heq, hmanifest] at hreserved
      exact hreserved (List.prefix_append _ _)
    · rintro (heq | ⟨hversions, -⟩)
      · exact r.below_ne_moduleInfo htail heq
      · rw [versions_eq] at hversions
        exact hreserved ((List.prefix_append _ _).trans hversions)

/-- An entry of a dependency that is carried over is carried over from its new place too. -/
theorem dropCause?_moved {path : String} {moved : List Char} (hmove : relocator.movePath? path.toList = some moved)
    (hcarried : Disposition.dropCause? .dependency path = none) :
    Disposition.dropCause? .dependency (String.ofList moved) = none := by
  obtain ⟨hsafe, -, hdescriptor⟩ := dropCause?_eq_none_iff.1 hcarried
  rw [← Bool.not_eq_true, isModuleDescriptor_iff] at hdescriptor
  obtain ⟨hmanifest, hmoved⟩ := not_special_moved hmove hdescriptor
  refine dropCause?_eq_none_iff.2 ⟨?_, ?_, ?_⟩
  · rw [String.toList_ofList]
    exact isSafePath_moved hsafe hmove
  · rintro heq
    exact hmanifest (by rw [← heq, String.toList_ofList])
  · rwa [← Bool.not_eq_true, isModuleDescriptor_iff, String.toList_ofList]

theorem service?_eq_none_of_isRelease {directory : List Char} (hdirectory : IsRelease directory) (rest : List Char) :
    EntryPath.service? (directory ++ rest) = none := by
  have hno := not_services_of_isRelease hdirectory rest
  simp [EntryPath.service?, Text.dropPrefix?, hno]

theorem service?_eq_none_of_not_reserved {path : List Char} (hpath : ¬reserved <+: path) :
    EntryPath.service? path = none := by
  simp [EntryPath.service?, Text.dropPrefix?, not_services hpath]

/-- A service file stays a service file, and no other file becomes one. -/
theorem service?_eq_none_moved {path moved : List Char} (hmove : relocator.movePath? path = some moved) :
    EntryPath.service? moved = none ↔ EntryPath.service? path = none := by
  rcases movePath?_cases hmove with ⟨name, name', hservice, hname, rfl⟩ |
    ⟨directory, rest, rest', hversion, hrest, rfl⟩ | hwhole
  · rw [service?_moved hservice hname, hservice]
    simp
  · obtain ⟨hdirectory, rfl⟩ := splitVersion?_eq_some.1 hversion
    simp [service?_eq_none_of_isRelease hdirectory]
  · obtain ⟨r, -, tail, htail, rfl, rfl⟩ := moveUnversioned?_eq_some hwhole
    have hdestination := not_reserved r.isPathChar_destinationPath htail
    have hsource := not_reserved r.isPathChar_sourcePath htail
    simp [service?_eq_none_of_not_reserved hdestination, service?_eq_none_of_not_reserved hsource]

/-- A class stays a class, and no other file becomes one, outside the directory of services. -/
theorem isClass_moved {path moved : List Char} (hmove : relocator.movePath? path = some moved)
    (hservice : EntryPath.service? path = none) :
    ".class".toList <:+ moved ↔ ".class".toList <:+ path := by
  have hslash : '/' ∉ ".class".toList := by decide
  have hdot : '.' ∈ ".class".toList := by decide
  rcases movePath?_cases hmove with ⟨name, name', hservice', -, -⟩ |
    ⟨directory, rest, rest', hversion, hrest, rfl⟩ | hwhole
  · rw [hservice] at hservice'
    cases hservice'
  · obtain ⟨⟨version, -, -, rfl⟩, rfl⟩ := splitVersion?_eq_some.1 hversion
    obtain ⟨r, -, tail, htail, rfl, rfl⟩ := moveUnversioned?_eq_some hrest
    rw [suffix_below_iff hslash hdot (.inr ⟨_, rfl⟩) r.isPathChar_destinationPath htail,
      suffix_below_iff hslash hdot (.inr ⟨_, rfl⟩) r.isPathChar_sourcePath htail]
  · obtain ⟨r, -, tail, htail, rfl, rfl⟩ := moveUnversioned?_eq_some hwhole
    have hdestination := suffix_below_iff hslash hdot (.inl rfl) r.isPathChar_destinationPath htail
    have hsource := suffix_below_iff hslash hdot (.inl rfl) r.isPathChar_sourcePath htail
    exact hdestination.trans hsource.symm

/-- No service file becomes a class if the rules are separate. -/
theorem isClass_of_moved (hseparate : relocator.isSeparate = true) {path moved : List Char}
    (hmove : relocator.movePath? path = some moved) (hclass : ".class".toList <:+ moved) :
    ".class".toList <:+ path := by
  have hslash : '/' ∉ ".class".toList := by decide
  have hfront : EntryPath.services = "META-INF/services".toList ++ ['/'] := by decide
  cases hservice : EntryPath.service? path with
  | none => exact (isClass_moved hmove hservice).1 hclass
  | some name =>
    rcases movePath?_cases hmove with ⟨name, name', hservice', hname, rfl⟩ |
      ⟨directory, rest, rest', hversion, -, -⟩ | hwhole
    · obtain ⟨rfl, -⟩ := service?_eq_some.1 hservice'
      obtain ⟨r, hr, tail, htail, rfl, rfl⟩ := moveName?_eq_some hname
      rw [hfront, List.append_assoc, List.singleton_append, suffix_after_slash hslash] at hclass ⊢
      have hrule := (isSeparate_iff.1 hseparate r hr).2.2.1
      rcases htail with rfl | ⟨c, rest, hc, rfl⟩
      · rw [List.append_nil] at hclass ⊢
        exact hrule hclass
      · have hword : ".class".toList = '.' :: "class".toList := by decide
        rcases List.suffix_or_suffix_of_suffix hclass (List.suffix_append _ (c :: rest)) with hends | hends
        · exact hends.trans (List.suffix_append _ _)
        · rw [hword] at hends
          rcases List.suffix_cons_iff.1 hends with heq | hends
          · rw [heq, ← hword]
            exact List.suffix_append _ _
          · have hmem : c ∈ "class".toList := hends.subset List.mem_cons_self
            rcases hc with rfl | rfl <;> exact absurd hmem (by decide)
    · obtain ⟨hdirectory, rfl⟩ := splitVersion?_eq_some.1 hversion
      rw [service?_eq_none_of_isRelease hdirectory] at hservice
      cases hservice
    · obtain ⟨r, -, tail, htail, rfl, rfl⟩ := moveUnversioned?_eq_some hwhole
      rw [service?_eq_none_of_not_reserved (not_reserved r.isPathChar_sourcePath htail)] at hservice
      cases hservice

end Relocator
end UberJar.Relocation
