import UberJar.Merge.Disposition
import UberJar.Proofs.Relocation.Separate

namespace UberJar.Relocation

/-- The directory of all paths that have a meaning of their own. -/
def reserved : List Char := "META-INF/".toList

theorem services_eq : EntryPath.services = reserved ++ 's' :: "ervices/".toList := by decide

theorem versions_eq : EntryPath.versions = reserved ++ 'v' :: "ersions/".toList := by decide

theorem continues_of_path {outer inner tail : List Char} (houter : isPackage outer = true)
    (hinner : isPackage inner = true) (htail : IsBelow tail)
    (hpath : Text.replaceChar '.' '/' inner = Text.replaceChar '.' '/' outer ++ tail) :
    continues outer inner = true := by
  have hsplit := congrArg (Text.replaceChar '/' '.') hpath
  rw [undotted hinner, Text.replaceChar, List.map_append, ← Text.replaceChar, undotted houter] at hsplit
  refine continues_iff.2 ⟨_, ?_, hsplit⟩
  rcases htail with rfl | ⟨_, rest, rfl, rfl⟩
  · exact .inl rfl
  · exact .inr ⟨'.', _, .inl rfl, rfl⟩

namespace Relocator

theorem moveName?_eq_some {relocator : Relocator} {name moved : List Char}
    (hmove : relocator.moveName? name = some moved) :
    ∃ r ∈ relocator.rules, ∃ tail, IsWithin tail ∧ name = r.source ++ tail ∧ moved = r.destination ++ tail := by
  obtain ⟨r, hr, hmoved⟩ := List.exists_of_findSome?_eq_some hmove
  exact ⟨r, hr, Rule.moveName?_iff.1 hmoved⟩

theorem moveUnversioned?_eq_some {relocator : Relocator} {path moved : List Char}
    (hmove : relocator.moveUnversioned? path = some moved) :
    ∃ r ∈ relocator.rules, ∃ tail, IsBelow tail ∧ path = r.sourcePath ++ tail ∧ moved = r.destinationPath ++ tail := by
  obtain ⟨r, hr, hmoved⟩ := List.exists_of_findSome?_eq_some hmove
  exact ⟨r, hr, Rule.movePath?_iff.1 hmoved⟩

/-- A name that was moved does not move again. -/
theorem moveName?_moved {relocator : Relocator} (hseparate : relocator.isSeparate = true) {name moved : List Char}
    (hmove : relocator.moveName? name = some moved) : relocator.moveName? moved = none := by
  obtain ⟨r, hr, tail, htail, -, rfl⟩ := moveName?_eq_some hmove
  refine List.findSome?_eq_none_iff.2 fun s hs => Option.eq_none_iff_forall_not_mem.2 fun again hagain => ?_
  obtain ⟨tail', htail', hsplit, -⟩ := Rule.moveName?_iff.1 hagain
  obtain ⟨hunder, hover⟩ := (isSeparate_iff.1 hseparate r hr).2.2.2 s hs
  rcases List.append_eq_append_iff.1 hsplit with ⟨more, hsource, rfl⟩ | ⟨more, hdestination, rfl⟩
  · rw [continues_iff.2 ⟨more, htail.left, hsource⟩] at hunder
    cases hunder
  · rw [continues_iff.2 ⟨more, htail'.left, hdestination⟩] at hover
    cases hover

/-- A path outside the directories of services and versions that was moved does not move again. -/
theorem moveUnversioned?_moved {relocator : Relocator} (hseparate : relocator.isSeparate = true)
    {path moved : List Char} (hmove : relocator.moveUnversioned? path = some moved) :
    relocator.moveUnversioned? moved = none := by
  obtain ⟨r, hr, tail, htail, -, rfl⟩ := moveUnversioned?_eq_some hmove
  refine List.findSome?_eq_none_iff.2 fun s hs => Option.eq_none_iff_forall_not_mem.2 fun again hagain => ?_
  obtain ⟨tail', htail', hsplit, -⟩ := Rule.movePath?_iff.1 hagain
  obtain ⟨hunder, hover⟩ := (isSeparate_iff.1 hseparate r hr).2.2.2 s hs
  rcases List.append_eq_append_iff.1 hsplit with ⟨more, hsource, rfl⟩ | ⟨more, hdestination, rfl⟩
  · rw [continues_of_path r.destination_valid s.source_valid htail.left hsource] at hunder
    cases hunder
  · rw [continues_of_path s.source_valid r.destination_valid htail'.left hdestination] at hover
    cases hover

end Relocator

/-- No directory of a package, and nothing below it, lies in the reserved directory. -/
theorem not_reserved {directory tail : List Char} (hdirectory : ∀ c ∈ directory, isPathChar c = true)
    (htail : IsBelow tail) : ¬reserved <+: directory ++ tail := by
  have hminus : '-' ∉ directory := fun hmem => absurd (hdirectory _ hmem) (by decide)
  rintro ⟨rest, hsplit⟩
  rcases List.append_eq_append_iff.1 hsplit with ⟨more, hmore, -⟩ | ⟨more, hreserved, rfl⟩
  · exact hminus (hmore ▸ List.mem_append_left _ (by decide))
  · -- The directory would end where the slash of the reserved one stands.
    have hword : reserved = "META-INF".toList ++ ['/'] := rfl
    rcases htail.left with rfl | ⟨_, more, rfl, rfl⟩
    · rw [List.append_nil] at hreserved
      exact hminus (hreserved ▸ by decide)
    · rw [hword] at hreserved
      rcases List.append_eq_append_iff.1 hreserved with ⟨left, hleft, -⟩ | ⟨left, hleft, hright⟩
      · exact hminus (hleft ▸ List.mem_append_left _ (by decide))
      · cases left with
        | nil => exact hminus ((List.append_nil directory ▸ hleft) ▸ by decide)
        | cons c left =>
          obtain ⟨rfl, -⟩ := List.cons.inj hright
          have hslash : '/' ∈ "META-INF".toList := hleft ▸ List.mem_append_right _ List.mem_cons_self
          exact absurd hslash (by decide)

/-- The directory of one release. -/
def IsRelease (directory : List Char) : Prop :=
  ∃ version, version ≠ [] ∧ version.all Char.isDigit = true ∧ directory = EntryPath.versions ++ version ++ ['/']

theorem splitVersion?_eq_some {path directory rest : List Char} :
    EntryPath.splitVersion? path = some (directory, rest) ↔ IsRelease directory ∧ path = directory ++ rest := by
  unfold EntryPath.splitVersion?
  constructor
  · intro hsplit
    cases hdrop : Text.dropPrefix? EntryPath.versions path with
    | none => simp [hdrop] at hsplit
    | some below =>
      cases hfirst : Text.splitFirst? '/' below with
      | none => simp [hdrop, hfirst] at hsplit
      | some parts =>
        obtain ⟨version, rest'⟩ := parts
        simp only [hdrop, hfirst, Option.ite_none_right_eq_some, Option.some.injEq, Prod.mk.injEq] at hsplit
        obtain ⟨⟨hne, hdigits⟩, rfl, rfl⟩ := hsplit
        obtain ⟨rfl, -⟩ := Text.splitFirst?_eq_some hfirst
        exact ⟨⟨version, hne, hdigits, rfl⟩, by simp [Text.dropPrefix?_eq_some.1 hdrop]⟩
  · rintro ⟨⟨version, hne, hdigits, rfl⟩, rfl⟩
    have hdrop : Text.dropPrefix? EntryPath.versions (EntryPath.versions ++ version ++ ['/'] ++ rest) =
        some (version ++ '/' :: rest) := Text.dropPrefix?_eq_some.2 (by simp)
    have hslash : '/' ∉ version := fun hmem => absurd (List.all_eq_true.1 hdigits _ hmem) (by decide)
    simp only [hdrop, Text.splitFirst?_append hslash]
    rw [if_pos ⟨hne, hdigits⟩]

theorem service?_eq_some {path name : List Char} :
    EntryPath.service? path = some name ↔ path = EntryPath.services ++ name ∧ name ≠ [] ∧ '/' ∉ name := by
  unfold EntryPath.service?
  cases hdrop : Text.dropPrefix? EntryPath.services path with
  | none =>
    simp only [reduceCtorEq, false_iff, not_and]
    rintro hpath
    rw [Text.dropPrefix?_eq_some.2 hpath] at hdrop
    cases hdrop
  | some below =>
    obtain rfl := Text.dropPrefix?_eq_some.1 hdrop
    by_cases hname : below = [] ∨ '/' ∈ below
    · simp only [hname, if_true, reduceCtorEq, List.append_cancel_left_eq, false_iff, not_and]
      rintro rfl hne hslash
      exact hname.elim hne hslash
    · simp only [hname, if_false, Option.some.injEq, List.append_cancel_left_eq]
      constructor
      · rintro rfl
        exact ⟨rfl, not_or.1 hname⟩
      · exact fun h => h.1

namespace Relocator

/-- A path moves as a service file, inside the directory of a release, or as a whole. -/
theorem movePath?_cases {relocator : Relocator} {path moved : List Char}
    (hmove : relocator.movePath? path = some moved) :
    (∃ name name', EntryPath.service? path = some name ∧ relocator.moveName? name = some name' ∧
      moved = EntryPath.services ++ name') ∨
    (∃ directory rest rest', EntryPath.splitVersion? path = some (directory, rest) ∧
      relocator.moveUnversioned? rest = some rest' ∧ moved = directory ++ rest') ∨
    relocator.moveUnversioned? path = some moved := by
  unfold movePath? at hmove
  by_cases hservices : EntryPath.services.isPrefixOf path = true
  · rw [if_pos hservices] at hmove
    cases hservice : EntryPath.service? path with
    | none => simp [hservice] at hmove
    | some name =>
      simp only [hservice, Option.map_eq_some_iff] at hmove
      obtain ⟨name', hname', rfl⟩ := hmove
      exact .inl ⟨name, name', rfl, hname', rfl⟩
  · rw [if_neg hservices] at hmove
    cases hversion : EntryPath.splitVersion? path with
    | none => exact .inr (.inr (by simpa [hversion] using hmove))
    | some parts =>
      obtain ⟨directory, rest⟩ := parts
      simp only [hversion, Option.map_eq_some_iff] at hmove
      obtain ⟨rest', hrest', rfl⟩ := hmove
      exact .inr (.inl ⟨directory, rest, rest', rfl, hrest', rfl⟩)

/-- The name of a service stays one. -/
theorem service?_moved {relocator : Relocator} {path name name' : List Char}
    (hservice : EntryPath.service? path = some name) (hname : relocator.moveName? name = some name') :
    EntryPath.service? (EntryPath.services ++ name') = some name' := by
  obtain ⟨-, -, hslash⟩ := service?_eq_some.1 hservice
  obtain ⟨r, -, tail, -, rfl, rfl⟩ := moveName?_eq_some hname
  obtain ⟨first, more, hdestination, -⟩ := isPackage_cons r.destination_valid
  refine service?_eq_some.2 ⟨rfl, by simp [hdestination], fun hmem => ?_⟩
  rcases List.mem_append.1 hmem with hmem | hmem
  · rcases isSegmentChar_or_dot r.destination_valid _ hmem with hsegment | hdot
    · exact absurd hsegment (by decide)
    · exact absurd hdot (by decide)
  · exact hslash (List.mem_append_right _ hmem)

theorem not_services_of_isRelease {directory : List Char} (hdirectory : IsRelease directory) (rest : List Char) :
    EntryPath.services.isPrefixOf (directory ++ rest) = false := by
  obtain ⟨version, -, -, rfl⟩ := hdirectory
  rw [← Bool.not_eq_true, List.isPrefixOf_iff_prefix, services_eq, versions_eq]
  simp only [List.append_assoc, List.cons_append, List.prefix_append_right_inj, List.cons_prefix_cons]
  exact fun h => absurd h.1 (by decide)

theorem not_services {path : List Char} (hpath : ¬reserved <+: path) : EntryPath.services.isPrefixOf path = false := by
  rw [← Bool.not_eq_true, List.isPrefixOf_iff_prefix]
  intro hservices
  rw [services_eq] at hservices
  exact hpath ((List.prefix_append _ _).trans hservices)

theorem splitVersion?_eq_none_of_outside {path : List Char} (hpath : ¬EntryPath.versions <+: path) :
    EntryPath.splitVersion? path = none := by
  rw [Option.eq_none_iff_forall_not_mem]
  rintro ⟨directory, rest⟩ hsplit
  obtain ⟨⟨version, -, -, rfl⟩, rfl⟩ := splitVersion?_eq_some.1 hsplit
  rw [List.append_assoc, List.append_assoc] at hpath
  exact hpath (List.prefix_append _ _)

theorem splitVersion?_eq_none {path : List Char} (hpath : ¬reserved <+: path) :
    EntryPath.splitVersion? path = none := by
  refine splitVersion?_eq_none_of_outside fun hversions => ?_
  rw [versions_eq] at hversions
  exact hpath ((List.prefix_append _ _).trans hversions)

theorem movePath?_of_outside (relocator : Relocator) {path : List Char} (hservices : ¬EntryPath.services <+: path)
    (hversions : ¬EntryPath.versions <+: path) : relocator.movePath? path = relocator.moveUnversioned? path := by
  rw [← List.isPrefixOf_iff_prefix] at hservices
  rw [movePath?, if_neg hservices, splitVersion?_eq_none_of_outside hversions]

theorem movePath?_of_not_reserved (relocator : Relocator) {path : List Char} (hpath : ¬reserved <+: path) :
    relocator.movePath? path = relocator.moveUnversioned? path := by
  simp [movePath?, not_services hpath, splitVersion?_eq_none hpath]

/-- A moved path does not move again. -/
theorem movePath?_moved {relocator : Relocator} (hseparate : relocator.isSeparate = true) {path moved : List Char}
    (hmove : relocator.movePath? path = some moved) : relocator.movePath? moved = none := by
  rcases movePath?_cases hmove with ⟨name, name', hservice, hname, rfl⟩ |
    ⟨directory, rest, rest', hversion, hrest, rfl⟩ | hwhole
  · have hbegins : EntryPath.services.isPrefixOf (EntryPath.services ++ name') = true :=
      List.isPrefixOf_iff_prefix.2 (List.prefix_append _ _)
    simp [movePath?, hbegins, service?_moved hservice hname, moveName?_moved hseparate hname]
  · have hdirectory := (splitVersion?_eq_some.1 hversion).1
    have hsplit := splitVersion?_eq_some.2 ⟨hdirectory, (rfl : directory ++ rest' = directory ++ rest')⟩
    simp [movePath?, not_services_of_isRelease hdirectory, hsplit, moveUnversioned?_moved hseparate hrest]
  · obtain ⟨r, -, tail, htail, -, rfl⟩ := moveUnversioned?_eq_some hwhole
    rw [relocator.movePath?_of_not_reserved (not_reserved r.isPathChar_destinationPath htail)]
    exact moveUnversioned?_moved hseparate hwhole

end Relocator
end UberJar.Relocation
