import UberJar.Proofs.Relocation.Kinds

namespace UberJar.Relocation

theorem atOrBelow_iff {directory path : List Char} :
    (path == directory || (directory ++ ['/']).isPrefixOf path) = true ↔
      ∃ tail, IsBelow tail ∧ path = directory ++ tail := by
  rw [Bool.or_eq_true, beq_iff_eq, List.isPrefixOf_iff_prefix]
  constructor
  · rintro (rfl | ⟨rest, rfl⟩)
    · exact ⟨[], .inl rfl, (List.append_nil _).symm⟩
    · exact ⟨'/' :: rest, .inr ⟨'/', rest, rfl, rfl⟩, by simp⟩
  · rintro ⟨tail, rfl | ⟨_, rest, rfl, rfl⟩, rfl⟩
    · exact .inl (List.append_nil _)
    · exact .inr ⟨rest, by simp⟩

namespace Relocator

/-- A path collides with a rule if it is the rule's destination or lies below it, also in the directory of a release. -/
theorem collides_iff {rule : Rule} {path : List Char} :
    collides rule path = true ↔ ∃ tail, IsBelow tail ∧
      ((∃ directory, IsRelease directory ∧ path = directory ++ (rule.destinationPath ++ tail)) ∨
        path = rule.destinationPath ++ tail) := by
  unfold collides
  rw [atOrBelow_iff]
  constructor
  · rintro ⟨tail, htail, hinner⟩
    refine ⟨tail, htail, ?_⟩
    cases hversion : EntryPath.splitVersion? path with
    | none => exact .inr (by simpa [hversion] using hinner)
    | some parts =>
      obtain ⟨directory, rest⟩ := parts
      obtain rfl : rest = rule.destinationPath ++ tail := by simpa [hversion] using hinner
      exact .inl ⟨directory, splitVersion?_eq_some.1 hversion⟩
  · rintro ⟨tail, htail, ⟨directory, hrelease, rfl⟩ | rfl⟩
    · refine ⟨tail, htail, ?_⟩
      rw [splitVersion?_eq_some.2 ⟨hrelease, rfl⟩]
    · refine ⟨tail, htail, ?_⟩
      rw [splitVersion?_eq_none (not_reserved rule.isPathChar_destinationPath htail)]

theorem exists_collides_of_movePath? {relocator : Relocator} {path moved : List Char}
    (hservice : EntryPath.service? path = none) (hmove : relocator.movePath? path = some moved) :
    ∃ rule ∈ relocator.rules, collides rule moved = true := by
  rcases movePath?_cases hmove with ⟨name, name', hname, -, -⟩ |
    ⟨directory, rest, rest', hversion, hrest, rfl⟩ | hwhole
  · rw [hservice] at hname
    cases hname
  · obtain ⟨rule, hrule, tail, htail, -, rfl⟩ := moveUnversioned?_eq_some hrest
    have hrelease := (splitVersion?_eq_some.1 hversion).1
    exact ⟨rule, hrule, collides_iff.2 ⟨tail, htail, .inl ⟨directory, hrelease, rfl⟩⟩⟩
  · obtain ⟨rule, hrule, tail, htail, -, rfl⟩ := moveUnversioned?_eq_some hwhole
    exact ⟨rule, hrule, collides_iff.2 ⟨tail, htail, .inr rfl⟩⟩

/-- The relocator of one rule. -/
def single (rule : Rule) : Relocator := ⟨[rule], List.pairwise_singleton _ _⟩

theorem moveUnversioned?_single (rule : Rule) {tail : List Char} (htail : IsBelow tail) :
    (single rule).moveUnversioned? (rule.sourcePath ++ tail) = some (rule.destinationPath ++ tail) := by
  have hmove := Rule.movePath?_iff.2 ⟨tail, htail, rfl, (rfl : rule.destinationPath ++ tail = _)⟩
  simp [single, moveUnversioned?, hmove]

/-- The paths that collide with a rule are those that the rule moves other paths to. -/
theorem collides_iff_exists_movePath? {rule : Rule} {path : List Char} :
    collides rule path = true ↔
      ∃ origin, EntryPath.service? origin = none ∧ (single rule).movePath? origin = some path := by
  constructor
  · rw [collides_iff]
    rintro ⟨tail, htail, ⟨directory, hrelease, rfl⟩ | rfl⟩
    · let origin := directory ++ (rule.sourcePath ++ tail)
      have hservices : EntryPath.services.isPrefixOf origin = false := not_services_of_isRelease hrelease _
      have hversion : EntryPath.splitVersion? origin = some (directory, rule.sourcePath ++ tail) :=
        splitVersion?_eq_some.2 ⟨hrelease, rfl⟩
      refine ⟨origin, service?_eq_none_of_isRelease hrelease _, ?_⟩
      simp [movePath?, hservices, hversion, moveUnversioned?_single rule htail]
    · have hplain := not_reserved rule.isPathChar_sourcePath htail
      refine ⟨_, service?_eq_none_of_not_reserved hplain, ?_⟩
      rw [movePath?_of_not_reserved _ hplain, moveUnversioned?_single rule htail]
  · rintro ⟨origin, hservice, hmove⟩
    obtain ⟨other, hmem, hcollides⟩ := exists_collides_of_movePath? hservice hmove
    obtain rfl := List.mem_singleton.1 hmem
    exact hcollides

theorem requireFreeDestinations_eq_ok_iff {relocator : Relocator} {entries : List Entry} :
    relocator.requireFreeDestinations entries = .ok () ↔
      ∀ rule ∈ relocator.rules, ∀ entry ∈ entries, collides rule entry.path.toList = false := by
  have hnone : relocator.requireFreeDestinations entries = .ok () ↔
      (relocator.rules.findSome? fun rule =>
        (entries.find? fun entry => collides rule entry.path.toList).map fun entry => (rule, entry)) = none := by
    unfold requireFreeDestinations
    split <;> simp [*]
  simp [hnone]

/-- After the check no path moves to where the archive has an entry, other than the paths of service files. -/
theorem path_ne_of_movePath? {relocator : Relocator} {application : Archive}
    (hfree : relocator.requireFreeDestinations application.entries = .ok ()) {path : String}
    (hservice : EntryPath.isServiceFile path = false) {moved : List Char}
    (hmove : relocator.movePath? path.toList = some moved) :
    ∀ entry ∈ application.entries, entry.path ≠ String.ofList moved := by
  intro entry hentry hpath
  rw [EntryPath.isServiceFile, Option.isSome_eq_false_iff, Option.isNone_iff_eq_none] at hservice
  obtain ⟨rule, hrule, hcollides⟩ := exists_collides_of_movePath? hservice hmove
  have hclear := requireFreeDestinations_eq_ok_iff.1 hfree rule hrule entry hentry
  rw [hpath, String.toList_ofList, hcollides] at hclear
  cases hclear

theorem path_ne_of_movePath?_in_release :
    ∃ (relocator : Relocator) (application : Archive) (path : String) (moved : List Char),
      relocator.requireFreeDestinations application.entries = .ok () ∧ EntryPath.isServiceFile path = false ∧
      relocator.movePath? path.toList = some moved ∧ application.entries ≠ [] ∧
      ∀ entry ∈ application.entries, entry.path ≠ String.ofList moved := by
  let rule : Rule := ⟨"org".toList, "x.org".toList, by decide, by decide, by decide⟩
  let application : Archive := ⟨"app", ⟨"classes"⟩, [⟨"x/A.class", []⟩, ⟨"META-INF/versions/9/x/A.class", []⟩]⟩
  have hfree : (single rule).requireFreeDestinations application.entries = .ok () := by decide +kernel
  have hservice : EntryPath.isServiceFile "META-INF/versions/9/org/A.class" = false := by decide +kernel
  have hmove : (single rule).movePath? "META-INF/versions/9/org/A.class".toList =
      some "META-INF/versions/9/x/org/A.class".toList := by decide +kernel
  exact ⟨single rule, application, _, _, hfree, hservice, hmove, by decide, path_ne_of_movePath? hfree hservice hmove⟩

end Relocator
end UberJar.Relocation
