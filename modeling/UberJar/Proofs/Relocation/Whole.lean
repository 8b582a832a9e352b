import UberJar.Proofs.Relocation.Decomposition
import UberJar.Proofs.Relocation.Occurrence
import UberJar.Proofs.Relocation.Paths

namespace UberJar.Relocation

open Reference Text

namespace Reference

/-- Bytes at which nothing is found are kept, one by one. -/
theorem Scans.append_kept {forms : List Form} {before front rest : Bytes} {pieces : List Piece}
    (hnone : ∀ earlier later, front = earlier ++ later → later ≠ [] →
      matching? forms (earlier.reverse ++ before) (later ++ rest) = none)
    (hscans : Scans forms (front.reverse ++ before) rest pieces) :
    Scans forms before (front ++ rest) (front.map Piece.kept ++ pieces) := by
  induction front generalizing before with
  | nil => exact hscans
  | cons b front ih =>
    refine .kept (hnone [] (b :: front) rfl (List.cons_ne_nil b front)) (ih (fun earlier later hsplit hne => ?_) ?_)
    · simpa using hnone (b :: earlier) later (by rw [hsplit, List.cons_append]) hne
    · simpa using hscans

theorem flatMap_output_kept (bytes : Bytes) : (bytes.map Piece.kept).flatMap Piece.output = bytes := by
  rw [List.flatMap_map]
  exact List.flatMap_singleton' bytes

end Reference

/-- Bytes that begin with the source of a form, with the destination in its place. -/
def Form.written (form : Form) (bytes : Bytes) : Bytes := form.destination ++ bytes.drop form.source.length

/-- Where no other form can occur, a form writes what its source and its destination say of the text. -/
theorem map_written_matching? {forms : List Form} {form : Form} (hmem : form ∈ forms) {before : Bytes}
    {text word target : List Char} {ends : Char → Prop} {moved? : Option (List Char)}
    (honly : ∀ other ∈ forms, matchesForm before (Utf8.encode text) other = true → other = form)
    (hsource : form.source = Utf8.encode word) (hdestination : form.destination = Utf8.encode target)
    (hoccurs : matchesForm before (Utf8.encode text) form = true ↔ ∃ tail, EndsAt ends tail ∧ text = word ++ tail)
    (hmoved : ∀ moved, moved? = some moved ↔
      ∃ tail, EndsAt ends tail ∧ text = word ++ tail ∧ moved = target ++ tail) :
    (matching? forms before (Utf8.encode text)).map (·.written (Utf8.encode text)) = moved?.map Utf8.encode := by
  cases hmove : moved? with
  | none =>
    have hnone : matching? forms before (Utf8.encode text) = none := by
      rw [matching?, List.find?_eq_none]
      intro other hother hmatch
      obtain rfl := honly other hother hmatch
      obtain ⟨tail, hends, htext⟩ := hoccurs.1 hmatch
      rw [(hmoved _).2 ⟨tail, hends, htext, rfl⟩] at hmove
      cases hmove
    rw [hnone, Option.map_none, Option.map_none]
  | some moved =>
    obtain ⟨tail, hends, rfl, rfl⟩ := (hmoved moved).1 hmove
    have hsome : (matching? forms before (Utf8.encode (word ++ tail))).isSome = true :=
      List.find?_isSome.2 ⟨form, hmem, hoccurs.2 ⟨tail, hends, rfl⟩⟩
    obtain ⟨other, hother⟩ := Option.isSome_iff_exists.1 hsome
    obtain rfl := honly other (mem_of_matching? hother) (matchesForm_of_matching? hother)
    rw [hother, Option.map_some, Option.map_some, Form.written, hdestination, Utf8.encode_append, ← hsource,
      List.drop_left, Utf8.encode_append]

namespace Rule

/-- Behind the slash of an absolute name a rule writes the path that it moves the resource to. -/
theorem map_written_absolute (r : Rule) {path : List Char} (hpath : ∀ c ∈ path, isQualifiedChar c = true ∧ c ≠ '$') :
    (matching? r.forms [0x2F] (Utf8.encode path)).map (·.written (Utf8.encode path)) =
      (r.movePath? path).map Utf8.encode := by
  have hmem : r.slashForm ∈ r.forms := List.mem_cons_self
  refine map_written_matching? hmem (fun other hother hoccurs => ?_) rfl rfl ?_ fun moved => movePath?_iff
  · -- The dotted form does not start behind a slash.
    rw [forms_eq, List.mem_pair] at hother
    refine hother.resolve_right fun hdot => ?_
    have hstarts : startsAfter 0x2E [0x2F] = false := by decide
    simp [hdot, matchesForm, dotForm, hstarts] at hoccurs
  · have hstarts : startsAfter r.slashForm.separator [0x2F] = true := show startsAfter 0x2F [0x2F] = true by decide
    have hfound : matchesForm [0x2F] (Utf8.encode path) r.slashForm = true ↔
        ∃ tail, EndsAt (fun c => c = '/' ∨ c = '$') tail ∧ path = r.sourcePath ++ tail :=
      matchesForm_encode_iff rfl rfl (by decide) (fun c hc => (hpath c hc).1) hstarts
    refine hfound.trans (exists_congr fun tail => and_congr_left fun hsplit => or_congr_right ?_)
    refine exists_congr fun c => exists_congr fun rest => and_congr_left fun htail => ?_
    have hdollar : c ≠ '$' := (hpath c (by simp [hsplit, htail])).2
    simp [hdollar]

/-- A source with a dot is not found in its slash form where there are no slashes. -/
theorem not_matchesForm_slashForm {r : Rule} (hdot : '.' ∈ r.source) {before rest : Bytes} (hrest : 0x2F ∉ rest) :
    matchesForm before rest r.slashForm = false := by
  rw [← Bool.not_eq_true]
  intro hoccurs
  obtain ⟨after, rfl⟩ := exists_append_of_matchesForm hoccurs
  have hslash : '/' ∈ r.sourcePath := List.mem_map.2 ⟨'.', hdot, rfl⟩
  have hbyte : asciiByte '/' ∈ r.slashForm.source := (Utf8.asciiByte_mem_iff (by decide)).2 hslash
  exact hrest (List.mem_append_left after hbyte)

/-- At the beginning of a dotted name a rule writes the name that it moves the class to. -/
theorem map_written_dotted (r : Rule) (hdot : '.' ∈ r.source) {name : List Char}
    (hname : ∀ c ∈ name, isQualifiedChar c = true) (hslash : '/' ∉ name) :
    (matching? r.forms [] (Utf8.encode name)).map (·.written (Utf8.encode name)) =
      (r.moveName? name).map Utf8.encode := by
  have hmem : r.dotForm ∈ r.forms := List.mem_cons_of_mem _ List.mem_cons_self
  refine map_written_matching? hmem (fun other hother hoccurs => ?_) rfl rfl
    (matchesForm_encode_iff rfl rfl (by decide) hname rfl) fun moved => moveName?_iff
  rw [forms_eq, List.mem_pair] at hother
  refine hother.resolve_left fun hform => ?_
  have hbyte : asciiByte '/' ∉ Utf8.encode name := mt (Utf8.asciiByte_mem_iff (by decide)).1 hslash
  rw [hform, not_matchesForm_slashForm hdot hbyte] at hoccurs
  cases hoccurs

end Rule

namespace Relocator

/-- What the first rule writes, of those a form of which occurs, is what the first rule that moves the text moves it
    to. -/
theorem map_written_findSome? (relocator : Relocator) {before : Bytes} {text : List Char}
    (move? : Rule → Option (List Char))
    (hrule : ∀ r ∈ relocator.rules, (matching? r.forms before (Utf8.encode text)).map (·.written (Utf8.encode text)) =
      (move? r).map Utf8.encode) :
    (matching? relocator.forms before (Utf8.encode text)).map (·.written (Utf8.encode text)) =
      (relocator.rules.findSome? move?).map Utf8.encode := by
  rw [matching?, forms, List.find?_flatMap, List.map_findSome?, List.map_findSome?, ← List.head?_filterMap,
    ← List.head?_filterMap]
  exact congrArg List.head? (List.filterMap_congr hrule)

/-- Where a reference can be found at one place only, it is the one that moves, if it is there. -/
theorem moveReferences?_of_place (relocator : Relocator) {front rest : Bytes}
    (hplace : ∀ earlier later, front ++ rest = earlier ++ later → later ≠ [] → earlier ≠ front →
      matching? relocator.forms earlier.reverse later = none) :
    relocator.moveReferences? (front ++ rest) =
      ((matching? relocator.forms front.reverse rest).map (·.written rest)).map (front ++ ·) := by
  cases hmatch : matching? relocator.forms front.reverse rest with
  | none =>
    rw [Option.map_none, Option.map_none, moveReferences?_eq_none_iff]
    intro earlier later hsplit hne
    by_cases hearlier : earlier = front
    · subst hearlier
      rwa [← List.append_cancel_left hsplit]
    · exact hplace earlier later hsplit hne hearlier
  | some form =>
    obtain ⟨tail, rfl⟩ := exists_append_of_matchesForm (matchesForm_of_matching? hmatch)
    have hsource : form.source ≠ [] := relocator.source_ne_nil form (mem_of_matching? hmatch)
    have htail : Scans relocator.forms (form.source.reverse ++ front.reverse) (tail ++ [])
        (tail.map Piece.kept ++ []) := by
      refine .append_kept (fun earlier later hsplit hne => ?_) (.done _)
      have hnone := hplace (front ++ form.source ++ earlier) later (by simp [hsplit]) hne (by simp [hsource])
      simpa using hnone
    have hfront : Scans relocator.forms [] (front ++ (form.source ++ tail))
        (front.map Piece.kept ++ .moved form :: tail.map Piece.kept) := by
      refine .append_kept (fun earlier later hsplit hne => ?_) (.moved (by simpa using hmatch) (by simpa using htail))
      have hnone := hplace earlier (later ++ (form.source ++ tail)) (by simp [hsplit]) (by simp [hne])
        (by simp [hsplit, hne])
      simpa using hnone
    have hpieces := (scans_pieces relocator.source_ne_nil _).unique relocator.source_ne_nil hfront
    simp [moveReferences?, hpieces, Piece.isMoved, flatMap_output_kept, Piece.output, Form.written]

/-- Behind a slash at the beginning a name is an absolute one, and nothing else in it is a reference. -/
theorem matching?_inside_absolute (relocator : Relocator) {name earlier later : Bytes}
    (hname : ∀ b ∈ name, isNamePart b = true) (hsplit : [0x2F] ++ name = earlier ++ later) (hne : later ≠ [])
    (hearlier : earlier ≠ [0x2F]) : matching? relocator.forms earlier.reverse later = none := by
  rw [matching?, List.find?_eq_none]
  intro form hform hoccurs
  obtain ⟨r, -, -, hsource, -⟩ := exists_rule_of_mem_forms hform
  cases earlier with
  | nil =>
    -- No source begins with a slash.
    obtain ⟨rest, rfl⟩ := exists_append_of_matchesForm hoccurs
    obtain ⟨b, more, hcons⟩ := List.exists_cons_of_ne_nil hsource.ne_nil
    rw [hcons] at hsplit
    obtain ⟨rfl, -⟩ := List.cons.inj hsplit
    exact hsource.head (by rw [hcons]; rfl)
  | cons b earlier =>
    obtain ⟨rfl, hrest⟩ := List.cons.inj hsplit
    obtain rfl : name = earlier ++ later := hrest
    have hnamed : ∀ b ∈ 0x2F :: earlier, isNamePart b = true :=
      List.forall_mem_cons.2 ⟨by decide, fun b hb => hname b (List.mem_append_left later hb)⟩
    simp only [matchesForm, Bool.and_eq_true] at hoccurs
    rw [← List.append_nil (List.reverse _)] at hoccurs
    obtain ⟨-, ⟨hfirst, -⟩ | ⟨primitives, hobject, hprimitives, -⟩⟩ :=
      startsAfter_name (List.cons_ne_nil _ _) hnamed hoccurs.1.2
    · exact hearlier hfirst
    · cases primitives with
      | nil => exact absurd (List.cons.inj hobject).1 (by decide)
      | cons p primitives =>
        obtain ⟨rfl, -⟩ := List.cons.inj hobject
        exact absurd (hprimitives 0x2F List.mem_cons_self) (by decide)

/-- The absolute name of a resource moves as the path of the resource does. -/
theorem moveReferences?_absolute (relocator : Relocator) {path : List Char}
    (hpath : ∀ c ∈ path, isQualifiedChar c = true ∧ c ≠ '$') :
    relocator.moveReferences? (Utf8.encode ('/' :: path)) =
      (relocator.movePath? path).map fun moved => Utf8.encode ('/' :: moved) := by
  have hqualified : ∀ c ∈ path, isQualifiedChar c = true := fun c hc => (hpath c hc).1
  have hslash (rest : List Char) : Utf8.encode ('/' :: rest) = [0x2F] ++ Utf8.encode rest :=
    Utf8.encode_append ['/'] rest
  have hreserved : ¬reserved <+: path := fun hbelow =>
    absurd (hqualified '-' (hbelow.subset (by decide))) (by decide)
  rw [hslash, relocator.moveReferences?_of_place fun earlier later hsplit hne hearlier =>
    relocator.matching?_inside_absolute (isNamePart_of_mem_encode hqualified) hsplit hne hearlier]
  rw [List.reverse_singleton, relocator.map_written_findSome? _ fun r _ => r.map_written_absolute hpath,
    relocator.movePath?_of_not_reserved hreserved, moveUnversioned?, Option.map_map]
  simp only [Function.comp_def, hslash]

/-- A resource of the nested package, with a letter beyond ASCII in its name. -/
theorem moveReferences?_absolute_of_nested_packages :
    ∃ relocator : Relocator, relocator.rules.map Rule.source = ["org.a.b".toList, "org.a".toList] ∧
      (∀ c ∈ "org/a/b/é.txt".toList, isQualifiedChar c = true ∧ c ≠ '$') ∧
      relocator.moveReferences? (Utf8.encode "/org/a/b/é.txt".toList) = some (Utf8.encode "/y/b/é.txt".toList) := by
  let nested : Rule := ⟨"org.a.b".toList, "y.b".toList, by decide, by decide, by decide⟩
  let outer : Rule := ⟨"org.a".toList, "x.a".toList, by decide, by decide, by decide⟩
  have hpath : ∀ c ∈ "org/a/b/é.txt".toList, isQualifiedChar c = true ∧ c ≠ '$' := by
    simp [isQualifiedChar, isSegmentChar]
  refine ⟨⟨[nested, outer], by decide⟩, rfl, hpath, (moveReferences?_absolute _ hpath).trans ?_⟩
  decide +kernel

/-- In a dotted name no source with two segments or more is found in its slash form. -/
theorem matching?_inside_dotted {relocator : Relocator} (hdot : ∀ r ∈ relocator.rules, '.' ∈ r.source)
    {name earlier later : Bytes} (hname : ∀ b ∈ name, isNamePart b = true) (hslash : 0x2F ∉ name)
    (hsplit : name = earlier ++ later) (hearlier : earlier ≠ []) :
    matching? relocator.forms earlier.reverse later = none := by
  rw [matching?, List.find?_eq_none]
  intro form hform hoccurs
  obtain ⟨r, hr, hmem⟩ := List.mem_flatMap.1 hform
  have hlater : 0x2F ∉ later := fun hmem => hslash (hsplit ▸ List.mem_append_right earlier hmem)
  have hnamed : ∀ b ∈ earlier, isNamePart b = true := fun b hb => hname b (hsplit ▸ List.mem_append_left later hb)
  rw [Rule.forms_eq, List.mem_pair] at hmem
  rcases hmem with rfl | rfl
  · rw [Rule.not_matchesForm_slashForm (hdot r hr) hlater] at hoccurs
    cases hoccurs
  · simp only [matchesForm, Bool.and_eq_true] at hoccurs
    rw [← List.append_nil (List.reverse _)] at hoccurs
    -- Behind a part of a name only slash forms start.
    exact absurd (startsAfter_name hearlier hnamed hoccurs.1.2).1 (show (0x2E : UInt8) ≠ 0x2F by decide)

/-- In a dotted name the search for references finds what the name of the class moves by, if every source has two
    segments or more. -/
theorem moveReferences?_dotted {relocator : Relocator}
    (hsegments : ∀ r ∈ relocator.rules, 2 ≤ (r.source.splitOn '.').length) {name : List Char}
    (hname : ∀ c ∈ name, isQualifiedChar c = true ∧ c ≠ '/') :
    relocator.moveReferences? (Utf8.encode name) = (relocator.moveName? name).map Utf8.encode := by
  have hqualified : ∀ c ∈ name, isQualifiedChar c = true := fun c hc => (hname c hc).1
  have hslash : '/' ∉ name := fun hmem => (hname '/' hmem).2 rfl
  have hdot (r : Rule) (hr : r ∈ relocator.rules) : '.' ∈ r.source := by
    by_contra hno
    have hlength := hsegments r hr
    rw [List.splitOn_eq_singleton hno, List.length_singleton] at hlength
    omega
  have hbyte : asciiByte '/' ∉ Utf8.encode name := mt (Utf8.asciiByte_mem_iff (by decide)).1 hslash
  have hplace (earlier later : Bytes) (hsplit : [] ++ Utf8.encode name = earlier ++ later) (_ : later ≠ [])
      (hearlier : earlier ≠ []) : matching? relocator.forms earlier.reverse later = none :=
    matching?_inside_dotted hdot (isNamePart_of_mem_encode hqualified) hbyte hsplit hearlier
  have hmoved := relocator.moveReferences?_of_place hplace
  rw [List.nil_append, List.reverse_nil,
    relocator.map_written_findSome? _ fun r hr => r.map_written_dotted (hdot r hr) hqualified hslash] at hmoved
  simp only [List.nil_append, Option.map_id'] at hmoved
  exact hmoved

/-- A nested class of the nested package, with a letter beyond ASCII in its name. -/
theorem moveReferences?_dotted_of_nested_packages :
    ∃ relocator : Relocator, (∀ r ∈ relocator.rules, 2 ≤ (r.source.splitOn '.').length) ∧
      (∀ c ∈ "org.a.b.Ünit$1".toList, isQualifiedChar c = true ∧ c ≠ '/') ∧
      relocator.moveReferences? (Utf8.encode "org.a.b.Ünit$1".toList) = some (Utf8.encode "y.b.Ünit$1".toList) := by
  let nested : Rule := ⟨"org.a.b".toList, "y.b".toList, by decide, by decide, by decide⟩
  let outer : Rule := ⟨"org.a".toList, "x.a".toList, by decide, by decide, by decide⟩
  let relocator : Relocator := ⟨[nested, outer], by decide⟩
  have hsegments : ∀ r ∈ relocator.rules, 2 ≤ (r.source.splitOn '.').length := by decide
  have hname : ∀ c ∈ "org.a.b.Ünit$1".toList, isQualifiedChar c = true ∧ c ≠ '/' := by
    simp [isQualifiedChar, isSegmentChar]
  refine ⟨relocator, hsegments, hname, (moveReferences?_dotted hsegments hname).trans ?_⟩
  decide +kernel

end Relocator
end UberJar.Relocation
