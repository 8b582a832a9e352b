import Mathlib.Data.List.Basic
import Mathlib.Data.List.TakeWhile
import UberJar.Proofs.Distinct
import UberJar.Proofs.Relocation.Occurrence

namespace UberJar.Relocation

open Reference

/-- An internal class name: segments of letters, digits, `_` and `$`, separated by slashes. -/
def IsClassName (name : List Char) : Prop :=
  ∀ segment ∈ name.splitOn '/', segment ≠ [] ∧ ∀ c ∈ segment, isSegmentChar c = true

instance {name : List Char} : Decidable (IsClassName name) :=
  decidable_of_iff (((name.splitOn '/').all fun segment => !segment.isEmpty && segment.all isSegmentChar) = true)
    (by simp [IsClassName])

/-- The path of a class. -/
def classPath (name : List Char) : List Char := name ++ ".class".toList

/-- The class lies in the source directory of a rule. -/
def Rule.Holds (r : Rule) (name : List Char) : Prop := ∃ rest, name = r.sourcePath ++ '/' :: rest

/-- The source of a rule ends in the class's own name: it is the whole name, or a `$` follows it. -/
def Rule.EndsIn (r : Rule) (name : List Char) : Prop :=
  name = r.sourcePath ∨ ∃ rest, name = r.sourcePath ++ '$' :: rest

/-- A source that ends in the class's own name is longer than every source that holds the class. -/
def Relocator.EndsInName (relocator : Relocator) (name : List Char) : Prop :=
  ∃ r ∈ relocator.rules, r.EndsIn name ∧
    ∀ s ∈ relocator.rules, s.Holds name → s.sourcePath.length < r.sourcePath.length

/-- The class name is also a descriptor: primitive types, an `L`, and a name that starts with a source. No source
    holds the class itself. -/
def Relocator.ReadsAsDescriptor (relocator : Relocator) (name : List Char) : Prop :=
  (∀ r ∈ relocator.rules, ¬r.Holds name) ∧
    ∃ primitives rest, name = primitives ++ 'L' :: rest ∧ (∀ c ∈ primitives, c ∈ "BCDFIJSZ".toList) ∧
      ∃ r ∈ relocator.rules, r.Holds rest ∨ r.EndsIn rest

/-- The class file and the references to the class both stay, or both move to one place. -/
def Relocator.MovesTogether (relocator : Relocator) (name : List Char) : Prop :=
  (relocator.movePath? (classPath name) = none ↔ relocator.moveReferences? (Text.Utf8.encode name) = none) ∧
    ∀ path bytes, relocator.movePath? (classPath name) = some path →
      relocator.moveReferences? (Text.Utf8.encode name) = some bytes →
        Text.Utf8.encode path = bytes ++ Text.Utf8.encode ".class".toList

theorem isNamePart_asciiByte {c : Char} (hc : isPathChar c = true) : isNamePart (Text.asciiByte c) = true :=
  Text.forall_ascii (P := fun c => isPathChar c = true → isNamePart (Text.asciiByte c) = true) (by decide)
    (toNat_lt_of_isPathChar hc) hc

theorem isQualifiedChar_of_isPathChar {c : Char} (hc : isPathChar c = true) : isQualifiedChar c = true := by
  simp only [isPathChar, Bool.or_eq_true] at hc
  rcases hc with hsegment | hslash
  · simp [isQualifiedChar, hsegment]
  · simp [isQualifiedChar, hslash]

theorem encode_of_isPathChar {text : List Char} (htext : ∀ c ∈ text, isPathChar c = true) :
    Text.Utf8.encode text = text.map Text.asciiByte :=
  Text.Utf8.encode_eq_map_asciiByte fun c hc => toNat_lt_of_isPathChar (htext c hc)

theorem isPrimitive_asciiByte {c : Char} (hc : isPathChar c = true) :
    isPrimitive (Text.asciiByte c) = true ↔ c ∈ "BCDFIJSZ".toList :=
  Text.forall_ascii (P := fun c => isPrimitive (Text.asciiByte c) = true ↔ c ∈ "BCDFIJSZ".toList) (by decide)
    (toNat_lt_of_isPathChar hc)

theorem IsClassName.cons {name : List Char} (hname : IsClassName name) :
    ∃ c rest, name = c :: rest ∧ isSegmentChar c = true ∧ ∀ d ∈ name, isPathChar d = true := by
  obtain ⟨c, rest, rfl, hc, hrest⟩ := Text.cons_of_splitOn hname
  refine ⟨c, rest, rfl, hc, fun d hd => ?_⟩
  simp only [isPathChar, Bool.or_eq_true, beq_iff_eq]
  rcases List.mem_cons.1 hd with rfl | hd
  · exact .inl hc
  · exact hrest d hd

namespace Rule

/-- A class file moves by the rules whose source directory holds it. -/
theorem movePath?_classPath_iff {r : Rule} {name moved : List Char} :
    r.movePath? (classPath name) = some moved ↔
      ∃ rest, name = r.sourcePath ++ '/' :: rest ∧ moved = classPath (r.destinationPath ++ '/' :: rest) := by
  rw [movePath?_iff]
  constructor
  · rintro ⟨tail, rfl | ⟨c, rest, rfl, rfl⟩, hpath, rfl⟩
    · rw [List.append_nil] at hpath
      have hdot : '.' ∈ r.sourcePath := by simp [← hpath, classPath]
      exact absurd (r.isPathChar_sourcePath _ hdot) (by decide)
    · rcases List.append_eq_append_iff.1 hpath with ⟨front, -, hclass⟩ | ⟨tail, hname, htail⟩
      · have hslash : '/' ∈ ".class".toList := by simp [hclass]
        exact absurd hslash (by decide)
      · cases tail with
        | nil => simp at htail
        | cons c tail =>
          simp only [List.cons_append, List.cons.injEq] at htail
          obtain ⟨rfl, rfl⟩ := htail
          exact ⟨tail, hname, by simp [classPath]⟩
  · rintro ⟨rest, rfl, rfl⟩
    exact ⟨'/' :: classPath rest, .inr ⟨_, _, rfl, rfl⟩, by simp [classPath], by simp [classPath]⟩

theorem source_slashForm (r : Rule) : r.slashForm.source = r.sourcePath.map Text.asciiByte :=
  encode_of_isPathChar r.isPathChar_sourcePath

/-- A source holds a class, or ends in its name, if nothing follows it there, or a slash, or a `$`. -/
theorem holds_or_endsIn_iff {r : Rule} {name : List Char} :
    r.Holds name ∨ r.EndsIn name ↔ ∃ tail, EndsAt (fun c => c = '/' ∨ c = '$') tail ∧ name = r.sourcePath ++ tail := by
  constructor
  · rintro (⟨rest, rfl⟩ | rfl | ⟨rest, rfl⟩)
    · exact ⟨'/' :: rest, .inr ⟨'/', rest, .inl rfl, rfl⟩, rfl⟩
    · exact ⟨[], .inl rfl, by simp⟩
    · exact ⟨'$' :: rest, .inr ⟨'$', rest, .inr rfl, rfl⟩, rfl⟩
  · rintro ⟨_, rfl | ⟨_, rest, rfl | rfl, rfl⟩, rfl⟩
    · exact .inr (.inl (by simp))
    · exact .inl ⟨rest, rfl⟩
    · exact .inr (.inr ⟨rest, rfl⟩)

theorem matchesForm_slashForm_iff {r : Rule} {before : Bytes} {rest : List Char}
    (hrest : ∀ c ∈ rest, isPathChar c = true) :
    matchesForm before (rest.map Text.asciiByte) r.slashForm = true ↔
      startsAfter 0x2F before = true ∧ (r.Holds rest ∨ r.EndsIn rest) := by
  have hseparator : r.slashForm.separator = Text.asciiByte '/' := rfl
  have hoccurs (hstarts : startsAfter 0x2F before = true) :=
    matchesForm_encode_iff rfl hseparator (by decide) (fun c hc => isQualifiedChar_of_isPathChar (hrest c hc)) hstarts
  rw [← encode_of_isPathChar hrest, holds_or_endsIn_iff]
  constructor
  · intro hmatch
    have hstarts := startsAfter_of_matchesForm hmatch
    exact ⟨hstarts, (hoccurs hstarts).1 hmatch⟩
  · rintro ⟨hstarts, htail⟩
    exact (hoccurs hstarts).2 htail

/-- Where a name has no dots, the dotted form finds nothing that the slash form does not find. -/
theorem matchesForm_slashForm_of_dotForm {r : Rule} {front rest : List Char}
    (hfront : ∀ c ∈ front, isPathChar c = true) (hrest : ∀ c ∈ rest, isPathChar c = true)
    (hmatch : matchesForm (front.map Text.asciiByte).reverse (rest.map Text.asciiByte) r.dotForm = true) :
    matchesForm (front.map Text.asciiByte).reverse (rest.map Text.asciiByte) r.slashForm = true := by
  have hstarts := startsAfter_of_matchesForm hmatch
  have hqualified : ∀ c ∈ rest, isQualifiedChar c = true := fun c hc => isQualifiedChar_of_isPathChar (hrest c hc)
  rw [← encode_of_isPathChar hrest] at hmatch
  have hseparator : r.dotForm.separator = Text.asciiByte '.' := rfl
  obtain ⟨tail, htail, rfl⟩ := (matchesForm_encode_iff rfl hseparator (by decide) hqualified hstarts).1 hmatch
  obtain rfl : front = [] := by
    rcases front.eq_nil_or_concat' with hnil | ⟨init, last, rfl⟩
    · exact hnil
    · simp [startsAfter, dotForm, isNamePart_asciiByte (hfront last (by simp))] at hstarts
  have hpath : r.sourcePath = r.source := by
    refine (List.map_congr_left fun c hc => ?_).trans (List.map_id _)
    have hdot : c ≠ '.' := by
      rintro rfl
      exact absurd (hrest '.' (List.mem_append_left _ hc)) (by decide)
    simp [hdot]
  refine (matchesForm_slashForm_iff hrest).2 ⟨by simp [startsAfter], holds_or_endsIn_iff.2 ⟨tail, ?_, by rw [hpath]⟩⟩
  rcases htail with rfl | ⟨c, more, rfl | rfl, rfl⟩
  · exact .inl rfl
  · exact absurd (hrest '.' (by simp)) (by decide)
  · exact .inr ⟨'$', more, .inr rfl, rfl⟩

end Rule

namespace Reference

theorem dropWhile_isPrimitive_eq_nil_iff {front : List Char} (hfront : ∀ d ∈ front, isPathChar d = true) :
    (front.map Text.asciiByte).reverse.dropWhile isPrimitive = [] ↔ ∀ d ∈ front, d ∈ "BCDFIJSZ".toList := by
  rw [List.dropWhile_eq_nil_iff]
  simp only [List.mem_reverse, List.mem_map, forall_exists_index, and_imp, forall_apply_eq_imp_iff₂]
  exact forall₂_congr fun d hd => isPrimitive_asciiByte (hfront d hd)

/-- Behind a part of a class name, a reference starts only if that part reads as the beginning of a
    descriptor. -/
theorem startsAfter_iff {front : List Char} {last : Char} (hchars : ∀ d ∈ front ++ [last], isPathChar d = true) :
    startsAfter 0x2F ((front ++ [last]).map Text.asciiByte).reverse = true ↔
      (front = [] ∧ last = '/') ∨ ((∀ d ∈ front, d ∈ "BCDFIJSZ".toList) ∧ last = 'L') := by
  have hfront : ∀ d ∈ front, isPathChar d = true := fun d hd => hchars d (List.mem_append_left _ hd)
  have hlast : isPathChar last = true := hchars last (by simp)
  have hlt := toNat_lt_of_isPathChar hlast
  have hslash : Text.asciiByte last = 0x2F ↔ last = '/' := Text.asciiByte_inj (d := '/') hlt (by decide)
  have hobject : Text.asciiByte last = 0x4C ↔ last = 'L' := Text.asciiByte_inj (d := 'L') hlt (by decide)
  have hprimitives : (startsAfter 0x2F (0x4C :: (front.map Text.asciiByte).reverse) = true) ↔
      ∀ d ∈ front, d ∈ "BCDFIJSZ".toList := by
    rw [← dropWhile_isPrimitive_eq_nil_iff hfront]
    cases hdrop : (front.map Text.asciiByte).reverse.dropWhile isPrimitive with
    | nil => simp [startsAfter, hdrop]
    | cons b rest =>
      have hb : b ∈ (front.map Text.asciiByte).reverse :=
        (List.dropWhile_suffix isPrimitive).subset (by simp [hdrop])
      obtain ⟨d, hd, rfl⟩ := List.mem_map.1 (List.mem_reverse.1 hb)
      have hname := isNamePart_asciiByte (hfront d hd)
      have hL : isNamePart 0x4C = true := by decide
      simp [startsAfter, hdrop, hname, hL]
  rw [List.map_append, List.reverse_append, List.map_singleton, List.reverse_singleton, List.singleton_append]
  by_cases hl : last = 'L'
  · subst hl
    rw [hobject.2 rfl, hprimitives]
    simp
  · simp only [startsAfter, isNamePart_asciiByte hlast, hl, and_false, or_false]
    by_cases hs : last = '/'
    · subst hs
      simp [hslash]
    · simp [hslash, hobject, hs, hl]

end Reference

namespace Relocator

theorem movePath?_classPath (relocator : Relocator) {name : List Char} (hname : IsClassName name) :
    relocator.movePath? (classPath name) = relocator.moveUnversioned? (classPath name) := by
  obtain ⟨-, -, -, -, hchars⟩ := hname.cons
  have hminus : '-' ∉ classPath name := by
    intro hmem
    rcases List.mem_append.1 hmem with hmem | hmem
    · exact absurd (hchars _ hmem) (by decide)
    · exact absurd hmem (by decide)
  have hservices : EntryPath.services.isPrefixOf (classPath name) = false := by
    rw [Bool.eq_false_iff]
    intro hprefix
    exact hminus ((List.isPrefixOf_iff_prefix.1 hprefix).subset (by decide))
  have hversions : Text.dropPrefix? EntryPath.versions (classPath name) = none := by
    rw [Option.eq_none_iff_forall_not_mem]
    intro rest hrest
    have hsplit := Text.dropPrefix?_eq_some.1 hrest
    exact hminus (hsplit ▸ List.mem_append_left _ (by decide))
  simp [movePath?, EntryPath.splitVersion?, hservices, hversions]

/-- Where no dotted form occurs without the slash form, the first rule whose slash form occurs decides. -/
theorem matching?_eq_find? (relocator : Relocator) {before rest : Bytes}
    (hdot : ∀ r : Rule, matchesForm before rest r.dotForm = true → matchesForm before rest r.slashForm = true) :
    matching? relocator.forms before rest =
      (relocator.rules.find? fun r => matchesForm before rest r.slashForm).map Rule.slashForm := by
  rw [matching?, forms, List.find?_flatMap]
  induction relocator.rules with
  | nil => rfl
  | cons r rules ih =>
    rw [List.findSome?_cons, List.find?_cons, Rule.forms_eq, List.find?_cons, List.find?_cons, List.find?_nil]
    cases hslash : matchesForm before rest r.slashForm with
    | true => rfl
    | false =>
      have hdotted : matchesForm before rest r.dotForm = false := by
        rw [← Bool.not_eq_true]
        intro h
        rw [hdot r h] at hslash
        cases hslash
      simpa [hdotted] using ih

/-- In a class name the first rule whose slash form matches decides; no dotted form comes before it. -/
theorem matching?_forms (relocator : Relocator) {front rest : List Char}
    (hfront : ∀ c ∈ front, isPathChar c = true) (hrest : ∀ c ∈ rest, isPathChar c = true) :
    matching? relocator.forms (front.map Text.asciiByte).reverse (rest.map Text.asciiByte) =
      (relocator.rules.find? fun r => matchesForm (front.map Text.asciiByte).reverse
        (rest.map Text.asciiByte) r.slashForm).map Rule.slashForm :=
  relocator.matching?_eq_find? fun r => r.matchesForm_slashForm_of_dotForm hfront hrest

/-- The first rule that holds a class, or whose source ends in its name, is the one that is found. -/
theorem matching?_of_first (relocator : Relocator) {front back : List Rule} {r : Rule} {name : List Char}
    (hname : ∀ c ∈ name, isPathChar c = true) (hrules : relocator.rules = front ++ r :: back)
    (hr : r.Holds name ∨ r.EndsIn name) (hfront : ∀ s ∈ front, ¬(s.Holds name ∨ s.EndsIn name)) :
    matching? relocator.forms [] (name.map Text.asciiByte) = some r.slashForm := by
  have hnil : ∀ c ∈ ([] : List Char), isPathChar c = true := by simp
  have hmatching := relocator.matching?_forms hnil hname
  rw [List.map_nil, List.reverse_nil] at hmatching
  have hmatch (s : Rule) : matchesForm [] (name.map Text.asciiByte) s.slashForm = true ↔
      s.Holds name ∨ s.EndsIn name := by
    simp [Rule.matchesForm_slashForm_iff hname, startsAfter]
  have hfind : relocator.rules.find? (fun s => matchesForm [] (name.map Text.asciiByte) s.slashForm) = some r := by
    refine List.find?_eq_some_iff_append.2 ⟨(hmatch r).2 hr, front, back, hrules, fun s hs => ?_⟩
    rw [Bool.not_eq_true', ← Bool.not_eq_true, hmatch]
    exact hfront s hs
  rw [hmatching, hfind]
  rfl

/-- Behind a slash in a class name no reference starts. -/
theorem matching?_after_slash (relocator : Relocator) {c : Char} {front rest : List Char}
    (hc : isSegmentChar c = true) (hslash : '/' ∈ front) (hfront : ∀ d ∈ c :: front, isPathChar d = true)
    (hrest : ∀ d ∈ rest, isPathChar d = true) :
    matching? relocator.forms ((c :: front).map Text.asciiByte).reverse (rest.map Text.asciiByte) = none := by
  rw [relocator.matching?_forms hfront hrest, Option.map_eq_none_iff, List.find?_eq_none]
  intro r hr hmatch
  have hstart := (Rule.matchesForm_slashForm_iff hrest).1 hmatch |>.1
  rcases List.eq_nil_or_concat' (c :: front) with hnil | ⟨init, last, hsplit⟩
  · cases hnil
  · rw [hsplit] at hstart hfront
    rcases (startsAfter_iff hfront).1 hstart with ⟨rfl, rfl⟩ | ⟨hprimitives, rfl⟩
    · obtain ⟨rfl, -⟩ := List.cons.inj hsplit
      exact absurd hc (by decide)
    · have hmem : '/' ∈ init ++ ['L'] := hsplit ▸ List.mem_cons_of_mem _ hslash
      rcases List.mem_append.1 hmem with hmem | hmem
      · exact absurd (hprimitives _ hmem) (by decide)
      · exact absurd hmem (by decide)

/-- No source begins with a slash. -/
theorem matching?_before_slash (relocator : Relocator) {front rest : List Char}
    (hfront : ∀ d ∈ front, isPathChar d = true) (hrest : ∀ d ∈ '/' :: rest, isPathChar d = true) :
    matching? relocator.forms (front.map Text.asciiByte).reverse (('/' :: rest).map Text.asciiByte) = none := by
  rw [relocator.matching?_forms hfront hrest, Option.map_eq_none_iff, List.find?_eq_none]
  intro r hr hmatch
  obtain ⟨c, more, hsource, hc⟩ := r.sourcePath_cons
  have hslash : c = '/' := by
    rcases (Rule.matchesForm_slashForm_iff hrest).1 hmatch |>.2 with ⟨tail, htail⟩ | htail | ⟨tail, htail⟩
    all_goals
      rw [hsource] at htail
      exact (List.cons.inj htail).1.symm
  exact absurd hc (by rw [hslash]; decide)

/-- A reference to a class moves as its file does, by the first rule that holds the class. -/
theorem moveReferences?_of_holds (relocator : Relocator) {front back : List Rule} {r : Rule} {rest : List Char}
    (hname : ∀ c ∈ r.sourcePath ++ '/' :: rest, isPathChar c = true)
    (hrules : relocator.rules = front ++ r :: back)
    (hfront : ∀ s ∈ front, ¬(s.Holds (r.sourcePath ++ '/' :: rest) ∨ s.EndsIn (r.sourcePath ++ '/' :: rest))) :
    relocator.moveReferences? (Text.Utf8.encode (r.sourcePath ++ '/' :: rest)) =
      some (Text.Utf8.encode (r.destinationPath ++ '/' :: rest)) := by
  have hmatch := relocator.matching?_of_first hname hrules (.inl ⟨rest, rfl⟩) hfront
  rw [encode_of_isPathChar hname]
  have hscans := scans_pieces relocator.source_ne_nil ((r.sourcePath ++ '/' :: rest).map Text.asciiByte)
  obtain ⟨after, tail, hbytes, hpieces, htail⟩ := hscans.cons_of_matching? (by simp) hmatch
  obtain rfl : ('/' :: rest).map Text.asciiByte = after := by
    rw [List.map_append, Rule.source_slashForm] at hbytes
    exact List.append_cancel_left hbytes
  have hkept : tail.any Piece.isMoved = false := by
    refine (htail.all_kept_iff relocator.source_ne_nil).2 fun kept more hsplit _ => ?_
    obtain ⟨inner, following, hinner, rfl, rfl⟩ := List.map_eq_append_iff.1 hsplit
    have hmore : ∀ d ∈ following, isPathChar d = true := fun d hd => hname d (by simp [hinner, hd])
    rw [List.append_nil, Rule.source_slashForm, ← List.reverse_append, ← List.map_append]
    cases inner with
    | nil =>
      rw [List.nil_append] at hinner
      rw [List.append_nil, ← hinner]
      exact relocator.matching?_before_slash (fun d hd => hname d (by simp [hd]))
        fun d hd => hname d (List.mem_append_right _ hd)
    | cons c inner =>
      simp only [List.cons_append, List.cons.injEq] at hinner
      obtain ⟨rfl, rfl⟩ := hinner
      obtain ⟨first, others, hsource, hfirst⟩ := r.sourcePath_cons
      rw [hsource, List.cons_append]
      refine relocator.matching?_after_slash hfirst (by simp) (fun d hd => hname d ?_) hmore
      simp only [hsource, List.mem_cons, List.mem_append, List.cons_append] at hd ⊢
      tauto
  rw [moveReferences?, hpieces]
  simp only [List.any_cons, Piece.isMoved, Bool.true_or, if_true, List.flatMap_cons, Piece.output,
    htail.output_eq_of_kept hkept]
  rw [← encode_of_isPathChar fun d hd => hname d (List.mem_append_right _ hd)]
  simp [Rule.slashForm, Text.Utf8.encode]

/-- The references to a class move if a source holds it or ends in its name. -/
theorem moveReferences?_ne_none_of_start (relocator : Relocator) {name : List Char} (hname : IsClassName name)
    (hany : ∃ r ∈ relocator.rules, r.Holds name ∨ r.EndsIn name) :
    relocator.moveReferences? (Text.Utf8.encode name) ≠ none := by
  obtain ⟨first, others, hcons, -, hchars⟩ := hname.cons
  obtain ⟨front, r, back, hrules, hr, hfront⟩ := exists_first hany
  rw [encode_of_isPathChar hchars, Ne, relocator.moveReferences?_eq_none_iff]
  intro hnone
  have h := hnone [] _ (List.nil_append _).symm (by simp [hcons])
  rw [List.reverse_nil, relocator.matching?_of_first hchars hrules hr hfront] at h
  cases h

/-- The references to a class move if its name reads as a descriptor. -/
theorem moveReferences?_ne_none_of_readsAsDescriptor (relocator : Relocator) {name : List Char}
    (hname : IsClassName name) (hreads : relocator.ReadsAsDescriptor name) :
    relocator.moveReferences? (Text.Utf8.encode name) ≠ none := by
  obtain ⟨-, primitives, rest, rfl, hprimitives, r, hr, hcase⟩ := hreads
  obtain ⟨-, -, -, -, hchars⟩ := hname.cons
  have hfront : ∀ d ∈ primitives ++ ['L'], isPathChar d = true := by
    intro d hd
    refine hchars d ?_
    simp only [List.mem_append, List.mem_cons] at hd ⊢
    tauto
  have hrest : ∀ d ∈ rest, isPathChar d = true := fun d hd => hchars d (by simp [hd])
  have hne : rest ≠ [] := by
    obtain ⟨c, more, hsource, -⟩ := r.sourcePath_cons
    rintro rfl
    rcases hcase with ⟨tail, htail⟩ | htail | ⟨tail, htail⟩ <;> simp [hsource] at htail
  rw [encode_of_isPathChar hchars, Ne, relocator.moveReferences?_eq_none_iff]
  intro hnone
  have h := hnone ((primitives ++ ['L']).map Text.asciiByte) (rest.map Text.asciiByte) (by simp) (by simpa using hne)
  rw [relocator.matching?_forms hfront hrest, Option.map_eq_none_iff, List.find?_eq_none] at h
  refine h r hr ((Rule.matchesForm_slashForm_iff hrest).2 ⟨?_, hcase⟩)
  exact (startsAfter_iff hfront).2 (.inr ⟨hprimitives, rfl⟩)

/-- Where no source starts the class name, its references stay unless it reads as a descriptor. -/
theorem moveReferences?_eq_none_of_not_readsAsDescriptor (relocator : Relocator) {name : List Char}
    (hname : IsClassName name) (hstart : ∀ r ∈ relocator.rules, ¬(r.Holds name ∨ r.EndsIn name))
    (hreads : ¬relocator.ReadsAsDescriptor name) : relocator.moveReferences? (Text.Utf8.encode name) = none := by
  obtain ⟨first, others, hcons, hfirst, hchars⟩ := hname.cons
  rw [relocator.moveReferences?_eq_none_iff, encode_of_isPathChar hchars]
  intro bytes after hsplit _
  obtain ⟨front, rest, rfl, rfl, rfl⟩ := List.map_eq_append_iff.1 hsplit
  have hfront : ∀ d ∈ front, isPathChar d = true := fun d hd => hchars d (List.mem_append_left _ hd)
  have hrest : ∀ d ∈ rest, isPathChar d = true := fun d hd => hchars d (List.mem_append_right _ hd)
  rw [relocator.matching?_forms hfront hrest, Option.map_eq_none_iff, List.find?_eq_none]
  intro r hr hmatch
  obtain ⟨hafter, hcase⟩ := (Rule.matchesForm_slashForm_iff hrest).1 hmatch
  rcases front.eq_nil_or_concat' with rfl | ⟨init, last, rfl⟩
  · exact hstart r hr hcase
  · rcases (startsAfter_iff hfront).1 hafter with ⟨rfl, rfl⟩ | ⟨hprimitives, rfl⟩
    · obtain ⟨rfl, -⟩ := List.cons.inj hcons
      exact absurd hfirst (by decide)
    · exact hreads ⟨fun s hs hholds => hstart s hs (.inl hholds), init, rest, by simp, hprimitives, r, hr, hcase⟩

theorem movePath?_of_holds (relocator : Relocator) {front back : List Rule} {r : Rule} {rest : List Char}
    (hname : IsClassName (r.sourcePath ++ '/' :: rest)) (hrules : relocator.rules = front ++ r :: back)
    (hfront : ∀ s ∈ front, ¬s.Holds (r.sourcePath ++ '/' :: rest)) :
    relocator.movePath? (classPath (r.sourcePath ++ '/' :: rest)) =
      some (classPath (r.destinationPath ++ '/' :: rest)) := by
  have hmoved : r.movePath? (classPath (r.sourcePath ++ '/' :: rest)) =
      some (classPath (r.destinationPath ++ '/' :: rest)) := Rule.movePath?_classPath_iff.2 ⟨rest, rfl, rfl⟩
  have hnone : front.findSome? (·.movePath? (classPath (r.sourcePath ++ '/' :: rest))) = none := by
    refine List.findSome?_eq_none_iff.2 fun s hs => Option.eq_none_iff_forall_not_mem.2 fun moved hsome => ?_
    obtain ⟨tail, htail, -⟩ := Rule.movePath?_classPath_iff.1 hsome
    exact hfront s hs ⟨tail, htail⟩
  rw [relocator.movePath?_classPath hname, moveUnversioned?, hrules, List.findSome?_append, hnone,
    Option.none_or, List.findSome?_cons, hmoved]

theorem movePath?_eq_none_iff (relocator : Relocator) {name : List Char} (hname : IsClassName name) :
    relocator.movePath? (classPath name) = none ↔ ∀ r ∈ relocator.rules, ¬r.Holds name := by
  rw [relocator.movePath?_classPath hname, moveUnversioned?, List.findSome?_eq_none_iff]
  refine forall₂_congr fun r hr => ?_
  rw [Option.eq_none_iff_forall_not_mem]
  constructor
  · rintro hnone ⟨rest, hrest⟩
    exact hnone _ (Rule.movePath?_classPath_iff.2 ⟨rest, hrest, rfl⟩)
  · intro hno moved hsome
    obtain ⟨rest, hrest, -⟩ := Rule.movePath?_classPath_iff.1 hsome
    exact hno ⟨rest, hrest⟩

/-- No rule behind the first one that applies holds the class with a longer source. -/
theorem length_sourcePath_le (relocator : Relocator) {front back : List Rule} {r s : Rule}
    (hrules : relocator.rules = front ++ r :: back) (hs : s ∈ relocator.rules) (hfront : s ∉ front) :
    s.sourcePath.length ≤ r.sourcePath.length := by
  have hordered := relocator.ordered
  rw [hrules] at hs hordered
  have hr := (List.pairwise_cons.1 (List.pairwise_append.1 hordered).2.1).1
  simp only [Rule.length_sourcePath]
  rcases List.mem_append.1 hs with hmem | hmem
  · exact absurd hmem hfront
  · rcases List.mem_cons.1 hmem with rfl | hmem
    · exact Nat.le_refl _
    · rcases hr s hmem with hlt | ⟨heq, -⟩ <;> omega

/-- A source that ends in the class's own name and is met first is longer than every source that holds it. -/
theorem endsInName_of_first (relocator : Relocator) {front back : List Rule} {r : Rule} {name : List Char}
    (hrules : relocator.rules = front ++ r :: back) (hends : r.EndsIn name)
    (hfront : ∀ s ∈ front, ¬(s.Holds name ∨ s.EndsIn name)) : relocator.EndsInName name := by
  refine ⟨r, by simp [hrules], hends, fun s hs hholds => ?_⟩
  have hle := relocator.length_sourcePath_le hrules hs fun hmem => hfront s hmem (.inl hholds)
  refine Nat.lt_of_le_of_ne hle fun heq => ?_
  obtain ⟨rest, rfl⟩ := hholds
  rcases hends with hsplit | ⟨tail, hsplit⟩
  · have hlength := congrArg List.length hsplit
    simp [heq] at hlength
  · have hhead := (List.append_inj hsplit heq).2
    simp at hhead

/-- A class file that moves takes the references to it along. Of a name that reads as a descriptor only the
    references move, and where a longer source ends in the class's own name, they move whatever the file does. All
    other class files move together with the references to them. -/
theorem class_moves_with_references (relocator : Relocator) {name : List Char} (hname : IsClassName name) :
    (relocator.moveReferences? (Text.Utf8.encode name) = none → relocator.movePath? (classPath name) = none) ∧
      (relocator.ReadsAsDescriptor name → relocator.movePath? (classPath name) = none ∧
        relocator.moveReferences? (Text.Utf8.encode name) ≠ none) ∧
      (relocator.EndsInName name → relocator.moveReferences? (Text.Utf8.encode name) ≠ none) ∧
      (¬relocator.EndsInName name → ¬relocator.ReadsAsDescriptor name → relocator.MovesTogether name) := by
  obtain ⟨-, -, -, -, hchars⟩ := hname.cons
  have hdescriptor (hreads : relocator.ReadsAsDescriptor name) : relocator.movePath? (classPath name) = none ∧
      relocator.moveReferences? (Text.Utf8.encode name) ≠ none :=
    ⟨(relocator.movePath?_eq_none_iff hname).2 hreads.1,
      relocator.moveReferences?_ne_none_of_readsAsDescriptor hname hreads⟩
  have hlonger (hends : relocator.EndsInName name) : relocator.moveReferences? (Text.Utf8.encode name) ≠ none := by
    obtain ⟨r, hr, hrends, -⟩ := hends
    exact relocator.moveReferences?_ne_none_of_start hname ⟨r, hr, .inr hrends⟩
  by_cases hany : ∃ r ∈ relocator.rules, r.Holds name ∨ r.EndsIn name
  · have hsome := relocator.moveReferences?_ne_none_of_start hname hany
    obtain ⟨front, r, back, hrules, hr, hfront⟩ := exists_first hany
    refine ⟨fun hnone => absurd hnone hsome, hdescriptor, hlonger, fun hends _ => ?_⟩
    rcases hr with ⟨rest, rfl⟩ | hr
    · have hpath := relocator.movePath?_of_holds hname hrules fun s hs hholds => hfront s hs (.inl hholds)
      have hreferences := relocator.moveReferences?_of_holds hchars hrules hfront
      refine ⟨by simp [hpath, hreferences], fun path bytes hp hb => ?_⟩
      obtain rfl := Option.some.inj (hpath.symm.trans hp)
      obtain rfl := Option.some.inj (hreferences.symm.trans hb)
      simp [classPath, Text.Utf8.encode]
    · exact absurd (relocator.endsInName_of_first hrules hr hfront) hends
  · have hstart : ∀ r ∈ relocator.rules, ¬(r.Holds name ∨ r.EndsIn name) := fun r hr h => hany ⟨r, hr, h⟩
    have hpath : relocator.movePath? (classPath name) = none :=
      (relocator.movePath?_eq_none_iff hname).2 fun r hr hholds => hstart r hr (.inl hholds)
    refine ⟨fun _ => hpath, hdescriptor, hlonger, fun _ hreads => ?_⟩
    have hreferences := relocator.moveReferences?_eq_none_of_not_readsAsDescriptor hname hstart hreads
    exact ⟨by simp [hpath, hreferences], by simp [hpath]⟩

theorem class_moves_with_references_in_package :
    ∃ rule relocator, Rule.make "org.apache".toList "x.org.apache".toList = .ok rule ∧
      ofRules [rule] = .ok relocator ∧ IsClassName "org/apache/Foo".toList ∧
        ¬relocator.EndsInName "org/apache/Foo".toList ∧ relocator.MovesTogether "org/apache/Foo".toList := by
  let rule : Rule := ⟨"org.apache".toList, "x.org.apache".toList, by decide, by decide, by decide⟩
  have hname : IsClassName "org/apache/Foo".toList := by decide
  have hholds : rule.Holds "org/apache/Foo".toList := ⟨"Foo".toList, by decide⟩
  have hends : ¬EndsInName ⟨[rule], by simp⟩ "org/apache/Foo".toList := by
    rintro ⟨r, hr, -, hlonger⟩
    obtain rfl := List.mem_singleton.1 hr
    exact Nat.lt_irrefl _ (hlonger rule hr hholds)
  refine ⟨rule, ⟨[rule], by simp⟩, by decide, rfl, hname, hends, ?_⟩
  exact (class_moves_with_references ⟨[rule], by simp⟩ hname).2.2.2 hends fun hreads =>
    hreads.1 rule (by simp) hholds

/-- The class `Foo` of the package `Lorg.apache` stays, but the references to it move as if they were to the
    package `org.apache`. The class `org.apache.Foo` stays, but the references to it move by a rule for its own name. -/
theorem moves_apart_behind_object_type :
    (∃ rule relocator, Rule.make "org.apache".toList "x.org.apache".toList = .ok rule ∧
      ofRules [rule] = .ok relocator ∧ IsClassName "Lorg/apache/Foo".toList ∧
        ¬relocator.MovesTogether "Lorg/apache/Foo".toList) ∧
      ∃ rule relocator, Rule.make "org.apache.Foo".toList "x.Foo".toList = .ok rule ∧
        ofRules [rule] = .ok relocator ∧ IsClassName "org/apache/Foo".toList ∧
          ¬relocator.MovesTogether "org/apache/Foo".toList := by
  constructor
  · let rule : Rule := ⟨"org.apache".toList, "x.org.apache".toList, by decide, by decide, by decide⟩
    have hname : IsClassName "Lorg/apache/Foo".toList := by decide
    have hstart : ∀ r ∈ [rule], ¬(r.Holds "Lorg/apache/Foo".toList ∨ r.EndsIn "Lorg/apache/Foo".toList) := by
      simp [rule, Rule.Holds, Rule.EndsIn, Rule.sourcePath, Text.replaceChar]
    refine ⟨rule, ⟨[rule], by simp⟩, by decide, rfl, hname, fun htogether => ?_⟩
    have hpath := (movePath?_eq_none_iff ⟨[rule], by simp⟩ hname).2 fun r hr hholds => hstart r hr (.inl hholds)
    refine moveReferences?_ne_none_of_readsAsDescriptor ⟨[rule], by simp⟩ hname ?_ (htogether.1.1 hpath)
    exact ⟨fun r hr hholds => hstart r hr (.inl hholds), [], "org/apache/Foo".toList, rfl, by simp, rule,
      by simp, .inl ⟨"Foo".toList, by decide⟩⟩
  · let rule : Rule := ⟨"org.apache.Foo".toList, "x.Foo".toList, by decide, by decide, by decide⟩
    have hname : IsClassName "org/apache/Foo".toList := by decide
    refine ⟨rule, ⟨[rule], by simp⟩, by decide, rfl, hname, fun htogether => ?_⟩
    have hpath := (movePath?_eq_none_iff ⟨[rule], by simp⟩ hname).2 fun r hr hholds => by
      obtain rfl := List.mem_singleton.1 hr
      simp [rule, Rule.Holds, Rule.sourcePath, Text.replaceChar] at hholds
    exact moveReferences?_ne_none_of_start ⟨[rule], by simp⟩ hname ⟨rule, by simp, .inr (.inl (by decide))⟩
      (htogether.1.1 hpath)

end Relocator
end UberJar.Relocation
