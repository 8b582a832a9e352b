import UberJar.Proofs.Relocation.ClassNames
import UberJar.Proofs.Relocation.Rescan

namespace UberJar.Relocation

namespace Reference

/-- A name that begins like a descriptor: primitive types and an `L`. -/
def OpensDescriptor (name : Bytes) : Prop :=
  ∃ primitives rest, name = primitives ++ 0x4C :: rest ∧ ∀ b ∈ primitives, isPrimitive b = true

/-- Two names of which one is the other, or continues it behind a separator or a `$`. -/
def Touches (a b : Bytes) : Prop :=
  a = b ∨ ∃ c rest, (c = 0x2F ∨ c = 0x2E ∨ c = 0x24) ∧ (a = b ++ c :: rest ∨ b = a ++ c :: rest)

/-- A name behind whose parts no reference starts. -/
structure IsSolid (name : Bytes) : Prop extends IsName name where
  plain : ¬OpensDescriptor name

/-- Forms whose destinations hold nothing that the forms find. -/
structure Apart (forms : List Form) : Prop where
  separator : ∀ f ∈ forms, f.separator = 0x2F ∨ f.separator = 0x2E
  source : ∀ f ∈ forms, IsSolid f.source
  destination : ∀ f ∈ forms, IsSolid f.destination
  apart : ∀ f ∈ forms, ∀ g ∈ forms, ¬Touches f.destination g.source

theorem IsSolid.not_isObjectPrefix {front back : Bytes} (hname : IsSolid (front ++ back)) : ¬IsObjectPrefix front := by
  rintro ⟨primitives, rfl, hprimitives⟩
  exact hname.plain ⟨primitives, back, by simp, hprimitives⟩

/-- No form occurs where a scan has written a destination. -/
theorem Apart.not_matchesForm_destination {forms : List Form} (hforms : Apart forms) {form g : Form}
    (hform : form ∈ forms) (hg : g ∈ forms) {before before' rest : Bytes} {pieces : List Piece}
    (hends : endsBefore form.separator rest = true)
    (htail : Scans forms (form.source.reverse ++ before) rest pieces) :
    matchesForm before' (form.destination ++ pieces.flatMap Piece.output) g = false := by
  rw [← Bool.not_eq_true]
  intro hoccurs
  obtain ⟨after, hsplit⟩ := exists_append_of_matchesForm hoccurs
  rw [hsplit, matchesForm_append_iff] at hoccurs
  refine hforms.apart form hform g hg ?_
  rcases List.append_eq_append_iff.1 hsplit with ⟨more, hsource, houtput⟩ | ⟨more, hdestination, hafter⟩
  · cases more with
    | nil => exact .inl (by simpa using hsource.symm)
    | cons c more =>
      -- The name found goes on with what stands behind the reference in the input.
      have hnamed : isNamePart c = true := (hforms.source g hg).named c (by simp [hsource])
      refine .inr ⟨c, more, ?_, .inr hsource⟩
      cases htail with
      | done => simp at houtput
      | kept hmatch tail =>
        obtain ⟨rfl, -⟩ := List.cons.inj houtput
        rcases boundary_of_endsBefore (hforms.separator form hform) hends with hc | hname
        · exact hc
        · rw [hnamed] at hname
          cases hname
      | moved hmatch tail =>
        have hsolid := hforms.source form hform
        rw [← List.append_nil form.source] at hsolid
        exact absurd (hsolid.isObjectPrefix_of_matching? (hforms.source form hform).ne_nil hmatch)
          hsolid.not_isObjectPrefix
  · cases more with
    | nil => exact .inl (by simpa using hdestination)
    | cons c more =>
      have hnamed : isNamePart c = true := (hforms.destination form hform).named c (by simp [hdestination])
      refine .inr ⟨c, more, ?_, .inl hdestination⟩
      rw [hafter] at hoccurs
      rcases boundary_of_endsBefore (hforms.separator g hg) hoccurs.2 with hc | hname
      · exact hc
      · rw [hnamed] at hname
        cases hname

theorem Apart.inert {forms : List Form} (hforms : Apart forms) : Inert forms where
  separator := hforms.separator
  source f hf := (hforms.source f hf).toIsName
  destination f hf := (hforms.destination f hf).toIsName
  inside f hf g hg front back hsplit hfront := by
    have hsolid : IsSolid (front ++ back) := hsplit ▸ hforms.destination f hf
    exact absurd hfront hsolid.not_isObjectPrefix
  continued f hf g hg front back hsplit hfront := by
    have hsolid : IsSolid (front ++ back) := hsplit ▸ hforms.source g hg
    exact absurd hfront hsolid.not_isObjectPrefix
  written f hf g hg before before' rest pieces hends htail := hforms.not_matchesForm_destination hf hg hends htail

end Reference

open Reference

/-- Whether a package is another one, or continues it behind a dot or a `$`. -/
def continues (outer inner : List Char) : Bool :=
  match Text.dropPrefix? outer inner with
  | some [] => true
  | some (c :: _) => c == '.' || c == '$'
  | none => false

/-- Whether a package begins like a descriptor: with primitive types and an `L`. -/
def opensDescriptor (package : List Char) : Bool :=
  (package.dropWhile fun c => "BCDFIJSZ".toList.contains c).head? == some 'L'

/-- Whether no destination meets a source, no package begins like a descriptor, and no service file comes to look
    like a class. -/
def Relocator.isSeparate (relocator : Relocator) : Bool :=
  relocator.rules.all fun r => !opensDescriptor r.source && !opensDescriptor r.destination &&
    (!".class".toList.isSuffixOf r.destination || ".class".toList.isSuffixOf r.source) &&
    relocator.rules.all fun s => !continues r.destination s.source && !continues s.source r.destination

theorem continues_iff {outer inner : List Char} :
    continues outer inner = true ↔ ∃ tail, IsWithin tail ∧ inner = outer ++ tail := by
  unfold continues
  cases hdrop : Text.dropPrefix? outer inner with
  | none =>
    simp only [Bool.false_eq_true, false_iff]
    rintro ⟨tail, -, hinner⟩
    exact dropPrefix?_eq_none hdrop tail hinner
  | some tail =>
    obtain rfl := Text.dropPrefix?_eq_some.1 hdrop
    simp only [List.append_cancel_left_eq, exists_eq_right']
    cases tail with
    | nil => simp [IsWithin, EndsAt]
    | cons c rest => simp [IsWithin, EndsAt]

theorem opensDescriptor_iff {package : List Char} :
    opensDescriptor package = true ↔
      ∃ primitives rest, package = primitives ++ 'L' :: rest ∧ ∀ c ∈ primitives, c ∈ "BCDFIJSZ".toList := by
  rw [opensDescriptor, beq_iff_eq]
  constructor
  · intro hhead
    obtain ⟨rest, hdrop⟩ := List.head?_eq_some_iff.1 hhead
    refine ⟨package.takeWhile fun c => "BCDFIJSZ".toList.contains c, rest, ?_, fun c hc => ?_⟩
    · rw [← hdrop, List.takeWhile_append_dropWhile]
    · exact List.contains_iff_mem.1 (List.all_eq_true.1 List.all_takeWhile c hc)
  · rintro ⟨primitives, rest, rfl, hprimitives⟩
    rw [List.dropWhile_append_of_pos fun c hc => List.contains_iff_mem.2 (hprimitives c hc)]
    rfl

/-- The character that a byte of a package stands for, in slash form or in dotted form. -/
def dotted (b : UInt8) : Char := if b = 0x2F then '.' else Char.ofNat b.toNat

theorem dotted_asciiByte {c : Char} (hc : isSegmentChar c = true) : dotted (Text.asciiByte c) = c :=
  Text.forall_ascii (P := fun c => isSegmentChar c = true → dotted (Text.asciiByte c) = c) (by decide)
    (toNat_lt_of_isSegmentChar hc) hc

/-- Both forms of a package, in bytes. -/
theorem encode_package {package : List Char} (hpackage : isPackage package = true) {separator : Char}
    (hseparator : separator = '/' ∨ separator = '.') :
    Text.Utf8.encode (Text.replaceChar '.' separator package) =
      package.map fun c => Text.asciiByte (if c = '.' then separator else c) := by
  rw [Text.Utf8.encode_eq_map_asciiByte, Text.replaceChar, List.map_map]
  · rfl
  · intro c hc
    obtain ⟨d, hd, rfl⟩ := List.mem_map.1 hc
    split
    · rcases hseparator with rfl | rfl <;> decide
    · rename_i hdot
      exact toNat_lt_of_isSegmentChar ((isSegmentChar_or_dot hpackage d hd).resolve_right hdot)

theorem map_dotted {package : List Char} (hpackage : isPackage package = true) {separator : Char}
    (hseparator : separator = '/' ∨ separator = '.') :
    (Text.Utf8.encode (Text.replaceChar '.' separator package)).map dotted = package := by
  rw [encode_package hpackage hseparator, List.map_map]
  refine (List.map_congr_left fun c hc => ?_).trans (List.map_id package)
  by_cases hdot : c = '.'
  · rcases hseparator with rfl | rfl <;> simp [hdot] <;> decide
  · simpa [hdot] using dotted_asciiByte ((isSegmentChar_or_dot hpackage c hc).resolve_right hdot)

/-- Both forms of a package are names. -/
theorem isName_package {package : List Char} (hpackage : isPackage package = true) {separator : Char}
    (hseparator : separator = '/' ∨ separator = '.') :
    IsName (Text.Utf8.encode (Text.replaceChar '.' separator package)) := by
  obtain ⟨first, more, hcons, hfirst, -⟩ := isPackage_cons hpackage
  refine ⟨?_, ?_, ?_⟩
  · rw [encode_package hpackage hseparator, hcons]
    simp
  · rw [encode_package hpackage hseparator]
    intro b hb
    obtain ⟨c, hc, rfl⟩ := List.mem_map.1 hb
    split
    · rcases hseparator with rfl | rfl <;> decide
    · rename_i hdot
      have hsegment := (isSegmentChar_or_dot hpackage c hc).resolve_right hdot
      exact isNamePart_asciiByte (by simp [isPathChar, hsegment])
  · have hdot : first ≠ '.' := by
      rintro rfl
      exact absurd hfirst (by decide)
    have hslash : Text.asciiByte first ≠ 0x2F := by
      intro heq
      have h := dotted_asciiByte hfirst
      rw [heq] at h
      exact hdot h.symm
    rw [encode_package hpackage hseparator, hcons]
    simp [hdot, hslash]

theorem dotted_of_isPrimitive {b : UInt8} (hb : isPrimitive b = true) : dotted b ∈ "BCDFIJSZ".toList := by
  simp only [isPrimitive, Bool.or_eq_true, beq_iff_eq] at hb
  rcases hb with ((((((rfl | rfl) | rfl) | rfl) | rfl) | rfl) | rfl) | rfl <;> decide

theorem not_opensDescriptor {name : Bytes} (hplain : opensDescriptor (name.map dotted) = false) :
    ¬OpensDescriptor name := by
  rintro ⟨primitives, rest, rfl, hprimitives⟩
  rw [List.map_append, List.map_cons, ← Bool.not_eq_true] at hplain
  refine hplain (opensDescriptor_iff.2 ⟨primitives.map dotted, rest.map dotted, rfl, fun c hc => ?_⟩)
  obtain ⟨b, hb, rfl⟩ := List.mem_map.1 hc
  exact dotted_of_isPrimitive (hprimitives b hb)

/-- A form is the packages of a rule, with one separator or the other. -/
theorem Relocator.exists_rule_of_mem_forms {relocator : Relocator} {form : Form} (hform : form ∈ relocator.forms) :
    ∃ r ∈ relocator.rules, (form.separator = 0x2F ∨ form.separator = 0x2E) ∧ IsName form.source ∧
      IsName form.destination ∧ form.source.map dotted = r.source ∧ form.destination.map dotted = r.destination := by
  obtain ⟨r, hr, hmem⟩ := List.mem_flatMap.1 hform
  refine ⟨r, hr, ?_⟩
  rw [Rule.forms_eq, List.mem_cons, List.mem_singleton] at hmem
  rcases hmem with rfl | rfl
  · exact ⟨.inl rfl, isName_package r.source_valid (.inl rfl), isName_package r.destination_valid (.inl rfl),
      map_dotted r.source_valid (.inl rfl), map_dotted r.destination_valid (.inl rfl)⟩
  · have hsame (package : List Char) : Text.replaceChar '.' '.' package = package := by
      refine (List.map_congr_left fun c _ => ?_).trans (List.map_id package)
      by_cases hdot : c = '.' <;> simp [hdot]
    have hsource := isName_package r.source_valid (.inr rfl)
    have hdestination := isName_package r.destination_valid (.inr rfl)
    have hsourceText := map_dotted r.source_valid (.inr rfl)
    have hdestinationText := map_dotted r.destination_valid (.inr rfl)
    rw [hsame] at hsource hdestination hsourceText hdestinationText
    exact ⟨.inr rfl, hsource, hdestination, hsourceText, hdestinationText⟩

theorem continues_of_append {outer inner : Bytes} {c : UInt8} {rest : Bytes} (hc : c = 0x2F ∨ c = 0x2E ∨ c = 0x24)
    (hinner : inner = outer ++ c :: rest) : continues (outer.map dotted) (inner.map dotted) = true := by
  refine continues_iff.2 ⟨(c :: rest).map dotted, .inr ⟨dotted c, rest.map dotted, ?_, rfl⟩, by simp [hinner]⟩
  rcases hc with rfl | rfl | rfl <;> decide

theorem Relocator.isSeparate_iff {relocator : Relocator} :
    relocator.isSeparate = true ↔
      ∀ r ∈ relocator.rules, opensDescriptor r.source = false ∧ opensDescriptor r.destination = false ∧
        (".class".toList <:+ r.destination → ".class".toList <:+ r.source) ∧
        ∀ s ∈ relocator.rules, continues r.destination s.source = false ∧ continues s.source r.destination = false := by
  simp only [isSeparate, List.all_eq_true, Bool.and_eq_true, Bool.or_eq_true, Bool.not_eq_true', and_assoc,
    ← List.isSuffixOf_iff_suffix, ← Bool.not_eq_true, imp_iff_not_or]

theorem Relocator.apart_forms {relocator : Relocator} (hseparate : relocator.isSeparate = true) :
    Apart relocator.forms := by
  rw [isSeparate_iff] at hseparate
  refine ⟨fun f hf => ?_, fun f hf => ?_, fun f hf => ?_, fun f hf g hg htouches => ?_⟩
  · obtain ⟨r, -, h, -⟩ := exists_rule_of_mem_forms hf
    exact h
  · obtain ⟨r, hr, -, hname, -, hsource, -⟩ := exists_rule_of_mem_forms hf
    exact ⟨hname, not_opensDescriptor (hsource ▸ (hseparate r hr).1)⟩
  · obtain ⟨r, hr, -, -, hname, -, hdestination⟩ := exists_rule_of_mem_forms hf
    exact ⟨hname, not_opensDescriptor (hdestination ▸ (hseparate r hr).2.1)⟩
  · obtain ⟨r, hr, -, -, -, -, hdestination⟩ := exists_rule_of_mem_forms hf
    obtain ⟨s, hs, -, -, -, hsource, -⟩ := exists_rule_of_mem_forms hg
    obtain ⟨hunder, hover⟩ := (hseparate r hr).2.2.2 s hs
    rw [← hdestination, ← hsource] at hunder hover
    rcases htouches with heq | ⟨c, rest, hc, heq | heq⟩
    · rw [heq, continues_iff.2 ⟨[], .inl rfl, (List.append_nil _).symm⟩] at hunder
      cases hunder
    · rw [continues_of_append hc heq] at hover
      cases hover
    · rw [continues_of_append hc heq] at hunder
      cases hunder

/-- References that were moved do not move again. -/
theorem Relocator.moveReferences?_moved {relocator : Relocator} (hseparate : relocator.isSeparate = true)
    (bytes : Bytes) :
    relocator.moveReferences? ((relocator.moveReferences? bytes).getD bytes) = none :=
  moveReferences?_of_inert (relocator.apart_forms hseparate).inert bytes

end UberJar.Relocation
