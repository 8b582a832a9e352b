import Mathlib.Data.List.DropRight
import UberJar.Manifest.Basic
import UberJar.Proofs.Manifest.Folding
import UberJar.Proofs.Text.Blank
import UberJar.Proofs.Text.Utf8

namespace UberJar

open Text Manifest

namespace Attribute

/-- An attribute that stands for itself in a manifest: it has no line breaks, no blanks around its name or in front of
    its value, and no colon in its name. -/
structure IsPlain (a : Attribute) : Prop where
  name_trimmed : trim a.name = a.name
  name_colon : ':' ∉ a.name
  name_unbroken : IsUnbroken a.name
  value_trimmed : trimStart a.value = a.value
  value_unbroken : IsUnbroken a.value

instance (a : Attribute) : Decidable a.IsPlain :=
  decidable_of_iff (trim a.name = a.name ∧ ':' ∉ a.name ∧ IsUnbroken a.name ∧ trimStart a.value = a.value ∧
      IsUnbroken a.value)
    ⟨fun ⟨htrim, hcolon, hname, hstart, hvalue⟩ => ⟨htrim, hcolon, hname, hstart, hvalue⟩,
      fun ⟨htrim, hcolon, hname, hstart, hvalue⟩ => ⟨htrim, hcolon, hname, hstart, hvalue⟩⟩

/-- An attribute as a line. -/
def line (a : Attribute) : List Char := a.name ++ ':' :: ' ' :: a.value

theorem isUnbroken_line {a : Attribute} (hname : IsUnbroken a.name) (hvalue : IsUnbroken a.value) :
    IsUnbroken a.line := by
  simp only [IsUnbroken, line, List.mem_append, List.mem_cons, not_or]
  exact ⟨⟨hname.1, by decide, by decide, hvalue.1⟩, hname.2, by decide, by decide, hvalue.2⟩

theorem IsPlain.isLine {a : Attribute} (ha : a.IsPlain) : IsLine a.line := by
  refine ⟨by simp [line], ?_, isUnbroken_line ha.name_unbroken ha.value_unbroken⟩
  cases hname : a.name with
  | nil => simp [line, hname]
  | cons c rest =>
    have hblank := isBlank_of_trim_eq_cons (ha.name_trimmed.trans hname)
    simp only [line, hname, List.cons_append, List.head?_cons, ne_eq, Option.some.injEq]
    rintro rfl
    exact absurd hblank (by decide)

theorem IsPlain.ofLine?_line {a : Attribute} (ha : a.IsPlain) : ofLine? a.line = some a := by
  have hvalue : trimStart (' ' :: a.value) = a.value := by
    rw [trimStart, List.dropWhile_cons_of_pos (by decide)]
    exact ha.value_trimmed
  rw [ofLine?, line, splitFirst?_append ha.name_colon, Option.map_some]
  dsimp only
  rw [hvalue, ha.name_trimmed]

/-- What is read from a line stands for itself. -/
theorem isPlain_of_ofLine? {text : List Char} {a : Attribute} (htext : IsUnbroken text)
    (hread : ofLine? text = some a) : a.IsPlain := by
  obtain ⟨⟨name, value⟩, hsplit, rfl⟩ := Option.map_eq_some_iff.1 hread
  obtain ⟨rfl, hcolon⟩ := splitFirst?_eq_some hsplit
  have hname : IsUnbroken name := htext.subset (List.subset_append_left name _)
  have hvalue : IsUnbroken value := htext.subset fun c hc => List.mem_append_right _ (List.mem_cons_of_mem _ hc)
  exact {
    name_trimmed := trim_trim name
    name_colon := fun hmem => hcolon (trim_subset name hmem)
    name_unbroken := hname.subset (trim_subset name)
    value_trimmed := List.dropWhile_idempotent _ value
    value_unbroken := hvalue.subset (List.dropWhile_subset _) }

theorem ofLine?_isSome_iff {text : List Char} : (ofLine? text).isSome = true ↔ ':' ∈ text := by
  rw [ofLine?, Option.isSome_map]
  constructor
  · intro hsome
    obtain ⟨⟨name, value⟩, hsplit⟩ := Option.isSome_iff_exists.1 hsome
    obtain ⟨rfl, -⟩ := splitFirst?_eq_some hsplit
    simp
  · intro hmem
    obtain ⟨front, back, rfl, hfront⟩ := List.eq_append_cons_of_mem hmem
    rw [splitFirst?_append hfront]
    rfl

end Attribute

namespace Manifest

/-- A manifest whose main attributes stand for themselves, and whose sections consist of lines. -/
structure IsPlain (m : Manifest) : Prop where
  main : ∀ a ∈ m.main, a.IsPlain
  sections : ∀ lines ∈ m.sections, ∀ line ∈ lines, IsUnbroken line

theorem isPlain_parse (data : Bytes) : (parse data).IsPlain := by
  have hblocks := @isUnbroken_of_mem_blocks (Utf8.decodeLossy data)
  rw [parse]
  cases hcut : blocks (Utf8.decodeLossy data) with
  | nil => exact ⟨by simp, by simp⟩
  | cons main sections =>
    rw [hcut] at hblocks
    obtain ⟨hmain, hsections⟩ := List.forall_mem_cons.1 hblocks
    refine ⟨fun a ha => ?_, hsections⟩
    obtain ⟨line, hline, hread⟩ := List.mem_filterMap.1 ha
    exact Attribute.isPlain_of_ofLine? (hmain line hline) hread

/-- The lines of a section that are attributes, each in the form in which attributes are written. -/
def attributeLines (lines : List (List Char)) : List (List Char) :=
  (lines.filterMap Attribute.ofLine?).map Attribute.line

/-- The form in which a manifest is read back once it is written. -/
def normal (m : Manifest) : Manifest :=
  ⟨m.written, (m.sections.map attributeLines).filter (!·.isEmpty)⟩

/-- Whether a manifest names the version of its format, in whatever letter case. -/
def HasVersion (m : Manifest) : Prop := ∃ a ∈ m.main, a.name.map Char.toLower = "manifest-version".toList

instance (m : Manifest) : Decidable m.HasVersion := inferInstanceAs (Decidable (∃ a ∈ m.main, _))

theorem hasVersion_iff (m : Manifest) : m.HasVersion ↔ (m.get? Attribute.version.name).isSome = true := by
  have hlower : Attribute.version.name.map Char.toLower = "manifest-version".toList := by decide
  simp [get?, HasVersion, Attribute.isNamed, hlower]

theorem written_eq (m : Manifest) : m.written = (if m.HasVersion then [] else [.version]) ++ m.main := by
  rw [written]
  by_cases hversion : m.HasVersion
  · have hsome := m.hasVersion_iff.1 hversion
    rw [if_neg (by simp [Option.isSome_iff_ne_none.1 hsome]), if_pos hversion, List.nil_append]
  · have hnone := mt m.hasVersion_iff.2 hversion
    rw [if_pos (by simpa using hnone), if_neg hversion, List.singleton_append]

theorem written_ne_nil (m : Manifest) : m.written ≠ [] := by
  rw [written_eq]
  split
  · rename_i hversion
    obtain ⟨a, ha, -⟩ := hversion
    exact List.ne_nil_of_mem ha
  · simp

theorem isPlain_version : Attribute.version.IsPlain := by decide

theorem IsPlain.written {m : Manifest} (hm : m.IsPlain) : ∀ a ∈ m.written, a.IsPlain := by
  intro a ha
  rw [written_eq, List.mem_append] at ha
  rcases ha with ha | ha
  · split at ha
    · cases ha
    · exact List.mem_singleton.1 ha ▸ isPlain_version
  · exact hm.main a ha

theorem isPlain_of_mem_attributes {lines : List (List Char)} (hlines : ∀ line ∈ lines, IsUnbroken line) :
    ∀ a ∈ lines.filterMap Attribute.ofLine?, a.IsPlain := by
  intro a ha
  obtain ⟨line, hline, hread⟩ := List.mem_filterMap.1 ha
  exact Attribute.isPlain_of_ofLine? (hlines line hline) hread

/-- Attributes that stand for themselves are read from their lines. -/
theorem filterMap_ofLine?_line {attributes : List Attribute} (hplain : ∀ a ∈ attributes, a.IsPlain) :
    (attributes.map Attribute.line).filterMap Attribute.ofLine? = attributes := by
  rw [List.filterMap_map]
  refine (List.filterMap_congr fun a ha => ?_).trans (List.filterMap_some)
  exact (hplain a ha).ofLine?_line

/-- A manifest is read back in its normal form. -/
theorem parse_toBytes {m : Manifest} (hm : m.IsPlain) : parse m.toBytes = m.normal := by
  have hrender : m.render = (m.written.map Attribute.line :: m.sections.map attributeLines).flatMap fun texts =>
      texts.flatMap renderLine ++ ['\r', '\n'] := by
    rw [List.flatMap_cons, List.flatMap_map]
    simp only [render, attributeLines, List.flatMap_map]
    rfl
  have hlines : ∀ texts ∈ m.written.map Attribute.line :: m.sections.map attributeLines,
      ∀ text ∈ texts, IsLine text := by
    intro texts htexts text htext
    rcases List.mem_cons.1 htexts with rfl | htexts
    · obtain ⟨a, ha, rfl⟩ := List.mem_map.1 htext
      exact (hm.written a ha).isLine
    · obtain ⟨lines, hmem, rfl⟩ := List.mem_map.1 htexts
      obtain ⟨a, ha, rfl⟩ := List.mem_map.1 htext
      exact (isPlain_of_mem_attributes (hm.sections lines hmem) a ha).isLine
  have hkept : (m.written.map Attribute.line :: m.sections.map attributeLines).filter (!·.isEmpty) =
      m.written.map Attribute.line :: (m.sections.map attributeLines).filter (!·.isEmpty) :=
    List.filter_cons_of_pos (by simpa using m.written_ne_nil)
  rw [parse, toBytes, Utf8.decodeLossy_encode, hrender, blocks_written hlines, hkept]
  dsimp only
  rw [filterMap_ofLine?_line hm.written, normal]

theorem isPlain_normal {m : Manifest} (hm : m.IsPlain) : m.normal.IsPlain := by
  refine ⟨hm.written, fun lines hlines line hline => ?_⟩
  obtain ⟨old, hold, rfl⟩ := List.mem_map.1 (List.mem_filter.1 hlines).1
  obtain ⟨a, ha, rfl⟩ := List.mem_map.1 hline
  exact (isPlain_of_mem_attributes (hm.sections old hold) a ha).isLine.unbroken

theorem hasVersion_normal (m : Manifest) : m.normal.HasVersion := by
  have hmain : m.normal.main = (if m.HasVersion then [] else [.version]) ++ m.main := m.written_eq
  by_cases hversion : m.HasVersion
  · obtain ⟨a, ha, hname⟩ := hversion
    exact ⟨a, hmain ▸ List.mem_append_right _ ha, hname⟩
  · rw [if_neg hversion] at hmain
    exact ⟨.version, hmain ▸ List.mem_cons_self, by decide⟩

theorem attributeLines_attributeLines {lines : List (List Char)} (hlines : ∀ line ∈ lines, IsUnbroken line) :
    attributeLines (attributeLines lines) = attributeLines lines := by
  rw [attributeLines, attributeLines, filterMap_ofLine?_line (isPlain_of_mem_attributes hlines)]

/-- The normal form is that of itself. -/
theorem normal_normal {m : Manifest} (hm : m.IsPlain) : m.normal.normal = m.normal := by
  have hmain : m.normal.written = m.normal.main := by rw [written_eq, if_pos m.hasVersion_normal, List.nil_append]
  have hsections : m.normal.sections.map attributeLines = m.normal.sections := by
    refine (List.map_congr_left fun lines hlines => ?_).trans (List.map_id _)
    obtain ⟨old, hold, rfl⟩ := List.mem_map.1 (List.mem_filter.1 hlines).1
    exact attributeLines_attributeLines (hm.sections old hold)
  have hkept : m.normal.sections.filter (!·.isEmpty) = m.normal.sections :=
    List.filter_eq_self.2 fun lines hlines => (List.mem_filter.1 hlines).2
  rw [normal, hmain, hsections, hkept]

/-- A line of a section as it is written anew: none if it has no colon. -/
def normalLine? (line : List Char) : Option (List Char) :=
  (splitFirst? ':' line).map fun (name, value) => trim name ++ ": ".toList ++ trimStart value

theorem attributeLines_eq (lines : List (List Char)) : attributeLines lines = lines.filterMap normalLine? := by
  rw [attributeLines, List.map_filterMap]
  refine List.filterMap_congr fun line _ => ?_
  rw [Attribute.ofLine?, normalLine?, Option.map_map]
  congr 1
  funext ⟨name, value⟩
  simp [Attribute.line]

theorem normal_sections (m : Manifest) : m.normal.sections =
    (m.sections.filter fun lines => lines.any (·.contains ':')).map fun lines => lines.filterMap normalLine? := by
  have hkept (lines : List (List Char)) : (!(attributeLines lines).isEmpty) = lines.any (·.contains ':') := by
    rw [Bool.eq_iff_iff]
    simp only [attributeLines, List.isEmpty_map, Bool.not_eq_true', List.isEmpty_eq_false_iff_exists_mem,
      List.mem_filterMap, List.any_eq_true, List.contains_iff_mem, ← Attribute.ofLine?_isSome_iff,
      Option.isSome_iff_exists]
    exact ⟨fun ⟨a, line, hline, ha⟩ => ⟨line, hline, a, ha⟩, fun ⟨line, hline, a, ha⟩ => ⟨a, line, hline, ha⟩⟩
  rw [normal, List.filter_map, funext attributeLines_eq]
  refine congrArg _ (List.filter_congr fun lines _ => ?_)
  exact (congrArg (!·.isEmpty) (attributeLines_eq lines)).symm.trans (hkept lines)

/-- A manifest that was read, written and read again has its main attributes, behind a version if it had none, and of
    its sections those that hold attributes, reduced to them. Writing and reading it once more changes nothing. -/
theorem parse_toBytes_parse (data : Bytes) :
    (parse (parse data).toBytes).main =
        (if (parse data).HasVersion then [] else [⟨"Manifest-Version".toList, "1.0".toList⟩]) ++ (parse data).main ∧
      (parse (parse data).toBytes).sections = ((parse data).sections.filter fun lines => lines.any (·.contains ':')).map
        (fun lines => lines.filterMap normalLine?) ∧
      parse (parse (parse data).toBytes).toBytes = parse (parse data).toBytes := by
  have hplain := isPlain_parse data
  rw [parse_toBytes hplain, parse_toBytes (isPlain_normal hplain)]
  exact ⟨written_eq _, normal_sections _, normal_normal hplain⟩

end Manifest
end UberJar
