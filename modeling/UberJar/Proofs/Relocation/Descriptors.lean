import UberJar.Proofs.Relocation.Separate

namespace UberJar.Relocation

open Reference

/-- Whether a byte may stand in the name of a class: a letter, a digit, `_`, `$`, `/` or a byte beyond ASCII. -/
def isInternalByte (b : UInt8) : Bool :=
  (0x30 ≤ b && b ≤ 0x39) || (0x41 ≤ b && b ≤ 0x5A) || (0x61 ≤ b && b ≤ 0x7A) ||
    b == 0x5F || b == 0x24 || b == 0x2F || b ≥ 0x80

/-- The name of a class as descriptors have it. -/
structure InternalName where
  bytes : Bytes
  ne_nil : bytes ≠ []
  internal : ∀ b ∈ bytes, isInternalByte b = true

inductive PrimitiveType
  | byte | char | double | float | int | long | short | boolean
  deriving DecidableEq, Repr

def PrimitiveType.code : PrimitiveType → UInt8
  | byte => 0x42
  | char => 0x43
  | double => 0x44
  | float => 0x46
  | int => 0x49
  | long => 0x4A
  | short => 0x53
  | boolean => 0x5A

/-- The type of a field, of a parameter or of a result. -/
inductive FieldType
  | primitive (type : PrimitiveType)
  | object (name : InternalName)
  | array (element : FieldType)

namespace FieldType

def bytes : FieldType → Bytes
  | primitive type => [type.code]
  | object name => 0x4C :: (name.bytes ++ [0x3B])
  | array element => 0x5B :: element.bytes

def mapNames (f : InternalName → InternalName) : FieldType → FieldType
  | primitive type => primitive type
  | object name => object (f name)
  | array element => array (element.mapNames f)

end FieldType

/-- The descriptor of a field or of a method; a method without a result has none. -/
inductive Descriptor
  | field (type : FieldType)
  | method (parameters : List FieldType) (result : Option FieldType)

namespace Descriptor

def bytes : Descriptor → Bytes
  | field type => type.bytes
  | method parameters result =>
    0x28 :: (parameters.flatMap FieldType.bytes ++ 0x29 :: result.elim [0x56] FieldType.bytes)

def mapNames (f : InternalName → InternalName) : Descriptor → Descriptor
  | field type => field (type.mapNames f)
  | method parameters result => method (parameters.map (·.mapNames f)) (result.map (·.mapNames f))

end Descriptor

/-- The source directory of a rule holds a class: the rest of the name is empty or begins with `/` or `$`. -/
def Rule.Covers (r : Rule) (name rest : Bytes) : Prop :=
  name = Text.Utf8.encode r.sourcePath ++ rest ∧ ∀ b ∈ rest.head?, b = 0x2F ∨ b = 0x24

/-- The name that a class gets: the longest source that holds it is replaced, if there is one. -/
def Relocator.Renames (relocator : Relocator) (name renamed : Bytes) : Prop :=
  (∃ r ∈ relocator.rules, ∃ rest, r.Covers name rest ∧
      (∀ s ∈ relocator.rules, ∀ tail, s.Covers name tail → s.source.length ≤ r.source.length) ∧
      renamed = Text.Utf8.encode r.destinationPath ++ rest) ∨
    (∀ r ∈ relocator.rules, ∀ rest, ¬r.Covers name rest) ∧ renamed = name

theorem isNamePart_of_isInternalByte {b : UInt8} (hb : isInternalByte b = true) : isNamePart b = true := by
  simp only [isInternalByte, isNamePart, Bool.or_eq_true] at hb ⊢
  tauto

theorem PrimitiveType.isPrimitive_code (type : PrimitiveType) : isPrimitive type.code = true := by
  cases type <;> decide

namespace Reference

/-- Behind `before` a scan reads `bytes` to the end, whatever follows, and writes `written` for them. -/
def Passes (forms : List Form) (before bytes written : Bytes) : Prop :=
  ∀ rest pieces, Scans forms before (bytes ++ rest) pieces →
    ∃ tail, Scans forms (bytes.reverse ++ before) rest tail ∧
      pieces.flatMap Piece.output = written ++ tail.flatMap Piece.output

namespace Passes

variable {forms : List Form} {before bytes bytes' written written' : Bytes}

theorem nil : Passes forms before [] [] := fun _ pieces hscans => ⟨pieces, hscans, rfl⟩

theorem append (h : Passes forms before bytes written) (h' : Passes forms (bytes.reverse ++ before) bytes' written') :
    Passes forms before (bytes ++ bytes') (written ++ written') := by
  intro rest pieces hscans
  rw [List.append_assoc] at hscans
  obtain ⟨tail, htail, houtput⟩ := h _ _ hscans
  obtain ⟨last, hlast, houtput'⟩ := h' _ _ htail
  exact ⟨last, by simpa using hlast, by rw [houtput, houtput', List.append_assoc]⟩

theorem kept {b : UInt8} (hnone : ∀ rest, matching? forms before (b :: (bytes ++ rest)) = none)
    (h : Passes forms (b :: before) bytes written) : Passes forms before (b :: bytes) (b :: written) := by
  intro rest pieces hscans
  rw [List.cons_append] at hscans
  generalize hwhole : b :: (bytes ++ rest) = whole at hscans
  cases hscans with
  | done => cases hwhole
  | kept hmatch tail =>
    obtain ⟨rfl, rfl⟩ := List.cons.inj hwhole
    obtain ⟨last, hlast, houtput⟩ := h _ _ tail
    refine ⟨last, by simpa using hlast, ?_⟩
    rw [List.flatMap_cons, houtput, Piece.output, List.singleton_append, List.cons_append]
  | moved hmatch tail =>
    rw [← hwhole, hnone] at hmatch
    cases hmatch

theorem moved {form : Form} (hne : form.source ≠ [])
    (hmatch : ∀ rest, matching? forms before (form.source ++ bytes ++ rest) = some form)
    (h : Passes forms (form.source.reverse ++ before) bytes written) :
    Passes forms before (form.source ++ bytes) (form.destination ++ written) := by
  intro rest pieces hscans
  obtain ⟨after, tail, hsplit, rfl, htail⟩ := hscans.cons_of_matching? (by simp [hne]) (hmatch rest)
  rw [List.append_assoc] at hsplit
  obtain rfl := List.append_cancel_left hsplit
  obtain ⟨last, hlast, houtput⟩ := h _ _ htail
  refine ⟨last, by simpa using hlast, ?_⟩
  rw [List.flatMap_cons, houtput, List.append_assoc, Piece.output]

theorem output_eq (hforms : ∀ form ∈ forms, form.source ≠ []) (h : Passes forms before bytes written)
    {pieces : List Piece} (hscans : Scans forms before bytes pieces) : pieces.flatMap Piece.output = written := by
  rw [← List.append_nil bytes] at hscans
  obtain ⟨tail, htail, houtput⟩ := h _ _ hscans
  generalize hempty : ([] : Bytes) = rest at htail
  cases htail with
  | done => simpa using houtput
  | kept hmatch _ => cases hempty
  | moved hmatch _ => exact absurd (List.append_eq_nil_iff.1 hempty.symm).1 (hforms _ (mem_of_matching? hmatch))

end Passes

/-- Behind `before` there may stand a type: an `L` after it begins the name of a class. -/
def AtType (before : Bytes) : Prop := ∀ b ∈ (before.dropWhile isPrimitive).head?, isNamePart b = false

theorem atType_nil : AtType [] := by simp [AtType]

theorem atType_cons_of_not_isNamePart {b : UInt8} (hb : isNamePart b = false) (before : Bytes) :
    AtType (b :: before) := by
  have hprimitive : ¬isPrimitive b = true := fun h => by
    rw [isNamePart_of_isPrimitive h] at hb
    cases hb
  simpa [AtType, List.dropWhile_cons_of_neg hprimitive] using hb

theorem AtType.cons {before : Bytes} (hbefore : AtType before) {b : UInt8} (hb : isPrimitive b = true) :
    AtType (b :: before) := by
  rwa [AtType, List.dropWhile_cons_of_pos hb]

/-- Inside the name of a class and right behind it, no reference starts. -/
theorem not_startsAfter_inside {name before : Bytes} (hne : name ≠ []) (hnamed : ∀ b ∈ name, isNamePart b = true)
    (separator : UInt8) : startsAfter separator (name.reverse ++ 0x4C :: before) = false := by
  rw [← Bool.not_eq_true]
  intro hstarts
  obtain ⟨-, ⟨-, hempty⟩ | ⟨-, -, -, houtside⟩⟩ := startsAfter_name hne hnamed hstarts
  · cases hempty
  · -- The run of primitive types ends at the `L` in front of the name.
    exact absurd (houtside 0x4C rfl) (by decide)

theorem matching?_inside {forms : List Form} {name before : Bytes} (hne : name ≠ [])
    (hnamed : ∀ b ∈ name, isNamePart b = true) (rest : Bytes) :
    matching? forms (name.reverse ++ 0x4C :: before) rest = none := by
  rw [matching?, List.find?_eq_none]
  intro form _
  simp [matchesForm, not_startsAfter_inside hne hnamed]

theorem passes_inside {forms : List Form} {name rest before : Bytes} (hne : name ≠ [])
    (hnamed : ∀ b ∈ name ++ rest, isNamePart b = true) :
    Passes forms (name.reverse ++ 0x4C :: before) (rest ++ [0x3B]) (rest ++ [0x3B]) := by
  have hfront : ∀ b ∈ name, isNamePart b = true := fun b hb => hnamed b (List.mem_append_left rest hb)
  induction rest generalizing name with
  | nil => exact .kept (fun rest => matching?_inside hne hfront _) .nil
  | cons b rest ih =>
    rw [List.append_cons] at hnamed
    have htail := @ih (name ++ [b]) (by simp) hnamed fun c hc => hnamed c (List.mem_append_left rest hc)
    rw [List.reverse_append, List.reverse_singleton] at htail
    exact .kept (fun rest => matching?_inside hne hfront _) htail

end Reference

namespace InternalName

theorem isNamePart (name : InternalName) : ∀ b ∈ name.bytes, isNamePart b = true :=
  fun b hb => isNamePart_of_isInternalByte (name.internal b hb)

end InternalName

namespace Rule

theorem isInternalByte_encode {path : List Char} (hpath : ∀ c ∈ path, isPathChar c = true) :
    ∀ b ∈ Text.Utf8.encode path, isInternalByte b = true := by
  intro b hb
  rw [encode_of_isPathChar hpath] at hb
  obtain ⟨c, hc, rfl⟩ := List.mem_map.1 hb
  exact Text.forall_ascii (P := fun c => isPathChar c = true → isInternalByte (Text.asciiByte c) = true) (by decide)
    (toNat_lt_of_isPathChar (hpath c hc)) (hpath c hc)

/-- At the name of a class, the slash form of a rule occurs if the source directory holds the class. -/
theorem matchesForm_slashForm_name_iff {r : Rule} {name : InternalName} {before : Bytes} (hat : AtType before)
    (rest : Bytes) :
    matchesForm (0x4C :: before) (name.bytes ++ 0x3B :: rest) r.slashForm = true ↔
      ∃ tail, r.Covers name.bytes tail := by
  have hstarts : startsAfter 0x2F (0x4C :: before) = true :=
    startsAfter_cons_iff.2 (.inr ⟨rfl, .inr ⟨rfl, hat⟩⟩)
  constructor
  · intro hoccurs
    obtain ⟨after, hafter⟩ := exists_append_of_matchesForm hoccurs
    rw [hafter, matchesForm_append_iff] at hoccurs
    rcases List.append_eq_append_iff.1 hafter with ⟨more, hsource, hrest⟩ | ⟨tail, hname, rfl⟩
    · cases more with
      | nil => exact ⟨[], by simpa [slashForm] using hsource.symm, by simp⟩
      | cons c more =>
        -- The source would hold the semicolon behind the name.
        obtain ⟨rfl, -⟩ := List.cons.inj hrest
        have hsemicolon := isInternalByte_encode r.isPathChar_sourcePath 0x3B
        exact absurd (hsemicolon (by rw [show Text.Utf8.encode r.sourcePath = _ from hsource]; simp)) (by decide)
    · refine ⟨tail, hname, fun b hb => ?_⟩
      obtain ⟨more, rfl⟩ := List.head?_eq_some_iff.1 hb
      have hnamed := name.isNamePart b (by simp [hname])
      simpa [endsBefore, hnamed, slashForm] using hoccurs.2
  · rintro ⟨tail, hname, htail⟩
    rw [hname, List.append_assoc]
    refine matchesForm_append_iff.2 ⟨hstarts, ?_⟩
    cases tail with
    | nil => rfl
    | cons b tail => rcases htail b rfl with rfl | rfl <;> rfl

theorem not_matchesForm_dotForm_name (r : Rule) (before rest : Bytes) :
    matchesForm (0x4C :: before) rest r.dotForm = false := by
  simp [matchesForm, dotForm, startsAfter, show Reference.isNamePart 0x4C = true by decide]

/-- The destination of a rule, and what follows its source in a name, make up a name. -/
theorem exists_moved (r : Rule) {name : InternalName} {rest : Bytes} (hname : name.bytes = r.slashForm.source ++ rest) :
    ∃ moved : InternalName, moved.bytes = r.slashForm.destination ++ rest := by
  have hinternal : ∀ b ∈ r.slashForm.destination ++ rest, isInternalByte b = true := by
    intro b hb
    rcases List.mem_append.1 hb with hb | hb
    · exact Rule.isInternalByte_encode r.isPathChar_destinationPath b hb
    · exact name.internal b (by simp [hname, hb])
  have hne : r.slashForm.destination ++ rest ≠ [] := by
    obtain ⟨c, more, hdestination, -⟩ := r.destinationPath_cons
    simp [Rule.slashForm, hdestination, Text.Utf8.encode, String.utf8EncodeChar_ne_nil]
  exact ⟨⟨_, hne, hinternal⟩, rfl⟩

end Rule

namespace Relocator

variable {relocator : Relocator}

/-- At the name of a class, the slash forms decide, and they do so wherever a type may stand. -/
theorem matching?_name (relocator : Relocator) (name : InternalName) {before : Bytes} (hat : AtType before)
    (rest : Bytes) :
    matching? relocator.forms (0x4C :: before) (name.bytes ++ 0x3B :: rest) =
      (relocator.rules.find? fun r => matchesForm [0x4C] (name.bytes ++ [0x3B]) r.slashForm).map Rule.slashForm := by
  rw [relocator.matching?_eq_find? fun r h => by simp [r.not_matchesForm_dotForm_name] at h]
  congr 2
  funext r
  rw [Bool.eq_iff_iff, Rule.matchesForm_slashForm_name_iff hat, Rule.matchesForm_slashForm_name_iff atType_nil]

/-- The name that a class gets is one, and the scan writes it for the name wherever a type may stand. -/
theorem exists_renames (relocator : Relocator) (name : InternalName) :
    ∃ renamed : InternalName, relocator.Renames name.bytes renamed.bytes ∧ ∀ before, AtType before →
      Passes relocator.forms (0x4C :: before) (name.bytes ++ [0x3B]) (renamed.bytes ++ [0x3B]) := by
  have hfound {before : Bytes} (hat : AtType before) (rest : Bytes) := relocator.matching?_name name hat rest
  cases hfind : relocator.rules.find? fun r => matchesForm [0x4C] (name.bytes ++ [0x3B]) r.slashForm with
  | none =>
    refine ⟨name, .inr ⟨fun r hr rest hcovers => ?_, rfl⟩, fun before hat => ?_⟩
    · exact List.find?_eq_none.1 hfind r hr ((Rule.matchesForm_slashForm_name_iff atType_nil []).2 ⟨rest, hcovers⟩)
    · obtain ⟨b, more, hname⟩ := List.exists_cons_of_ne_nil name.ne_nil
      have hnamed := name.isNamePart
      have hnone (rest : Bytes) : matching? relocator.forms (0x4C :: before) (name.bytes ++ 0x3B :: rest) = none := by
        rw [hfound hat, hfind, Option.map_none]
      rw [hname] at hnone hnamed ⊢
      exact .kept (fun rest => by simpa using hnone rest) (passes_inside (List.cons_ne_nil b []) hnamed)
  | some r =>
    obtain ⟨hmatch, front, back, hrules, hfront⟩ := List.find?_eq_some_iff_append.1 hfind
    obtain ⟨rest, hname, hrest⟩ := (Rule.matchesForm_slashForm_name_iff atType_nil []).1 hmatch
    obtain ⟨moved, hmoved⟩ := r.exists_moved hname
    have hr : r ∈ relocator.rules := by simp [hrules]
    have hne : r.slashForm.source ≠ [] :=
      relocator.source_ne_nil _ (List.mem_flatMap.2 ⟨r, hr, by simp [Rule.forms_eq]⟩)
    refine ⟨moved, .inl ⟨r, hr, rest, ⟨hname, hrest⟩, fun s hs tail hcovers => ?_, hmoved⟩, fun before hat => ?_⟩
    · have hlength := relocator.length_sourcePath_le hrules hs fun hmem => by
        have hnot := hfront s hmem
        rw [(Rule.matchesForm_slashForm_name_iff atType_nil []).2 ⟨tail, hcovers⟩] at hnot
        cases hnot
      simpa [Rule.sourcePath, Text.replaceChar] using hlength
    · have hsource : name.bytes = r.slashForm.source ++ rest := hname
      have hnamed : ∀ b ∈ r.slashForm.source ++ rest, isNamePart b = true := hsource ▸ name.isNamePart
      have hmove (after : Bytes) :
          matching? relocator.forms (0x4C :: before) (name.bytes ++ 0x3B :: after) = some r.slashForm := by
        rw [hfound hat, hfind, Option.map_some]
      rw [hsource] at hmove ⊢
      rw [hmoved, List.append_assoc, List.append_assoc]
      exact .moved hne (fun after => by simpa using hmove after) (passes_inside hne hnamed)

theorem Renames.unique {name a b : Bytes} (ha : relocator.Renames name a) (hb : relocator.Renames name b) : a = b := by
  rcases ha with ⟨r, hr, rest, hcovers, hlongest, rfl⟩ | ⟨hnone, rfl⟩
  · rcases hb with ⟨s, hs, tail, hcovers', hlongest', rfl⟩ | ⟨hnone', -⟩
    · have hlength : r.slashForm.source.length = s.slashForm.source.length := by
        have hsame := Nat.le_antisymm (hlongest' r hr rest hcovers) (hlongest s hs tail hcovers')
        simpa [Rule.source_slashForm, Rule.sourcePath, Text.replaceChar] using hsame
      obtain ⟨hsource, rfl⟩ := List.append_inj (hcovers.1.symm.trans hcovers'.1) hlength
      have htext : r.source = s.source := by
        rw [← map_dotted r.source_valid (.inl rfl), ← map_dotted s.source_valid (.inl rfl)]
        exact congrArg (List.map dotted) hsource
      rw [eq_of_source_eq hr hs htext]
    · exact absurd hcovers (hnone' r hr rest)
  · rcases hb with ⟨s, hs, tail, hcovers', -⟩ | ⟨-, rfl⟩
    · exact absurd hcovers' (hnone s hs tail)
    · rfl

section

variable (hplain : ∀ r ∈ relocator.rules, ∀ c ∈ r.source.head?, c ∉ "BCDFIJSZVL".toList)

include hplain

/-- A byte that is in no name, or is a character of the grammar, begins no source. -/
theorem matching?_mark {b : UInt8} (hb : isNamePart b = false ∨ dotted b ∈ "BCDFIJSZVL".toList) (before rest : Bytes) :
    matching? relocator.forms before (b :: rest) = none := by
  rw [matching?, List.find?_eq_none]
  intro form hform hoccurs
  obtain ⟨after, hafter⟩ := exists_append_of_matchesForm hoccurs
  obtain ⟨r, hr, -, hname, -, hsource, -⟩ := exists_rule_of_mem_forms hform
  obtain ⟨c, more, hcons⟩ := List.exists_cons_of_ne_nil hname.ne_nil
  rw [hcons, List.cons_append, List.cons.injEq] at hafter
  obtain ⟨rfl, -⟩ := hafter
  rcases hb with hb | hb
  · rw [hname.named b (by simp [hcons])] at hb
    cases hb
  · rw [hcons, List.map_cons] at hsource
    exact hplain r hr (dotted b) (by simp [← hsource]) hb

variable {rename : InternalName → InternalName} (hrename : ∀ name before, AtType before →
    Passes relocator.forms (0x4C :: before) (name.bytes ++ [0x3B]) ((rename name).bytes ++ [0x3B]))

include hrename

theorem passes_fieldType (type : FieldType) {before : Bytes} (hat : AtType before) :
    Passes relocator.forms before type.bytes (type.mapNames rename).bytes ∧
      AtType (type.bytes.reverse ++ before) := by
  induction type generalizing before with
  | primitive type =>
    have hcode := type.isPrimitive_code
    refine ⟨.kept (fun rest => matching?_mark hplain (.inr ?_) before _) .nil, hat.cons hcode⟩
    exact List.mem_append_left ['V', 'L'] (dotted_of_isPrimitive hcode)
  | object name =>
    refine ⟨.kept (fun rest => matching?_mark hplain (.inr (by decide)) before _) (hrename name before hat), ?_⟩
    have hmark := atType_cons_of_not_isNamePart (b := 0x3B) (by decide) (name.bytes.reverse ++ 0x4C :: before)
    simpa [FieldType.bytes] using hmark
  | array element ih =>
    obtain ⟨hpasses, helement⟩ := ih (atType_cons_of_not_isNamePart (b := 0x5B) (by decide) before)
    refine ⟨.kept (fun rest => matching?_mark hplain (.inl (by decide)) before _) hpasses, ?_⟩
    simpa [FieldType.bytes] using helement

theorem passes_parameters (parameters : List FieldType) {before : Bytes} (hat : AtType before) :
    Passes relocator.forms before (parameters.flatMap FieldType.bytes)
        ((parameters.map (·.mapNames rename)).flatMap FieldType.bytes) ∧
      AtType ((parameters.flatMap FieldType.bytes).reverse ++ before) := by
  induction parameters generalizing before with
  | nil => exact ⟨.nil, hat⟩
  | cons type parameters ih =>
    obtain ⟨htype, hbehind⟩ := passes_fieldType hplain hrename type hat
    obtain ⟨hrest, hend⟩ := ih hbehind
    exact ⟨htype.append hrest, by simpa using hend⟩

theorem passes_descriptor (descriptor : Descriptor) :
    Passes relocator.forms [] descriptor.bytes (descriptor.mapNames rename).bytes := by
  cases descriptor with
  | field type => exact (passes_fieldType hplain hrename type atType_nil).1
  | method parameters result =>
    have hopen : AtType [0x28] := atType_cons_of_not_isNamePart (by decide) []
    obtain ⟨hparameters, -⟩ := passes_parameters hplain hrename parameters hopen
    refine .kept (fun rest => matching?_mark hplain (.inl (by decide)) [] _) (hparameters.append ?_)
    refine .kept (fun rest => matching?_mark hplain (.inl (by decide)) _ _) ?_
    cases result with
    | none => exact .kept (fun rest => matching?_mark hplain (.inr (by decide)) _ _) .nil
    | some type =>
      exact (passes_fieldType hplain hrename type (atType_cons_of_not_isNamePart (by decide) _)).1

end

/-- The references in a descriptor are the names of its object types: the descriptor is written with each of them as the
    longest source that holds it has it renamed. -/
theorem moveReferences?_descriptor (hplain : ∀ r ∈ relocator.rules, ∀ c ∈ r.source.head?, c ∉ "BCDFIJSZVL".toList) :
    ∃ rename : InternalName → InternalName,
      (∀ name renamed, relocator.Renames name.bytes renamed ↔ renamed = (rename name).bytes) ∧
        ∀ descriptor : Descriptor,
          (relocator.moveReferences? descriptor.bytes).getD descriptor.bytes = (descriptor.mapNames rename).bytes := by
  choose rename hrenames hpasses using relocator.exists_renames
  refine ⟨rename, fun name renamed => ⟨fun h => h.unique (hrenames name), fun h => h ▸ hrenames name⟩, ?_⟩
  intro descriptor
  rw [moveReferences?_getD]
  exact (passes_descriptor hplain hpasses descriptor).output_eq relocator.source_ne_nil
    (scans_pieces relocator.source_ne_nil descriptor.bytes)

/-- Behind array marks and before a primitive type, the name of the class is the reference. -/
theorem moveReferences?_descriptor_of_array :
    ∃ relocator : Relocator, (∀ r ∈ relocator.rules, ∀ c ∈ r.source.head?, c ∉ "BCDFIJSZVL".toList) ∧
      (relocator.moveReferences? (Text.Utf8.encode "([[Lorg/a/B;I)V".toList)).getD
        (Text.Utf8.encode "([[Lorg/a/B;I)V".toList) = Text.Utf8.encode "([[Lx/a/B;I)V".toList := by
  let rule : Rule := ⟨"org.a".toList, "x.a".toList, by decide +kernel, by decide +kernel, by decide +kernel⟩
  let name : InternalName := ⟨Text.Utf8.encode "org/a/B".toList, by decide +kernel, by decide +kernel⟩
  let relocator : Relocator := ⟨[rule], by simp⟩
  have hplain : ∀ r ∈ relocator.rules, ∀ c ∈ r.source.head?, c ∉ "BCDFIJSZVL".toList := by
    intro r hr c hc
    obtain rfl := List.mem_singleton.1 hr
    obtain rfl : 'o' = c := Option.some.inj hc
    decide
  obtain ⟨rename, hrename, hmoved⟩ := moveReferences?_descriptor hplain
  have hname : Text.Utf8.encode "x/a/B".toList = (rename name).bytes := by
    have hcovers : name.bytes = rule.slashForm.source ++ Text.Utf8.encode "/B".toList := by decide +kernel
    refine (hrename name _).1 (.inl ⟨rule, List.mem_singleton_self rule, Text.Utf8.encode "/B".toList,
      ⟨hcovers, by decide +kernel⟩, ?_, by decide +kernel⟩)
    rintro s hs tail -
    rw [List.mem_singleton.1 hs]
  let descriptor : Descriptor := .method [.array (.array (.object name)), .primitive .int] none
  have hbytes : (descriptor.mapNames rename).bytes =
      [0x28, 0x5B, 0x5B, 0x4C] ++ (rename name).bytes ++ [0x3B, 0x49, 0x29, 0x56] := by
    simp [descriptor, Descriptor.bytes, Descriptor.mapNames, FieldType.bytes, FieldType.mapNames, PrimitiveType.code]
  refine ⟨relocator, hplain, (hmoved descriptor).trans ?_⟩
  rw [hbytes, ← hname]
  decide +kernel

end Relocator
end UberJar.Relocation
