import UberJar.Proofs.Relocation.Boundary
import UberJar.Proofs.Relocation.Rule
import UberJar.Proofs.Relocation.Scan
import UberJar.Proofs.Text.Utf8

namespace UberJar.Relocation

namespace Reference

/-- A form occurs as a reference at a position, with the bytes around it as they are. -/
structure OccursAt (bytes : Bytes) (i : Nat) (form : Form) : Prop where
  source : form.source <+: bytes.drop i
  starts : MayStart form.separator (bytes.take i)
  ends : MayEnd form.separator (bytes.drop (i + form.source.length))

theorem matchesForm_iff {bytes : Bytes} {i : Nat} {form : Form} :
    matchesForm (bytes.take i).reverse (bytes.drop i) form = true ↔ OccursAt bytes i form := by
  simp only [matchesForm, Bool.and_eq_true, List.isPrefixOf_iff_prefix, startsAfter_reverse_iff, endsBefore_iff,
    List.drop_drop]
  constructor
  · rintro ⟨⟨hsource, hstarts⟩, hends⟩
    exact ⟨hsource, hstarts, hends⟩
  · exact fun h => ⟨⟨h.source, h.starts⟩, h.ends⟩

/-- The form that a piece is a reference in, if it is one. -/
def Piece.form? : Piece → Option Form
  | kept _ => none
  | moved form => some form

/-- A scan gives the pieces of its input, each of which is what the search finds at its place. -/
theorem scans_iff {forms : List Form} {before bytes : Bytes} {pieces : List Piece} :
    Scans forms before bytes pieces ↔
      pieces.flatMap Piece.input = bytes ∧
        ∀ front piece back, pieces = front ++ piece :: back →
          matching? forms ((front.flatMap Piece.input).reverse ++ before) ((piece :: back).flatMap Piece.input) =
            piece.form? := by
  constructor
  · intro hscans
    refine ⟨hscans.input_eq, ?_⟩
    induction hscans with
    | done => simp
    | @kept before b rest pieces hmatch tail ih =>
      intro front piece back hsplit
      cases front with
      | nil =>
        obtain ⟨rfl, rfl⟩ := List.cons.inj hsplit
        rw [List.flatMap_cons, tail.input_eq]
        exact hmatch
      | cons first front =>
        obtain ⟨rfl, hrest⟩ := List.cons.inj hsplit
        simpa [Piece.input] using ih front piece back hrest
    | @moved before rest form pieces hmatch tail ih =>
      intro front piece back hsplit
      cases front with
      | nil =>
        obtain ⟨rfl, rfl⟩ := List.cons.inj hsplit
        rw [List.flatMap_cons, tail.input_eq]
        exact hmatch
      | cons first front =>
        obtain ⟨rfl, hrest⟩ := List.cons.inj hsplit
        simpa [Piece.input] using ih front piece back hrest
  · rintro ⟨rfl, hpieces⟩
    induction pieces generalizing before with
    | nil => exact .done before
    | cons piece pieces ih =>
      have hfirst := hpieces [] piece pieces rfl
      have hrest := @ih (piece.input.reverse ++ before) fun front other back hsplit => by
        simpa using hpieces (piece :: front) other back (by rw [hsplit, List.cons_append])
      cases piece with
      | kept b => exact .kept hfirst hrest
      | moved form => exact .moved hfirst hrest

theorem Scans.unique {forms : List Form} (hforms : ∀ form ∈ forms, form.source ≠ []) {before bytes : Bytes}
    {pieces pieces' : List Piece} (hscans : Scans forms before bytes pieces)
    (hscans' : Scans forms before bytes pieces') : pieces = pieces' := by
  induction hscans generalizing pieces' with
  | done before =>
    generalize hempty : ([] : Bytes) = bytes at hscans'
    cases hscans' with
    | done => rfl
    | kept hmatch tail => cases hempty
    | moved hmatch tail => exact absurd (List.append_eq_nil_iff.1 hempty.symm).1 (hforms _ (mem_of_matching? hmatch))
  | kept hmatch tail ih =>
    generalize hbytes : _ :: _ = bytes at hscans'
    cases hscans' with
    | done => cases hbytes
    | kept hmatch' tail' =>
      obtain ⟨rfl, rfl⟩ := List.cons.inj hbytes
      rw [ih tail']
    | moved hmatch' tail' =>
      rw [← hbytes, hmatch] at hmatch'
      cases hmatch'
  | moved hmatch tail ih =>
    have hne := hforms _ (mem_of_matching? hmatch)
    obtain ⟨rest, more, hsplit, rfl, htail⟩ := hscans'.cons_of_matching? (by simp [hne]) hmatch
    obtain rfl := List.append_cancel_left hsplit
    rw [ih htail]

/-- The first byte of a source begins a character. -/
theorem encode_segment_cons {c : Char} (hc : isSegmentChar c = true) (cs : List Char) :
    ∃ lead, Text.Utf8.encode (c :: cs) = lead :: Text.Utf8.encode cs ∧ Text.Utf8.isContinuation lead = false := by
  have hascii := toNat_lt_of_isSegmentChar hc
  refine ⟨Text.asciiByte c, ?_, Text.forall_ascii (P := fun c => Text.Utf8.isContinuation (Text.asciiByte c) = false)
    (by decide) hascii⟩
  rw [Text.Utf8.encode, List.flatMap_cons, Text.Utf8.utf8EncodeChar_of_ascii hascii, List.singleton_append,
    Text.Utf8.encode]

/-- A scan replaces whole characters: a reference begins with a byte that begins a character, and is the form of a
    text. -/
theorem Scans.exists_encode {forms : List Form} (hsource : ∀ form ∈ forms, ∃ c cs, isSegmentChar c = true ∧
      form.source = Text.Utf8.encode (c :: cs))
    (hdestination : ∀ form ∈ forms, ∃ cs, form.destination = Text.Utf8.encode cs)
    {before bytes : Bytes} {pieces : List Piece} (hscans : Scans forms before bytes pieces) {tail : Bytes}
    {text : List Char} (htail : ∀ b ∈ tail, Text.Utf8.isContinuation b = true)
    (hbytes : bytes = tail ++ Text.Utf8.encode text) :
    ∃ written, pieces.flatMap Piece.output = tail ++ Text.Utf8.encode written := by
  -- `tail` is what is left of a character of which the first byte was read before.
  induction hscans generalizing tail text with
  | done before =>
    obtain ⟨rfl, -⟩ := List.append_eq_nil_iff.1 hbytes.symm
    exact ⟨[], rfl⟩
  | @kept before b rest pieces hmatch _ ih =>
    cases tail with
    | cons c tail =>
      obtain ⟨rfl, hrest⟩ := List.cons.inj hbytes
      obtain ⟨written, hwritten⟩ := ih (fun d hd => htail d (List.mem_cons_of_mem _ hd)) hrest
      exact ⟨written, by rw [List.flatMap_cons, hwritten, Piece.output, List.singleton_append, List.cons_append]⟩
    | nil =>
      cases text with
      | nil => cases hbytes
      | cons c cs =>
        obtain ⟨lead, more, hencode, hmore⟩ := Text.Utf8.exists_encode_cons c
        rw [List.nil_append, hencode, List.cons.injEq] at hbytes
        obtain ⟨rfl, hrest⟩ := hbytes
        obtain ⟨written, hwritten⟩ := ih hmore hrest
        exact ⟨c :: written, by rw [List.flatMap_cons, hwritten, hencode, Piece.output, List.singleton_append,
          List.nil_append]⟩
  | @moved before rest form pieces hmatch _ ih =>
    have hmem := mem_of_matching? hmatch
    obtain ⟨c, cs, hc, hform⟩ := hsource form hmem
    obtain ⟨moved, hmoved⟩ := hdestination form hmem
    cases tail with
    | cons d tail =>
      obtain ⟨lead, hencode, hlead⟩ := encode_segment_cons hc cs
      rw [hform, hencode, List.cons_append, List.cons_append, List.cons.injEq] at hbytes
      rw [hbytes.1, htail d List.mem_cons_self] at hlead
      cases hlead
    | nil =>
      rw [hform, List.nil_append] at hbytes
      obtain ⟨back, -, hrest⟩ := Text.Utf8.exists_of_encode_eq_append hbytes.symm
      obtain ⟨written, hwritten⟩ := ih (List.forall_mem_nil _) hrest
      exact ⟨moved ++ written, by
        rw [List.flatMap_cons, hwritten, Piece.output, hmoved, Text.Utf8.encode_append, List.nil_append,
          List.nil_append]⟩

end Reference

open Reference

namespace Relocator

/-- The form that moves at a position: of the first rule of which a form occurs there, the slash form if that one
    does. -/
def MovesAt (relocator : Relocator) (bytes : Bytes) (i : Nat) (form : Form) : Prop :=
  ∃ earlier r later, relocator.rules = earlier ++ r :: later ∧
    (∀ s ∈ earlier, ¬OccursAt bytes i s.slashForm ∧ ¬OccursAt bytes i s.dotForm) ∧
    (form = r.slashForm ∧ OccursAt bytes i r.slashForm ∨
      form = r.dotForm ∧ ¬OccursAt bytes i r.slashForm ∧ OccursAt bytes i r.dotForm)

/-- Pieces that make up a byte string: a reference where one moves, and elsewhere the bytes as they are. -/
structure Decomposes (relocator : Relocator) (bytes : Bytes) (pieces : List Piece) : Prop where
  input : pieces.flatMap Piece.input = bytes
  moved : ∀ front form back, pieces = front ++ .moved form :: back →
    relocator.MovesAt bytes (front.flatMap Piece.input).length form
  kept : ∀ front b back, pieces = front ++ .kept b :: back →
    ∀ form, ¬relocator.MovesAt bytes (front.flatMap Piece.input).length form

variable {relocator : Relocator} {bytes : Bytes} {pieces : List Piece}

theorem matching?_eq_some_iff {i : Nat} {form : Form} :
    matching? relocator.forms (bytes.take i).reverse (bytes.drop i) = some form ↔ relocator.MovesAt bytes i form := by
  have hrule (r : Rule) (form : Form) : r.forms.find? (matchesForm (bytes.take i).reverse (bytes.drop i)) = some form ↔
      form = r.slashForm ∧ OccursAt bytes i r.slashForm ∨
        form = r.dotForm ∧ ¬OccursAt bytes i r.slashForm ∧ OccursAt bytes i r.dotForm := by
    rw [Rule.forms_eq, List.find?_cons, List.find?_cons, List.find?_nil, ← matchesForm_iff, ← matchesForm_iff]
    cases matchesForm (bytes.take i).reverse (bytes.drop i) r.slashForm with
    | true => simp [@eq_comm _ form]
    | false => cases matchesForm (bytes.take i).reverse (bytes.drop i) r.dotForm <;> simp [@eq_comm _ form]
  have hnone (r : Rule) : r.forms.find? (matchesForm (bytes.take i).reverse (bytes.drop i)) = none ↔
      ¬OccursAt bytes i r.slashForm ∧ ¬OccursAt bytes i r.dotForm := by
    rw [List.find?_eq_none, Rule.forms_eq]
    simp [← matchesForm_iff]
  rw [matching?, forms, List.find?_flatMap, List.findSome?_eq_some_iff]
  simp only [hrule, hnone, MovesAt]
  constructor
  · rintro ⟨earlier, r, later, hrules, hform, hearlier⟩
    exact ⟨earlier, r, later, hrules, hearlier, hform⟩
  · rintro ⟨earlier, r, later, hrules, hearlier, hform⟩
    exact ⟨earlier, r, later, hrules, hform, hearlier⟩

theorem decomposes_iff_scans : relocator.Decomposes bytes pieces ↔ Scans relocator.forms [] bytes pieces := by
  have hplace (front : List Piece) (piece : Piece) (back : List Piece)
      (hbytes : (front ++ piece :: back).flatMap Piece.input = bytes) (form : Form) :
      matching? relocator.forms ((front.flatMap Piece.input).reverse ++ []) ((piece :: back).flatMap Piece.input) =
        some form ↔ relocator.MovesAt bytes (front.flatMap Piece.input).length form := by
    rw [← matching?_eq_some_iff, ← hbytes, List.flatMap_append, List.take_left, List.drop_left, List.append_nil]
  rw [scans_iff]
  constructor
  · intro h
    refine ⟨h.input, fun front piece back hsplit => ?_⟩
    cases piece with
    | kept b =>
      refine Option.eq_none_iff_forall_not_mem.2 fun form hform => ?_
      exact h.kept front b back hsplit form ((hplace front _ back (hsplit ▸ h.input) form).1 hform)
    | moved form => exact (hplace front _ back (hsplit ▸ h.input) form).2 (h.moved front form back hsplit)
  · rintro ⟨hinput, hpieces⟩
    refine ⟨hinput, fun front form back hsplit => ?_, fun front b back hsplit form hmoves => ?_⟩
    · exact (hplace front _ back (hsplit ▸ hinput) form).1 (hpieces front _ back hsplit)
    · have hsome := (hplace front _ back (hsplit ▸ hinput) form).2 hmoves
      rw [hpieces front _ back hsplit] at hsome
      cases hsome

theorem exists_encode_of_mem_forms {form : Form} (hform : form ∈ relocator.forms) :
    (∃ c cs, isSegmentChar c = true ∧ form.source = Text.Utf8.encode (c :: cs)) ∧
      ∃ cs, form.destination = Text.Utf8.encode cs := by
  obtain ⟨r, -, hmem⟩ := List.mem_flatMap.1 hform
  rw [Rule.forms_eq, List.mem_pair] at hmem
  rcases hmem with rfl | rfl
  · obtain ⟨c, cs, hsource, hc⟩ := r.sourcePath_cons
    exact ⟨⟨c, cs, hc, congrArg Text.Utf8.encode hsource⟩, _, rfl⟩
  · obtain ⟨c, cs, hsource, hc, -⟩ := isPackage_cons r.source_valid
    exact ⟨⟨c, cs, hc, congrArg Text.Utf8.encode hsource⟩, _, rfl⟩

theorem decomposes_pieces (relocator : Relocator) (bytes : Bytes) :
    relocator.Decomposes bytes (Reference.pieces relocator.forms bytes) :=
  decomposes_iff_scans.2 (scans_pieces relocator.source_ne_nil bytes)

theorem Decomposes.eq_pieces (h : relocator.Decomposes bytes pieces) :
    pieces = Reference.pieces relocator.forms bytes :=
  (decomposes_iff_scans.1 h).unique relocator.source_ne_nil (scans_pieces relocator.source_ne_nil bytes)

/-- A text stays a text, whatever moves in it. -/
theorem Decomposes.exists_encode {text : List Char} (h : relocator.Decomposes (Text.Utf8.encode text) pieces) :
    ∃ written, pieces.flatMap Piece.output = Text.Utf8.encode written := by
  have hsource (form : Form) (hform : form ∈ relocator.forms) := (exists_encode_of_mem_forms hform).1
  have hdestination (form : Form) (hform : form ∈ relocator.forms) := (exists_encode_of_mem_forms hform).2
  exact (decomposes_iff_scans.1 h).exists_encode hsource hdestination (List.forall_mem_nil _) rfl

/-- What moves at a position is the slash form or the dotted form of a rule. -/
theorem Decomposes.form_eq (h : relocator.Decomposes bytes pieces) {form : Form} (hform : .moved form ∈ pieces) :
    ∃ r ∈ relocator.rules,
      form = ⟨Text.Utf8.encode r.sourcePath, Text.Utf8.encode r.destinationPath, 0x2F⟩ ∨
        form = ⟨Text.Utf8.encode r.source, Text.Utf8.encode r.destination, 0x2E⟩ := by
  obtain ⟨front, back, hsplit⟩ := List.append_of_mem hform
  obtain ⟨earlier, r, later, hrules, -, hr⟩ := h.moved front form back hsplit
  have hmem : r ∈ relocator.rules := hrules ▸ List.mem_append_right _ List.mem_cons_self
  rcases hr with ⟨rfl, -⟩ | ⟨rfl, -⟩
  · exact ⟨r, hmem, .inl rfl⟩
  · exact ⟨r, hmem, .inr rfl⟩

/-- There is one way to take a byte string apart at the references that move. Nothing is written if there are none.
    Else every other byte is written as it is, and every reference as the destination of its rule, with slashes if it
    has slashes, with dots if it has dots. A text stays a text. -/
theorem moveReferences?_decomposes (relocator : Relocator) (bytes : Bytes) :
    (∃! pieces, relocator.Decomposes bytes pieces) ∧ ∀ pieces, relocator.Decomposes bytes pieces →
      (∀ form, .moved form ∈ pieces → ∃ r ∈ relocator.rules,
        form = ⟨Text.Utf8.encode r.sourcePath, Text.Utf8.encode r.destinationPath, 0x2F⟩ ∨
          form = ⟨Text.Utf8.encode r.source, Text.Utf8.encode r.destination, 0x2E⟩) ∧
      (relocator.moveReferences? bytes = none ↔ ∀ form, .moved form ∉ pieces) ∧
        ∀ moved, relocator.moveReferences? bytes = some moved →
          (moved = pieces.flatMap fun
            | .kept b => [b]
            | .moved form => form.destination) ∧
            ∀ text, bytes = Text.Utf8.encode text → ∃ written, moved = Text.Utf8.encode written := by
  refine ⟨⟨_, relocator.decomposes_pieces bytes, fun other hother => hother.eq_pieces⟩, ?_⟩
  intro pieces hpieces
  refine ⟨fun form hform => hpieces.form_eq hform, ?_⟩
  obtain rfl := hpieces.eq_pieces
  have hmoves : (Reference.pieces relocator.forms bytes).any Piece.isMoved = true ↔
      ∃ form, .moved form ∈ Reference.pieces relocator.forms bytes := by
    rw [List.any_eq_true]
    constructor
    · rintro ⟨piece, hmem, hmoved⟩
      cases piece with
      | kept b => cases hmoved
      | moved form => exact ⟨form, hmem⟩
    · rintro ⟨form, hmem⟩
      exact ⟨_, hmem, rfl⟩
  refine ⟨by simp [moveReferences?, hmoves], fun moved hmoved => ?_⟩
  have hwritten := relocator.moveReferences?_getD bytes
  rw [hmoved, Option.getD_some] at hwritten
  refine ⟨hwritten, fun text htext => ?_⟩
  subst htext
  obtain ⟨written, hencode⟩ := hpieces.exists_encode
  exact ⟨written, hwritten.trans hencode⟩

/-- A package in slash form behind the `L` of a descriptor, and in dotted form. What only begins like it stays. -/
theorem moveReferences?_decomposes_of_both_forms :
    ∃ relocator : Relocator, ∃ pieces,
      relocator.Decomposes (Text.Utf8.encode "Lorg/a/B; org.a.C org.ab".toList) pieces ∧
      pieces.filterMap Piece.form? =
        [⟨Text.Utf8.encode "org/a".toList, Text.Utf8.encode "x/y".toList, 0x2F⟩,
          ⟨Text.Utf8.encode "org.a".toList, Text.Utf8.encode "x.y".toList, 0x2E⟩] ∧
      (pieces.flatMap fun
        | .kept b => [b]
        | .moved form => form.destination) = Text.Utf8.encode "Lx/y/B; x.y.C org.ab".toList := by
  let relocator : Relocator := ⟨[⟨"org.a".toList, "x.y".toList, by decide, by decide, by decide⟩], by decide⟩
  obtain ⟨⟨pieces, hpieces, -⟩, hwrites⟩ :=
    moveReferences?_decomposes relocator (Text.Utf8.encode "Lorg/a/B; org.a.C org.ab".toList)
  have hmoved : relocator.moveReferences? (Text.Utf8.encode "Lorg/a/B; org.a.C org.ab".toList) =
      some (Text.Utf8.encode "Lx/y/B; x.y.C org.ab".toList) := by decide +kernel
  refine ⟨relocator, pieces, hpieces, ?_, ((hwrites pieces hpieces).2.2 _ hmoved).1.symm⟩
  rw [hpieces.eq_pieces]
  decide +kernel

end Relocator
end UberJar.Relocation
