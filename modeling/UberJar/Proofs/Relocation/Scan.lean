import UberJar.Proofs.Relocation.Package

namespace UberJar.Relocation

namespace Reference

/-- `Scans forms before bytes pieces`: behind `before`, which is given last byte first, `bytes` is cut into
    `pieces`. -/
inductive Scans (forms : List Form) : Bytes → Bytes → List Piece → Prop
  | done (before : Bytes) : Scans forms before [] []
  | kept {before : Bytes} {b : UInt8} {rest : Bytes} {pieces : List Piece}
      (hmatch : matching? forms before (b :: rest) = none) (tail : Scans forms (b :: before) rest pieces) :
      Scans forms before (b :: rest) (.kept b :: pieces)
  | moved {before rest : Bytes} {form : Form} {pieces : List Piece}
      (hmatch : matching? forms before (form.source ++ rest) = some form)
      (tail : Scans forms (form.source.reverse ++ before) rest pieces) :
      Scans forms before (form.source ++ rest) (.moved form :: pieces)

theorem mem_of_matching? {forms : List Form} {before rest : Bytes} {form : Form}
    (hmatch : matching? forms before rest = some form) : form ∈ forms := List.mem_of_find?_eq_some hmatch

theorem matchesForm_of_matching? {forms : List Form} {before rest : Bytes} {form : Form}
    (hmatch : matching? forms before rest = some form) : matchesForm before rest form = true :=
  List.find?_some hmatch

theorem matchesForm_append_iff {before rest : Bytes} {form : Form} :
    matchesForm before (form.source ++ rest) form = true ↔
      startsAfter form.separator before = true ∧ endsBefore form.separator rest = true := by
  simp [matchesForm]

theorem exists_append_of_matchesForm {before bytes : Bytes} {form : Form}
    (hmatch : matchesForm before bytes form = true) : ∃ rest, bytes = form.source ++ rest := by
  simp only [matchesForm, Bool.and_eq_true, List.isPrefixOf_iff_prefix] at hmatch
  obtain ⟨rest, hrest⟩ := hmatch.1.1
  exact ⟨rest, hrest.symm⟩

theorem startsAfter_of_matchesForm {before bytes : Bytes} {form : Form}
    (hmatch : matchesForm before bytes form = true) :
    startsAfter form.separator before = true := by
  simp only [matchesForm, Bool.and_eq_true] at hmatch
  exact hmatch.1.2

theorem scans_scanOnto {forms : List Form} (hforms : ∀ form ∈ forms, form.source ≠ []) (before bytes : Bytes) :
    ∃ pieces, Scans forms before bytes pieces ∧
      ∀ acc, scanOnto forms acc before bytes = pieces.reverse ++ acc := by
  induction hlength : bytes.length using Nat.strongRecOn generalizing before bytes with
  | ind length ih =>
    cases bytes with
    | nil => exact ⟨[], .done before, fun acc => by simp [scanOnto]⟩
    | cons b rest =>
      cases hmatch : matching? forms before (b :: rest) with
      | none =>
        obtain ⟨pieces, hscans, hscan⟩ := ih rest.length (by simp [← hlength]) (b :: before) rest rfl
        exact ⟨.kept b :: pieces, .kept hmatch hscans, fun acc => by simp [scanOnto, hmatch, hscan]⟩
      | some form =>
        obtain ⟨after, hsplit⟩ := exists_append_of_matchesForm (matchesForm_of_matching? hmatch)
        obtain ⟨first, more, hsource⟩ := List.exists_cons_of_ne_nil (hforms form (mem_of_matching? hmatch))
        have hrest : rest = more ++ after := by
          rw [hsource, List.cons_append, List.cons.injEq] at hsplit
          exact hsplit.2
        have hdrop : rest.drop (form.source.length - 1) = after := by simp [hsource, hrest]
        have hshorter : after.length < length := by
          rw [← hlength, hrest]
          simp only [List.length_cons, List.length_append]
          omega
        obtain ⟨pieces, hscans, hscan⟩ := ih after.length hshorter (form.source.reverse ++ before) after rfl
        refine ⟨.moved form :: pieces, ?_, fun acc => by simp [scanOnto, hmatch, hdrop, hscan]⟩
        rw [hsplit] at hmatch ⊢
        exact .moved hmatch hscans

theorem scans_pieces {forms : List Form} (hforms : ∀ form ∈ forms, form.source ≠ []) (bytes : Bytes) :
    Scans forms [] bytes (pieces forms bytes) := by
  obtain ⟨cut, hscans, hscan⟩ := scans_scanOnto hforms [] bytes
  rwa [pieces, hscan [], List.append_nil, List.reverse_reverse]

namespace Scans

variable {forms : List Form} {before bytes : Bytes} {pieces : List Piece}

theorem input_eq (h : Scans forms before bytes pieces) : pieces.flatMap Piece.input = bytes := by
  induction h with
  | done => rfl
  | kept hmatch tail ih => simp [Piece.input, ih]
  | moved hmatch tail ih => simp [Piece.input, ih]

/-- Nothing moves exactly if no form occurs at any place. -/
theorem all_kept_iff (hforms : ∀ form ∈ forms, form.source ≠ []) (h : Scans forms before bytes pieces) :
    pieces.any Piece.isMoved = false ↔
      ∀ front rest, bytes = front ++ rest → rest ≠ [] → matching? forms (front.reverse ++ before) rest = none := by
  induction h with
  | done before =>
    simp only [List.any_nil, true_iff]
    intro front rest hsplit hne
    exact absurd (List.append_eq_nil_iff.1 hsplit.symm).2 hne
  | @kept before b rest pieces hmatch tail ih =>
    simp only [List.any_cons, Piece.isMoved, Bool.false_or, ih]
    constructor
    · intro hall front after hsplit hne
      cases front with
      | nil => rwa [List.reverse_nil, List.nil_append, ← List.nil_append after, ← hsplit]
      | cons c front =>
        simp only [List.cons_append, List.cons.injEq] at hsplit
        simpa [hsplit.1] using hall front after hsplit.2 hne
    · intro hall front after hsplit hne
      have hlonger := hall (b :: front) after (by simp [hsplit]) hne
      rwa [List.reverse_cons, List.append_assoc, List.singleton_append] at hlonger
  | @moved before rest form pieces hmatch tail ih =>
    simp only [List.any_cons, Piece.isMoved, Bool.true_or, Bool.true_eq_false, false_iff]
    intro hall
    have hne : form.source ++ rest ≠ [] := by simp [hforms form (mem_of_matching? hmatch)]
    have hnone := hall [] (form.source ++ rest) rfl hne
    rw [List.reverse_nil, List.nil_append, hmatch] at hnone
    cases hnone

theorem output_eq_of_kept (h : Scans forms before bytes pieces) (hkept : pieces.any Piece.isMoved = false) :
    pieces.flatMap Piece.output = bytes := by
  induction h with
  | done => rfl
  | kept hmatch tail ih =>
    rw [List.flatMap_cons, ih (by simpa [Piece.isMoved] using hkept)]
    rfl
  | moved hmatch tail ih => simp [Piece.isMoved] at hkept

theorem cons_of_matching? {form : Form} (hne : bytes ≠ []) (hmatch : matching? forms before bytes = some form)
    (h : Scans forms before bytes pieces) :
    ∃ rest tail, bytes = form.source ++ rest ∧ pieces = .moved form :: tail ∧
      Scans forms (form.source.reverse ++ before) rest tail := by
  cases h with
  | done => exact absurd rfl hne
  | kept hnone tail =>
    rw [hmatch] at hnone
    cases hnone
  | moved hsome tail =>
    obtain rfl := Option.some.inj (hmatch.symm.trans hsome)
    exact ⟨_, _, rfl, rfl, tail⟩

end Scans

end Reference

open Reference

theorem Relocator.source_ne_nil (relocator : Relocator) : ∀ form ∈ relocator.forms, form.source ≠ [] := by
  intro form hform
  obtain ⟨r, -, hmem⟩ := List.mem_flatMap.1 hform
  obtain ⟨c, rest, hsource, hc, -⟩ := isPackage_cons r.source_valid
  have hencode (cs : List Char) (hcs : cs ≠ []) : Text.Utf8.encode cs ≠ [] := by
    obtain ⟨d, more, rfl⟩ := List.exists_cons_of_ne_nil hcs
    simp [Text.Utf8.encode, String.utf8EncodeChar_ne_nil]
  rw [Rule.forms_eq, List.mem_cons, List.mem_singleton] at hmem
  rcases hmem with rfl | rfl
  · exact hencode _ (by simp [Rule.sourcePath, hsource, Text.replaceChar])
  · exact hencode _ (by simp [hsource])

/-- The bytes with the references moved in them are what the pieces stand for. -/
theorem Relocator.moveReferences?_getD (relocator : Relocator) (bytes : Bytes) :
    (relocator.moveReferences? bytes).getD bytes = (Reference.pieces relocator.forms bytes).flatMap Piece.output := by
  have hscans := scans_pieces relocator.source_ne_nil bytes
  cases hmoved : (Reference.pieces relocator.forms bytes).any Piece.isMoved with
  | false =>
    rw [moveReferences?, if_neg (by simp [hmoved]), Option.getD_none, hscans.output_eq_of_kept hmoved]
  | true => rw [moveReferences?, if_pos hmoved, Option.getD_some]

/-- No reference moves exactly if no form occurs at any place. -/
theorem Relocator.moveReferences?_eq_none_iff (relocator : Relocator) (bytes : Bytes) :
    relocator.moveReferences? bytes = none ↔
      ∀ front rest, bytes = front ++ rest → rest ≠ [] → matching? relocator.forms front.reverse rest = none := by
  have hkept := (scans_pieces relocator.source_ne_nil bytes).all_kept_iff relocator.source_ne_nil
  simp only [List.append_nil] at hkept
  rw [← hkept]
  simp [moveReferences?]

end UberJar.Relocation
