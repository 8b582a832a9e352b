import Mathlib.Data.List.Basic
import UberJar.Proofs.Relocation.Boundary
import UberJar.Proofs.Relocation.Scan

namespace UberJar.Relocation

namespace Reference

/-- The name of a package: the bytes of names, and a first one that is no slash. -/
structure IsName (name : Bytes) : Prop where
  ne_nil : name ≠ []
  named : ∀ b ∈ name, isNamePart b = true
  head : name.head? ≠ some 0x2F

/-- What stands before the name of an object type: primitive types and an `L`. -/
def IsObjectPrefix (front : Bytes) : Prop :=
  ∃ primitives, front = primitives ++ [0x4C] ∧ ∀ b ∈ primitives, isPrimitive b = true

/-- Inside a name and right behind it, a reference starts only if what is before it reads as an object type. -/
theorem IsName.isObjectPrefix {front back : Bytes} (hname : IsName (front ++ back)) (hne : front ≠ [])
    {separator : UInt8}
    {before : Bytes} (hstarts : startsAfter separator (front.reverse ++ before) = true) : IsObjectPrefix front := by
  have hnamed : ∀ b ∈ front, isNamePart b = true := fun b hb => hname.named b (List.mem_append_left _ hb)
  obtain ⟨-, ⟨rfl, -⟩ | ⟨primitives, hfront, hprimitives, -⟩⟩ := startsAfter_name hne hnamed hstarts
  · exact absurd rfl hname.head
  · exact ⟨primitives, hfront, hprimitives⟩

theorem IsName.isObjectPrefix_of_matching? {forms : List Form} {front back : Bytes} (hname : IsName (front ++ back))
    (hne : front ≠ []) {before rest : Bytes} {form : Form}
    (hmatch : matching? forms (front.reverse ++ before) rest = some form) : IsObjectPrefix front :=
  hname.isObjectPrefix hne (startsAfter_of_matchesForm (matchesForm_of_matching? hmatch))

/-- Forms that find nothing in what is written with them: not inside a destination, not at its start, and not where a
    destination continues what was read before it. -/
structure Inert (forms : List Form) : Prop where
  separator : ∀ f ∈ forms, f.separator = 0x2F ∨ f.separator = 0x2E
  source : ∀ f ∈ forms, IsName f.source
  destination : ∀ f ∈ forms, IsName f.destination
  inside : ∀ f ∈ forms, ∀ g ∈ forms, ∀ front back, f.destination = front ++ back → IsObjectPrefix front →
    ∀ rest, ¬g.source <+: back ++ rest
  continued : ∀ f ∈ forms, ∀ g ∈ forms, ∀ front back, g.source = front ++ back → IsObjectPrefix front →
    ∀ rest, ¬back <+: f.destination ++ rest
  written : ∀ f ∈ forms, ∀ g ∈ forms, ∀ before before' rest pieces, endsBefore f.separator rest = true →
    Scans forms (f.source.reverse ++ before) rest pieces →
    matchesForm before' (f.destination ++ pieces.flatMap Piece.output) g = false

/-- Inside a destination and right behind it, nothing is found. -/
theorem Inert.not_matchesForm_inside {forms : List Form} (hforms : Inert forms) {f g : Form} (hf : f ∈ forms)
    (hg : g ∈ forms) {front back : Bytes} (hdestination : f.destination = front ++ back) (hne : front ≠ [])
    (before rest : Bytes) : matchesForm (front.reverse ++ before) (back ++ rest) g = false := by
  rw [← Bool.not_eq_true]
  intro hoccurs
  simp only [matchesForm, Bool.and_eq_true, List.isPrefixOf_iff_prefix] at hoccurs
  have hname : IsName (front ++ back) := hdestination ▸ hforms.destination f hf
  exact hforms.inside f hf g hg front back hdestination (hname.isObjectPrefix hne hoccurs.1.2) rest hoccurs.1.1

/-- What stands before a byte that is no part of a descriptor's beginning does not matter, if there is something. -/
theorem startsAfter_append_cons {c : UInt8} (hprimitive : isPrimitive c = false) (hobject : c ≠ 0x4C)
    {before before' : Bytes} (hne : before ≠ []) (hne' : before' ≠ []) (kept : Bytes) (separator : UInt8) :
    startsAfter separator (kept ++ c :: before) = startsAfter separator (kept ++ c :: before') := by
  obtain ⟨first, others, rfl⟩ := List.exists_cons_of_ne_nil hne
  obtain ⟨first', others', rfl⟩ := List.exists_cons_of_ne_nil hne'
  cases kept with
  | nil => simp [startsAfter, hobject]
  | cons last earlier =>
    have hdrop : ∃ b rest rest', (earlier ++ c :: first :: others).dropWhile isPrimitive = b :: rest ∧
        (earlier ++ c :: first' :: others').dropWhile isPrimitive = b :: rest' := by
      rw [List.dropWhile_append, List.dropWhile_append]
      cases earlier.dropWhile isPrimitive with
      | nil => exact ⟨c, first :: others, first' :: others', by simp [hprimitive], by simp [hprimitive]⟩
      | cons b rest => exact ⟨b, _, _, rfl, rfl⟩
    obtain ⟨b, rest, rest', hbefore, hbefore'⟩ := hdrop
    have hempty (bytes : Bytes) : (earlier ++ c :: bytes).isEmpty = false := by simp
    simp only [startsAfter, List.cons_append, hbefore, hbefore', hempty]

/-- The output of a scan continues a source only if its input does: no destination continues what was read of it. -/
theorem Scans.isPrefix_of_output {forms : List Form} (hforms : Inert forms) {g : Form} (hg : g ∈ forms)
    {front back rest earlier : Bytes} {pieces : List Piece} (hsource : g.source = front ++ back) (hne : front ≠ [])
    (hscans : Scans forms (front.reverse ++ earlier) rest pieces) (hbegins : back <+: pieces.flatMap Piece.output)
    (hends : endsBefore g.separator ((pieces.flatMap Piece.output).drop back.length) = true) :
    back <+: rest ∧ endsBefore g.separator (rest.drop back.length) = true := by
  have hname : IsName (front ++ back) := hsource ▸ hforms.source g hg
  induction back generalizing front rest pieces with
  | nil =>
    refine ⟨List.nil_prefix, ?_⟩
    cases hscans with
    | done => rfl
    | kept hmatch tail => simpa [endsBefore, Piece.output] using hends
    | @moved _ rest form pieces hmatch tail =>
      have hfront := hname.isObjectPrefix_of_matching? hne hmatch
      exact absurd List.nil_prefix
        (hforms.continued form (mem_of_matching? hmatch) g hg front [] hsource hfront (pieces.flatMap Piece.output))
  | cons b back ih =>
    cases hscans with
    | done => simp at hbegins
    | @kept _ b' rest pieces hmatch tail =>
      simp only [List.flatMap_cons, Piece.output, List.singleton_append, List.cons_prefix_cons, List.length_cons,
        List.drop_succ_cons] at hbegins hends ⊢
      obtain ⟨rfl, hbegins⟩ := hbegins
      have hlonger : g.source = (front ++ [b]) ++ back := by simpa using hsource
      have htail : Scans forms ((front ++ [b]).reverse ++ earlier) rest pieces := by simpa using tail
      obtain ⟨hrest, hboundary⟩ := ih hlonger (by simp) htail hbegins hends (hlonger ▸ hforms.source g hg)
      exact ⟨⟨rfl, hrest⟩, hboundary⟩
    | @moved _ rest form pieces hmatch tail =>
      have hfront := hname.isObjectPrefix_of_matching? hne hmatch
      exact absurd hbegins
        (hforms.continued form (mem_of_matching? hmatch) g hg front (b :: back) hsource hfront
          (pieces.flatMap Piece.output))

/-- How what was read relates to what was written for it: they allow the same references to start behind them, or
    they end with a source and its destination, and the package ends there. -/
def Synced (forms : List Form) (before before' rest : Bytes) : Prop :=
  (∀ kept separator, startsAfter separator (kept ++ before') = startsAfter separator (kept ++ before)) ∨
    ∃ form ∈ forms, ∃ earlier earlier', before = form.source.reverse ++ earlier ∧
      before' = form.destination.reverse ++ earlier' ∧ endsBefore form.separator rest = true

/-- The byte behind a package: a separator, a `$`, or a byte that is in no name. -/
theorem boundary_of_endsBefore {form : Form} (hseparator : form.separator = 0x2F ∨ form.separator = 0x2E) {b : UInt8}
    {rest : Bytes} (hends : endsBefore form.separator (b :: rest) = true) :
    (b = 0x2F ∨ b = 0x2E ∨ b = 0x24) ∨ isNamePart b = false := by
  simp only [endsBefore, Bool.or_eq_true, beq_iff_eq, Bool.not_eq_true'] at hends
  rcases hends with (rfl | rfl) | hname
  · rcases hseparator with hslash | hdot
    · exact .inl (.inl hslash)
    · exact .inl (.inr (.inl hdot))
  · exact .inl (.inr (.inr rfl))
  · exact .inr hname

theorem Synced.kept {forms : List Form} (hforms : Inert forms) {before before' rest : Bytes} {b : UInt8}
    (hsynced : Synced forms before before' (b :: rest)) : Synced forms (b :: before) (b :: before') rest := by
  left
  intro kept separator
  rcases hsynced with hsame | ⟨form, hform, earlier, earlier', rfl, rfl, hends⟩
  · simpa using hsame (kept ++ [b]) separator
  · have hb : isPrimitive b = false ∧ b ≠ 0x4C := by
      rcases boundary_of_endsBefore (hforms.separator form hform) hends with (rfl | rfl | rfl) | hname
      · decide
      · decide
      · decide
      · refine ⟨Bool.eq_false_iff.2 fun hprimitive => ?_, ?_⟩
        · simp [isNamePart_of_isPrimitive hprimitive] at hname
        · rintro rfl
          exact absurd hname (by decide)
    refine startsAfter_append_cons hb.1 hb.2 ?_ ?_ kept separator
    · simp [(hforms.destination form hform).ne_nil]
    · simp [(hforms.source form hform).ne_nil]

/-- No form occurs at a byte that was kept: its name would have been found in the input at the same place. -/
theorem Scans.not_matchesForm_kept {forms : List Form} (hforms : Inert forms) {before before' rest : Bytes} {b : UInt8}
    {pieces : List Piece} (hmatch : matching? forms before (b :: rest) = none)
    (htail : Scans forms (b :: before) rest pieces) (hsynced : Synced forms before before' (b :: rest)) {g : Form}
    (hg : g ∈ forms) : matchesForm before' (b :: pieces.flatMap Piece.output) g = false := by
  rw [← Bool.not_eq_true]
  intro hoccurs
  obtain ⟨after, hafter⟩ := exists_append_of_matchesForm hoccurs
  obtain ⟨c, back, hsource⟩ := List.exists_cons_of_ne_nil (hforms.source g hg).ne_nil
  rw [hafter, matchesForm_append_iff] at hoccurs
  obtain ⟨hstarts, hends⟩ := hoccurs
  rw [hsource, List.cons_append, List.cons.injEq] at hafter
  obtain ⟨rfl, houtput⟩ := hafter
  rcases hsynced with hsame | ⟨form, hform, earlier, earlier', rfl, rfl, -⟩
  · have hbehind : endsBefore g.separator ((pieces.flatMap Piece.output).drop back.length) = true := by
      rw [houtput, List.drop_left]
      exact hends
    obtain ⟨⟨input, rfl⟩, hboundary⟩ :=
      Scans.isPrefix_of_output hforms hg hsource (List.cons_ne_nil b []) htail ⟨after, houtput.symm⟩ hbehind
    have hfound : matchesForm before (b :: (back ++ input)) g = true := by
      rw [← List.cons_append, ← hsource, matchesForm_append_iff]
      refine ⟨?_, by simpa using hboundary⟩
      rw [← hstarts]
      exact (hsame [] g.separator).symm
    exact List.find?_eq_none.1 hmatch g hg hfound
  · have hdestination := hforms.destination form hform
    rw [← List.append_nil form.destination] at hdestination
    have hfront := hdestination.isObjectPrefix (hforms.destination form hform).ne_nil hstarts
    exact hforms.inside form hform g hg _ [] (List.append_nil _).symm hfront g.source List.prefix_rfl

/-- No form occurs in what a scan has written. -/
theorem Scans.not_matchesForm_output {forms : List Form} (hforms : Inert forms) {before before' bytes : Bytes}
    {pieces : List Piece} (hscans : Scans forms before bytes pieces) (hsynced : Synced forms before before' bytes)
    {front tail : Bytes} (hsplit : pieces.flatMap Piece.output = front ++ tail) (hne : tail ≠ []) {g : Form}
    (hg : g ∈ forms) : matchesForm (front.reverse ++ before') tail g = false := by
  induction hscans generalizing before' front with
  | done before => exact absurd (List.append_eq_nil_iff.1 hsplit.symm).2 hne
  | @kept before b rest pieces hmatch htail ih =>
    rw [List.flatMap_cons, Piece.output, List.singleton_append] at hsplit
    cases front with
    | nil =>
      rw [List.reverse_nil, List.nil_append, ← List.nil_append tail, ← hsplit]
      exact htail.not_matchesForm_kept hforms hmatch hsynced hg
    | cons c front =>
      obtain ⟨rfl, hothers⟩ := List.cons.inj hsplit
      have hrest := ih (hsynced.kept hforms) hothers
      simpa using hrest
  | @moved before rest form pieces hmatch htail ih =>
    have hform := mem_of_matching? hmatch
    have hends := (matchesForm_append_iff.1 (matchesForm_of_matching? hmatch)).2
    rw [List.flatMap_cons, Piece.output] at hsplit
    have hbehind {front : Bytes} (hfront : pieces.flatMap Piece.output = front ++ tail) :
        matchesForm ((form.destination ++ front).reverse ++ before') tail g = false := by
      have hrest := ih (.inr ⟨form, hform, before, before', rfl, rfl, hends⟩) hfront
      simpa using hrest
    rcases List.append_eq_append_iff.1 hsplit with ⟨more, rfl, houtput⟩ | ⟨more, hdestination, rfl⟩
    · exact hbehind houtput
    · by_cases hmore : more = []
      · subst hmore
        have hrest := hbehind (List.nil_append ([] ++ pieces.flatMap Piece.output)).symm
        simpa [hdestination] using hrest
      · by_cases hfront : front = []
        · subst hfront
          rw [List.nil_append] at hdestination
          rw [← hdestination]
          exact hforms.written form hform g hg before before' rest pieces hends htail
        · exact hforms.not_matchesForm_inside hform hg hdestination hfront before' _

end Reference

open Reference

/-- Where nothing is found in what is written, references that were moved do not move again. -/
theorem Relocator.moveReferences?_of_inert {relocator : Relocator} (hforms : Inert relocator.forms) (bytes : Bytes) :
    relocator.moveReferences? ((relocator.moveReferences? bytes).getD bytes) = none := by
  rw [moveReferences?_eq_none_iff]
  intro front rest hsplit hne
  rw [moveReferences?_getD] at hsplit
  rw [matching?, List.find?_eq_none]
  intro form hform
  have hscans := scans_pieces relocator.source_ne_nil bytes
  have hno := hscans.not_matchesForm_output hforms (.inl fun _ _ => rfl) hsplit hne hform
  simpa using hno

end UberJar.Relocation
