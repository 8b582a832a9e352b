import UberJar.Proofs.Relocation.Paths
import UberJar.Proofs.Text.Blank
import UberJar.Proofs.Text.Lines
import UberJar.Proofs.Text.Utf8
import UberJar.Relocation.Services

namespace UberJar.Relocation

open Text

namespace ServiceLine

/-- A line with a provider, cut at the blanks around the name and at the comment. -/
structure IsCut (l : ServiceLine) : Prop where
  leading : ∀ c ∈ l.leading, isBlank c = true
  first : ∃ c rest, l.provider = c :: rest ∧ isBlank c = false
  last : ∃ front c, l.provider = front ++ [c] ∧ isBlank c = false
  provider : '#' ∉ l.provider
  trailing : ∀ c ∈ l.trailing, isBlank c = true
  comment : l.comment = [] ∨ ∃ rest, l.comment = '#' :: rest

theorem not_blank_of_mem {blanks : List Char} (hblanks : ∀ c ∈ blanks, isBlank c = true) : '#' ∉ blanks :=
  fun hmem => absurd (hblanks '#' hmem) (by decide)

/-- A line has no provider, or it is made up of the parts of a cut. -/
theorem exists_isCut (line : List Char) : (ofLine line).provider = [] ∨ ∃ l, IsCut l ∧ l.render = line := by
  by_cases hne : (ofLine line).provider = []
  · exact .inl hne
  have hne' : dropEndWhile isBlank (trimStart (before '#' line)) ≠ [] := hne
  obtain ⟨back, hback, hblank, hlast⟩ := dropEndWhile_spec isBlank (trimStart (before '#' line))
  generalize hprovider : dropEndWhile isBlank (trimStart (before '#' line)) = provider at hne' hback hlast
  have hcontent : (before '#' line).takeWhile isBlank ++ trimStart (before '#' line) = before '#' line :=
    List.takeWhile_append_dropWhile
  have hline : before '#' line ++ line.dropWhile (· != '#') = line := List.takeWhile_append_dropWhile
  have hno : '#' ∉ before '#' line := by
    intro hmem
    exact absurd (List.all_eq_true.1 List.all_takeWhile '#' hmem) (by decide)
  refine .inr ⟨⟨(before '#' line).takeWhile isBlank, provider, back, line.dropWhile (· != '#')⟩, ?_, ?_⟩
  · refine ⟨fun c hc => List.all_eq_true.1 List.all_takeWhile c hc, ?_, hlast.resolve_left hne', ?_, hblank, ?_⟩
    · rcases dropWhile_eq_nil_or_cons isBlank (before '#' line) with hnil | ⟨c, rest, hcons, hc⟩
      · rw [trimStart, hnil] at hback
        exact absurd (List.append_eq_nil_iff.1 hback.symm).1 hne'
      · rw [trimStart, hcons] at hback
        cases provider with
        | nil => exact absurd rfl hne'
        | cons d provider =>
          obtain ⟨rfl, -⟩ := List.cons.inj hback
          exact ⟨c, provider, rfl, hc⟩
    · intro hmem
      rw [← hcontent, hback] at hno
      exact hno (by simp [hmem])
    · rcases dropWhile_eq_nil_or_cons (· != '#') line with hnil | ⟨c, rest, hcons, hc⟩
      · exact .inl hnil
      · obtain rfl : c = '#' := by simpa using hc
        exact .inr ⟨rest, hcons⟩
  · rw [render, List.append_assoc _ provider, ← hback, hcontent, hline]

/-- The parts of a cut are found again in their line. -/
theorem ofLine_render {l : ServiceLine} (hcut : IsCut l) : ofLine l.render = l := by
  obtain ⟨leading, provider, trailing, comment⟩ := l
  obtain ⟨hleading, ⟨c, rest, hfirst, hc⟩, ⟨front, d, hlast, hd⟩, hprovider, htrailing, hcomment⟩ := hcut
  simp only at hleading hfirst hlast hprovider htrailing hcomment
  have hcontent : before '#' (leading ++ provider ++ trailing ++ comment) = leading ++ provider ++ trailing := by
    have hkept : ∀ e ∈ leading ++ provider ++ trailing, (e != '#') = true := by
      intro e he
      rw [bne_iff_ne]
      rintro rfl
      simp only [List.mem_append] at he
      rcases he with (he | he) | he
      · exact not_blank_of_mem hleading he
      · exact hprovider he
      · exact not_blank_of_mem htrailing he
    rcases hcomment with rfl | ⟨text, rfl⟩
    · rw [List.append_nil, before, ← List.append_nil (leading ++ provider ++ trailing),
        List.takeWhile_append_of_pos hkept, List.takeWhile_nil]
    · exact (takeWhile_append_cons (p := (· != '#')) hkept (by simp)).1
  have hleft : leading ++ provider ++ trailing = leading ++ c :: (rest ++ trailing) := by simp [hfirst]
  have hbody : trimStart (leading ++ provider ++ trailing) = provider ++ trailing := by
    rw [hleft, trimStart, (takeWhile_append_cons hleading hc).2, hfirst, List.cons_append]
  have hname : dropEndWhile isBlank (provider ++ trailing) = provider := by
    rw [hlast, dropEndWhile_append hd htrailing]
  have hblanks : (leading ++ provider ++ trailing).takeWhile isBlank = leading := by
    rw [hleft, (takeWhile_append_cons hleading hc).1]
  simp only [ofLine, render, hcontent, hbody, hname, hblanks, List.drop_left]

theorem isCut_ofLine {line : List Char} (hne : (ofLine line).provider ≠ []) :
    (ofLine line).IsCut ∧ (ofLine line).render = line := by
  obtain ⟨l, hcut, rfl⟩ := (exists_isCut line).resolve_left hne
  rw [ofLine_render hcut]
  exact ⟨hcut, rfl⟩

end ServiceLine

theorem isBlank_of_isSegmentChar {c : Char} (hc : isSegmentChar c = true) : isBlank c = false := by
  have hall : ∀ n < 128, isSegmentChar (Char.ofNat n) = true → isBlank (Char.ofNat n) = false := by decide +kernel
  exact forall_ascii (P := fun c => isSegmentChar c = true → isBlank c = false) hall (toNat_lt_of_isSegmentChar hc) hc

/-- A package has no blanks. -/
theorem isBlank_of_mem_package {package : List Char} (hpackage : isPackage package = true) :
    ∀ c ∈ package, isBlank c = false ∧ c ≠ '#' := by
  intro c hc
  rcases isSegmentChar_or_dot hpackage c hc with hsegment | rfl
  · refine ⟨isBlank_of_isSegmentChar hsegment, ?_⟩
    rintro rfl
    exact absurd hsegment (by decide)
  · decide

namespace Relocator

variable {relocator : Relocator}

/-- The cut of a line stays one when its provider moves. -/
theorem isCut_moved {l : ServiceLine} (hcut : l.IsCut) {provider : List Char}
    (hmove : relocator.moveName? l.provider = some provider) : ServiceLine.IsCut { l with provider } := by
  obtain ⟨r, -, tail, -, hsource, rfl⟩ := moveName?_eq_some hmove
  obtain ⟨c, rest, hcons, hc, -⟩ := isPackage_cons r.destination_valid
  have hdestination := isBlank_of_mem_package r.destination_valid
  have htail : '#' ∉ tail := fun hmem => hcut.provider (hsource ▸ List.mem_append_right _ hmem)
  refine ⟨hcut.leading, ⟨c, rest ++ tail, by simp [hcons], isBlank_of_isSegmentChar hc⟩, ?_, ?_, hcut.trailing,
    hcut.comment⟩
  · obtain ⟨front, d, hlast, hd⟩ := hcut.last
    rcases List.eq_nil_or_concat' tail with rfl | ⟨tail, e, rfl⟩
    · obtain ⟨front, d, hfront⟩ := (List.eq_nil_or_concat' r.destination).resolve_left (by simp [hcons])
      exact ⟨front, d, by simp [hfront], (hdestination d (by simp [hfront])).1⟩
    · rw [hlast, ← List.append_assoc] at hsource
      obtain ⟨-, he⟩ := List.append_inj' hsource rfl
      obtain rfl := (List.cons.inj he).1
      exact ⟨r.destination ++ tail, d, by simp, hd⟩
  · rw [List.mem_append, not_or]
    exact ⟨fun hmem => (hdestination '#' hmem).2 rfl, htail⟩

theorem moveProvider?_eq_some {line line' : List Char} (hmove : relocator.moveProvider? line = some line') :
    (ServiceLine.ofLine line).provider ≠ [] ∧ ∃ provider,
      relocator.moveName? (ServiceLine.ofLine line).provider = some provider ∧
      line' = { ServiceLine.ofLine line with provider }.render := by
  simp only [moveProvider?, List.isEmpty_iff, Option.ite_none_left_eq_some, Option.map_eq_some_iff] at hmove
  obtain ⟨hne, provider, hprovider, rfl⟩ := hmove
  exact ⟨hne, provider, hprovider, rfl⟩

/-- A line that was moved does not move again. -/
theorem moveProvider?_moved (hseparate : relocator.isSeparate = true) {line line' : List Char}
    (hmove : relocator.moveProvider? line = some line') : relocator.moveProvider? line' = none := by
  obtain ⟨hne, provider, hprovider, rfl⟩ := moveProvider?_eq_some hmove
  have hcut := isCut_moved (ServiceLine.isCut_ofLine hne).1 hprovider
  rw [moveProvider?, ServiceLine.ofLine_render hcut, moveName?_moved hseparate hprovider]
  simp

theorem sameEnd_moved (relocator : Relocator) (line : List Char) :
    SameEnd line ((relocator.moveProvider? line).getD line) := by
  cases hmove : relocator.moveProvider? line with
  | none => exact SameEnd.refl line
  | some line' =>
    obtain ⟨hne, provider, hprovider, rfl⟩ := moveProvider?_eq_some hmove
    obtain ⟨r, -, tail, -, hsource, rfl⟩ := moveName?_eq_some hprovider
    have hfeed {package : List Char} (hpackage : isPackage package = true) : '\n' ∉ package :=
      fun hmem => absurd (isBlank_of_mem_package hpackage '\n' hmem).1 (by decide)
    have hnonempty {package : List Char} (hpackage : isPackage package = true) : package ≠ [] := by
      obtain ⟨c, rest, rfl, -⟩ := isPackage_cons hpackage
      simp
    have hline := (ServiceLine.isCut_ofLine hne).2
    have hreplace (front back : List Char) : SameEnd (front ++ r.source ++ back) (front ++ r.destination ++ back) :=
      SameEnd.replace (hfeed r.source_valid) (hfeed r.destination_valid) (hnonempty r.source_valid)
        (hnonempty r.destination_valid)
    replace hreplace := hreplace (ServiceLine.ofLine line).leading
      (tail ++ (ServiceLine.ofLine line).trailing ++ (ServiceLine.ofLine line).comment)
    rw [ServiceLine.render, hsource] at hline
    simp only [List.append_assoc] at hline hreplace
    rw [hline] at hreplace
    simpa [ServiceLine.render] using hreplace

theorem moveProviders?_eq_none_iff {text : List Char} :
    relocator.moveProviders? text = none ↔ ∀ line ∈ linesWithEnds text, relocator.moveProvider? line = none := by
  simp [moveProviders?]

theorem moveProviders?_eq_some {text text' : List Char} (hmove : relocator.moveProviders? text = some text') :
    text' = ((linesWithEnds text).map fun line => (relocator.moveProvider? line).getD line).flatten := by
  simp only [moveProviders?, Option.ite_none_right_eq_some, Option.some.injEq] at hmove
  obtain ⟨-, rfl⟩ := hmove
  induction linesWithEnds text with
  | nil => rfl
  | cons line lines ih =>
    rw [List.map_cons, List.map_cons, List.zip_cons_cons, List.flatMap_cons, List.flatten_cons, ih]

/-- The providers of a service file do not move twice. -/
theorem moveProviders?_moved (hseparate : relocator.isSeparate = true) {text text' : List Char}
    (hmove : relocator.moveProviders? text = some text') : relocator.moveProviders? text' = none := by
  rw [moveProviders?_eq_some hmove, moveProviders?_eq_none_iff,
    linesWithEnds_flatten ((areLines_linesWithEnds text).1.map relocator.sameEnd_moved)]
  intro line hline
  obtain ⟨line₀, -, rfl⟩ := List.mem_map.1 hline
  cases hmoved : relocator.moveProvider? line₀ with
  | none => exact hmoved
  | some line' => exact moveProvider?_moved hseparate hmoved

theorem moveInServiceFile?_eq_some {data data' : Bytes} (hmove : relocator.moveInServiceFile? data = some data') :
    ∃ text text', Utf8.decode? data = some text ∧ relocator.moveProviders? text = some text' ∧
      data' = Utf8.encode text' := by
  cases htext : Utf8.decode? data with
  | none => simp [moveInServiceFile?, htext] at hmove
  | some text =>
    simp only [moveInServiceFile?, htext, Option.map_eq_some_iff] at hmove
    obtain ⟨text', hmove, rfl⟩ := hmove
    exact ⟨text, text', rfl, hmove, rfl⟩

theorem moveInServiceFile?_moved (hseparate : relocator.isSeparate = true) {data data' : Bytes}
    (hmove : relocator.moveInServiceFile? data = some data') : relocator.moveInServiceFile? data' = none := by
  obtain ⟨text, text', -, hproviders, rfl⟩ := moveInServiceFile?_eq_some hmove
  simp [moveInServiceFile?, Utf8.decode?_encode, moveProviders?_moved hseparate hproviders]

end Relocator
end UberJar.Relocation
