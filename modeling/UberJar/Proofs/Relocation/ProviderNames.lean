import UberJar.Proofs.Merge.Providers
import UberJar.Proofs.Relocation.ServiceLines

namespace UberJar.Relocation

open Text

/-- The parts of a line: the provider that is read from it, the blanks around that name, and the comment. -/
structure ServiceLine.IsOf (l : ServiceLine) (line : List Char) : Prop where
  render : l.render = line
  provider : l.provider = Services.provider line
  leading : ∀ c ∈ l.leading, isBlank c = true
  trailing : ∀ c ∈ l.trailing, isBlank c = true
  comment : l.comment = [] ∨ ∃ rest, l.comment = '#' :: rest

/-- `line'` is `line` with its provider renamed and all else as it was. -/
def RenamesProvider (rename : List Char → List Char) (line line' : List Char) : Prop :=
  ∃ l : ServiceLine, l.IsOf line ∧ line' = { l with provider := rename l.provider }.render

theorem drop_length_of_eq_append {text front back : List Char} (htext : text = front ++ back) :
    text.drop front.length = back := by
  rw [htext, List.drop_left]

/-- Every line is cut into its parts, whether or not it has a provider. -/
theorem ServiceLine.isOf_ofLine (line : List Char) : (ofLine line).IsOf line := by
  obtain ⟨back, hback, hblank, -⟩ := dropEndWhile_spec isBlank (trimStart (before '#' line))
  have hcontent : (before '#' line).takeWhile isBlank ++ trimStart (before '#' line) = before '#' line :=
    List.takeWhile_append_dropWhile
  have hline : before '#' line ++ line.dropWhile (· != '#') = line := List.takeWhile_append_dropWhile
  have htrailing : (ofLine line).trailing = back := drop_length_of_eq_append hback
  have hcomment : (ofLine line).comment = line.dropWhile (· != '#') := drop_length_of_eq_append hline.symm
  refine ⟨?_, rfl, fun c hc => List.all_eq_true.1 List.all_takeWhile c hc, htrailing ▸ hblank, ?_⟩
  · rw [ServiceLine.render, htrailing, hcomment, List.append_assoc _ (ofLine line).provider]
    change (before '#' line).takeWhile isBlank ++ (dropEndWhile isBlank (trimStart (before '#' line)) ++ back) ++ _ = _
    rw [← hback, hcontent, hline]
  · rcases dropWhile_eq_nil_or_cons (· != '#') line with hnil | ⟨c, rest, hcons, hc⟩
    · exact .inl (hcomment.trans hnil)
    · obtain rfl : c = '#' := by simpa using hc
      exact .inr ⟨rest, hcomment.trans hcons⟩

theorem ServiceLine.IsOf.isCut {l : ServiceLine} {line : List Char} (hparts : l.IsOf line) (hne : l.provider ≠ []) :
    l.IsCut := by
  have hname : l.provider = (ofLine line).provider := hparts.provider
  obtain ⟨hcut, -⟩ := isCut_ofLine (hname ▸ hne)
  exact ⟨hparts.leading, hname ▸ hcut.first, hname ▸ hcut.last, hname ▸ hcut.provider, hparts.trailing, hparts.comment⟩

theorem provider_feed (line : List Char) : Services.provider (line ++ ['\n']) = Services.provider line := by
  by_cases hcomment : '#' ∈ line
  · obtain ⟨front, rest, rfl, hfront⟩ := List.eq_append_cons_of_mem hcomment
    have hkept : ∀ c ∈ front, (c != '#') = true := fun c hc => bne_iff_ne.2 fun heq => hfront (heq ▸ hc)
    have hbefore (rest : List Char) : before '#' (front ++ '#' :: rest) = front :=
      (takeWhile_append_cons (p := (· != '#')) hkept (by simp)).1
    rw [Services.provider, Services.provider, List.append_assoc, List.cons_append, hbefore, hbefore]
  · have hkept {text : List Char} (htext : '#' ∉ text) : before '#' text = text := by
      rw [before, List.takeWhile_eq_self_iff]
      exact fun c hc => bne_iff_ne.2 fun heq => htext (heq ▸ hc)
    have hfeed : '#' ∉ line ++ ['\n'] := by simpa using hcomment
    rw [Services.provider, Services.provider, hkept hcomment, hkept hfeed, trim_append_of_blank (by simp [isBlank])]

/-- The line feed behind a line belongs to its comment, or to the blanks behind its provider. -/
theorem ServiceLine.IsOf.feed {l : ServiceLine} {line : List Char} (hparts : l.IsOf line) :
    ∃ l' : ServiceLine, l'.IsOf (line ++ ['\n']) ∧ l'.provider = l.provider ∧
      ∀ provider, { l' with provider }.render = { l with provider }.render ++ ['\n'] := by
  have hprovider : l.provider = Services.provider (line ++ ['\n']) := hparts.provider.trans (provider_feed line).symm
  rcases hparts.comment with hnone | ⟨rest, hcomment⟩
  · have hrender : ∀ provider, { l with provider, trailing := l.trailing ++ ['\n'] }.render =
        { l with provider }.render ++ ['\n'] := by
      simp [ServiceLine.render, hnone]
    refine ⟨{ l with trailing := l.trailing ++ ['\n'] }, ⟨?_, hprovider, hparts.leading, ?_, .inl hnone⟩, rfl, hrender⟩
    · exact (hrender l.provider).trans (congrArg (· ++ ['\n']) hparts.render)
    · intro c hc
      rcases List.mem_append.1 hc with hc | hc
      · exact hparts.trailing c hc
      · obtain rfl := List.mem_singleton.1 hc
        decide
  · have hrender : ∀ provider, { l with provider, comment := l.comment ++ ['\n'] }.render =
        { l with provider }.render ++ ['\n'] := by
      simp [ServiceLine.render]
    refine ⟨{ l with comment := l.comment ++ ['\n'] },
      ⟨?_, hprovider, hparts.leading, hparts.trailing, .inr ⟨rest ++ ['\n'], ?_⟩⟩, rfl, hrender⟩
    · exact (hrender l.provider).trans (congrArg (· ++ ['\n']) hparts.render)
    · rw [hcomment, List.cons_append]

namespace Relocator

variable {relocator : Relocator}

/-- The name of a provider after relocation. -/
def newName (relocator : Relocator) (name : List Char) : List Char := (relocator.moveName? name).getD name

/-- A line after relocation. -/
def newLine (relocator : Relocator) (line : List Char) : List Char := (relocator.moveProvider? line).getD line

theorem moveName?_nil (relocator : Relocator) : relocator.moveName? [] = none := by
  rw [Option.eq_none_iff_forall_not_mem]
  intro moved hmoved
  obtain ⟨r, -, tail, -, hsource, -⟩ := moveName?_eq_some hmoved
  obtain ⟨c, rest, hcons, -⟩ := isPackage_cons r.source_valid
  simp [hcons] at hsource

theorem newName_eq_nil_iff {name : List Char} : relocator.newName name = [] ↔ name = [] := by
  cases hmove : relocator.moveName? name with
  | none => simp [newName, hmove]
  | some moved =>
    obtain ⟨r, -, tail, -, hsource, rfl⟩ := moveName?_eq_some hmove
    obtain ⟨c, rest, hcons, -⟩ := isPackage_cons r.source_valid
    obtain ⟨d, rest', hcons', -⟩ := isPackage_cons r.destination_valid
    rw [newName, hmove, hsource, hcons, hcons']
    simp

theorem moveProvider?_eq_none_iff {line : List Char} :
    relocator.moveProvider? line = none ↔ relocator.moveName? (Services.provider line) = none := by
  have hname : (ServiceLine.ofLine line).provider = Services.provider line := rfl
  rw [moveProvider?, hname]
  cases Services.provider line with
  | nil => simp [moveName?_nil]
  | cons c rest => simp

/-- However a line is cut into its parts, it is relocated by moving the name among them. -/
theorem newLine_of_isOf {l : ServiceLine} {line : List Char} (hparts : l.IsOf line) :
    relocator.newLine line = { l with provider := relocator.newName l.provider }.render := by
  cases hmove : relocator.moveProvider? line with
  | none =>
    have hstays : relocator.moveName? l.provider = none := hparts.provider ▸ moveProvider?_eq_none_iff.1 hmove
    rw [newLine, hmove, newName, hstays]
    exact hparts.render.symm
  | some line' =>
    obtain ⟨hne, provider, hprovider, rfl⟩ := moveProvider?_eq_some hmove
    have hname : l.provider = (ServiceLine.ofLine line).provider := hparts.provider
    have hsame := ServiceLine.ofLine_render (hparts.isCut (hname ▸ hne))
    rw [hparts.render] at hsame
    rw [newLine, hmove, newName, ← hsame] at *
    simp [hprovider]

theorem renames_newLine (relocator : Relocator) (line : List Char) :
    RenamesProvider relocator.newName line (relocator.newLine line) :=
  ⟨_, ServiceLine.isOf_ofLine line, newLine_of_isOf (ServiceLine.isOf_ofLine line)⟩

theorem newLine_feed (relocator : Relocator) (line : List Char) :
    relocator.newLine (line ++ ['\n']) = relocator.newLine line ++ ['\n'] := by
  obtain ⟨l, hparts, hprovider, hrender⟩ := (ServiceLine.isOf_ofLine line).feed
  rw [newLine_of_isOf hparts, hrender, hprovider, newLine_of_isOf (ServiceLine.isOf_ofLine line)]

theorem newLine_nil (relocator : Relocator) : relocator.newLine [] = [] := by
  have hstays : relocator.moveProvider? [] = none := moveProvider?_eq_none_iff.2 relocator.moveName?_nil
  rw [newLine, hstays, Option.getD_none]

/-- The provider that is read from a line after relocation is that of the line, moved. -/
theorem provider_newLine (relocator : Relocator) (line : List Char) :
    Services.provider (relocator.newLine line) = relocator.newName (Services.provider line) := by
  cases hmove : relocator.moveProvider? line with
  | none => rw [newLine, hmove, newName, moveProvider?_eq_none_iff.1 hmove, Option.getD_none, Option.getD_none]
  | some line' =>
    obtain ⟨hne, provider, hprovider, rfl⟩ := moveProvider?_eq_some hmove
    have hname : relocator.moveName? (Services.provider line) = some provider := hprovider
    have hcut := ServiceLine.ofLine_render (isCut_moved (ServiceLine.isCut_ofLine hne).1 hprovider)
    rw [newLine, hmove, newName, hname]
    exact congrArg ServiceLine.provider hcut

theorem feed_notMem_newLine {line : List Char} (hline : '\n' ∉ line) : '\n' ∉ relocator.newLine line := by
  cases line with
  | nil => rwa [newLine_nil]
  | cons c rest => exact ((relocator.sameEnd_moved (c :: rest)).last (by simp) hline).2

theorem endLines_cons_cons (line next : List Char) (lines : List (List Char)) :
    endLines (line :: next :: lines) = (line ++ ['\n']) :: endLines (next :: lines) := rfl

/-- A text is relocated line by line, whether its lines are taken with their line feeds or without. -/
theorem flatten_newLine_endLines (relocator : Relocator) (lines : List (List Char)) :
    ((endLines lines).map relocator.newLine).flatten = ['\n'].intercalate (lines.map relocator.newLine) := by
  induction lines with
  | nil => rfl
  | cons line lines ih =>
    cases lines with
    | nil => cases line <;> simp [endLines, newLine_nil]
    | cons next lines =>
      rw [endLines_cons_cons, List.map_cons, List.flatten_cons, ih, newLine_feed]
      simp

theorem splitOn_moved {text text' : List Char} (hmove : relocator.moveProviders? text = some text') :
    text'.splitOn '\n' = (text.splitOn '\n').map relocator.newLine := by
  have htext : text' = ['\n'].intercalate ((text.splitOn '\n').map relocator.newLine) :=
    (moveProviders?_eq_some hmove).trans (relocator.flatten_newLine_endLines _)
  rw [htext]
  refine List.splitOn_intercalate '\n' (fun line hline => ?_) (by simp [List.splitOn_ne_nil])
  obtain ⟨old, hold, rfl⟩ := List.mem_map.1 hline
  exact feed_notMem_newLine (notMem_of_mem_splitOn hold)

theorem moveProvider?_feed_eq_none_iff {line : List Char} :
    relocator.moveProvider? (line ++ ['\n']) = none ↔ relocator.moveProvider? line = none := by
  rw [moveProvider?_eq_none_iff, moveProvider?_eq_none_iff, provider_feed]

theorem forall_endLines_stays_iff {lines : List (List Char)} :
    (∀ line ∈ endLines lines, relocator.moveProvider? line = none) ↔
      ∀ line ∈ lines, relocator.moveProvider? line = none := by
  have hnil : relocator.moveProvider? [] = none := moveProvider?_eq_none_iff.2 relocator.moveName?_nil
  induction lines with
  | nil => simp [endLines]
  | cons line lines ih =>
    cases lines with
    | nil => cases line <;> simp [endLines, hnil]
    | cons next lines =>
      rw [endLines_cons_cons, List.forall_mem_cons, List.forall_mem_cons, moveProvider?_feed_eq_none_iff]
      exact and_congr_right fun _ => ih

theorem providers_encode (text : List Char) :
    Services.providers (Utf8.encode text) = ((text.splitOn '\n').map Services.provider).filter (!·.isEmpty) := by
  rw [Services.providers, Utf8.decodeLossy_encode]

theorem moveProviders?_eq_none_iff_providers {text : List Char} :
    relocator.moveProviders? text = none ↔
      ∀ name ∈ Services.providers (Utf8.encode text), relocator.moveName? name = none := by
  rw [moveProviders?_eq_none_iff, linesWithEnds, forall_endLines_stays_iff, providers_encode]
  simp only [moveProvider?_eq_none_iff, List.mem_filter, List.mem_map, Bool.not_eq_true', List.isEmpty_eq_false_iff]
  constructor
  · rintro hstays name ⟨⟨line, hline, rfl⟩, -⟩
    exact hstays line hline
  · intro hstays line hline
    by_cases hne : Services.provider line = []
    · rw [hne, moveName?_nil]
    · exact hstays _ ⟨⟨line, hline, rfl⟩, hne⟩

theorem providers_moved {text text' : List Char} (hmove : relocator.moveProviders? text = some text') :
    Services.providers (Utf8.encode text') = (Services.providers (Utf8.encode text)).map relocator.newName := by
  have hnames : (text.splitOn '\n').map (Services.provider ∘ relocator.newLine) =
      ((text.splitOn '\n').map Services.provider).map relocator.newName := by
    rw [List.map_map]
    exact List.map_congr_left fun line _ => relocator.provider_newLine line
  have hkept : (fun name => !(relocator.newName name).isEmpty) = fun name => !name.isEmpty := by
    funext name
    rw [Bool.eq_iff_iff]
    simp [newName_eq_nil_iff]
  rw [providers_encode, providers_encode, splitOn_moved hmove, List.map_map, hnames, List.filter_map]
  exact congrArg (List.map relocator.newName) (congrArg (List.filter · _) hkept)

/-- A service file stays as it is if and only if none of the names that the merge reads from it is moved. Else every
    line keeps its blanks and its comment around the new name of its provider, and the merge reads the new names. -/
theorem moveInServiceFile?_renames (relocator : Relocator) (text : List Char) :
    (relocator.moveInServiceFile? (Utf8.encode text) = none ↔
      ∀ name ∈ Services.providers (Utf8.encode text), relocator.moveName? name = none) ∧
    ∀ data, relocator.moveInServiceFile? (Utf8.encode text) = some data → ∃ text', data = Utf8.encode text' ∧
      List.Forall₂ (RenamesProvider relocator.newName) (text.splitOn '\n') (text'.splitOn '\n') ∧
      Services.providers data = (Services.providers (Utf8.encode text)).map relocator.newName := by
  have hfile : relocator.moveInServiceFile? (Utf8.encode text) = (relocator.moveProviders? text).map Utf8.encode := by
    rw [moveInServiceFile?, Utf8.decode?_encode]
  rw [hfile]
  constructor
  · rw [Option.map_eq_none_iff, moveProviders?_eq_none_iff_providers]
  · intro data hdata
    obtain ⟨text', hmove, rfl⟩ := Option.map_eq_some_iff.1 hdata
    refine ⟨text', rfl, ?_, providers_moved hmove⟩
    rw [splitOn_moved hmove, List.forall₂_map_right_iff, List.forall₂_same]
    exact fun line _ => relocator.renames_newLine line

/-- A file with one provider that moves, between blanks and in front of a comment, and one that stays, on a last line
    without a line break. -/
theorem moveInServiceFile?_renames_beside_another :
    ∃ (relocator : Relocator) (data : Bytes),
      relocator.moveInServiceFile? (Utf8.encode "# all\r\n org.a.Impl\t# default\r\norg.b.Other".toList) = some data ∧
        Services.providers data = ["x.a.Impl".toList, "org.b.Other".toList] := by
  let rule : Rule := ⟨"org.a".toList, "x.a".toList, by decide, by decide, by decide⟩
  let relocator : Relocator := ⟨[rule], by decide⟩
  have hmove : relocator.moveInServiceFile? (Utf8.encode "# all\r\n org.a.Impl\t# default\r\norg.b.Other".toList) =
      some (Utf8.encode "# all\r\n x.a.Impl\t# default\r\norg.b.Other".toList) := by decide +kernel
  obtain ⟨-, -, -, hproviders⟩ := (moveInServiceFile?_renames relocator _).2 _ hmove
  exact ⟨relocator, _, hmove, hproviders.trans (by decide +kernel)⟩

end Relocator
end UberJar.Relocation
