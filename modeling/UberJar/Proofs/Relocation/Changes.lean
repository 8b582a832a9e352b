import UberJar.Proofs.Relocation.Entries

namespace UberJar

open Text

theorem isSome_eq_getD_bne {α : Type} [BEq α] [LawfulBEq α] {new? : Option α} {old : α}
    (hchanges : ∀ new, new? = some new → new ≠ old) : new?.isSome = (new?.getD old != old) := by
  cases new? with
  | none => simp
  | some new => simpa using hchanges new rfl

namespace Relocation.Relocator

variable {relocator : Relocator}

theorem moveName?_ne {name moved : List Char} (hmove : relocator.moveName? name = some moved) : moved ≠ name := by
  obtain ⟨r, -, tail, -, rfl, rfl⟩ := moveName?_eq_some hmove
  exact fun hsame => r.source_ne_destination (List.append_cancel_right hsame).symm

theorem moveUnversioned?_ne {path moved : List Char} (hmove : relocator.moveUnversioned? path = some moved) :
    moved ≠ path := by
  obtain ⟨r, -, tail, -, rfl, rfl⟩ := moveUnversioned?_eq_some hmove
  exact fun hsame => r.sourcePath_ne_destinationPath (List.append_cancel_right hsame).symm

theorem movePath?_ne {path moved : List Char} (hmove : relocator.movePath? path = some moved) : moved ≠ path := by
  rcases movePath?_cases hmove with ⟨name, name', hservice, hname, rfl⟩ |
    ⟨directory, rest, rest', hversion, hrest, rfl⟩ | hwhole
  · obtain ⟨rfl, -, -⟩ := service?_eq_some.1 hservice
    exact fun hsame => moveName?_ne hname (List.append_cancel_left hsame)
  · obtain ⟨-, rfl⟩ := splitVersion?_eq_some.1 hversion
    exact fun hsame => moveUnversioned?_ne hrest (List.append_cancel_left hsame)
  · exact moveUnversioned?_ne hwhole

theorem movedPath?_ne {path moved : String} {move : Bool} (hmove : relocator.movedPath? path move = some moved) :
    moved ≠ path := by
  simp only [movedPath?, Option.ite_none_right_eq_some, Option.map_eq_some_iff] at hmove
  obtain ⟨-, path', hmove, rfl⟩ := hmove
  rintro rfl
  exact movePath?_ne hmove String.toList_ofList.symm

theorem moveProvider?_ne {line line' : List Char} (hmove : relocator.moveProvider? line = some line') :
    line' ≠ line := by
  obtain ⟨hne, provider, hprovider, rfl⟩ := moveProvider?_eq_some hmove
  have hline := (ServiceLine.isCut_ofLine hne).2
  intro hsame
  have hparts := hsame.trans hline.symm
  simp only [ServiceLine.render, List.append_cancel_right_eq, List.append_cancel_left_eq] at hparts
  exact moveName?_ne hprovider hparts

/-- A text that is written anew has other lines, as it has the lines that were written. -/
theorem moveProviders?_ne {text text' : List Char} (hmove : relocator.moveProviders? text = some text') :
    text' ≠ text := by
  rintro rfl
  have hlines := congrArg linesWithEnds (moveProviders?_eq_some hmove)
  rw [linesWithEnds_flatten ((areLines_linesWithEnds text').1.map relocator.sameEnd_moved)] at hlines
  have hstays : ∀ line ∈ linesWithEnds text', relocator.moveProvider? line = none := by
    intro line hline
    have hsame : (relocator.moveProvider? line).getD line = line :=
      List.map_inj_left.1 (hlines.symm.trans (List.map_id _).symm) line hline
    rw [Option.eq_none_iff_forall_not_mem]
    intro line' hline'
    rw [Option.mem_def] at hline'
    rw [hline', Option.getD_some] at hsame
    exact moveProvider?_ne hline' hsame
  rw [moveProviders?_eq_none_iff.2 hstays] at hmove
  cases hmove

theorem moveInServiceFile?_ne {data data' : Bytes} (hmove : relocator.moveInServiceFile? data = some data') :
    data' ≠ data := by
  rintro rfl
  obtain ⟨text, text', htext, hproviders, rfl⟩ := moveInServiceFile?_eq_some hmove
  rw [Utf8.decode?_encode] at htext
  exact moveProviders?_ne hproviders (Option.some.inj htext)

theorem moveInClass?_ne {data data' : Bytes} (hmove : relocator.moveInClass? data = .ok (some data')) :
    data' ≠ data := by
  obtain ⟨c, renamed, hwf, rfl, hreplace, hnew⟩ := moveInClass?_eq_ok hmove
  obtain ⟨new, rfl, rfl⟩ := Option.map_eq_some_iff.1 hnew.symm
  have hwf' := (ClassFile.replaceTexts_eq_ok_some hwf hreplace).2
  exact fun hsame => ClassFile.ne_of_replaceTexts hwf hreplace (ClassFile.encode_inj hwf' hwf hsame)

theorem movedData?_ne {entry : Entry} {data : Bytes} (hmove : relocator.movedData? entry = .ok (some data)) :
    data ≠ entry.data := by
  unfold movedData? at hmove
  split at hmove
  · exact moveInClass?_ne hmove
  · split at hmove
    · exact moveInServiceFile?_ne (Except.ok.inj hmove)
    · cases hmove

/-- The outcome of relocating an entry is true. It is kept if and only if it stays as it is; else its path is
    reported to have moved, and its content to have changed, if and only if they did. -/
theorem relocate_outcome {entry moved : Entry} {origin : String} {move : Bool} {outcome : Outcome}
    (hrelocate : relocator.relocate entry origin move = .ok (moved, outcome)) :
    (outcome = .kept ↔ moved = entry) ∧
      (moved ≠ entry → outcome = .relocated (moved.path != entry.path) (moved.data != entry.data)) := by
  rcases relocate_eq_ok hrelocate with ⟨-, rfl, rfl⟩ | ⟨newPath, newData, hnewPath, hnewData, hpath, hdata, rfl⟩
  · simp
  · have hpathMoved : newPath.isSome = (moved.path != entry.path) := by
      rw [hpath]
      exact isSome_eq_getD_bne fun path hsome => movedPath?_ne (hnewPath.trans hsome)
    have hcontentChanged : newData.isSome = (moved.data != entry.data) := by
      rw [hdata]
      exact isSome_eq_getD_bne fun data hsome => movedData?_ne (hnewData.trans (congrArg Except.ok hsome))
    have hsame : moved = entry ↔ (moved.path != entry.path || moved.data != entry.data) = false := by
      cases moved
      cases entry
      simp
    rw [ne_eq, hsame, hpathMoved, hcontentChanged]
    cases moved.path != entry.path <;> cases moved.data != entry.data <;> simp

/-- A service file whose name and whose only provider move, although files are not to be moved. -/
theorem relocate_outcome_of_service_file :
    ∃ (relocator : Relocator) (entry moved : Entry) (outcome : Outcome),
      relocator.relocate entry "app" false = .ok (moved, outcome) ∧ moved ≠ entry ∧ outcome = .relocated true true := by
  let rule : Rule := ⟨"org.a".toList, "x.a".toList, by decide, by decide, by decide⟩
  let relocator : Relocator := ⟨[rule], by decide⟩
  let entry : Entry := ⟨"META-INF/services/org.a.S", Utf8.encode "org.a.Impl # default\n".toList⟩
  let moved : Entry := ⟨"META-INF/services/x.a.S", Utf8.encode "x.a.Impl # default\n".toList⟩
  have hrelocate : relocator.relocate entry "app" false = .ok (moved, .relocated true true) := by decide +kernel
  have hmoved : moved ≠ entry := by decide
  exact ⟨relocator, entry, moved, _, hrelocate, hmoved, ((relocate_outcome hrelocate).2 hmoved).trans (by decide)⟩

end Relocation.Relocator
end UberJar
