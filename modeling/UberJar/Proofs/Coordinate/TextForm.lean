import UberJar.Proofs.Text.Blank
import UberJar.Proofs.Text.Lines
import UberJar.Coordinate

namespace UberJar.Coordinate

variable {c d : Coordinate} {value other : String}

/-- The text form without the extension. -/
def body (c : Coordinate) : String :=
  c.group ++ ":" ++ c.artifact ++ ":" ++ c.version ++
    match c.classifier with
    | some classifier => ":" ++ classifier
    | none => ""

/-- The components of the text form, without the extension. -/
def components (c : Coordinate) : List (List Char) :=
  [c.group.toList, c.artifact.toList, c.version.toList] ++ (c.classifier.map String.toList).toList

/-- What reading makes sure of: the components can be told apart and are not blank, and the extension is there and goes
    as far as to the last mark. -/
structure IsReadable (c : Coordinate) : Prop where
  components : ∀ component ∈ c.components, ':' ∉ component ∧ Text.trim component ≠ []
  extension : c.extension ≠ "" ∧ '@' ∉ c.extension.toList

theorem render_eq (c : Coordinate) : c.render = c.body ++ if c.extension = "jar" then "" else "@" ++ c.extension := rfl

theorem toList_body (c : Coordinate) : c.body.toList = [':'].intercalate c.components := by
  cases hclassifier : c.classifier <;> simp [body, components, hclassifier, List.intercalate]

/-- Components without separators are told apart again. -/
theorem IsReadable.splitOn_body (hc : c.IsReadable) : c.body.toList.splitOn ':' = c.components := by
  rw [toList_body]
  exact List.splitOn_intercalate ':' (fun component hcomponent => (hc.components component hcomponent).1)
    (by simp [Coordinate.components])

theorem eq_of_components (hcomponents : c.components = d.components) (hextension : c.extension = d.extension) :
    c = d := by
  obtain ⟨group, artifact, version, classifier, extension⟩ := c
  obtain ⟨group', artifact', version', classifier', extension'⟩ := d
  simp only [components, List.cons_append, List.nil_append, List.cons.injEq, String.toList_inj] at hcomponents
  obtain ⟨rfl, rfl, rfl, hclassifier⟩ := hcomponents
  subst hextension
  cases classifier <;> cases classifier' <;> simp_all [String.toList_inj]

theorem splitExtension_eq_some_iff {text front extension : List Char} :
    splitExtension text = (front, some extension) ↔ text = front ++ '@' :: extension ∧ '@' ∉ extension := by
  rw [← Text.splitLast?_eq_some_iff, splitExtension]
  cases Text.splitLast? '@' text <;> simp [Prod.ext_iff]

theorem splitExtension_eq_none_iff {text front : List Char} :
    splitExtension text = (front, none) ↔ text = front ∧ '@' ∉ text := by
  rw [← Text.splitLast?_eq_none_iff, splitExtension]
  cases Text.splitLast? '@' text <;> simp

theorem map_ofList_eq_iff {texts : List (List Char)} {strings : List String} :
    texts.map String.ofList = strings ↔ texts = strings.map String.toList := by
  constructor
  · rintro rfl
    simp
  · rintro rfl
    simp

/-- What is read from a text that is cut at its extension. -/
theorem parse_eq_ok_iff_of_split {front : List Char} {extension : Option (List Char)}
    (hsplit : splitExtension (Text.trim value.toList) = (front, extension)) :
    parse value = .ok c ↔ c.components = front.splitOn ':' ∧ (∀ component ∈ c.components, Text.trim component ≠ []) ∧
      extension ≠ some [] ∧ c.extension = String.ofList (extension.getD "jar".toList) := by
  have hany : (front.splitOn ':').any (fun component => (Text.trim component).isEmpty) = true ↔
      ¬∀ component ∈ front.splitOn ':', Text.trim component ≠ [] := by simp
  simp only [parse, hsplit]
  constructor
  · intro hparse
    split at hparse
    · cases hparse
    rename_i hextension
    split at hparse
    · cases hparse
    rename_i hblank
    rw [hany, Decidable.not_not] at hblank
    have hread : c.components = front.splitOn ':' ∧ c.extension = String.ofList (extension.getD "jar".toList) := by
      split at hparse
      · rename_i hcomponents
        cases hparse
        exact ⟨(map_ofList_eq_iff.1 hcomponents).symm, rfl⟩
      · rename_i hcomponents
        cases hparse
        exact ⟨(map_ofList_eq_iff.1 hcomponents).symm, rfl⟩
      · cases hparse
    exact ⟨hread.1, hread.1 ▸ hblank, hextension, hread.2⟩
  · rintro ⟨hcomponents, hblank, hextension, hread⟩
    have hnone : ¬(front.splitOn ':').any (fun component => (Text.trim component).isEmpty) = true := by
      rwa [hany, Decidable.not_not, ← hcomponents]
    rw [if_neg hextension, if_neg hnone, ← hcomponents, ← hread]
    obtain ⟨group, artifact, version, classifier, extension'⟩ := c
    cases classifier <;> simp [components]

/-- A coordinate is read from the texts, without the blanks around them, that name its extension behind the components,
    and for a `jar` from the components alone unless there is a mark in them that an extension could stand behind. -/
theorem parse_eq_ok_iff :
    parse value = .ok c ↔ c.IsReadable ∧
      (Text.trim value.toList = c.body.toList ++ '@' :: c.extension.toList ∨
        c.extension = "jar" ∧ '@' ∉ c.body.toList ∧ Text.trim value.toList = c.body.toList) := by
  constructor
  · intro hparse
    rcases hsplit : splitExtension (Text.trim value.toList) with ⟨front, extension⟩
    obtain ⟨hcomponents, hblank, hextension, hread⟩ := (parse_eq_ok_iff_of_split hsplit).1 hparse
    have hbody : c.body.toList = front := by rw [toList_body, hcomponents, List.intercalate_splitOn]
    have hcomponents' : ∀ component ∈ c.components, ':' ∉ component ∧ Text.trim component ≠ [] := fun component h =>
      ⟨Text.notMem_of_mem_splitOn (hcomponents ▸ h), hblank component h⟩
    cases extension with
    | some extension =>
      obtain ⟨htext, hmark⟩ := splitExtension_eq_some_iff.1 hsplit
      have hlist : c.extension.toList = extension := by rw [hread, Option.getD_some, String.toList_ofList]
      have hne : c.extension ≠ "" := by
        rintro hempty
        exact hextension (by rw [← hlist, hempty]; rfl)
      exact ⟨⟨hcomponents', hne, hlist ▸ hmark⟩, .inl (by rw [hbody, hlist, htext])⟩
    | none =>
      obtain ⟨htext, hmark⟩ := splitExtension_eq_none_iff.1 hsplit
      have hjar : c.extension = "jar" := by rw [hread, Option.getD_none, String.ofList_toList]
      have htext : Text.trim value.toList = c.body.toList := htext.trans hbody.symm
      exact ⟨⟨hcomponents', by rw [hjar]; decide⟩, .inr ⟨hjar, htext ▸ hmark, htext⟩⟩
  · rintro ⟨hreadable, htext⟩
    have hblank : ∀ component ∈ c.components, Text.trim component ≠ [] := fun component h =>
      (hreadable.components component h).2
    rcases htext with htext | ⟨hjar, hmark, htext⟩
    · refine (parse_eq_ok_iff_of_split (splitExtension_eq_some_iff.2 ⟨htext, hreadable.extension.2⟩)).2
        ⟨hreadable.splitOn_body.symm, hblank, ?_, by simp⟩
      exact fun hempty => hreadable.extension.1 (String.toList_injective (Option.some.inj hempty))
    · refine (parse_eq_ok_iff_of_split (splitExtension_eq_none_iff.2 ⟨htext, htext ▸ hmark⟩)).2
        ⟨hreadable.splitOn_body.symm, hblank, by simp, by simp [hjar]⟩

theorem body_inj (hc : c.IsReadable) (hd : d.IsReadable) (hextension : c.extension = d.extension) :
    c.body = d.body ↔ c = d := by
  refine ⟨fun hbody => eq_of_components ?_ hextension, congrArg body⟩
  rw [← hc.splitOn_body, ← hd.splitOn_body, hbody]

/-- A `jar` that is written like a coordinate with another extension, since its own is left out. -/
def ReadsLike (c d : Coordinate) : Prop :=
  c.extension = "jar" ∧ d.extension ≠ "jar" ∧ c.body = d.body ++ "@" ++ d.extension

theorem toList_render (hextension : c.extension ≠ "jar") :
    c.render.toList = c.body.toList ++ '@' :: c.extension.toList := by
  rw [render_eq, if_neg hextension]
  simp

theorem render_of_jar (hextension : c.extension = "jar") : c.render = c.body := by
  rw [render_eq, if_pos hextension, String.append_empty]

/-- Two coordinates that were read share a text form only if one is a `jar` that is written like the other. -/
theorem render_inj_iff (hc : c.IsReadable) (hd : d.IsReadable) :
    c.render = d.render ↔ c = d ∨ c.ReadsLike d ∨ d.ReadsLike c := by
  by_cases hsame : c.extension = d.extension
  · have hneither : ¬(c.ReadsLike d ∨ d.ReadsLike c) := by
      rintro (hlike | hlike)
      · exact hlike.2.1 (hsame.symm.trans hlike.1)
      · exact hlike.2.1 (hsame.trans hlike.1)
    rw [or_iff_left hneither, ← body_inj hc hd hsame, render_eq, render_eq, hsame, String.append_left_inj]
  · have hne : c ≠ d := fun h => hsame (congrArg extension h)
    rw [or_iff_right hne]
    by_cases hjar : c.extension = "jar"
    · have hjar' : d.extension ≠ "jar" := fun h => hsame (hjar.trans h.symm)
      rw [render_of_jar hjar, render_eq, if_neg hjar', ← String.append_assoc]
      simp [ReadsLike, hjar, hjar']
    by_cases hjar' : d.extension = "jar"
    · rw [render_of_jar hjar', render_eq, if_neg hjar, ← String.append_assoc, eq_comm]
      simp [ReadsLike, hjar, hjar']
    · refine iff_of_false (fun hrender => hsame ?_) (by simp [ReadsLike, hjar, hjar'])
      have htexts := congrArg String.toList hrender
      rw [toList_render hjar, toList_render hjar',
        Text.append_cons_inj_of_last hc.extension.2 hd.extension.2] at htexts
      exact String.toList_injective htexts.2

/-- A coordinate is read back from its text form if and only if it has an extension of its own, or else no mark of one
    in its components and no blank at their end. Two coordinates share a text form if and only if one of them is a `jar`
    that is written like the other. -/
theorem parse_render_iff (hc : parse value = .ok c) (hd : parse other = .ok d) :
    (parse c.render = .ok c ↔
      (c.extension = "jar" → '@' ∉ c.body.toList ∧ Text.trim c.body.toList = c.body.toList)) ∧
    (c.render = d.render ↔ c = d ∨ c.ReadsLike d ∨ d.ReadsLike c) := by
  obtain ⟨hreadable, htext⟩ := parse_eq_ok_iff.1 hc
  obtain ⟨hreadable', -⟩ := parse_eq_ok_iff.1 hd
  refine ⟨?_, render_inj_iff hreadable hreadable'⟩
  by_cases hjar : c.extension = "jar"
  · -- The text form has become shorter than any text that names the extension.
    have hlonger : Text.trim c.body.toList ≠ c.body.toList ++ '@' :: c.extension.toList := by
      intro hsame
      have hlength := (Text.trim_sublist c.body.toList).length_le
      rw [hsame, List.length_append, List.length_cons] at hlength
      omega
    rw [parse_eq_ok_iff, render_of_jar hjar, or_iff_right hlonger]
    simp only [hreadable, hjar, true_and, forall_const]
  · -- The text that was read names the extension, so that it is the text form itself.
    have hwritten : Text.trim value.toList = c.render.toList := by
      rw [toList_render hjar]
      exact htext.resolve_right fun himplicit => hjar himplicit.1
    have hread : parse c.render = .ok c := by
      refine parse_eq_ok_iff.2 ⟨hreadable, .inl ?_⟩
      rw [← hwritten, Text.trim_trim, hwritten, toList_render hjar]
    simp [hread, hjar]

/-- A version with a mark in it is read back before an extension, but not before `jar`. -/
theorem parse_render_iff_beside_mark :
    ∃ c d, parse " a:b:1@x@zip" = .ok c ∧ parse "a:b:1@x@jar" = .ok d ∧ c.render ≠ d.render ∧
      parse c.render = .ok c ∧ parse d.render ≠ .ok d := by
  have hc : parse " a:b:1@x@zip" = .ok ⟨"a", "b", "1@x", none, "zip"⟩ := by decide +kernel
  have hd : parse "a:b:1@x@jar" = .ok ⟨"a", "b", "1@x", none, "jar"⟩ := by decide +kernel
  have hread : parse (Coordinate.render ⟨"a", "b", "1@x", none, "zip"⟩) = .ok ⟨"a", "b", "1@x", none, "zip"⟩ :=
    (parse_render_iff hc hd).1.2 fun hjar => absurd hjar (by decide)
  refine ⟨_, _, hc, hd, fun hsame => ?_, hread, fun hread' => ?_⟩
  · rcases (parse_render_iff hc hd).2.1 hsame with h | h | h
    · exact absurd h (by decide)
    · exact absurd h.1 (by decide)
    · exact absurd h.2.2 (by decide)
  · exact ((parse_render_iff hd hc).1.1 hread' rfl).1 (by decide)

/-- Two coordinates with one text form, and one whose last blank is lost. -/
theorem render_shared :
    ∃ c d blank, parse "a:b:1@x@jar" = .ok c ∧ parse "a:b:1@x" = .ok d ∧ c ≠ d ∧ c.render = d.render ∧
      parse c.render = .ok d ∧ parse "a:b:1 @jar" = .ok blank ∧ parse blank.render ≠ .ok blank :=
  ⟨⟨"a", "b", "1@x", none, "jar"⟩, ⟨"a", "b", "1", none, "x"⟩, ⟨"a", "b", "1 ", none, "jar"⟩, by decide +kernel,
    by decide +kernel, by decide, by decide, by decide +kernel, by decide +kernel, by decide +kernel⟩

end UberJar.Coordinate
