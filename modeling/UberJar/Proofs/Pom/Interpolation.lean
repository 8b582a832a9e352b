import UberJar.Pom.Effective
import UberJar.Proofs.Text.Blank
import UberJar.Proofs.Text.Words

namespace UberJar.Pom

open Effective (opening maxReplacements)

/-- A text with references to properties. -/
inductive Template where
  | plain (text : List Char)
  | reference (front : List Char) (name : String) (rest : Template)

namespace Template

variable {e : Effective} {t t' u : Template} {front chars : List Char} {n : Nat}

/-- A template as it is written. -/
def text : Template → List Char
  | plain text => text
  | reference front name rest => front ++ opening ++ (name.toList ++ '\x7d' :: rest.text)

/-- What stands in front of the first reference of a template. -/
def head : Template → List Char
  | plain text => text
  | reference front _ _ => front

/-- The names of the properties that a template refers to, one for each reference. -/
def names : Template → List String
  | plain _ => []
  | reference _ name rest => name :: rest.names

/-- A template whose references are those that are found in it as it is written. -/
inductive WellFormed : Template → Prop
  | plain {chars : List Char} (hchars : Text.contains opening chars = false) : WellFormed (.plain chars)
  | reference {front : List Char} {name : String} {rest : Template} (hfront : Text.contains opening front = false)
      (hname : '\x7d' ∉ name.toList) (hrest : WellFormed rest) : WellFormed (.reference front name rest)

/-- A template behind a text. -/
def behind (front : List Char) : Template → Template
  | plain text => plain (front ++ text)
  | reference front' name rest => reference (front ++ front') name rest

/-- A template with the value of its property in the place of every reference to a known one. -/
def expand (e : Effective) : Template → Template
  | plain text => plain text
  | reference front name rest =>
    match e.properties[name]? with
    | some value => (rest.expand e).behind (front ++ value.toList)
    | none => reference front name (rest.expand e)

/-- A template with the value of its property in the place of the first reference, if it is known. -/
def step? (e : Effective) : Template → Option Template
  | plain _ => none
  | reference front name rest => e.properties[name]?.map fun value => rest.behind (front ++ value.toList)

/-- A template after a number of steps, or fewer if there is none to take. -/
def run (e : Effective) : Nat → Template → Template
  | 0, t => t
  | n + 1, t =>
    match t.step? e with
    | some t => t.run e n
    | none => t

@[simp] theorem text_behind : (t.behind front).text = front ++ t.text := by
  cases t <;> simp [behind, text]

@[simp] theorem head_behind : (t.behind front).head = front ++ t.head := by
  cases t <;> rfl

@[simp] theorem names_behind : (t.behind front).names = t.names := by
  cases t <;> rfl

theorem behind_behind (front back : List Char) (t : Template) :
    (t.behind back).behind front = t.behind (front ++ back) := by
  cases t <;> simp [behind]

theorem expand_behind : (t.behind front).expand e = (t.expand e).behind front := by
  cases t with
  | plain => rfl
  | reference front' name rest =>
    rw [behind, expand, expand]
    cases e.properties[name]? with
    | some value => simp only [behind_behind, List.append_assoc]
    | none => rfl

theorem WellFormed.contains_head (ht : t.WellFormed) : Text.contains opening t.head = false := by
  cases ht with
  | plain hchars => exact hchars
  | reference hfront _ _ => exact hfront

theorem WellFormed.not_mem_name {name : String} (ht : (Template.reference front name t).WellFormed) :
    '\x7d' ∉ name.toList := by
  cases ht with
  | reference _ hname _ => exact hname

theorem WellFormed.rest {name : String} (ht : (Template.reference front name t).WellFormed) : t.WellFormed := by
  cases ht with
  | reference _ _ hrest => exact hrest

theorem WellFormed.behind (ht : t.WellFormed) (hhead : Text.contains opening (front ++ t.head) = false) :
    (t.behind front).WellFormed := by
  cases ht with
  | plain => exact .plain hhead
  | reference _ hname hrest => exact .reference hhead hname hrest

theorem head_prefix_expand : t.head <+: (t.expand e).head := by
  cases t with
  | plain => exact List.prefix_rfl
  | reference front name rest =>
    rw [expand, head]
    cases e.properties[name]? with
    | some value =>
      rw [head_behind, List.append_assoc]
      exact List.prefix_append _ _
    | none => exact List.prefix_rfl

/-- A value that forms no reference with the text around it. -/
structure KeepsApart (value : List Char) : Prop where
  noOpening : Text.contains opening value = false
  nonempty : value ≠ []
  noEnd : value.head? ≠ some '\x7b'
  noStart : value.getLast? ≠ some '$'

instance (value : List Char) : Decidable (KeepsApart value) :=
  decidable_of_iff (Text.contains opening value = false ∧ value ≠ [] ∧ value.head? ≠ some '\x7b' ∧
      value.getLast? ≠ some '$')
    ⟨fun ⟨h₁, h₂, h₃, h₄⟩ => ⟨h₁, h₂, h₃, h₄⟩, fun ⟨h₁, h₂, h₃, h₄⟩ => ⟨h₁, h₂, h₃, h₄⟩⟩

theorem KeepsApart.contains_append {value back : List Char} (hvalue : KeepsApart value)
    (hfront : Text.contains opening front = false) (hback : Text.contains opening back = false) :
    Text.contains opening (front ++ value ++ back) = false := by
  have hlast : (front ++ value).getLast? = value.getLast? := List.getLast?_append_of_ne_nil _ hvalue.nonempty
  rw [Text.contains_eq_false_iff, opening, Text.pair_infix_append, Text.pair_infix_append, hlast]
  rintro ((hword | hword | ⟨-, hword⟩) | hword | ⟨hword, -⟩)
  · exact Text.contains_eq_false_iff.1 hfront hword
  · exact Text.contains_eq_false_iff.1 hvalue.noOpening hword
  · exact hvalue.noEnd hword
  · exact Text.contains_eq_false_iff.1 hback hword
  · exact hvalue.noStart hword

/-- Values that keep apart from the text around them leave a template well-formed. -/
theorem WellFormed.expand (ht : t.WellFormed)
    (hvalues : ∀ name ∈ t.names, ∀ value ∈ e.properties[name]?, KeepsApart value.toList) : (t.expand e).WellFormed := by
  induction ht with
  | plain hchars => exact .plain hchars
  | @reference front name rest hfront hname _ ih =>
    have hrest := ih fun other hother => hvalues other (List.mem_cons_of_mem _ hother)
    rw [Template.expand]
    cases hvalue : e.properties[name]? with
    | some value =>
      exact hrest.behind ((hvalues name List.mem_cons_self value hvalue).contains_append hfront hrest.contains_head)
    | none => exact .reference hfront hname hrest

theorem expand_of_step (hstep : t.step? e = some t') : t'.expand e = t.expand e := by
  cases t with
  | plain => cases hstep
  | reference front name rest =>
    obtain ⟨value, hvalue, rfl⟩ := Option.map_eq_some_iff.1 hstep
    rw [expand_behind, expand, hvalue]

theorem WellFormed.step (ht : t.WellFormed) (hexpand : (t.expand e).WellFormed) (hstep : t.step? e = some t') :
    t'.WellFormed := by
  cases t with
  | plain => cases hstep
  | reference front name rest =>
    obtain ⟨value, hvalue, rfl⟩ := Option.map_eq_some_iff.1 hstep
    -- What comes to stand in front of the next reference stands there in the end, too, maybe with more behind it.
    rw [Template.expand, hvalue] at hexpand
    have hhead := hexpand.contains_head
    rw [head_behind] at hhead
    have hgrown : front ++ value.toList ++ rest.head <+: front ++ value.toList ++ (rest.expand e).head :=
      (List.prefix_append_right_inj _).2 head_prefix_expand
    exact ht.rest.behind (Text.contains_eq_false_of_infix hhead hgrown.isInfix)

theorem WellFormed.splitAtWord?_plain (ht : (Template.plain chars).WellFormed) :
    Text.splitAtWord? opening (Template.plain chars).text = none :=
  Option.isNone_iff_eq_none.1 (Option.isSome_eq_false_iff.1 ht.contains_head)

theorem WellFormed.splitAtWord?_reference {name : String} (ht : (Template.reference front name t).WellFormed) :
    Text.splitAtWord? opening (Template.reference front name t).text = some (front, name.toList ++ '\x7d' :: t.text) :=
  Text.splitAtWord?_pair (by decide) ht.contains_head

/-- A step on a template is one on the text. -/
theorem WellFormed.replaceFirst?_text (ht : t.WellFormed) : e.replaceFirst? t.text = (t.step? e).map text := by
  cases t with
  | plain => simp only [Effective.replaceFirst?, ht.splitAtWord?_plain, step?]; rfl
  | reference front name rest =>
    simp only [Effective.replaceFirst?, ht.splitAtWord?_reference, Text.splitFirst?_append ht.not_mem_name, step?,
      Option.bind_eq_bind, Option.bind_some, String.ofList_toList]
    cases e.properties[name]? with
    | some value => simp
    | none => rfl

/-- Steps on a template are steps on the text, and the template stays well-formed. -/
theorem WellFormed.run (ht : t.WellFormed) (hexpand : (t.expand e).WellFormed) (n : Nat) :
    (t.run e n).WellFormed ∧ e.replaceUpTo n t.text = (t.run e n).text := by
  induction n generalizing t with
  | zero => exact ⟨ht, rfl⟩
  | succ n ih =>
    rw [Effective.replaceUpTo, ht.replaceFirst?_text, Template.run]
    cases hstep : t.step? e with
    | none => exact ⟨ht, rfl⟩
    | some t' => exact ih (ht.step hexpand hstep) ((expand_of_step hstep).symm ▸ hexpand)

theorem expand_run (e : Effective) (n : Nat) (t : Template) : (t.run e n).expand e = t.expand e := by
  induction n generalizing t with
  | zero => rfl
  | succ n ih =>
    rw [run]
    cases hstep : t.step? e with
    | none => rfl
    | some t' => exact (ih t').trans (expand_of_step hstep)

theorem step?_eq_none_iff : t.step? e = none ↔ ∀ name ∈ t.names.head?, name ∉ e.properties := by
  cases t with
  | plain => simp [step?, names]
  | reference front name rest => simp [step?, names]

theorem names_of_step (hstep : t.step? e = some t') : ∃ name ∈ e.properties, t.names = name :: t'.names := by
  cases t with
  | plain => cases hstep
  | reference front name rest =>
    obtain ⟨value, hvalue, rfl⟩ := Option.map_eq_some_iff.1 hstep
    refine ⟨name, ?_, by rw [names_behind, names]⟩
    rw [Std.TreeMap.mem_iff_isSome_getElem?, hvalue]
    rfl

/-- No known reference is left after a number of steps if and only if at most that many known references stand in front
    of the unknown ones, and none behind. -/
theorem names_run_unknown_iff :
    (∀ name ∈ (t.run e n).names, name ∉ e.properties) ↔
      ∃ j ≤ n, (∀ name ∈ t.names.take j, name ∈ e.properties) ∧ ∀ name ∈ t.names.drop j, name ∉ e.properties := by
  induction n generalizing t with
  | zero => simp [run]
  | succ n ih =>
    rw [run]
    cases hstep : t.step? e with
    | some t' =>
      obtain ⟨name, hname, hnames⟩ := names_of_step hstep
      rw [ih, hnames]
      constructor
      · rintro ⟨j, hj, hknown, hunknown⟩
        exact ⟨j + 1, by omega, by simpa [hname] using hknown, hunknown⟩
      · rintro ⟨j, hj, hknown, hunknown⟩
        cases j with
        | zero => exact absurd hname (hunknown name List.mem_cons_self)
        | succ j => exact ⟨j, by omega, fun other hother => hknown other (List.mem_cons_of_mem _ hother), hunknown⟩
    | none =>
      rw [step?_eq_none_iff] at hstep
      constructor
      · exact fun hunknown => ⟨0, by omega, by simp, hunknown⟩
      · rintro ⟨j, -, hknown, hunknown⟩
        cases hnames : t.names with
        | nil => simp
        | cons name rest =>
          rw [hnames] at hstep hknown hunknown
          cases j with
          | zero => exact hunknown
          | succ j => exact absurd (hknown name List.mem_cons_self) (hstep name rfl)

theorem names_expand (e : Effective) (t : Template) : (t.expand e).names = t.names.filter (· ∉ e.properties) := by
  induction t with
  | plain => rfl
  | reference front name rest ih =>
    rw [expand, names]
    cases hvalue : e.properties[name]? with
    | some value =>
      have hknown : name ∈ e.properties := by rw [Std.TreeMap.mem_iff_isSome_getElem?, hvalue]; rfl
      simp [hknown, ih]
    | none =>
      have hunknown : name ∉ e.properties := (getElem?_eq_none_iff e.properties name).1 hvalue
      simp [hunknown, ih, names]

theorem expand_eq_self_iff : t.expand e = t ↔ ∀ name ∈ t.names, name ∉ e.properties := by
  constructor
  · intro hself
    have hnames := names_expand e t
    rw [hself] at hnames
    simpa using List.filter_eq_self.1 hnames.symm
  · intro hunknown
    induction t with
    | plain => rfl
    | reference front name rest ih =>
      have hnone : e.properties[name]? = none := Std.TreeMap.getElem?_eq_none (hunknown name List.mem_cons_self)
      rw [expand, hnone, ih fun other hother => hunknown other (List.mem_cons_of_mem _ hother)]

/-- A text is that of one well-formed template at most. -/
theorem WellFormed.text_inj (ht : t.WellFormed) (hu : u.WellFormed) : t.text = u.text ↔ t = u := by
  refine ⟨fun htext => ?_, congrArg text⟩
  induction t generalizing u with
  | plain =>
    have hsplit := ht.splitAtWord?_plain
    cases u with
    | plain => exact congrArg Template.plain htext
    | reference => cases (htext ▸ hsplit).symm.trans hu.splitAtWord?_reference
  | reference front name rest ih =>
    have hsplit := ht.splitAtWord?_reference
    cases u with
    | plain => cases (htext ▸ hsplit).symm.trans hu.splitAtWord?_plain
    | reference front' name' rest' =>
      have hsame := Option.some.inj ((htext ▸ hsplit).symm.trans hu.splitAtWord?_reference)
      obtain ⟨rfl, hbehind⟩ := Prod.mk.inj hsame
      have hname := @Text.splitFirst?_append _ rest.text _ ht.not_mem_name
      rw [hbehind, Text.splitFirst?_append hu.not_mem_name] at hname
      obtain ⟨hname, hrest⟩ := Prod.mk.inj (Option.some.inj hname)
      rw [String.toList_injective hname, ih ht.rest hu.rest hrest.symm]

end Template

/-- A text in which every `${` has a `}` behind it. -/
def IsClosed (chars : List Char) : Prop :=
  ∀ tail ∈ chars.tails, ∀ back ∈ Text.dropPrefix? opening tail, '\x7d' ∈ back

instance (chars : List Char) : Decidable (IsClosed chars) :=
  inferInstanceAs (Decidable (∀ tail ∈ chars.tails, ∀ back ∈ Text.dropPrefix? opening tail, '\x7d' ∈ back))

theorem isClosed_iff {chars : List Char} :
    IsClosed chars ↔ ∀ front back, chars = front ++ opening ++ back → '\x7d' ∈ back := by
  simp only [IsClosed, List.mem_tails, Option.mem_def, Text.dropPrefix?_eq_some]
  constructor
  · rintro hclosed front back rfl
    exact hclosed (opening ++ back) ⟨front, by rw [List.append_assoc]⟩ back rfl
  · rintro hclosed tail ⟨front, rfl⟩ back rfl
    exact hclosed front back (by rw [List.append_assoc])

theorem IsClosed.trim {chars : List Char} (hclosed : IsClosed chars) : IsClosed (Text.trim chars) := by
  rw [isClosed_iff] at hclosed ⊢
  intro front back htrim
  obtain ⟨start, blanks, hchars, -, hblank⟩ := Text.trim_spec chars
  rw [htrim] at hchars
  have hmem : '\x7d' ∈ back ++ blanks := hclosed (start ++ front) (back ++ blanks) (by rw [hchars]; simp)
  exact (List.mem_append.1 hmem).resolve_right fun hblanks => absurd (hblank _ hblanks) (by decide)

/-- What stands behind the first reference of a closed text is closed again, so that the text can be cut into its
    references. -/
theorem IsClosed.exists_template {chars : List Char} (hclosed : IsClosed chars) :
    ∃ t : Template, t.WellFormed ∧ t.text = chars := by
  cases hsplit : Text.splitAtWord? opening chars with
  | none => exact ⟨.plain chars, .plain (by rw [Text.contains, hsplit]; rfl), rfl⟩
  | some pair =>
    obtain ⟨front, back⟩ := pair
    have hchars := Text.splitAtWord?_eq_some hsplit
    have hclosed' := isClosed_iff.1 hclosed
    obtain ⟨name, after, rfl, hname⟩ := List.eq_append_cons_of_mem (hclosed' front back hchars)
    have hafter : IsClosed after := by
      refine isClosed_iff.2 fun front' back' hafter => ?_
      exact hclosed' (front ++ opening ++ name ++ '\x7d' :: front') back' (by rw [hchars, hafter]; simp)
    have hshorter : after.length < chars.length := by
      rw [hchars]
      simp
      omega
    obtain ⟨rest, hrest, rfl⟩ := hafter.exists_template
    refine ⟨.reference front (String.ofList name) rest, .reference ?_ ?_ hrest, ?_⟩
    · exact Text.contains_of_splitAtWord? (by decide) hsplit
    · rwa [String.toList_ofList]
    · rw [Template.text, String.toList_ofList, hchars]
termination_by chars.length

namespace Effective

variable {e : Effective} {text : String}

/-- A text in which references are closed is that of a template, but for the blanks around it. If the values that are
    put into it form no reference of their own, all references to known properties are expanded if and only if there are
    not too many of them and none stands behind one to an unknown property. -/
theorem interpolate_expands_iff (hclosed : IsClosed text.toList) :
    ∃ t : Template, t.WellFormed ∧ t.text = Text.trim text.toList ∧
      ((∀ name ∈ t.names, ∀ value ∈ e.properties[name]?, Template.KeepsApart value.toList) → (t.expand e).WellFormed) ∧
      ((t.expand e).WellFormed → (e.interpolate text = String.ofList (t.expand e).text ↔
        ∃ j ≤ maxReplacements, (∀ name ∈ t.names.take j, name ∈ e.properties) ∧
          ∀ name ∈ t.names.drop j, name ∉ e.properties)) := by
  obtain ⟨t, ht, htext⟩ := hclosed.trim.exists_template
  refine ⟨t, ht, htext, ht.expand, fun hexpand => ?_⟩
  obtain ⟨hrun, hreplaced⟩ := ht.run hexpand maxReplacements
  calc e.interpolate text = String.ofList (t.expand e).text
    _ ↔ (t.run e maxReplacements).text = (t.expand e).text := by
      rw [interpolate, ← htext, hreplaced, String.ofList_inj]
    _ ↔ t.expand e = t.run e maxReplacements := by
      rw [hrun.text_inj hexpand, eq_comm]
    _ ↔ ∀ name ∈ (t.run e maxReplacements).names, name ∉ e.properties := by
      rw [← Template.expand_run e maxReplacements t, Template.expand_eq_self_iff]
    _ ↔ _ := Template.names_run_unknown_iff

/-- Two known references in front of an unknown one. -/
theorem interpolate_expands_iff_of_known_in_front :
    ∃ (pom : Document) (t : Template), pom.properties = some [("a", "1"), ("b", "2")] ∧
      t = .reference [] "a" (.reference ['.'] "b" (.reference ['-'] "unknown" (.plain []))) ∧
      IsClosed " $\x7ba\x7d.$\x7bb\x7d-$\x7bunknown\x7d ".toList ∧
      t.text = Text.trim " $\x7ba\x7d.$\x7bb\x7d-$\x7bunknown\x7d ".toList ∧
      (∀ name ∈ t.names, ∀ value ∈ (ofChain [pom]).properties[name]?, Template.KeepsApart value.toList) ∧
      String.ofList (t.expand (ofChain [pom])).text = "1.2-$\x7bunknown\x7d" ∧
      (ofChain [pom]).interpolate " $\x7ba\x7d.$\x7bb\x7d-$\x7bunknown\x7d " = "1.2-$\x7bunknown\x7d" := by
  let pom : Document := { properties := some [("a", "1"), ("b", "2")] }
  let t : Template := .reference [] "a" (.reference ['.'] "b" (.reference ['-'] "unknown" (.plain [])))
  have ht : t.WellFormed :=
    .reference rfl (by decide) (.reference rfl (by decide) (.reference rfl (by decide) (.plain rfl)))
  have hclosed : IsClosed " $\x7ba\x7d.$\x7bb\x7d-$\x7bunknown\x7d ".toList := by decide +kernel
  have htext : t.text = Text.trim " $\x7ba\x7d.$\x7bb\x7d-$\x7bunknown\x7d ".toList := by decide +kernel
  have hvalues : ∀ name ∈ t.names, ∀ value ∈ (ofChain [pom]).properties[name]?, Template.KeepsApart value.toList := by
    decide +kernel
  have hexpanded : String.ofList (t.expand (ofChain [pom])).text = "1.2-$\x7bunknown\x7d" := by decide +kernel
  have hfront : ∃ j ≤ maxReplacements, (∀ name ∈ t.names.take j, name ∈ (ofChain [pom]).properties) ∧
      ∀ name ∈ t.names.drop j, name ∉ (ofChain [pom]).properties :=
    ⟨2, by decide, by decide +kernel, by decide +kernel⟩
  obtain ⟨t', ht', htext', hexpand, hiff⟩ := @interpolate_expands_iff (ofChain [pom]) _ hclosed
  have hsame : t' = t := (ht'.text_inj ht).1 (htext'.trans htext.symm)
  rw [hsame] at hexpand hiff
  have hinterpolated := (hiff (hexpand hvalues)).2 hfront
  rw [hexpanded] at hinterpolated
  exact ⟨pom, t, rfl, rfl, hclosed, htext, hvalues, hexpanded, hinterpolated⟩

/-- A known reference stays behind an unknown one, and behind ten known ones. -/
theorem known_reference_stays :
    ∃ (pom : Document) (behindUnknown behindKnown : Template), pom = { version := some "1" } ∧
      (∀ value ∈ (ofChain [pom]).properties.values, Text.contains opening value.toList = false) ∧
      behindUnknown = .reference [] "unknown" (.reference ['-'] "version" (.plain [])) ∧
      String.ofList behindUnknown.text = "$\x7bunknown\x7d-$\x7bversion\x7d" ∧
      String.ofList (behindUnknown.expand (ofChain [pom])).text = "$\x7bunknown\x7d-1" ∧
      (ofChain [pom]).interpolate (String.ofList behindUnknown.text) = "$\x7bunknown\x7d-$\x7bversion\x7d" ∧
      behindKnown = (List.replicate 11 "version").foldr (.reference []) (.plain []) ∧
      String.ofList (behindKnown.expand (ofChain [pom])).text = "11111111111" ∧
      (ofChain [pom]).interpolate (String.ofList behindKnown.text) = "1111111111$\x7bversion\x7d" :=
  ⟨{ version := some "1" }, .reference [] "unknown" (.reference ['-'] "version" (.plain [])),
    (List.replicate 11 "version").foldr (.reference []) (.plain []), rfl, by decide +kernel, rfl, by decide +kernel,
    by decide +kernel, by decide +kernel, rfl, by decide +kernel, by decide +kernel⟩

end Effective
end UberJar.Pom
