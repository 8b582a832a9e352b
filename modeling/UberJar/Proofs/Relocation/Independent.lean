import UberJar.Proofs.Relocation.Separate

namespace UberJar.Relocation

/-- Two texts of which one begins with the other. -/
def Meets {α : Type} (a b : List α) : Prop := a <+: b ∨ b <+: a

instance {α : Type} [DecidableEq α] (a b : List α) : Decidable (Meets a b) := inferInstanceAs (Decidable (_ ∨ _))

theorem Meets.map {α β : Type} {a b : List α} (h : Meets a b) (f : α → β) : Meets (a.map f) (b.map f) :=
  h.imp (·.map f) (·.map f)

theorem Meets.symm {α : Type} {a b : List α} (h : Meets a b) : Meets b a := Or.symm h

namespace Reference

/-- Forms of which no source meets a destination, also behind the beginning of an object type. -/
structure Independent (forms : List Form) : Prop where
  separator : ∀ f ∈ forms, f.separator = 0x2F ∨ f.separator = 0x2E
  source : ∀ f ∈ forms, IsName f.source
  destination : ∀ f ∈ forms, IsName f.destination
  source_behind : ∀ f ∈ forms, ∀ g ∈ forms, ∀ front, front = [] ∨ IsObjectPrefix front →
    ¬Meets (front ++ f.source) g.destination
  destination_behind : ∀ f ∈ forms, ∀ g ∈ forms, ∀ front, front = [] ∨ IsObjectPrefix front →
    ¬Meets f.source (front ++ g.destination)

theorem Independent.inert {forms : List Form} (hforms : Independent forms) : Inert forms where
  separator := hforms.separator
  source := hforms.source
  destination := hforms.destination
  inside f hf g hg front back hdestination hfront rest hbegins := by
    have hsource : front ++ g.source <+: f.destination ++ rest := by
      rw [hdestination, List.append_assoc]
      exact (List.prefix_append_right_inj front).2 hbegins
    exact hforms.source_behind g hg f hf front (.inr hfront)
      (List.prefix_or_prefix_of_prefix hsource (List.prefix_append _ _))
  continued f hf g hg front back hsource hfront rest hbegins := by
    have hwhole : g.source <+: (front ++ f.destination) ++ rest := by
      rw [hsource, List.append_assoc]
      exact (List.prefix_append_right_inj front).2 hbegins
    exact hforms.destination_behind g hg f hf front (.inr hfront)
      (List.prefix_or_prefix_of_prefix hwhole (List.prefix_append _ _))
  written f hf g hg before before' rest pieces _ _ := by
    rw [← Bool.not_eq_true]
    intro hoccurs
    obtain ⟨after, hafter⟩ := exists_append_of_matchesForm hoccurs
    exact hforms.source_behind g hg f hf [] (.inl rfl)
      (List.prefix_or_prefix_of_prefix ⟨after, hafter.symm⟩ (List.prefix_append f.destination _))

end Reference

open Reference

/-- What may stand before the name of an object type without ending the reference: nothing, or primitive types and an
    `L`. -/
def IsDescriptorOpening (opening : List Char) : Prop :=
  opening = [] ∨ ∃ primitives, opening = primitives ++ ['L'] ∧ ∀ c ∈ primitives, c ∈ "BCDFIJSZ".toList

theorem isDescriptorOpening_map_dotted {front : Bytes} (hfront : front = [] ∨ IsObjectPrefix front) :
    IsDescriptorOpening (front.map dotted) := by
  rcases hfront with rfl | ⟨primitives, rfl, hprimitives⟩
  · exact .inl rfl
  · refine .inr ⟨primitives.map dotted, by simp [show dotted 0x4C = 'L' by decide], fun c hc => ?_⟩
    obtain ⟨b, hb, rfl⟩ := List.mem_map.1 hc
    exact dotted_of_isPrimitive (hprimitives b hb)

/-- Behind the opening of a descriptor nothing meets a text that begins with another character than the opening does. -/
theorem IsDescriptorOpening.not_meets {opening a b : List Char} (hopening : IsDescriptorOpening opening)
    (hne : opening ≠ []) (hb : ∃ c rest, b = c :: rest ∧ c ∉ "BCDFIJSZL".toList) : ¬Meets (opening ++ a) b := by
  obtain ⟨primitives, rfl, hprimitives⟩ := hopening.resolve_left hne
  obtain ⟨c, rest, rfl, hc⟩ := hb
  obtain ⟨first, more, hcons, hfirst⟩ : ∃ first more, primitives ++ ['L'] = first :: more ∧
      first ∈ "BCDFIJSZL".toList := by
    cases primitives with
    | nil => exact ⟨'L', [], rfl, by decide⟩
    | cons d primitives => exact ⟨d, primitives ++ ['L'], rfl, List.mem_append_left ['L'] (hprimitives d (by simp))⟩
  rw [hcons]
  rintro (hmeets | hmeets)
  · exact hc ((List.cons_prefix_cons.1 hmeets).1 ▸ hfirst)
  · exact hc ((List.cons_prefix_cons.1 hmeets).1 ▸ hfirst)

namespace Relocator

/-- No source meets a destination, with any opening of a descriptor before one of them. -/
def IsIndependent (relocator : Relocator) : Prop :=
  ∀ r ∈ relocator.rules, ∀ s ∈ relocator.rules, ∀ opening, IsDescriptorOpening opening →
    ¬Meets (opening ++ r.source) s.destination ∧ ¬Meets r.source (opening ++ s.destination)

variable {relocator : Relocator}

theorem IsIndependent.independent_forms (hrules : relocator.IsIndependent) : Independent relocator.forms where
  separator f hf := by
    obtain ⟨r, -, h, -⟩ := exists_rule_of_mem_forms hf
    exact h
  source f hf := by
    obtain ⟨r, -, -, h, -⟩ := exists_rule_of_mem_forms hf
    exact h
  destination f hf := by
    obtain ⟨r, -, -, -, h, -⟩ := exists_rule_of_mem_forms hf
    exact h
  source_behind f hf g hg front hfront hmeets := by
    obtain ⟨r, hr, -, -, -, hsource, -⟩ := exists_rule_of_mem_forms hf
    obtain ⟨s, hs, -, -, -, -, hdestination⟩ := exists_rule_of_mem_forms hg
    refine (hrules r hr s hs _ (isDescriptorOpening_map_dotted hfront)).1 ?_
    rw [← hsource, ← hdestination, ← List.map_append]
    exact hmeets.map dotted
  destination_behind f hf g hg front hfront hmeets := by
    obtain ⟨r, hr, -, -, -, hsource, -⟩ := exists_rule_of_mem_forms hf
    obtain ⟨s, hs, -, -, -, -, hdestination⟩ := exists_rule_of_mem_forms hg
    refine (hrules r hr s hs _ (isDescriptorOpening_map_dotted hfront)).2 ?_
    rw [← hsource, ← hdestination, ← List.map_append]
    exact hmeets.map dotted

/-- Packages that do not begin with a character of a descriptor have to be apart as they are. -/
theorem isIndependent_of_plain
    (hsource : ∀ r ∈ relocator.rules, ∃ c rest, r.source = c :: rest ∧ c ∉ "BCDFIJSZL".toList)
    (hdestination : ∀ r ∈ relocator.rules, ∃ c rest, r.destination = c :: rest ∧ c ∉ "BCDFIJSZL".toList)
    (hapart : ∀ r ∈ relocator.rules, ∀ s ∈ relocator.rules, ¬Meets r.source s.destination) :
    relocator.IsIndependent := by
  intro r hr s hs opening hopening
  by_cases hne : opening = []
  · simpa [hne] using hapart r hr s hs
  · exact ⟨hopening.not_meets hne (hdestination s hs), fun h => hopening.not_meets hne (hsource r hr) h.symm⟩

/-- A second pass over what was written finds nothing. -/
theorem moveReferences?_written (hrules : relocator.IsIndependent) {bytes moved : Bytes}
    (hmoved : relocator.moveReferences? bytes = some moved) : relocator.moveReferences? moved = none := by
  have hnone := moveReferences?_of_inert hrules.independent_forms.inert bytes
  rwa [hmoved, Option.getD_some] at hnone

theorem moveReferences?_written_of_nested_packages :
    ∃ relocator : Relocator, relocator.rules.map Rule.source = ["org.a.b".toList, "org.a".toList] ∧
      relocator.IsIndependent ∧ ∃ moved, relocator.moveReferences? (Text.Utf8.encode "(Lorg/a/b/C;Lorg/a/D;)V".toList) =
        some moved ∧ relocator.moveReferences? moved = none := by
  let nested : Rule := ⟨"org.a.b".toList, "y.b".toList, by decide, by decide, by decide⟩
  let outer : Rule := ⟨"org.a".toList, "x.a".toList, by decide, by decide, by decide⟩
  have hrules : IsIndependent ⟨[nested, outer], by decide⟩ := by
    refine isIndependent_of_plain (fun r hr => ?_) (fun r hr => ?_) (by decide)
    · rcases List.mem_pair.1 hr with rfl | rfl
      · exact ⟨'o', _, rfl, by decide⟩
      · exact ⟨'o', _, rfl, by decide⟩
    · rcases List.mem_pair.1 hr with rfl | rfl
      · exact ⟨'y', _, rfl, by decide⟩
      · exact ⟨'x', _, rfl, by decide⟩
  have hmoved : moveReferences? ⟨[nested, outer], by decide⟩ (Text.Utf8.encode "(Lorg/a/b/C;Lorg/a/D;)V".toList) =
      some (Text.Utf8.encode "(Ly/b/C;Lx/a/D;)V".toList) := by decide +kernel
  exact ⟨⟨[nested, outer], by decide⟩, rfl, hrules, _, hmoved, moveReferences?_written hrules hmoved⟩

end Relocator
end UberJar.Relocation
