import Mathlib.Data.List.Basic
import Mathlib.Data.List.TakeWhile
import UberJar.Relocation.References

namespace UberJar.Relocation.Reference

/-- No name goes on behind `before`: it is empty, or its last byte is in no name. -/
def IsOutside (before : Bytes) : Prop := ∀ b ∈ before.getLast?, isNamePart b = false

/-- A reference may start behind `before`: where no name goes on, and in slash form also behind the slash of an absolute
    resource name, and behind an object type with primitive types before it. -/
def MayStart (separator : UInt8) (before : Bytes) : Prop :=
  IsOutside before ∨
    separator = 0x2F ∧ (before = [0x2F] ∨
      ∃ outer primitives, before = outer ++ primitives ++ [0x4C] ∧ IsOutside outer ∧
        ∀ b ∈ primitives, isPrimitive b = true)

/-- A package may end before `rest`: it is empty, or begins with a separator, a `$` or a byte that is in no name. -/
def MayEnd (separator : UInt8) (rest : Bytes) : Prop :=
  ∀ b ∈ rest.head?, b = separator ∨ b = 0x24 ∨ isNamePart b = false

theorem isNamePart_of_isPrimitive {b : UInt8} (hb : isPrimitive b = true) : isNamePart b = true := by
  simp only [isPrimitive, Bool.or_eq_true, beq_iff_eq] at hb
  rcases hb with ((((((rfl | rfl) | rfl) | rfl) | rfl) | rfl) | rfl) | rfl <;> decide

/-- Behind a byte of a name only the slash form starts a reference, and only behind a first slash or an object type. -/
theorem startsAfter_cons_iff {separator last : UInt8} {earlier : Bytes} :
    startsAfter separator (last :: earlier) = true ↔
      isNamePart last = false ∨
        separator = 0x2F ∧ (last = 0x2F ∧ earlier = [] ∨
          last = 0x4C ∧ ∀ b ∈ (earlier.dropWhile isPrimitive).head?, isNamePart b = false) := by
  cases hlast : isNamePart last with
  | false => simp [startsAfter, hlast]
  | true =>
    simp only [startsAfter, hlast, Bool.not_true, Bool.false_eq_true, if_false, Bool.true_eq_false, false_or]
    by_cases hseparator : separator = 0x2F
    · by_cases hslash : last = 0x2F
      · simp [hseparator, hslash]
      · by_cases hobject : last = 0x4C
        · subst hobject
          cases earlier.dropWhile isPrimitive <;> simp [hseparator]
        · simp [hseparator, hslash, hobject]
    · simp [hseparator]

/-- Behind a name a reference starts only if the name is a slash at the very beginning, or reads as an object type:
    primitive types and an `L`, with nothing but primitive types between it and the byte before that is in no name. -/
theorem startsAfter_name {separator : UInt8} {name before : Bytes} (hne : name ≠ [])
    (hnamed : ∀ b ∈ name, isNamePart b = true) (hstarts : startsAfter separator (name.reverse ++ before) = true) :
    separator = 0x2F ∧ (name = [0x2F] ∧ before = [] ∨
      ∃ primitives, name = primitives ++ [0x4C] ∧ (∀ b ∈ primitives, isPrimitive b = true) ∧
        ∀ b ∈ (before.dropWhile isPrimitive).head?, isNamePart b = false) := by
  obtain ⟨init, last, rfl⟩ := (List.eq_nil_or_concat' name).resolve_left hne
  have hlast : isNamePart last = true := hnamed last (by simp)
  rw [List.reverse_append, List.reverse_singleton, List.singleton_append, List.cons_append, startsAfter_cons_iff,
    hlast] at hstarts
  obtain ⟨hseparator, ⟨rfl, hempty⟩ | ⟨rfl, houtside⟩⟩ := hstarts.resolve_left (by decide)
  · rw [List.append_eq_nil_iff, List.reverse_eq_nil_iff] at hempty
    exact ⟨hseparator, .inl ⟨by simp [hempty.1], hempty.2⟩⟩
  · refine ⟨hseparator, .inr ⟨init, rfl, ?_⟩⟩
    rw [List.dropWhile_append] at houtside
    cases hdrop : init.reverse.dropWhile isPrimitive with
    | nil =>
      rw [hdrop] at houtside
      exact ⟨fun b hb => List.dropWhile_eq_nil_iff.1 hdrop b (List.mem_reverse.2 hb), houtside⟩
    | cons b rest =>
      -- The run of primitive types ends at a byte of the name.
      have hb : b ∈ init :=
        List.mem_reverse.1 ((List.dropWhile_suffix isPrimitive).subset (hdrop ▸ List.mem_cons_self))
      rw [hdrop] at houtside
      have hunnamed := houtside b (by simp)
      rw [hnamed b (by simp [hb])] at hunnamed
      cases hunnamed

/-- Primitive types are looked back over until there are no more. -/
theorem head?_dropWhile_isPrimitive_iff {earlier : Bytes} :
    (∀ b ∈ (earlier.dropWhile isPrimitive).head?, isNamePart b = false) ↔
      ∃ primitives outer, earlier = primitives ++ outer ∧ (∀ b ∈ primitives, isPrimitive b = true) ∧
        ∀ b ∈ outer.head?, isNamePart b = false := by
  constructor
  · intro houtside
    exact ⟨_, _, List.takeWhile_append_dropWhile.symm, List.all_eq_true.1 List.all_takeWhile, houtside⟩
  · rintro ⟨primitives, outer, rfl, hprimitives, houter⟩
    rw [List.dropWhile_append_of_pos hprimitives]
    cases outer with
    | nil => simp
    | cons b rest =>
      have hb : isNamePart b = false := houter b rfl
      have hprimitive : ¬isPrimitive b = true := fun h => by simp [isNamePart_of_isPrimitive h] at hb
      rwa [List.dropWhile_cons_of_neg hprimitive]

theorem startsAfter_reverse_iff {separator : UInt8} {before : Bytes} :
    startsAfter separator before.reverse = true ↔ MayStart separator before := by
  obtain rfl | ⟨init, last, rfl⟩ := List.eq_nil_or_concat' before
  · simp [startsAfter, MayStart, IsOutside]
  · rw [List.reverse_append, List.reverse_singleton, List.singleton_append, startsAfter_cons_iff,
      head?_dropWhile_isPrimitive_iff]
    refine or_congr (by simp [IsOutside]) (and_congr_right fun _ => ?_)
    refine or_congr (by simp [List.append_eq_singleton_iff, and_comm]) ?_
    constructor
    · rintro ⟨rfl, primitives, outer, hsplit, hprimitives, houter⟩
      refine ⟨outer.reverse, primitives.reverse, ?_, by simpa [IsOutside] using houter, by simpa using hprimitives⟩
      rw [← List.reverse_append, ← hsplit, List.reverse_reverse]
    · rintro ⟨outer, primitives, hsplit, houter, hprimitives⟩
      obtain ⟨rfl, hlast⟩ := List.append_inj' hsplit rfl
      exact ⟨by simpa using hlast, primitives.reverse, outer.reverse, by simp, by simpa using hprimitives,
        by simpa [IsOutside] using houter⟩

theorem endsBefore_iff {separator : UInt8} {rest : Bytes} :
    endsBefore separator rest = true ↔ MayEnd separator rest := by
  cases rest <;> simp [endsBefore, MayEnd, or_assoc]

end UberJar.Relocation.Reference
