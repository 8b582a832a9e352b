import UberJar.ClassFile.Basic

namespace UberJar.ClassFile

/-- What a slot holds: nothing in slot 0 and behind a constant of two slots, else a constant. -/
inductive Slot
  | unusable
  | text (bytes : Bytes)
  | other (tag : UInt8) (payload : Bytes)
  deriving DecidableEq, Repr

/-- Passes a text through `f`; other slots stay. -/
def Slot.mapText (f : Bytes → Bytes) : Slot → Slot
  | text bytes => text (f bytes)
  | unusable => unusable
  | other tag payload => other tag payload

theorem Slot.mapText_eq_text_iff {f : Bytes → Bytes} {slot : Slot} {new : Bytes} :
    slot.mapText f = .text new ↔ ∃ text, slot = .text text ∧ f text = new := by
  cases slot <;> simp [mapText]

namespace Constant

/-- The slots of a constant. -/
def toSlots : Constant → List Slot
  | utf8 text => [.text text]
  | other tag payload => .other tag payload :: List.replicate ((other tag payload).slots - 1) .unusable

@[simp] theorem length_toSlots (c : Constant) : c.toSlots.length = c.slots := by
  cases c with
  | utf8 text => rfl
  | other tag payload =>
    have := one_le_slots (other tag payload)
    simp only [toSlots, List.length_cons, List.length_replicate]
    omega

theorem text_notMem_toSlots_other (tag : UInt8) (payload text : Bytes) :
    Slot.text text ∉ (other tag payload).toSlots := by
  simp [toSlots]

@[simp] theorem slots_mapText (f : Bytes → Bytes) (c : Constant) : (c.mapText f).slots = c.slots := by
  cases c <;> rfl

@[simp] theorem toSlots_mapText (f : Bytes → Bytes) (c : Constant) :
    (c.mapText f).toSlots = c.toSlots.map (Slot.mapText f) := by
  cases c <;> simp [mapText, toSlots, Slot.mapText]

end Constant

/-- The slots of the pool. -/
def pool (c : ClassFile) : List Slot := .unusable :: c.constants.flatMap Constant.toSlots

theorem length_pool (c : ClassFile) : c.pool.length = c.slotCount := by
  have h (constants : List Constant) (n : Nat) :
      constants.foldl (fun n constant => n + constant.slots) n =
        n + (constants.flatMap Constant.toSlots).length := by
    induction constants generalizing n with
    | nil => simp
    | cons constant constants ih => simp [ih, Nat.add_assoc]
  rw [slotCount, h, pool, List.length_cons, Nat.add_comm]

theorem pool_mapTexts (f : Bytes → Bytes) (c : ClassFile) :
    (c.mapTexts f).pool = c.pool.map (Slot.mapText f) := by
  simp [pool, mapTexts, Slot.mapText, List.flatMap_map, List.map_flatMap]

theorem mem_texts_iff {c : ClassFile} {text : Bytes} : text ∈ c.texts ↔ Slot.text text ∈ c.pool := by
  simp only [texts, pool, List.mem_filterMap, List.mem_cons, reduceCtorEq, List.mem_flatMap, false_or]
  refine exists_congr fun constant => and_congr_right fun _ => ?_
  cases constant with
  | utf8 bytes => simp [Constant.text?, Constant.toSlots, eq_comm]
  | other tag payload => simp [Constant.text?, Constant.text_notMem_toSlots_other]

/-- The first text in some slots that is too long stands behind the slots `front`. -/
def FirstLong (slots front : List Slot) (text : Bytes) : Prop :=
  ∃ back, slots = front ++ Slot.text text :: back ∧ Constant.maxLength < text.length ∧
    ∀ t, Slot.text t ∈ front → t.length ≤ Constant.maxLength

theorem firstLong_cons_of_long {slots front : List Slot} {first text : Bytes}
    (hlong : Constant.maxLength < first.length) :
    FirstLong (.text first :: slots) front text ↔ front = [] ∧ first = text := by
  constructor
  · rintro ⟨back, hsplit, -, hfront⟩
    cases front with
    | nil => exact ⟨rfl, Slot.text.inj (List.cons.inj hsplit).1⟩
    | cons slot front =>
      obtain ⟨rfl, -⟩ := List.cons.inj hsplit
      exact absurd (hfront first List.mem_cons_self) (Nat.not_le.2 hlong)
  · rintro ⟨rfl, rfl⟩
    exact ⟨slots, rfl, hlong, by simp⟩

/-- What holds no text that is too long comes before the first one. -/
theorem firstLong_append {short slots front : List Slot} {text : Bytes}
    (hshort : ∀ t, Slot.text t ∈ short → t.length ≤ Constant.maxLength) :
    FirstLong (short ++ slots) front text ↔ ∃ rest, front = short ++ rest ∧ FirstLong slots rest text := by
  constructor
  · rintro ⟨back, hsplit, hlong, hfront⟩
    rcases List.append_eq_append_iff.1 hsplit with ⟨rest, rfl, hrest⟩ | ⟨behind, rfl, hbehind⟩
    · exact ⟨rest, rfl, back, hrest, hlong, fun t ht => hfront t (List.mem_append_right _ ht)⟩
    · -- The text itself is none of those that are short.
      cases behind with
      | nil =>
        refine ⟨[], by simp, back, by simpa using hbehind.symm, hlong, by simp⟩
      | cons slot behind =>
        obtain ⟨rfl, -⟩ := List.cons.inj hbehind
        exact absurd (hshort text (by simp)) (Nat.not_le.2 hlong)
  · rintro ⟨rest, rfl, back, rfl, hlong, hrest⟩
    refine ⟨back, by simp, hlong, fun t ht => ?_⟩
    rcases List.mem_append.1 ht with ht | ht
    · exact hshort t ht
    · exact hrest t ht

/-- The first text that becomes too long is the first one whose image is. -/
theorem firstLong_map {f : Bytes → Bytes} {slots mapped : List Slot} {long : Bytes} :
    FirstLong (slots.map (Slot.mapText f)) mapped long ↔
      ∃ front text back, slots = front ++ Slot.text text :: back ∧ front.map (Slot.mapText f) = mapped ∧ f text = long ∧
        Constant.maxLength < long.length ∧ ∀ t, Slot.text t ∈ front → (f t).length ≤ Constant.maxLength := by
  constructor
  · rintro ⟨back, hsplit, hlong, hmapped⟩
    obtain ⟨front, rest, rfl, rfl, hrest⟩ := List.map_eq_append_iff.1 hsplit
    obtain ⟨slot, back, rfl, hslot, rfl⟩ := List.map_eq_cons_iff.1 hrest
    obtain ⟨text, rfl, rfl⟩ := Slot.mapText_eq_text_iff.1 hslot
    exact ⟨front, text, back, rfl, rfl, rfl, hlong, fun t ht => hmapped _ (List.mem_map.2 ⟨_, ht, rfl⟩)⟩
  · rintro ⟨front, text, back, rfl, rfl, rfl, hlong, hfront⟩
    refine ⟨back.map (Slot.mapText f), by simp [Slot.mapText], hlong, fun t ht => ?_⟩
    obtain ⟨slot, hslot, hmapped⟩ := List.mem_map.1 ht
    obtain ⟨text, rfl, rfl⟩ := Slot.mapText_eq_text_iff.1 hmapped
    exact hfront text hslot

/-- The search for a text that is too long finds the first one, and counts all slots before it. -/
theorem tooLong?_eq_some_iff {index slot length : Nat} {constants : List Constant} :
    tooLong? index constants = some (slot, length) ↔
      ∃ front text, FirstLong (constants.flatMap Constant.toSlots) front text ∧
        slot = index + front.length ∧ length = text.length := by
  induction constants generalizing index with
  | nil => simp [tooLong?, FirstLong]
  | cons constant constants ih =>
    have hbehind (hshort : ∀ t, Slot.text t ∈ constant.toSlots → t.length ≤ Constant.maxLength) :
        tooLong? (index + constant.slots) constants = some (slot, length) ↔
          ∃ front text, FirstLong (constant.toSlots ++ constants.flatMap Constant.toSlots) front text ∧
            slot = index + front.length ∧ length = text.length := by
      simp only [ih, firstLong_append hshort]
      constructor
      · rintro ⟨front, text, hfirst, rfl, rfl⟩
        refine ⟨constant.toSlots ++ front, text, ⟨front, rfl, hfirst⟩, ?_, rfl⟩
        rw [List.length_append, Constant.length_toSlots, Nat.add_assoc]
      · rintro ⟨_, text, ⟨front, rfl, hfirst⟩, rfl, rfl⟩
        refine ⟨front, text, hfirst, ?_, rfl⟩
        rw [List.length_append, Constant.length_toSlots, Nat.add_assoc]
    rw [List.flatMap_cons]
    cases constant with
    | utf8 first =>
      rw [tooLong?]
      split
      · rename_i hlong
        simp only [Constant.toSlots, List.singleton_append, firstLong_cons_of_long hlong, Option.some.injEq,
          Prod.mk.injEq]
        constructor
        · rintro ⟨rfl, rfl⟩
          exact ⟨[], first, ⟨rfl, rfl⟩, rfl, rfl⟩
        · rintro ⟨_, _, ⟨rfl, rfl⟩, rfl, rfl⟩
          exact ⟨rfl, rfl⟩
      · rename_i hshort
        exact hbehind fun t ht => by simp_all [Constant.toSlots]
    | other tag payload =>
      simp only [tooLong?]
      exact hbehind fun t ht => absurd ht (Constant.text_notMem_toSlots_other tag payload t)

theorem tooLong?_eq_none_iff {index : Nat} {constants : List Constant} :
    tooLong? index constants = none ↔
      ∀ text, Slot.text text ∈ constants.flatMap Constant.toSlots → text.length ≤ Constant.maxLength := by
  induction constants generalizing index with
  | nil => simp [tooLong?]
  | cons constant constants ih =>
    cases constant with
    | utf8 first =>
      simp only [tooLong?, List.flatMap_cons, Constant.toSlots, List.cons_append, List.nil_append,
        List.mem_cons, Slot.text.injEq]
      split
      · rename_i hlong
        simp only [reduceCtorEq, false_iff]
        intro h
        have := h first (.inl rfl)
        omega
      · rename_i hshort
        rw [ih]
        constructor
        · rintro h text (rfl | hmem)
          · omega
          · exact h text hmem
        · exact fun h text hmem => h text (.inr hmem)
    | other tag payload =>
      have hnone := Constant.text_notMem_toSlots_other tag payload
      simp only [tooLong?, List.flatMap_cons, List.mem_append, hnone, false_or]
      exact ih

end UberJar.ClassFile
