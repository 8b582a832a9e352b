import UberJar.Proofs.ClassFile.Pool
import UberJar.Proofs.ClassFile.RoundTrip

namespace UberJar.ClassFile

/-- What a text becomes: `f` gives nothing for a text that stays. -/
def replacement (f : Bytes → Option Bytes) (text : Bytes) : Bytes := (f text).getD text

/-- The slot and the new length of the first text that changes and becomes too long. -/
def FirstTooLong (f : Bytes → Option Bytes) (c : ClassFile) (slot length : Nat) : Prop :=
  ∃ front text back, c.pool = front ++ Slot.text text :: back ∧ slot = front.length ∧
    replacement f text ≠ text ∧ length = (replacement f text).length ∧ Constant.maxLength < length ∧
    ∀ t, Slot.text t ∈ front → replacement f t ≠ t → (replacement f t).length ≤ Constant.maxLength

/-- The bytes before the pool: magic number, versions and the declared number of slots. -/
def header (c : ClassFile) : Bytes :=
  Bytes.ofNatBE 4 magic.toNat ++ Bytes.ofNatBE 2 c.minor.toNat ++ Bytes.ofNatBE 2 c.major.toNat ++
    Bytes.ofNatBE 2 c.count.toNat

/-- `new` is `old` with every text replaced, slot by slot, and all other bytes in place. -/
structure Replaced (f : Bytes → Option Bytes) (old new : ClassFile) : Prop where
  parses : parse new.encode = .ok new
  minor : new.minor = old.minor
  major : new.major = old.major
  slotCount : new.slotCount = old.slotCount
  pool : new.pool = old.pool.map (Slot.mapText (replacement f))
  old_bytes : old.encode = old.header ++ old.constants.flatMap Constant.encode ++ old.tail
  new_bytes : new.encode = old.header ++ new.constants.flatMap Constant.encode ++ old.tail

theorem length_le_of_wellFormed {c : ClassFile} (hwf : c.WellFormed) {text : Bytes}
    (htext : Slot.text text ∈ c.pool) : text.length ≤ Constant.maxLength := by
  obtain ⟨constant, hmem, hsome⟩ := List.mem_filterMap.1 (mem_texts_iff.2 htext)
  cases constant with
  | utf8 bytes =>
    simp only [Constant.text?, Option.some.injEq] at hsome
    exact hsome ▸ hwf.constants _ hmem
  | other tag payload => simp [Constant.text?] at hsome

theorem constants_mapTexts_eq_iff {c : ClassFile} {g : Bytes → Bytes} :
    (c.mapTexts g).constants = c.constants ↔ ∀ text ∈ c.texts, g text = text := by
  have hmap : (c.mapTexts g).constants = c.constants ↔
      c.constants.map (Constant.mapText g) = c.constants.map id := by
    rw [List.map_id, mapTexts]
  rw [hmap, List.map_inj_left]
  simp only [texts, List.mem_filterMap, id]
  constructor
  · rintro h text ⟨constant, hmem, hsome⟩
    cases constant with
    | utf8 bytes =>
      simp only [Constant.text?, Option.some.injEq] at hsome
      subst hsome
      simpa [Constant.mapText] using h _ hmem
    | other tag payload => simp [Constant.text?] at hsome
  · intro h constant hmem
    cases constant with
    | utf8 bytes => simp [Constant.mapText, h bytes ⟨_, hmem, rfl⟩]
    | other tag payload => rfl

theorem Constant.fill_map_mapText {count index : Nat} {g : Bytes → Bytes} {constants : List Constant} :
    Fill count index (constants.map (mapText g)) ↔ Fill count index constants := by
  induction constants generalizing index with
  | nil => rfl
  | cons constant constants ih => simp [Fill, ih]

/-- Texts that keep within their length fields leave a class file that can be read back. -/
theorem WellFormed.mapTexts {c : ClassFile} (hwf : c.WellFormed) {g : Bytes → Bytes}
    (hlength : ∀ text, Slot.text text ∈ (c.mapTexts g).pool → text.length ≤ Constant.maxLength) :
    (c.mapTexts g).WellFormed := by
  refine ⟨fun constant hmem => ?_, Constant.fill_map_mapText.2 hwf.fill⟩
  obtain ⟨constant, hold, rfl⟩ := List.mem_map.1 hmem
  cases constant with
  | utf8 text => exact hlength _ (mem_texts_iff.1 (List.mem_filterMap.2 ⟨_, hmem, rfl⟩))
  | other tag payload => exact hwf.constants _ hold

/-- Unchanged texts are never too long, so the first text that is too long after the replacement is the first
    changed one that is. -/
theorem firstTooLong_iff {c : ClassFile} (hwf : c.WellFormed) {f : Bytes → Option Bytes} {slot length : Nat} :
    FirstTooLong f c slot length ↔
      tooLong? 1 (c.mapTexts (replacement f)).constants = some (slot, length) := by
  have hslots : (c.mapTexts (replacement f)).constants.flatMap Constant.toSlots =
      (c.constants.flatMap Constant.toSlots).map (Slot.mapText (replacement f)) := by
    simpa [pool, Slot.mapText] using pool_mapTexts (replacement f) c
  have hunchanged {text : Bytes} (htext : Slot.text text ∈ c.pool) (hsame : replacement f text = text) :
      (replacement f text).length ≤ Constant.maxLength := by
    rw [hsame]
    exact length_le_of_wellFormed hwf htext
  simp only [tooLong?_eq_some_iff, hslots, firstLong_map]
  constructor
  · rintro ⟨front, text, back, hpool, rfl, -, rfl, hlong, hfront⟩
    cases front with
    | nil => simp [pool] at hpool
    | cons first front =>
      obtain ⟨rfl, hsplit⟩ := List.cons.inj hpool
      refine ⟨_, _, ⟨front, text, back, hsplit, rfl, rfl, hlong, fun t ht => ?_⟩, by simp [Nat.add_comm], rfl⟩
      by_cases hsame : replacement f t = t
      · exact hunchanged (by simp [hpool, ht]) hsame
      · exact hfront t (List.mem_cons_of_mem _ ht) hsame
  · rintro ⟨_, _, ⟨front, text, back, hsplit, rfl, rfl, hlong, hfront⟩, rfl, rfl⟩
    refine ⟨.unusable :: front, text, back, by simp [pool, hsplit], by simp [Nat.add_comm], fun hsame => ?_, rfl, hlong,
      fun t ht _ => hfront t (by simpa using ht)⟩
    exact absurd (hunchanged (by simp [pool, hsplit]) hsame) (Nat.not_le.2 hlong)

theorem replaceTexts_eq_ok_none_iff {c : ClassFile} {f : Bytes → Option Bytes} :
    c.replaceTexts f = .ok none ↔ ∀ text ∈ c.texts, replacement f text = text := by
  have hrenamed : (c.mapTexts fun text => (f text).getD text) = c.mapTexts (replacement f) := rfl
  rw [← constants_mapTexts_eq_iff, replaceTexts, hrenamed]
  by_cases hsame : (c.mapTexts (replacement f)).constants = c.constants
  · simp [hsame]
  · cases tooLong? 1 (c.mapTexts (replacement f)).constants <;> simp [hsame]

theorem replaceTexts_eq_ok_some {c new : ClassFile} (hwf : c.WellFormed) {f : Bytes → Option Bytes}
    (hreplace : c.replaceTexts f = .ok (some new)) : new = c.mapTexts (replacement f) ∧ new.WellFormed := by
  have hrenamed : (c.mapTexts fun text => (f text).getD text) = c.mapTexts (replacement f) := rfl
  rw [replaceTexts, hrenamed] at hreplace
  by_cases hsame : (c.mapTexts (replacement f)).constants = c.constants
  · simp [hsame] at hreplace
  · cases hlong : tooLong? 1 (c.mapTexts (replacement f)).constants with
    | some found => simp [hsame, hlong] at hreplace
    | none =>
      simp only [if_neg hsame, hlong, Except.ok.injEq, Option.some.injEq] at hreplace
      subst hreplace
      refine ⟨rfl, hwf.mapTexts fun text hmem => ?_⟩
      exact tooLong?_eq_none_iff.1 hlong text (by simpa [pool] using hmem)

/-- Texts that all stay are not reported as replaced, even where each of them was written anew. -/
theorem ne_of_replaceTexts {c new : ClassFile} (hwf : c.WellFormed) {f : Bytes → Option Bytes}
    (hreplace : c.replaceTexts f = .ok (some new)) : new ≠ c := by
  rintro rfl
  have hmapped := (replaceTexts_eq_ok_some hwf hreplace).1
  have hsame := constants_mapTexts_eq_iff.1 (congrArg constants hmapped.symm)
  rw [replaceTexts_eq_ok_none_iff.2 hsame] at hreplace
  cases hreplace

/-- Replacing texts has exactly three outcomes. It gives nothing if no text changes; it names the slot and the
    length of the first changed text that is too long, if there is one; and else it gives a class file that
    reads back, with the same versions, every slot at its place and all bytes but those of texts unchanged. -/
theorem replaceTexts_outcome {data : Bytes} {c : ClassFile} (hparse : parse data = .ok c)
    (f : Bytes → Option Bytes) :
    data = c.encode ∧
      (c.replaceTexts f = .ok none ↔ ∀ text ∈ c.texts, replacement f text = text) ∧
      (∀ e, c.replaceTexts f = .error e ↔
        ∃ slot length, e = .constantTooLong slot length ∧ FirstTooLong f c slot length) ∧
      ((∃ text ∈ c.texts, replacement f text ≠ text) → (¬ ∃ slot length, FirstTooLong f c slot length) →
        ∃ new, c.replaceTexts f = .ok (some new) ∧ Replaced f c new) := by
  obtain ⟨hwf, hdata⟩ := parse_eq_ok_iff.1 hparse
  have hrenamed : (c.mapTexts fun text => (f text).getD text) = c.mapTexts (replacement f) := rfl
  refine ⟨hdata, replaceTexts_eq_ok_none_iff, ?_⟩
  unfold replaceTexts
  dsimp only
  rw [hrenamed]
  by_cases hsame : (c.mapTexts (replacement f)).constants = c.constants
  · have htexts := constants_mapTexts_eq_iff.1 hsame
    simp only [if_pos hsame]
    refine ⟨?_, ?_⟩
    · intro e
      simp only [reduceCtorEq, false_iff]
      rintro ⟨slot, length, -, front, text, back, hpool, -, hne, -⟩
      exact hne (htexts text (mem_texts_iff.2 (by simp [hpool])))
    · rintro ⟨text, hmem, hne⟩
      exact absurd (htexts text hmem) hne
  · simp only [if_neg hsame]
    cases hlong : tooLong? 1 (c.mapTexts (replacement f)).constants with
    | some found =>
      obtain ⟨slot, length⟩ := found
      have hfirst := (firstTooLong_iff hwf).2 hlong
      refine ⟨?_, fun _ hno => absurd ⟨slot, length, hfirst⟩ hno⟩
      intro e
      constructor
      · rintro ⟨⟩
        exact ⟨slot, length, rfl, hfirst⟩
      · rintro ⟨slot', length', rfl, hfirst'⟩
        have h := (firstTooLong_iff hwf).1 hfirst'
        rw [hlong] at h
        simp only [Option.some.injEq, Prod.mk.injEq] at h
        simp [h.1, h.2]
    | none =>
      have hshort : ∀ text, Slot.text text ∈ (c.mapTexts (replacement f)).pool →
          text.length ≤ Constant.maxLength := by
        intro text hmem
        exact tooLong?_eq_none_iff.1 hlong text (by simpa [pool] using hmem)
      refine ⟨?_, fun _ _ => ⟨_, rfl, ?_⟩⟩
      · intro e
        simp only [reduceCtorEq, false_iff]
        rintro ⟨slot, length, -, hfirst⟩
        simp [(firstTooLong_iff hwf).1 hfirst] at hlong
      · exact {
          parses := parse_eq_ok_iff.2 ⟨hwf.mapTexts hshort, rfl⟩
          minor := rfl
          major := rfl
          slotCount := by rw [← length_pool, ← length_pool, pool_mapTexts, List.length_map]
          pool := pool_mapTexts _ c
          old_bytes := rfl
          new_bytes := rfl }

/-- A `long` in slots 1 and 2, texts in slots 3 and 4, of which the second grows. -/
theorem replaceTexts_outcome_behind_long :
    parse [0xCA, 0xFE, 0xBA, 0xBE, 0, 0, 0, 65, 0, 5, 5, 0, 0, 0, 0, 0, 0, 0, 42, 1, 0, 1, 0x61, 1, 0, 1, 0x62, 0x21] =
        .ok ⟨0, 65, 5, [.other 5 [0, 0, 0, 0, 0, 0, 0, 42], .utf8 [0x61], .utf8 [0x62]], [0x21]⟩ ∧
      ∃ new, replaceTexts (fun text => if text = [0x62] then some [0x63, 0x63] else none)
          ⟨0, 65, 5, [.other 5 [0, 0, 0, 0, 0, 0, 0, 42], .utf8 [0x61], .utf8 [0x62]], [0x21]⟩ = .ok (some new) ∧
        Replaced (fun text => if text = [0x62] then some [0x63, 0x63] else none)
          ⟨0, 65, 5, [.other 5 [0, 0, 0, 0, 0, 0, 0, 42], .utf8 [0x61], .utf8 [0x62]], [0x21]⟩ new := by
  have hparse : parse [0xCA, 0xFE, 0xBA, 0xBE, 0, 0, 0, 65, 0, 5, 5, 0, 0, 0, 0, 0, 0, 0, 42, 1, 0, 1, 0x61,
      1, 0, 1, 0x62, 0x21] =
      .ok ⟨0, 65, 5, [.other 5 [0, 0, 0, 0, 0, 0, 0, 42], .utf8 [0x61], .utf8 [0x62]], [0x21]⟩ := by
    cbv
  refine ⟨hparse, (replaceTexts_outcome hparse _).2.2.2 ⟨[0x62], by decide, by decide⟩ ?_⟩
  rintro ⟨slot, length, hfirst⟩
  have hlong := (firstTooLong_iff (parse_eq_ok_iff.1 hparse).1).1 hfirst
  simp [tooLong?, mapTexts, Constant.mapText, replacement, Constant.maxLength] at hlong

end UberJar.ClassFile
