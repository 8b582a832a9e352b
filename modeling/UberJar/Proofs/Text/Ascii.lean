import UberJar.Proofs.Text.Blank
import UberJar.Proofs.Text.Utf8

namespace UberJar.Text

/-- The byte of an ASCII character. -/
def asciiByte (c : Char) : UInt8 := UInt8.ofNat c.toNat

theorem toNat_asciiByte {c : Char} (hc : c.toNat < 128) : (asciiByte c).toNat = c.toNat := by
  rw [asciiByte, UInt8.toNat_ofNat']
  omega

theorem ofNat_toNat_asciiByte {c : Char} (hc : c.toNat < 128) : Char.ofNat (asciiByte c).toNat = c := by
  rw [toNat_asciiByte hc, Char.ofNat_toNat]

/-- What holds of the first 128 characters holds of every ASCII character. -/
theorem forall_ascii {P : Char → Prop} (hall : ∀ n < 128, P (Char.ofNat n)) {c : Char} (hc : c.toNat < 128) :
    P c := by
  have h := hall c.toNat hc
  rwa [Char.ofNat_toNat] at h

theorem asciiByte_inj {c d : Char} (hc : c.toNat < 128) (hd : d.toNat < 128) :
    asciiByte c = asciiByte d ↔ c = d := by
  constructor
  · intro h
    rw [← ofNat_toNat_asciiByte hc, h, ofNat_toNat_asciiByte hd]
  · rintro rfl
    rfl

theorem Utf8.utf8EncodeChar_of_ascii {c : Char} (hc : c.toNat < 128) : String.utf8EncodeChar c = [asciiByte c] := by
  have hle : c.val.toNat ≤ 0x7f := Nat.le_of_lt_succ hc
  simp only [String.utf8EncodeChar, if_pos hle]
  rfl

theorem Utf8.encode_eq_map_asciiByte {cs : List Char} (hcs : ∀ c ∈ cs, c.toNat < 128) :
    Utf8.encode cs = cs.map asciiByte := by
  induction cs with
  | nil => rfl
  | cons c cs ih =>
    have hone := utf8EncodeChar_of_ascii (hcs c List.mem_cons_self)
    have hrest := ih fun d hd => hcs d (List.mem_cons_of_mem _ hd)
    simp only [Utf8.encode, List.flatMap_cons, List.map_cons] at hrest ⊢
    rw [hone, hrest, List.singleton_append]

/-- A byte of ASCII in the form of a text is a character of the text. -/
theorem Utf8.asciiByte_mem_iff {cs : List Char} {d : Char} (hd : d.toNat < 128) :
    asciiByte d ∈ Utf8.encode cs ↔ d ∈ cs := by
  constructor
  · intro hmem
    obtain ⟨c, hc, hbyte⟩ := List.mem_flatMap.1 hmem
    by_cases hascii : c.toNat < 128
    · rw [utf8EncodeChar_of_ascii hascii, List.mem_singleton] at hbyte
      exact (asciiByte_inj hd hascii).1 hbyte ▸ hc
    · have hle := le_of_mem_utf8EncodeChar (Nat.le_of_not_lt hascii) _ hbyte
      rw [UInt8.le_iff_toNat_le, toNat_asciiByte hd] at hle
      exact absurd hd (Nat.not_lt_of_le hle)
  · intro hmem
    exact List.mem_flatMap.2 ⟨d, hmem, by simp [utf8EncodeChar_of_ascii hd]⟩

theorem toLower_of_not_ascii {c : Char} (hc : ¬c.toNat < 128) : c.toLower = c := by
  refine dif_neg fun hupper => hc ?_
  exact Nat.lt_of_le_of_lt hupper.2 (by decide)

theorem toLower_cases (c : Char) : c.toLower = c ∨ (c.isAlpha = true ∧ c.toLower.isAlpha = true) := by
  by_cases hc : c.toNat < 128
  · exact forall_ascii (P := fun c => c.toLower = c ∨ (c.isAlpha = true ∧ c.toLower.isAlpha = true)) (by decide) hc
  · exact .inl (toLower_of_not_ascii hc)

/-- What is no letter comes from nothing but itself. -/
theorem mem_map_toLower_iff {cs : List Char} {d : Char} (hd : d.isAlpha = false) :
    d ∈ cs.map Char.toLower ↔ d ∈ cs := by
  constructor
  · intro hmem
    obtain ⟨c, hc, rfl⟩ := List.mem_map.1 hmem
    rcases toLower_cases c with hsame | ⟨-, halpha⟩
    · rwa [hsame]
    · simp [hd] at halpha
  · intro hmem
    rcases toLower_cases d with hsame | ⟨halpha, -⟩
    · exact List.mem_map.2 ⟨d, hmem, hsame⟩
    · simp [hd] at halpha

theorem isBlank_toLower (c : Char) : isBlank c.toLower = isBlank c := by
  by_cases hc : c.toNat < 128
  · exact forall_ascii (P := fun c => isBlank c.toLower = isBlank c) (by decide) hc
  · rw [toLower_of_not_ascii hc]

theorem trim_map_toLower (cs : List Char) : trim (cs.map Char.toLower) = (trim cs).map Char.toLower := by
  have hblank : isBlank ∘ Char.toLower = isBlank := funext isBlank_toLower
  simp only [trim, dropAround, dropEndWhile, List.dropWhile_map, hblank, ← List.map_reverse]

/-- Whether a text is trimmed does not depend on the case of its letters. -/
theorem trim_eq_self_of_toLower {a b : List Char} (hsame : a.map Char.toLower = b.map Char.toLower) (hb : trim b = b) :
    trim a = a := by
  have hlower : (trim a).map Char.toLower = a.map Char.toLower := by
    rw [← trim_map_toLower, hsame, trim_map_toLower, hb]
  exact (trim_sublist a).eq_of_length (by simpa using congrArg List.length hlower)

end UberJar.Text
