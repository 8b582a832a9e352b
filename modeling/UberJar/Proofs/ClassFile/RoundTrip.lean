import UberJar.ClassFile.Basic
import UberJar.Proofs.Bytes
import UberJar.Proofs.Except

namespace UberJar.ClassFile

/-- A constant that can be read back: a text within its length field, or a payload of the length that its tag
    announces. -/
def Constant.WellFormed : Constant → Prop
  | .utf8 text => text.length ≤ maxLength
  | .other tag payload => payloadLength? tag = some payload.length

namespace Constant

theorem wellFormed_tag_ne {tag : UInt8} {payload : Bytes} (hwf : (other tag payload).WellFormed) :
    tag ≠ utf8Tag := by
  rintro rfl
  simp [WellFormed, payloadLength?, utf8Tag] at hwf

theorem eq_encode_of_read {index offset : Nat} {bytes rest : Bytes} {constant : Constant}
    (hread : read index offset bytes = .ok (constant, rest)) :
    constant.WellFormed ∧ bytes = constant.encode ++ rest := by
  unfold read at hread
  split at hread
  · simp at hread
  · rename_i tag body
    split at hread
    · rename_i htag
      split at hread
      · simp at hread
      · rename_i length body' hlength
        split at hread
        · simp at hread
        · rename_i text rest' htext
          simp only [Except.ok.injEq, Prod.mk.injEq] at hread
          obtain ⟨rfl, rfl⟩ := hread
          obtain ⟨rfl, hwidth⟩ := Bytes.take?_eq_some.1 hlength
          obtain ⟨rfl, hsize⟩ := Bytes.take?_eq_some.1 htext
          have hlt := Bytes.toNatBE_lt length
          rw [hwidth] at hlt
          refine ⟨by simp only [WellFormed, maxLength]; omega, ?_⟩
          rw [encode, hsize, Bytes.ofNatBE_toNatBE hwidth, htag]
          simp
    · split at hread
      · simp at hread
      · rename_i length hpayload
        split at hread
        · simp at hread
        · rename_i payload rest' hbody
          simp only [Except.ok.injEq, Prod.mk.injEq] at hread
          obtain ⟨rfl, rfl⟩ := hread
          obtain ⟨rfl, hsize⟩ := Bytes.take?_eq_some.1 hbody
          exact ⟨by simpa [WellFormed, hsize] using hpayload, by simp [encode]⟩

/-- A constant is read back from its own bytes, whatever follows them. -/
theorem read_encode {constant : Constant} (hwf : constant.WellFormed) (index offset : Nat) (rest : Bytes) :
    read index offset (constant.encode ++ rest) = .ok (constant, rest) := by
  cases constant with
  | utf8 text =>
    have hlt : text.length < 256 ^ 2 := by
      simp only [WellFormed, maxLength] at hwf
      omega
    have hlength : Bytes.take? 2 (Bytes.ofNatBE 2 text.length ++ (text ++ rest)) =
        some (Bytes.ofNatBE 2 text.length, text ++ rest) :=
      Bytes.take?_eq_some.2 ⟨rfl, Bytes.length_ofNatBE 2 text.length⟩
    have htext : Bytes.take? text.length (text ++ rest) = some (text, rest) :=
      Bytes.take?_eq_some.2 ⟨rfl, rfl⟩
    simp only [encode, List.cons_append, List.append_assoc, read, if_true, hlength,
      Bytes.toNatBE_ofNatBE hlt, htext]
  | other tag payload =>
    have hbody : Bytes.take? payload.length (payload ++ rest) = some (payload, rest) :=
      Bytes.take?_eq_some.2 ⟨rfl, rfl⟩
    have htag := wellFormed_tag_ne hwf
    simp only [WellFormed] at hwf
    simp only [encode, List.cons_append, read, if_neg htag, hwf, hbody]

/-- Whether constants, put one behind the other from slot `index` on, reach slot `count` with the last of them
    and not before. A constant of two slots may reach beyond. -/
def Fill (count index : Nat) : List Constant → Prop
  | [] => count ≤ index
  | constant :: rest => index < count ∧ Fill count (index + constant.slots) rest

/-- Reading stops as soon as the slots are filled, having read the constants in front of the rest. -/
theorem readOnto_eq_ok_iff {known constants : List Constant} {count index offset : Nat} {bytes tail : Bytes} :
    readOnto known count index offset bytes = .ok (constants, tail) ↔
      ∃ new : List Constant, constants = new.reverse ++ known ∧ (∀ c ∈ new, c.WellFormed) ∧
        Fill count index new ∧ bytes = new.flatMap encode ++ tail := by
  fun_induction readOnto known count index offset bytes with
  | case1 known index offset bytes hlt e hread =>
    simp only [reduceCtorEq, false_iff]
    rintro ⟨new, -, hwf, hfill, rfl⟩
    cases new with
    | nil => exact absurd hfill (Nat.not_le.2 hlt)
    | cons c new =>
      rw [List.flatMap_cons, List.append_assoc, read_encode (hwf c List.mem_cons_self)] at hread
      cases hread
  | case2 known index offset bytes hlt constant rest hread ih =>
    obtain ⟨hwf, rfl⟩ := eq_encode_of_read hread
    rw [ih]
    constructor
    · rintro ⟨new, rfl, hnew, hfill, rfl⟩
      exact ⟨constant :: new, by simp, by simpa using ⟨hwf, hnew⟩, ⟨hlt, hfill⟩, by simp⟩
    · rintro ⟨new, rfl, hnew, hfill, hbytes⟩
      cases new with
      | nil => exact absurd hfill (Nat.not_le.2 hlt)
      | cons c new =>
        rw [hbytes, List.flatMap_cons, List.append_assoc, read_encode (hnew c List.mem_cons_self)] at hread
        obtain ⟨rfl, rfl⟩ := Prod.mk.inj (Except.ok.inj hread)
        exact ⟨new, by simp, fun d hd => hnew d (by simp [hd]), hfill.2, rfl⟩
  | case3 known index offset bytes hge =>
    simp only [Except.ok.injEq, Prod.mk.injEq]
    constructor
    · rintro ⟨rfl, rfl⟩
      exact ⟨[], by simp, by simp, Nat.le_of_not_lt hge, by simp⟩
    · rintro ⟨new, rfl, -, hfill, rfl⟩
      cases new with
      | nil => simp
      | cons c new => exact absurd hfill.1 hge

end Constant

/-- A class file that can be read back: its constants can, and they fill the declared slots. -/
structure WellFormed (c : ClassFile) : Prop where
  constants : ∀ constant ∈ c.constants, constant.WellFormed
  fill : Constant.Fill c.count.toNat 1 c.constants

theorem readNat_eq_ok_iff {width offset n : Nat} (hn : n < 256 ^ width) {bytes rest : Bytes} :
    readNat width offset bytes = .ok (n, rest) ↔ bytes = Bytes.ofNatBE width n ++ rest := by
  unfold readNat
  constructor
  · intro hread
    split at hread
    · rename_i front rest' htake
      simp only [Except.ok.injEq, Prod.mk.injEq] at hread
      obtain ⟨hvalue, rfl⟩ := hread
      exact (Bytes.take?_number_iff hn |>.1 ⟨htake, hvalue⟩).2
    · simp at hread
  · rintro rfl
    have h : Bytes.take? width (Bytes.ofNatBE width n ++ rest) = some (Bytes.ofNatBE width n, rest) ∧ _ :=
      (Bytes.take?_number_iff hn).2 ⟨rfl, rfl⟩
    simp only [h.1, h.2]

theorem readNat_lt {width offset n : Nat} {bytes rest : Bytes}
    (hread : readNat width offset bytes = .ok (n, rest)) : n < 256 ^ width := by
  unfold readNat at hread
  split at hread
  · rename_i front rest' htake
    simp only [Except.ok.injEq, Prod.mk.injEq] at hread
    obtain ⟨rfl, rfl⟩ := hread
    have hlt := Bytes.toNatBE_lt front
    rwa [(Bytes.take?_eq_some.1 htake).2] at hlt
  · simp at hread

theorem readVersions_eq_ok_iff {bytes rest : Bytes} {minor major : UInt16} :
    readVersions bytes = .ok (minor, major, rest) ↔
      bytes = Bytes.ofNatBE 4 magic.toNat ++
        (Bytes.ofNatBE 2 minor.toNat ++ (Bytes.ofNatBE 2 major.toNat ++ rest)) := by
  have hminor : minor.toNat < 256 ^ 2 := minor.toNat_lt
  have hmajor : major.toNat < 256 ^ 2 := major.toNat_lt
  have hmagic : magic.toNat < 256 ^ 4 := magic.toNat_lt
  unfold readVersions
  rw [bind_eq_ok_iff]
  constructor
  · rintro ⟨⟨found, rest₁⟩, hfound, hread⟩
    dsimp only at hread
    split at hread
    · simp at hread
    · rename_i heq
      obtain rfl : found = magic.toNat := Decidable.not_not.1 heq
      rw [bind_eq_ok_iff] at hread
      obtain ⟨⟨n, rest₂⟩, hn, hread⟩ := hread
      dsimp only at hread
      rw [bind_eq_ok_iff] at hread
      obtain ⟨⟨m, rest₃⟩, hm, hread⟩ := hread
      simp only [pure, Except.pure, Except.ok.injEq, Prod.mk.injEq] at hread
      obtain ⟨rfl, rfl, rfl⟩ := hread
      have hnlt : n < 2 ^ 16 := readNat_lt hn
      have hmlt : m < 2 ^ 16 := readNat_lt hm
      rw [UInt16.toNat_ofNat_of_lt' hnlt, UInt16.toNat_ofNat_of_lt' hmlt]
      rw [(readNat_eq_ok_iff hmagic).1 hfound, (readNat_eq_ok_iff hnlt).1 hn, (readNat_eq_ok_iff hmlt).1 hm]
  · rintro rfl
    refine ⟨_, (readNat_eq_ok_iff hmagic).2 rfl, ?_⟩
    dsimp only
    rw [if_neg (by simp), bind_eq_ok_iff]
    refine ⟨_, (readNat_eq_ok_iff hminor).2 rfl, ?_⟩
    rw [bind_eq_ok_iff]
    exact ⟨_, (readNat_eq_ok_iff hmajor).2 rfl, by simp [pure, Except.pure]⟩

/-- A byte string is read as a class file exactly if it is what that class file is written as. -/
theorem parse_eq_ok_iff {bytes : Bytes} {c : ClassFile} :
    parse bytes = .ok c ↔ c.WellFormed ∧ bytes = c.encode := by
  have hcount : c.count.toNat < 256 ^ 2 := c.count.toNat_lt
  unfold parse
  rw [bind_eq_ok_iff]
  constructor
  · rintro ⟨⟨minor, major, rest₁⟩, hversions, hread⟩
    dsimp only at hread
    rw [bind_eq_ok_iff] at hread
    obtain ⟨⟨count, rest₂⟩, hn, hread⟩ := hread
    rw [bind_eq_ok_iff] at hread
    obtain ⟨⟨constants, tail⟩, hconstants, hread⟩ := hread
    obtain ⟨new, rfl, hwf, hfill, rfl⟩ := Constant.readOnto_eq_ok_iff.1 hconstants
    simp only [pure, Except.pure, Except.ok.injEq] at hread
    subst hread
    have hlt : count < 2 ^ 16 := readNat_lt hn
    refine ⟨⟨by simpa using hwf, ?_⟩, ?_⟩
    · simpa [UInt16.toNat_ofNat_of_lt' hlt] using hfill
    · rw [readVersions_eq_ok_iff.1 hversions, (readNat_eq_ok_iff hlt).1 hn]
      simp [encode, UInt16.toNat_ofNat_of_lt' hlt]
  · rintro ⟨hwf, rfl⟩
    refine ⟨(c.minor, c.major, Bytes.ofNatBE 2 c.count.toNat ++ (c.constants.flatMap Constant.encode ++ c.tail)),
      readVersions_eq_ok_iff.2 (by simp only [encode, List.append_assoc]), ?_⟩
    dsimp only
    rw [bind_eq_ok_iff]
    refine ⟨_, (readNat_eq_ok_iff hcount).2 rfl, ?_⟩
    rw [bind_eq_ok_iff]
    refine ⟨_, Constant.readOnto_eq_ok_iff.2 ⟨c.constants, rfl, hwf.constants, hwf.fill, rfl⟩, ?_⟩
    simp [pure, Except.pure]

theorem encode_inj {c c' : ClassFile} (hwf : c.WellFormed) (hwf' : c'.WellFormed) (hencode : c.encode = c'.encode) :
    c = c' := by
  have hparse : parse c.encode = .ok c := parse_eq_ok_iff.2 ⟨hwf, rfl⟩
  have hparse' : parse c.encode = .ok c' := parse_eq_ok_iff.2 ⟨hwf', hencode⟩
  exact Except.ok.inj (hparse.symm.trans hparse')

end UberJar.ClassFile
