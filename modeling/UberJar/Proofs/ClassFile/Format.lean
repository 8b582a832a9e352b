import UberJar.Proofs.ClassFile.RoundTrip

namespace UberJar.ClassFile

/-- The slots that constants take. -/
def slotsOf : List Constant → Nat
  | [] => 0
  | constant :: constants => constant.slots + slotsOf constants

theorem slotsOf_cons (constant : Constant) (constants : List Constant) :
    slotsOf (constant :: constants) = constant.slots + slotsOf constants := rfl

/-- `bytes` are those of the class file `c`: known and complete constants behind the header, each of which begins in a
    slot below the declared count, and which reach the count together with slot 0. Any tail may follow. -/
structure Spells (c : ClassFile) (bytes : Bytes) : Prop where
  bytes_eq : bytes = c.encode
  known : ∀ constant ∈ c.constants, constant.WellFormed
  below : ∀ front constant back, c.constants = front ++ constant :: back → 1 + slotsOf front < c.count.toNat
  reached : c.count.toNat ≤ 1 + slotsOf c.constants

/-- What is wrong with the bytes of a constant for slot `index`, at byte `offset` of the file. -/
inductive Constant.Fault (index offset : Nat) (bytes : Bytes) : FormatError → Prop
  /-- There is no tag. -/
  | missing (hbytes : bytes = []) : Fault index offset bytes (.truncated offset)
  /-- No constant has this tag. -/
  | unknown {tag : UInt8} {rest : Bytes} (hbytes : bytes = tag :: rest) (htag : tag ≠ utf8Tag)
      (hnone : payloadLength? tag = none) : Fault index offset bytes (.unknownTag tag index)
  /-- The payload is cut off. -/
  | payload {tag : UInt8} {length : Nat} {rest : Bytes} (hbytes : bytes = tag :: rest)
      (hlength : payloadLength? tag = some length) (hcut : rest.length < length) :
      Fault index offset bytes (.truncated (offset + 1))
  /-- The length of a text is cut off. -/
  | length {rest : Bytes} (hbytes : bytes = utf8Tag :: rest) (hcut : rest.length < 2) :
      Fault index offset bytes (.truncated (offset + 1))
  /-- A text is cut off. -/
  | text {length : UInt16} {rest : Bytes} (hbytes : bytes = utf8Tag :: Bytes.ofNatBE 2 length.toNat ++ rest)
      (hcut : rest.length < length.toNat) : Fault index offset bytes (.truncated (offset + 3))

/-- The first thing that is wrong with the bytes of a class file. -/
inductive Fault (bytes : Bytes) : FormatError → Prop
  /-- The magic number is cut off. -/
  | magic (hcut : bytes.length < 4) : Fault bytes (.truncated 0)
  /-- The bytes begin with another number. -/
  | badMagic {found : UInt32} {rest : Bytes} (hbytes : bytes = Bytes.ofNatBE 4 found.toNat ++ rest)
      (hne : found ≠ ClassFile.magic) : Fault bytes (.badMagic found)
  /-- A version, or the declared count, is cut off. -/
  | field {offset : Nat} {rest : Bytes} (hbytes : bytes = Bytes.ofNatBE 4 ClassFile.magic.toNat ++ rest)
      (hoffset : offset ∈ [4, 6, 8]) (hstart : offset ≤ bytes.length) (hcut : bytes.length < offset + 2) :
      Fault bytes (.truncated offset)
  /-- The slots are not yet filled, and there is something wrong with the next constant. -/
  | constant {minor major count : UInt16} {constants : List Constant} {rest : Bytes} {e : FormatError}
      (hbytes : bytes = encode ⟨minor, major, count, constants, rest⟩)
      (hknown : ∀ constant ∈ constants, constant.WellFormed) (hbelow : 1 + slotsOf constants < count.toNat)
      (hfault : Constant.Fault (1 + slotsOf constants) (10 + (constants.flatMap Constant.encode).length) rest e) :
      Fault bytes e

namespace Constant

/-- Constants fill the slots if each of them begins below the count and they reach it. -/
theorem fill_iff {count index : Nat} {constants : List Constant} :
    Fill count index constants ↔
      (∀ front constant back, constants = front ++ constant :: back → index + slotsOf front < count) ∧
        count ≤ index + slotsOf constants := by
  induction constants generalizing index with
  | nil => simp [Fill, slotsOf]
  | cons first constants ih =>
    rw [Fill, ih, slotsOf_cons, Nat.add_assoc]
    constructor
    · rintro ⟨hfirst, hrest, hreached⟩
      refine ⟨fun front constant back hsplit => ?_, hreached⟩
      cases front with
      | nil => simpa [slotsOf] using hfirst
      | cons other front =>
        obtain ⟨rfl, hback⟩ := List.cons.inj hsplit
        rw [slotsOf_cons, ← Nat.add_assoc]
        exact hrest front constant back hback
    · rintro ⟨hbelow, hreached⟩
      refine ⟨by simpa [slotsOf] using hbelow [] first constants rfl, fun front constant back hsplit => ?_, hreached⟩
      have hnext := hbelow (first :: front) constant back (by rw [hsplit, List.cons_append])
      rwa [slotsOf_cons, ← Nat.add_assoc] at hnext

theorem fault_of_read {index offset : Nat} {bytes : Bytes} {e : FormatError}
    (hread : read index offset bytes = .error e) : Constant.Fault index offset bytes e := by
  cases bytes with
  | nil =>
    obtain rfl := Except.error.inj hread
    exact .missing rfl
  | cons tag rest =>
    rw [read] at hread
    split at hread
    · rename_i htag
      subst htag
      split at hread
      · rename_i hlength
        obtain rfl := Except.error.inj hread
        exact .length rfl (Bytes.take?_eq_none_iff.1 hlength)
      · rename_i length rest' hlength
        split at hread
        · rename_i htext
          obtain rfl := Except.error.inj hread
          obtain ⟨rfl, hwidth⟩ := Bytes.take?_eq_some.1 hlength
          have hlt : Bytes.toNatBE length < 2 ^ 16 := by
            simpa [hwidth] using Bytes.toNatBE_lt length
          have hnumber := UInt16.toNat_ofNat_of_lt' hlt
          refine @Fault.text index offset _ (UInt16.ofNat (Bytes.toNatBE length)) rest' ?_ ?_
          · rw [hnumber, Bytes.ofNatBE_toNatBE hwidth, List.cons_append]
          · rw [hnumber]
            exact Bytes.take?_eq_none_iff.1 htext
        · cases hread
    · rename_i htag
      split at hread
      · rename_i hnone
        obtain rfl := Except.error.inj hread
        exact .unknown rfl htag hnone
      · rename_i length hlength
        split at hread
        · rename_i hpayload
          obtain rfl := Except.error.inj hread
          exact .payload rfl hlength (Bytes.take?_eq_none_iff.1 hpayload)
        · cases hread

theorem Fault.read_eq {index offset : Nat} {bytes : Bytes} {e : FormatError}
    (hfault : Constant.Fault index offset bytes e) : read index offset bytes = .error e := by
  cases hfault with
  | missing hbytes => rw [hbytes, read]
  | unknown hbytes htag hnone => simp only [hbytes, read, htag, hnone, if_false]
  | @payload tag length rest hbytes hlength hcut =>
    have htag : tag ≠ utf8Tag := by
      rintro rfl
      cases hlength
    simp only [hbytes, read, htag, hlength, if_false, Bytes.take?_eq_none_iff.2 hcut]
  | length hbytes hcut => simp only [hbytes, read, if_true, Bytes.take?_eq_none_iff.2 hcut]
  | @text length rest hbytes hcut =>
    have hlt : length.toNat < 256 ^ 2 := length.toNat_lt
    have hlength : Bytes.take? 2 (Bytes.ofNatBE 2 length.toNat ++ rest) =
        some (Bytes.ofNatBE 2 length.toNat, rest) :=
      Bytes.take?_eq_some.2 ⟨rfl, Bytes.length_ofNatBE 2 length.toNat⟩
    simp only [hbytes, List.cons_append, read, if_true, hlength, Bytes.toNatBE_ofNatBE hlt,
      Bytes.take?_eq_none_iff.2 hcut]

/-- Reading fails at the first slot below the count whose constant is at fault, all constants before it being read. -/
theorem readOnto_eq_error_iff {known : List Constant} {count index offset : Nat} {bytes : Bytes} {e : FormatError} :
    readOnto known count index offset bytes = .error e ↔
      ∃ front rest, (∀ c ∈ front, c.WellFormed) ∧ index + slotsOf front < count ∧
        bytes = front.flatMap encode ++ rest ∧
        Constant.Fault (index + slotsOf front) (offset + (front.flatMap encode).length) rest e := by
  fun_induction readOnto known count index offset bytes with
  | case1 known index offset bytes hlt e' hread =>
    constructor
    · intro herror
      obtain rfl := Except.error.inj herror
      exact ⟨[], bytes, by simp, hlt, rfl, fault_of_read hread⟩
    · rintro ⟨front, rest, hknown, -, rfl, hfault⟩
      cases front with
      | nil => exact congrArg Except.error (Except.error.inj (hread.symm.trans hfault.read_eq))
      | cons first front =>
        rw [List.flatMap_cons, List.append_assoc, read_encode (hknown first List.mem_cons_self)] at hread
        cases hread
  | case2 known index offset bytes hlt constant rest hread ih =>
    obtain ⟨hwf, rfl⟩ := eq_encode_of_read hread
    rw [ih]
    constructor
    · rintro ⟨front, rest', hknown, hbelow, rfl, hfault⟩
      refine ⟨constant :: front, rest', by simpa using ⟨hwf, hknown⟩, ?_, by simp, ?_⟩
      · rwa [slotsOf_cons, ← Nat.add_assoc]
      · rwa [slotsOf_cons, List.flatMap_cons, List.length_append, ← Nat.add_assoc, ← Nat.add_assoc]
    · rintro ⟨front, rest', hknown, hbelow, hbytes, hfault⟩
      cases front with
      | nil =>
        rw [List.flatMap_nil, List.nil_append] at hbytes
        have hfails : read index offset rest' = .error e := hfault.read_eq
        rw [hbytes, hfails] at hread
        cases hread
      | cons first front =>
        rw [hbytes, List.flatMap_cons, List.append_assoc, read_encode (hknown first List.mem_cons_self)] at hread
        obtain ⟨rfl, rfl⟩ := Prod.mk.inj (Except.ok.inj hread)
        rw [slotsOf_cons, ← Nat.add_assoc] at hbelow hfault
        rw [List.flatMap_cons, List.length_append, ← Nat.add_assoc] at hfault
        exact ⟨front, rest', fun c hc => hknown c (by simp [hc]), hbelow, rfl, hfault⟩
  | case3 known index offset bytes hge =>
    simp only [reduceCtorEq, false_iff]
    rintro ⟨front, rest, -, hbelow, -⟩
    omega

end Constant

theorem readNat_eq_error_iff {width offset : Nat} {bytes : Bytes} {e : FormatError} :
    readNat width offset bytes = .error e ↔ bytes.length < width ∧ .truncated offset = e := by
  rw [readNat, ← Bytes.take?_eq_none_iff]
  cases Bytes.take? width bytes <;> simp

theorem readNat_number {width offset n : Nat} (hn : n < 256 ^ width) (rest : Bytes) :
    readNat width offset (Bytes.ofNatBE width n ++ rest) = .ok (n, rest) :=
  (readNat_eq_ok_iff hn).2 rfl

theorem fault_of_readVersions {bytes : Bytes} {e : FormatError} (hread : readVersions bytes = .error e) :
    Fault bytes e := by
  rcases bind_eq_error_iff.1 hread with hmagic | ⟨⟨found, rest⟩, hfound, hfields⟩
  · obtain ⟨hcut, rfl⟩ := readNat_eq_error_iff.1 hmagic
    exact .magic hcut
  · clear hread
    have hlt : found < 2 ^ 32 := readNat_lt hfound
    obtain rfl := (readNat_eq_ok_iff (readNat_lt hfound)).1 hfound
    dsimp only at hfields
    split at hfields
    · rename_i hne
      obtain rfl := Except.error.inj hfields
      have hnumber := UInt32.toNat_ofNat_of_lt' hlt
      exact .badMagic (by rw [hnumber]) fun heq => hne (by rw [← heq, hnumber])
    · rename_i heq
      obtain rfl : found = magic.toNat := Decidable.not_not.1 heq
      rcases bind_eq_error_iff.1 hfields with hminor | ⟨⟨minor, rest₂⟩, hminor, hmore⟩
      · obtain ⟨hcut, rfl⟩ := readNat_eq_error_iff.1 hminor
        refine .field rfl (by simp) ?_ ?_ <;> rw [List.length_append, Bytes.length_ofNatBE] <;> omega
      · obtain rfl := (readNat_eq_ok_iff (readNat_lt hminor)).1 hminor
        rcases bind_eq_error_iff.1 hmore with hmajor | ⟨major, hmajor, hdone⟩
        · obtain ⟨hcut, rfl⟩ : rest₂.length < 2 ∧ _ := readNat_eq_error_iff.1 hmajor
          refine .field rfl (by simp) ?_ ?_ <;> simp only [List.length_append, Bytes.length_ofNatBE] <;> omega
        · cases hdone

theorem fault_of_parse {bytes : Bytes} {e : FormatError} (hread : parse bytes = .error e) : Fault bytes e := by
  rcases bind_eq_error_iff.1 hread with hversions | ⟨⟨minor, major, rest⟩, hversions, hpool⟩
  · exact fault_of_readVersions hversions
  · clear hread
    obtain rfl := readVersions_eq_ok_iff.1 hversions
    rcases bind_eq_error_iff.1 hpool with hcount | ⟨⟨count, rest₂⟩, hcount, hmore⟩
    · obtain ⟨hcut, rfl⟩ := readNat_eq_error_iff.1 hcount
      refine .field rfl (by simp) ?_ ?_ <;> simp only [List.length_append, Bytes.length_ofNatBE] <;> omega
    · clear hpool hversions
      have hlt : count < 2 ^ 16 := readNat_lt hcount
      obtain rfl := (readNat_eq_ok_iff (readNat_lt hcount)).1 hcount
      rcases bind_eq_error_iff.1 hmore with hconstants | ⟨constants, hconstants, hdone⟩
      · obtain ⟨front, rest₃, hknown, hbelow, rfl, hfault⟩ := Constant.readOnto_eq_error_iff.1 hconstants
        have hnumber := UInt16.toNat_ofNat_of_lt' hlt
        refine @Fault.constant _ minor major (UInt16.ofNat count) front rest₃ e ?_ hknown ?_ hfault
        · simp [encode, hnumber]
        · rwa [hnumber]
      · cases hdone

/-- Behind the magic number, the versions are read. -/
theorem readVersions_magic (rest : Bytes) :
    readVersions (Bytes.ofNatBE 4 magic.toNat ++ rest) =
      readNat 2 4 rest >>= fun (minor, rest) => readNat 2 6 rest >>= fun (major, rest) =>
        .ok (UInt16.ofNat minor, UInt16.ofNat major, rest) := by
  have hmagic : readNat 4 0 (Bytes.ofNatBE 4 magic.toNat ++ rest) = .ok (magic.toNat, rest) :=
    readNat_number magic.toNat_lt rest
  rw [readVersions, hmagic]
  rfl

/-- A version or the declared count that is cut off is the error, as what is before it is read. -/
theorem parse_of_cut_field {offset : Nat} {rest : Bytes} (hoffset : offset ∈ [4, 6, 8])
    (hstart : offset ≤ 4 + rest.length) (hcut : 4 + rest.length < offset + 2) :
    parse (Bytes.ofNatBE 4 magic.toNat ++ rest) = .error (.truncated offset) := by
  have hoffset' : offset = 4 ∨ offset = 6 ∨ offset = 8 := by simpa using hoffset
  by_cases hminor : rest.length < 2
  · obtain rfl : offset = 4 := by omega
    refine bind_eq_error_iff.2 (.inl ?_)
    rw [readVersions_magic]
    exact bind_eq_error_iff.2 (.inl (readNat_eq_error_iff.2 ⟨hminor, rfl⟩))
  obtain ⟨minor, rest₂, hlt, rfl⟩ := Bytes.exists_number (Nat.le_of_not_lt hminor)
  rw [List.length_append, Bytes.length_ofNatBE] at hstart hcut
  by_cases hmajor : rest₂.length < 2
  · obtain rfl : offset = 6 := by omega
    refine bind_eq_error_iff.2 (.inl ?_)
    rw [readVersions_magic]
    refine bind_eq_error_iff.2 (.inr ⟨_, readNat_number hlt rest₂, ?_⟩)
    exact bind_eq_error_iff.2 (.inl (readNat_eq_error_iff.2 ⟨hmajor, rfl⟩))
  obtain ⟨major, rest₃, hlt', rfl⟩ := Bytes.exists_number (Nat.le_of_not_lt hmajor)
  rw [List.length_append, Bytes.length_ofNatBE] at hstart hcut
  obtain rfl : offset = 8 := by omega
  have hversions : readVersions (Bytes.ofNatBE 4 magic.toNat ++ (Bytes.ofNatBE 2 minor ++ (Bytes.ofNatBE 2 major ++
      rest₃))) = .ok (UInt16.ofNat minor, UInt16.ofNat major, rest₃) := by
    rw [readVersions_eq_ok_iff, UInt16.toNat_ofNat_of_lt' hlt, UInt16.toNat_ofNat_of_lt' hlt']
  refine bind_eq_error_iff.2 (.inr ⟨_, hversions, ?_⟩)
  exact bind_eq_error_iff.2 (.inl (readNat_eq_error_iff.2 ⟨by omega, rfl⟩))

theorem parse_of_fault {bytes : Bytes} {e : FormatError} (hfault : Fault bytes e) : parse bytes = .error e := by
  cases hfault with
  | magic hcut => exact bind_eq_error_iff.2 (.inl (bind_eq_error_iff.2 (.inl (readNat_eq_error_iff.2 ⟨hcut, rfl⟩))))
  | @badMagic found rest hbytes hne =>
    subst hbytes
    refine bind_eq_error_iff.2 (.inl (bind_eq_error_iff.2 (.inr ⟨_, readNat_number found.toNat_lt rest, ?_⟩)))
    dsimp only
    rw [if_pos fun heq => hne (UInt32.toNat_inj.1 heq), UInt32.ofNat_toNat]
  | field hbytes hoffset hstart hcut =>
    subst hbytes
    rw [List.length_append, Bytes.length_ofNatBE] at hstart hcut
    exact parse_of_cut_field hoffset hstart hcut
  | @constant minor major count constants rest e hbytes hknown hbelow hfault =>
    subst hbytes
    have hversions : readVersions (encode ⟨minor, major, count, constants, rest⟩) =
        .ok (minor, major, Bytes.ofNatBE 2 count.toNat ++ (constants.flatMap Constant.encode ++ rest)) :=
      readVersions_eq_ok_iff.2 (by simp only [encode, List.append_assoc])
    refine bind_eq_error_iff.2 (.inr ⟨_, hversions, ?_⟩)
    refine bind_eq_error_iff.2 (.inr ⟨_, readNat_number count.toNat_lt _, ?_⟩)
    exact bind_eq_error_iff.2 (.inl (Constant.readOnto_eq_error_iff.2 ⟨_, _, hknown, hbelow, rfl, hfault⟩))

theorem spells_iff {c : ClassFile} {bytes : Bytes} : c.Spells bytes ↔ c.WellFormed ∧ bytes = c.encode :=
  ⟨fun h => ⟨⟨h.known, Constant.fill_iff.2 ⟨h.below, h.reached⟩⟩, h.bytes_eq⟩,
    fun ⟨hwf, hbytes⟩ => ⟨hbytes, hwf.constants, (Constant.fill_iff.1 hwf.fill).1, (Constant.fill_iff.1 hwf.fill).2⟩⟩

/-- Bytes are read as a class file exactly if they can be taken apart as one, which is possible in one way only; and the
    error that reading ends with is the first thing that is wrong with them. -/
theorem parse_decides_format (bytes : Bytes) :
    ((∃ c, parse bytes = .ok c) ↔ ∃! c : ClassFile, c.Spells bytes) ∧
      (∀ c, parse bytes = .ok c ↔ c.Spells bytes) ∧ ∀ e, parse bytes = .error e ↔ Fault bytes e := by
  have hspells (c : ClassFile) : parse bytes = .ok c ↔ c.Spells bytes := parse_eq_ok_iff.trans spells_iff.symm
  refine ⟨⟨?_, ?_⟩, hspells, fun e => ⟨fault_of_parse, parse_of_fault⟩⟩
  · rintro ⟨c, hparse⟩
    refine ⟨c, (hspells c).1 hparse, fun c' hc' => ?_⟩
    exact Except.ok.inj (((hspells c').2 hc').symm.trans hparse)
  · rintro ⟨c, hc, -⟩
    exact ⟨c, (hspells c).2 hc⟩

/-- A long in the last slot reaches beyond the count. -/
example : parse [0xCA, 0xFE, 0xBA, 0xBE, 0, 0, 0, 52, 0, 2, 5, 0, 0, 0, 0, 0, 0, 0, 1] =
    .ok ⟨0, 52, 2, [.other 5 [0, 0, 0, 0, 0, 0, 0, 1]], []⟩ := by cbv

end UberJar.ClassFile
