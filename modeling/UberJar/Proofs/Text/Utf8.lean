import Mathlib.Algebra.Group.Nat.Defs
import UberJar.Text.Utf8

namespace UberJar.Text.Utf8

theorem toNat_ofNat_of_lt {n : Nat} (hn : n < 256) : (UInt8.ofNat n).toNat = n := by
  rw [UInt8.toNat_ofNat']
  omega

/-- A mask of the low bits leaves the remainder. -/
theorem toNat_ofNat_and_low {n k : Nat} (hn : n < 256) (hk : k ≤ 8) :
    (UInt8.ofNat n &&& UInt8.ofNat (2 ^ k - 1)).toNat = n % 2 ^ k := by
  have hpow : 2 ^ k ≤ 2 ^ 8 := Nat.pow_le_pow_right (by omega) hk
  rw [UInt8.toNat_and, toNat_ofNat_of_lt hn, toNat_ofNat_of_lt (by omega), Nat.and_two_pow_sub_one_eq_mod]

theorem payload_tail {n : Nat} (hn : n < 64) : payload (UInt8.ofNat (n + 0x80)) = n := by
  have hlow := toNat_ofNat_and_low (n := n + 0x80) (k := 6) (by omega) (by omega)
  exact hlow.trans (by omega)

theorem isContinuation_tail {n : Nat} (hn : n < 64) : isContinuation (UInt8.ofNat (n + 0x80)) = true := by
  rw [isContinuation, beq_iff_eq, ← UInt8.toNat_inj, UInt8.toNat_and, toNat_ofNat_of_lt (by omega)]
  -- The six low bits and the two high ones are masked one by one.
  have hlow : ((n + 0x80) &&& 0xC0) % 2 ^ 6 = 0 := by
    rw [Nat.and_mod_two_pow]
    exact Nat.and_zero _
  have hhigh : ((n + 0x80) &&& 0xC0) / 2 ^ 6 = 2 := by
    rw [Nat.and_div_two_pow, show (n + 0x80) / 2 ^ 6 = 2 by omega]
    rfl
  change (n + 0x80) &&& 0xC0 = 0x80
  omega

theorem lead_two {n : Nat} (hlow : 2 ≤ n) (hhigh : n < 32) :
    ¬UInt8.ofNat (n + 0xC0) < 0x80 ∧ 0xC2 ≤ UInt8.ofNat (n + 0xC0) ∧ UInt8.ofNat (n + 0xC0) ≤ 0xDF ∧
      (UInt8.ofNat (n + 0xC0) &&& 0x1F).toNat = n := by
  have hmask := toNat_ofNat_and_low (n := n + 0xC0) (k := 5) (by omega) (by omega)
  have hbyte := toNat_ofNat_of_lt (n := n + 0xC0) (by omega)
  simp only [UInt8.lt_iff_toNat_lt, UInt8.le_iff_toNat_le, hbyte, UInt8.reduceToNat]
  exact ⟨by omega, by omega, by omega, hmask.trans (by omega)⟩

theorem lead_three {n : Nat} (hn : n < 16) :
    ¬UInt8.ofNat (n + 0xE0) < 0x80 ∧ ¬UInt8.ofNat (n + 0xE0) ≤ 0xDF ∧ 0xE0 ≤ UInt8.ofNat (n + 0xE0) ∧
      UInt8.ofNat (n + 0xE0) ≤ 0xEF ∧ (UInt8.ofNat (n + 0xE0) &&& 0x0F).toNat = n := by
  have hmask := toNat_ofNat_and_low (n := n + 0xE0) (k := 4) (by omega) (by omega)
  have hbyte := toNat_ofNat_of_lt (n := n + 0xE0) (by omega)
  simp only [UInt8.lt_iff_toNat_lt, UInt8.le_iff_toNat_le, hbyte, UInt8.reduceToNat]
  exact ⟨by omega, by omega, by omega, by omega, hmask.trans (by omega)⟩

theorem lead_four {n : Nat} (hn : n < 5) :
    ¬UInt8.ofNat (n + 0xF0) < 0x80 ∧ ¬UInt8.ofNat (n + 0xF0) ≤ 0xDF ∧ ¬UInt8.ofNat (n + 0xF0) ≤ 0xEF ∧
      0xF0 ≤ UInt8.ofNat (n + 0xF0) ∧ UInt8.ofNat (n + 0xF0) ≤ 0xF4 ∧
      (UInt8.ofNat (n + 0xF0) &&& 0x07).toNat = n := by
  have hmask := toNat_ofNat_and_low (n := n + 0xF0) (k := 3) (by omega) (by omega)
  have hbyte := toNat_ofNat_of_lt (n := n + 0xF0) (by omega)
  simp only [UInt8.lt_iff_toNat_lt, UInt8.le_iff_toNat_le, hbyte, UInt8.reduceToNat]
  exact ⟨by omega, by omega, by omega, by omega, by omega, hmask.trans (by omega)⟩

/-- Behind E0 the second byte is large enough, behind ED small enough to stay below the surrogates. -/
theorem fitsThree_tail {lead n : Nat} (hlead : lead < 16) (hn : n < 64) (hshort : lead = 0 → 0x20 ≤ n)
    (hsurrogate : lead = 13 → n < 0x20) :
    fitsThree (UInt8.ofNat (lead + 0xE0)) (UInt8.ofNat (n + 0x80)) = true := by
  have hfirst := toNat_ofNat_of_lt (n := lead + 0xE0) (by omega)
  have hsecond := toNat_ofNat_of_lt (n := n + 0x80) (by omega)
  simp only [fitsThree, isContinuation_tail hn, Bool.true_and, Bool.and_eq_true, Bool.not_eq_true',
    Bool.and_eq_false_iff,
    beq_eq_false_iff_ne, decide_eq_false_iff_not, ne_eq, ← UInt8.toNat_inj, UInt8.lt_iff_toNat_lt, ge_iff_le,
    UInt8.le_iff_toNat_le, hfirst, hsecond, UInt8.reduceToNat]
  omega

theorem fitsFour_tail {lead n : Nat} (hlead : lead < 5) (hn : n < 64) (hshort : lead = 0 → 0x10 ≤ n)
    (hlarge : lead = 4 → n < 0x10) :
    fitsFour (UInt8.ofNat (lead + 0xF0)) (UInt8.ofNat (n + 0x80)) = true := by
  have hfirst := toNat_ofNat_of_lt (n := lead + 0xF0) (by omega)
  have hsecond := toNat_ofNat_of_lt (n := n + 0x80) (by omega)
  simp only [fitsFour, isContinuation_tail hn, Bool.true_and, Bool.and_eq_true, Bool.not_eq_true',
    Bool.and_eq_false_iff,
    beq_eq_false_iff_ne, decide_eq_false_iff_not, ne_eq, ← UInt8.toNat_inj, UInt8.lt_iff_toNat_lt, ge_iff_le,
    UInt8.le_iff_toNat_le, hfirst, hsecond, UInt8.reduceToNat]
  omega

theorem piece_one {n : Nat} (hn : n < 0x80) (rest : Bytes) :
    piece (UInt8.ofNat n) rest = (some (Char.ofNat n), rest) := by
  have hascii : UInt8.ofNat n < 0x80 := by
    rw [UInt8.lt_iff_toNat_lt, toNat_ofNat_of_lt (by omega)]
    exact hn
  unfold piece
  rw [if_pos hascii, toNat_ofNat_of_lt (by omega)]

theorem piece_two {a b : Nat} (ha : 2 ≤ a) (ha' : a < 32) (hb : b < 64) (rest : Bytes) :
    piece (UInt8.ofNat (a + 0xC0)) (UInt8.ofNat (b + 0x80) :: rest) = (some (Char.ofNat (a * 64 + b)), rest) := by
  obtain ⟨hascii, hlow, hhigh, hpayload⟩ := lead_two ha ha'
  simp only [piece, hascii, hlow, hhigh, hpayload, isContinuation_tail hb, payload_tail hb, decide_true,
    Bool.and_self, if_true, if_false]

theorem piece_three {a b c : Nat} (ha : a < 16) (hb : b < 64) (hc : c < 64) (hshort : a = 0 → 0x20 ≤ b)
    (hsurrogate : a = 13 → b < 0x20) (rest : Bytes) :
    piece (UInt8.ofNat (a + 0xE0)) (UInt8.ofNat (b + 0x80) :: UInt8.ofNat (c + 0x80) :: rest) =
      (some (Char.ofNat ((a * 64 + b) * 64 + c)), rest) := by
  obtain ⟨hascii, htwo, hlow, hhigh, hpayload⟩ := lead_three ha
  simp only [piece, hascii, htwo, hlow, hhigh, hpayload, fitsThree_tail ha hb hshort hsurrogate, payload_tail hb,
    isContinuation_tail hc, payload_tail hc, decide_true, decide_false, Bool.and_false, Bool.and_self, if_true,
    if_false, Bool.false_eq_true]

theorem piece_four {a b c d : Nat} (ha : a < 5) (hb : b < 64) (hc : c < 64) (hd : d < 64) (hshort : a = 0 → 0x10 ≤ b)
    (hlarge : a = 4 → b < 0x10) (rest : Bytes) :
    piece (UInt8.ofNat (a + 0xF0))
        (UInt8.ofNat (b + 0x80) :: UInt8.ofNat (c + 0x80) :: UInt8.ofNat (d + 0x80) :: rest) =
      (some (Char.ofNat (((a * 64 + b) * 64 + c) * 64 + d)), rest) := by
  obtain ⟨hascii, htwo, hthree, hlow, hhigh, hpayload⟩ := lead_four ha
  simp only [piece, hascii, htwo, hthree, hlow, hhigh, hpayload, fitsFour_tail ha hb hshort hlarge, payload_tail hb,
    isContinuation_tail hc, payload_tail hc, isContinuation_tail hd, payload_tail hd, decide_true, decide_false,
    Bool.and_false, Bool.and_self, if_true, if_false, Bool.false_eq_true]

/-- The form of a character is read back as one piece. -/
theorem piece_utf8EncodeChar (c : Char) (rest : Bytes) :
    ∃ b more, String.utf8EncodeChar c = b :: more ∧ piece b (more ++ rest) = (some c, rest) := by
  have hchar : Char.ofNat c.val.toNat = c := Char.ofNat_toNat c
  have hvalid : c.val.toNat < 0xD800 ∨ 0xDFFF < c.val.toNat ∧ c.val.toNat < 0x110000 := c.valid
  unfold String.utf8EncodeChar
  generalize hv : c.val.toNat = v at hchar hvalid
  by_cases hone : v ≤ 0x7F
  · refine ⟨_, _, by rw [if_pos hone], ?_⟩
    rw [List.nil_append, piece_one (by omega), hchar]
  · rw [if_neg hone]
    by_cases htwo : v ≤ 0x7FF
    · refine ⟨_, _, by rw [if_pos htwo], ?_⟩
      have hsum : v / 64 % 0x20 * 64 + v % 0x40 = v := by omega
      have hread := piece_two (a := v / 64 % 0x20) (b := v % 0x40) (by omega) (by omega) (by omega) rest
      rwa [hsum, hchar] at hread
    · rw [if_neg htwo]
      by_cases hthree : v ≤ 0xFFFF
      · refine ⟨_, _, by rw [if_pos hthree], ?_⟩
        have hsum : (v / 4096 % 0x10 * 64 + v / 64 % 0x40) * 64 + v % 0x40 = v := by omega
        have hread := piece_three (a := v / 4096 % 0x10) (b := v / 64 % 0x40) (c := v % 0x40) (by omega) (by omega)
          (by omega) (by omega) (by omega) rest
        rwa [hsum, hchar] at hread
      · refine ⟨_, _, by rw [if_neg hthree], ?_⟩
        have hsum : ((v / 262144 % 0x08 * 64 + v / 4096 % 0x40) * 64 + v / 64 % 0x40) * 64 + v % 0x40 = v := by omega
        have hread := piece_four (a := v / 262144 % 0x08) (b := v / 4096 % 0x40) (c := v / 64 % 0x40) (d := v % 0x40)
          (by omega) (by omega) (by omega) (by omega) (by omega) (by omega) rest
        rwa [hsum, hchar] at hread

theorem piecesOnto_eq (acc : List (Option Char)) (bytes : Bytes) :
    piecesOnto acc bytes = piecesOnto [] bytes ++ acc := by
  induction hn : bytes.length using Nat.strongRecOn generalizing acc bytes with
  | _ n ih =>
    cases bytes with
    | nil => simp [piecesOnto]
    | cons b rest =>
      have hshort := length_piece_le b rest
      rw [List.length_cons] at hn
      rw [piecesOnto, piecesOnto, ih _ (by omega) _ _ rfl, ih _ (by omega) [(piece b rest).1] _ rfl,
        List.append_assoc, List.singleton_append]

theorem pieces_cons (b : UInt8) (rest : Bytes) : pieces (b :: rest) = (piece b rest).1 :: pieces (piece b rest).2 := by
  rw [pieces, piecesOnto, piecesOnto_eq, List.reverse_append]
  rfl

theorem pieces_encode (cs : List Char) : pieces (encode cs) = cs.map some := by
  induction cs with
  | nil => simp [pieces, piecesOnto, encode]
  | cons c cs ih =>
    obtain ⟨b, more, hform, hread⟩ := piece_utf8EncodeChar c (encode cs)
    have hencode : encode (c :: cs) = b :: (more ++ encode cs) := by
      rw [encode, List.flatMap_cons, hform]
      rfl
    rw [hencode, pieces_cons, hread, ih, List.map_cons]

theorem encode_append (front back : List Char) : encode (front ++ back) = encode front ++ encode back :=
  List.flatMap_append

theorem encode_flatten (texts : List (List Char)) : encode texts.flatten = (texts.map encode).flatten := by
  induction texts with
  | nil => rfl
  | cons text texts ih => rw [List.flatten_cons, encode_append, ih, List.map_cons, List.flatten_cons]

theorem length_encode_cons (c : Char) (cs : List Char) :
    (encode (c :: cs)).length = c.utf8Size + (encode cs).length := by
  rw [encode, List.flatMap_cons, List.length_append, String.length_utf8EncodeChar]
  rfl

theorem length_encode_append (front back : List Char) :
    (encode (front ++ back)).length = (encode front).length + (encode back).length := by
  rw [encode_append, List.length_append]

/-- A form begins with the form of a text only if the text it is of begins with that text. -/
theorem exists_of_encode_eq_append {cs front : List Char} {rest : Bytes} (hencode : encode cs = encode front ++ rest) :
    ∃ back, cs = front ++ back ∧ rest = encode back := by
  induction front generalizing cs with
  | nil => exact ⟨cs, rfl, hencode.symm⟩
  | cons d front ih =>
    obtain ⟨b, more, hform, hread⟩ := piece_utf8EncodeChar d (encode front ++ rest)
    rw [encode, encode, List.flatMap_cons, hform] at hencode
    cases cs with
    | nil => simp at hencode
    | cons c cs =>
      obtain ⟨b', more', hform', hread'⟩ := piece_utf8EncodeChar c (encode cs)
      rw [List.flatMap_cons, hform', List.cons_append, List.append_assoc, List.cons_append, List.cons.injEq] at hencode
      obtain ⟨rfl, hmore⟩ := hencode
      have hsame : piece b' (more' ++ encode cs) = piece b' (more ++ (encode front ++ rest)) := congrArg _ hmore
      rw [hread, hread', Prod.mk.injEq, Option.some.injEq] at hsame
      obtain ⟨back, rfl, hrest⟩ := ih hsame.2
      exact ⟨back, by rw [hsame.1, List.cons_append], hrest⟩

/-- Behind the first byte of a character there are continuation bytes. -/
theorem isContinuation_of_mem_tail (c : Char) : ∀ b ∈ (String.utf8EncodeChar c).tail, isContinuation b = true := by
  intro b hb
  unfold String.utf8EncodeChar at hb
  generalize c.val.toNat = v at hb
  dsimp only at hb
  by_cases hone : v ≤ 0x7F
  · rw [if_pos hone] at hb
    cases hb
  · rw [if_neg hone] at hb
    -- Each of them is written by one formula, whatever the length of the form.
    have htail : ∃ n < 64, b = UInt8.ofNat (n + 0x80) := by
      by_cases htwo : v ≤ 0x7FF
      · rw [if_pos htwo, List.tail_cons, List.mem_singleton] at hb
        exact ⟨_, by omega, hb⟩
      · rw [if_neg htwo] at hb
        by_cases hthree : v ≤ 0xFFFF
        · rw [if_pos hthree, List.tail_cons, List.mem_cons, List.mem_singleton] at hb
          rcases hb with hb | hb <;> exact ⟨_, by omega, hb⟩
        · rw [if_neg hthree, List.tail_cons, List.mem_cons, List.mem_cons, List.mem_singleton] at hb
          rcases hb with hb | hb | hb <;> exact ⟨_, by omega, hb⟩
    obtain ⟨n, hn, rfl⟩ := htail
    exact isContinuation_tail hn

/-- The form of a text begins with the byte that begins its first character, and the continuation bytes behind that. -/
theorem exists_encode_cons (c : Char) :
    ∃ lead more, (∀ cs, encode (c :: cs) = lead :: (more ++ encode cs)) ∧ ∀ b ∈ more, isContinuation b = true := by
  obtain ⟨lead, more, hform, -⟩ := piece_utf8EncodeChar c []
  refine ⟨lead, more, fun cs => ?_, ?_⟩
  · rw [encode, List.flatMap_cons, hform, List.cons_append]
    rfl
  · have hmore := isContinuation_of_mem_tail c
    rwa [hform, List.tail_cons] at hmore

/-- The form of a character beyond ASCII holds no byte of ASCII. -/
theorem le_of_mem_utf8EncodeChar {c : Char} (hc : 0x80 ≤ c.toNat) : ∀ b ∈ String.utf8EncodeChar c, 0x80 ≤ b := by
  intro b hb
  unfold String.utf8EncodeChar at hb
  have hv : 0x80 ≤ c.val.toNat := hc
  generalize c.val.toNat = v at hb hv
  dsimp only at hb
  rw [if_neg (by omega)] at hb
  have hbyte : ∃ n, 0x80 ≤ n ∧ n < 256 ∧ b = UInt8.ofNat n := by
    by_cases htwo : v ≤ 0x7FF
    · rw [if_pos htwo, List.mem_cons, List.mem_singleton] at hb
      rcases hb with hb | hb <;> exact ⟨_, by omega, by omega, hb⟩
    · rw [if_neg htwo] at hb
      by_cases hthree : v ≤ 0xFFFF
      · rw [if_pos hthree, List.mem_cons, List.mem_cons, List.mem_singleton] at hb
        rcases hb with hb | hb | hb <;> exact ⟨_, by omega, by omega, hb⟩
      · rw [if_neg hthree, List.mem_cons, List.mem_cons, List.mem_cons, List.mem_singleton] at hb
        rcases hb with hb | hb | hb | hb <;> exact ⟨_, by omega, by omega, hb⟩
  obtain ⟨n, hlow, hhigh, rfl⟩ := hbyte
  rw [UInt8.le_iff_toNat_le, toNat_ofNat_of_lt hhigh]
  exact hlow

theorem decode?_encode (cs : List Char) : decode? (encode cs) = some cs := by
  have hsome : (cs.map some).all Option.isSome = true := by simp
  have hcs : (cs.map some).filterMap id = cs := by
    rw [List.filterMap_map]
    exact List.filterMap_some
  simp only [decode?, pieces_encode, hsome, if_true, hcs]

theorem decodeLossy_encode (cs : List Char) : decodeLossy (encode cs) = cs := by
  rw [decodeLossy, pieces_encode, List.map_map]
  exact List.map_id cs

/-- Bytes of which the first piece is malformed are no text. -/
theorem decode?_eq_none {b : UInt8} {rest : Bytes} (hpiece : (piece b rest).1 = none) : decode? (b :: rest) = none := by
  simp [decode?, pieces_cons, hpiece]

end UberJar.Text.Utf8
