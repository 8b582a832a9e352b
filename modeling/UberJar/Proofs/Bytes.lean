import Mathlib.Algebra.Group.Nat.Even
import UberJar.Bytes

namespace UberJar.Bytes

theorem toNatBE_eq_toNatLE (bytes : Bytes) : toNatBE bytes = toNatLE bytes.reverse := by
  simp [toNatBE, toNatLE]

theorem toNatLE_lt (bytes : Bytes) : toNatLE bytes < 256 ^ bytes.length := by
  induction bytes with
  | nil => simp [toNatLE]
  | cons b bytes ih =>
    have hb := b.toNat_lt
    simp only [toNatLE, List.foldr_cons, List.length_cons, Nat.pow_succ] at ih ⊢
    omega

theorem toNatLE_ofNatLE (width n : Nat) : toNatLE (ofNatLE width n) = n % 256 ^ width := by
  induction width generalizing n with
  | zero => simp [toNatLE, ofNatLE, Nat.mod_one]
  | succ width ih =>
    have h := ih (n / 256)
    simp only [toNatLE, ofNatLE, List.foldr_cons] at h ⊢
    rw [h, Nat.pow_succ, Nat.mul_comm (256 ^ width) 256, Nat.mod_mul, UInt8.toNat_ofNat']
    omega

theorem ofNatLE_toNatLE (bytes : Bytes) : ofNatLE bytes.length (toNatLE bytes) = bytes := by
  induction bytes with
  | nil => rfl
  | cons b bytes ih =>
    have hb := b.toNat_lt
    have hlow : UInt8.ofNat (toNatLE bytes * 256 + b.toNat) = b := by
      apply UInt8.toNat_inj.1
      rw [UInt8.toNat_ofNat']
      omega
    have hhigh : (toNatLE bytes * 256 + b.toNat) / 256 = toNatLE bytes := by omega
    change UInt8.ofNat (toNatLE bytes * 256 + b.toNat) ::
      ofNatLE bytes.length ((toNatLE bytes * 256 + b.toNat) / 256) = b :: bytes
    rw [hlow, hhigh, ih]

theorem toNatBE_lt (bytes : Bytes) : toNatBE bytes < 256 ^ bytes.length := by
  simpa [toNatBE_eq_toNatLE] using toNatLE_lt bytes.reverse

theorem toNatBE_ofNatBE {width n : Nat} (hn : n < 256 ^ width) : toNatBE (ofNatBE width n) = n := by
  rw [toNatBE_eq_toNatLE, ofNatBE, List.reverse_reverse, toNatLE_ofNatLE, Nat.mod_eq_of_lt hn]

theorem ofNatBE_toNatBE {width : Nat} {bytes : Bytes} (hlength : bytes.length = width) :
    ofNatBE width (toNatBE bytes) = bytes := by
  have h := ofNatLE_toNatLE bytes.reverse
  rw [List.length_reverse, hlength] at h
  rw [ofNatBE, toNatBE_eq_toNatLE, h, List.reverse_reverse]

theorem take?_eq_none_iff {n : Nat} {bytes : Bytes} : take? n bytes = none ↔ bytes.length < n := by
  simp only [take?, List.splitAt_eq, List.length_take, ite_eq_right_iff, reduceCtorEq, imp_false]
  omega

/-- Bytes that are long enough for a number begin with one. -/
theorem exists_number {width : Nat} {bytes : Bytes} (hlength : width ≤ bytes.length) :
    ∃ n rest, n < 256 ^ width ∧ bytes = ofNatBE width n ++ rest := by
  have hfront : (bytes.take width).length = width := by rw [List.length_take, Nat.min_eq_left hlength]
  refine ⟨toNatBE (bytes.take width), bytes.drop width, ?_, ?_⟩
  · have hlt := toNatBE_lt (bytes.take width)
    rwa [hfront] at hlt
  · rw [ofNatBE_toNatBE hfront, List.take_append_drop]

/-- A number of a given width opens a row of bytes exactly if the row begins with its bytes. -/
theorem take?_number_iff {width n : Nat} (hn : n < 256 ^ width) {bytes front rest : Bytes} :
    (take? width bytes = some (front, rest) ∧ toNatBE front = n) ↔
      front = ofNatBE width n ∧ bytes = ofNatBE width n ++ rest := by
  rw [take?_eq_some]
  constructor
  · rintro ⟨⟨rfl, hlength⟩, rfl⟩
    rw [ofNatBE_toNatBE hlength]
    exact ⟨rfl, rfl⟩
  · rintro ⟨rfl, rfl⟩
    exact ⟨⟨rfl, length_ofNatBE width n⟩, toNatBE_ofNatBE hn⟩

end UberJar.Bytes
