import UberJar.Bytes

namespace UberJar.Deflate

/-- A bit string, first bit first. -/
abbrev Bits := List Bool

namespace Bits

/-- The `width` low-order bits of `n`, least significant first. -/
def ofNat : (width n : Nat) → Bits
  | 0, _ => []
  | width + 1, n => (n % 2 == 1) :: ofNat width (n / 2)

/-- The number whose bits are given, least significant first. -/
def toNat (bits : Bits) : Nat := bits.foldr (fun b n => 2 * n + b.toNat) 0

/-- Appends the bytes that hold a bit string; zeros fill up the last one. -/
def appendTo (bytes : Array UInt8) : Bits → Array UInt8
  | a :: b :: c :: d :: e :: f :: g :: h :: rest =>
    appendTo (bytes.push (UInt8.ofNat (toNat [a, b, c, d, e, f, g, h]))) rest
  | [] => bytes
  | rest => bytes.push (UInt8.ofNat (toNat rest))

/-- The bytes that hold a bit string; zeros fill up the last one. -/
def toBytes (bits : Bits) : Bytes := (appendTo #[] bits).toList

/-- The zeros that fill up the last byte of a string of `length` bits. -/
def padding (length : Nat) : Bits := List.replicate ((8 - length % 8) % 8) false

@[simp] theorem length_ofNat (width n : Nat) : (ofNat width n).length = width := by
  induction width generalizing n with
  | zero => rfl
  | succ width ih => simp [ofNat, ih]

theorem toNat_ofNat (width n : Nat) : toNat (ofNat width n) = n % Nat.pow 2 width := by
  induction width generalizing n with
  | zero => simp [ofNat, toNat, Nat.mod_one]
  | succ width ih =>
    have step : toNat (ofNat (width + 1) n) = 2 * (n / 2 % Nat.pow 2 width) + (n % 2 == 1).toNat := by
      rw [← ih]; rfl
    have double : Nat.pow 2 (width + 1) = 2 * Nat.pow 2 width := Nat.mul_comm _ _
    rw [step, double, Nat.mod_mul]
    rcases Nat.mod_two_eq_zero_or_one n with h | h <;> simp [h, Nat.add_comm]

end Bits

/-- What is left to read of a byte string, bit by bit. -/
structure BitSource where
  /-- The bits that are left of the byte being read. -/
  pending : Bits
  rest : Bytes

namespace BitSource

/-- A byte string before its first bit is read. -/
def ofBytes (bytes : Bytes) : BitSource := ⟨[], bytes⟩

/-- The number of bits that are left. -/
def size (s : BitSource) : Nat := s.pending.length + 8 * s.rest.length

/-- The next bit. -/
def bit? : BitSource → Option (Bool × BitSource)
  | ⟨b :: pending, rest⟩ => some (b, ⟨pending, rest⟩)
  | ⟨[], byte :: rest⟩ =>
    match Bits.ofNat 8 byte.toNat with
    | b :: pending => some (b, ⟨pending, rest⟩)
    | [] => none
  | ⟨[], []⟩ => none

/-- The number held by the next `width` bits. -/
def number? : Nat → BitSource → Option (Nat × BitSource)
  | 0, s => some (0, s)
  | width + 1, s => do
    let (b, s) ← s.bit?
    let (n, s) ← number? width s
    return (2 * n + b.toNat, s)

/-- Skips what is left of the byte being read. -/
def align (s : BitSource) : BitSource := ⟨[], s.rest⟩

end BitSource
end UberJar.Deflate
