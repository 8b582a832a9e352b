namespace UberJar

/-- A byte string. -/
abbrev Bytes := List UInt8

namespace Bytes

/-- The big-endian value of a byte string. -/
def toNatBE (bytes : Bytes) : Nat := bytes.foldl (fun n b => n * 256 + b.toNat) 0

/-- The little-endian value of a byte string. -/
def toNatLE (bytes : Bytes) : Nat := bytes.foldr (fun b n => n * 256 + b.toNat) 0

/-- The `width` low-order bytes of `n`, least significant first. -/
def ofNatLE : (width n : Nat) → Bytes
  | 0, _ => []
  | width + 1, n => UInt8.ofNat n :: ofNatLE width (n / 256)

/-- The `width` low-order bytes of `n`, most significant first. -/
def ofNatBE (width n : Nat) : Bytes := (ofNatLE width n).reverse

/-- The first `n` bytes and the rest, if there are that many. -/
def take? (n : Nat) (bytes : Bytes) : Option (Bytes × Bytes) :=
  let cut := bytes.splitAt n
  if cut.1.length = n then some cut else none

/-- The hexadecimal digits of a byte string, two lower-case digits a byte. -/
def hex (bytes : Bytes) : String :=
  String.ofList (bytes.flatMap fun b => [Nat.digitChar (b.toNat / 16), Nat.digitChar (b.toNat % 16)])

@[simp] theorem length_ofNatLE (width n : Nat) : (ofNatLE width n).length = width := by
  induction width generalizing n with
  | zero => rfl
  | succ width ih => simp [ofNatLE, ih]

@[simp] theorem length_ofNatBE (width n : Nat) : (ofNatBE width n).length = width := by
  simp [ofNatBE]

theorem take?_eq_some {n : Nat} {bytes front rest : Bytes} :
    take? n bytes = some (front, rest) ↔ bytes = front ++ rest ∧ front.length = n := by
  simp only [take?, List.splitAt_eq, List.length_take]
  constructor
  · intro h
    split at h
    · simp only [Option.some.injEq, Prod.mk.injEq] at h
      obtain ⟨rfl, rfl⟩ := h
      simp_all
    · simp at h
  · rintro ⟨rfl, rfl⟩
    simp

end Bytes
end UberJar
