import UberJar.Bytes

namespace UberJar.Digest

namespace Sha1

/-- The five words of the running digest. -/
structure State where
  a : UInt32
  b : UInt32
  c : UInt32
  d : UInt32
  e : UInt32

/-- The state before the first block. -/
def State.initial : State := ⟨0x67452301, 0xEFCDAB89, 0x98BADCFE, 0x10325476, 0xC3D2E1F0⟩

/-- Rotates a word to the left; `n` is between 1 and 31. -/
def rotate (w : UInt32) (n : UInt32) : UInt32 := (w <<< n) ||| (w >>> (32 - n))

/-- The padding of a message of `length` bytes: a one bit, zeros, and the length in bits, up to a whole
    number of 64-byte blocks. -/
def padding (length : Nat) : Bytes :=
  0x80 :: List.replicate ((119 - length % 64) % 64) 0 ++ Bytes.ofNatBE 8 (8 * length)

/-- The sixteen words of a block. -/
def words : Bytes → List UInt32
  | a :: b :: c :: d :: rest =>
    (a.toUInt32 <<< 24 ||| b.toUInt32 <<< 16 ||| c.toUInt32 <<< 8 ||| d.toUInt32) :: words rest
  | _ => []

/-- The word that a round adds, from the last sixteen words, latest first. -/
def nextWord (recent : List UInt32) : UInt32 :=
  rotate (recent.getD 2 0 ^^^ recent.getD 7 0 ^^^ recent.getD 13 0 ^^^ recent.getD 15 0) 1

/-- The function and the constant of round `t`. -/
def mix (t : Nat) (s : State) : UInt32 :=
  if t < 20 then ((s.b &&& s.c) ||| (~~~s.b &&& s.d)) + 0x5A827999
  else if t < 40 then (s.b ^^^ s.c ^^^ s.d) + 0x6ED9EBA1
  else if t < 60 then ((s.b &&& s.c) ||| (s.b &&& s.d) ||| (s.c &&& s.d)) + 0x8F1BBCDC
  else (s.b ^^^ s.c ^^^ s.d) + 0xCA62C1D6

/-- One round with word `w`. -/
def step (t : Nat) (w : UInt32) (s : State) : State :=
  ⟨rotate s.a 5 + mix t s + s.e + w, s.a, rotate s.b 30, s.c, s.d⟩

/-- Rounds `t` to 79. The first sixteen take their words from the block; `recent` holds the last sixteen
    words, latest first. -/
def rounds (t : Nat) (block recent : List UInt32) (s : State) : State :=
  if t < 80 then
    let w := block.headD (nextWord recent)
    rounds (t + 1) block.tail (w :: recent.take 15) (step t w s)
  else s
termination_by 80 - t

/-- Adds one block to the digest. -/
def absorb (s : State) (block : Bytes) : State :=
  let r := rounds 0 (words block) [] s
  ⟨s.a + r.a, s.b + r.b, s.c + r.c, s.d + r.d, s.e + r.e⟩

/-- Adds the first `blocks` blocks of a padded message to the digest. -/
def absorbAll (s : State) : (blocks : Nat) → Bytes → State
  | 0, _ => s
  | blocks + 1, bytes =>
    let cut := bytes.splitAt 64
    absorbAll (absorb s cut.1) blocks cut.2

end Sha1

/-- The 20 bytes of a message's SHA-1. -/
def sha1 (bytes : Bytes) : Bytes :=
  let padded := bytes ++ Sha1.padding bytes.length
  let s := Sha1.absorbAll .initial (padded.length / 64) padded
  [s.a, s.b, s.c, s.d, s.e].flatMap fun w => Bytes.ofNatBE 4 w.toNat

/-- The SHA-1 of a message in lower-case hexadecimal. -/
def sha1Text (bytes : Bytes) : String := Bytes.hex (sha1 bytes)

end UberJar.Digest
