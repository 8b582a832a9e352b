import UberJar.Bytes

namespace UberJar.Text.Utf8

/-- The UTF-8 form of a text. -/
def encode (cs : List Char) : Bytes := cs.flatMap String.utf8EncodeChar

/-- The UTF-8 form of a string. -/
def ofString (s : String) : Bytes := encode s.toList

/-- Whether a byte continues a sequence. -/
def isContinuation (b : UInt8) : Bool := b &&& 0xC0 == 0x80

/-- The low six bits of a continuation byte. -/
def payload (b : UInt8) : Nat := (b &&& 0x3F).toNat

/-- The second bytes that may follow a lead byte of a three-byte sequence: no surrogates, no longer form
    than needed. -/
def fitsThree (lead second : UInt8) : Bool :=
  isContinuation second && !(lead == 0xE0 && second < 0xA0) && !(lead == 0xED && second ≥ 0xA0)

/-- The second bytes that may follow a lead byte of a four-byte sequence: nothing above U+10FFFF, no
    longer form than needed. -/
def fitsFour (lead second : UInt8) : Bool :=
  isContinuation second && !(lead == 0xF0 && second < 0x90) && !(lead == 0xF4 && second ≥ 0x90)

/-- Reads one piece that begins with `b`: its scalar value, if it is one, and the bytes after it. -/
def piece (b : UInt8) (rest : Bytes) : Option Char × Bytes :=
  if b < 0x80 then (some (Char.ofNat b.toNat), rest)
  else if 0xC2 ≤ b && b ≤ 0xDF then
    match rest with
    | b₁ :: r₁ =>
      if isContinuation b₁ then (some (Char.ofNat ((b &&& 0x1F).toNat * 64 + payload b₁)), r₁) else (none, rest)
    | [] => (none, [])
  else if 0xE0 ≤ b && b ≤ 0xEF then
    match rest with
    | b₁ :: r₁ =>
      if fitsThree b b₁ then
        match r₁ with
        | b₂ :: r₂ =>
          if isContinuation b₂ then
            (some (Char.ofNat (((b &&& 0x0F).toNat * 64 + payload b₁) * 64 + payload b₂)), r₂)
          else (none, r₁)
        | [] => (none, [])
      else (none, rest)
    | [] => (none, [])
  else if 0xF0 ≤ b && b ≤ 0xF4 then
    match rest with
    | b₁ :: r₁ =>
      if fitsFour b b₁ then
        match r₁ with
        | b₂ :: r₂ =>
          if isContinuation b₂ then
            match r₂ with
            | b₃ :: r₃ =>
              if isContinuation b₃ then
                (some (Char.ofNat
                  ((((b &&& 0x07).toNat * 64 + payload b₁) * 64 + payload b₂) * 64 + payload b₃)), r₃)
              else (none, r₂)
            | [] => (none, [])
          else (none, r₁)
        | [] => (none, [])
      else (none, rest)
    | [] => (none, [])
  else (none, rest)

theorem length_piece_le (b : UInt8) (rest : Bytes) : (piece b rest).2.length ≤ rest.length := by
  unfold piece
  repeat' split
  all_goals first | (simp only [List.length_cons, List.length_nil]; omega)

/-- The pieces of a byte string, last piece first, on top of `acc`. -/
def piecesOnto (acc : List (Option Char)) : Bytes → List (Option Char)
  | [] => acc
  | b :: rest =>
    let read := piece b rest
    piecesOnto (read.1 :: acc) read.2
termination_by bytes => bytes.length
decreasing_by
  have := length_piece_le b rest
  simp only [List.length_cons]
  omega

/-- The pieces of a byte string: `none` stands for a sequence that is no scalar value. -/
def pieces (bytes : Bytes) : List (Option Char) := (piecesOnto [] bytes).reverse

/-- The text of a byte string, with U+FFFD for each malformed sequence. -/
def decodeLossy (bytes : Bytes) : List Char := (pieces bytes).map (·.getD '\uFFFD')

/-- The text of a byte string, if all of it is well formed. -/
def decode? (bytes : Bytes) : Option (List Char) :=
  let ps := pieces bytes
  if ps.all Option.isSome then some (ps.filterMap id) else none

end UberJar.Text.Utf8
