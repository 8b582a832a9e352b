namespace UberJar.Text

/-- The characters with Unicode's `White_Space` property. -/
def isBlank (c : Char) : Bool :=
  let n := c.toNat
  (9 ≤ n && n ≤ 13) || n == 0x20 || n == 0x85 || n == 0xA0 || n == 0x1680 ||
    (0x2000 ≤ n && n ≤ 0x200A) || n == 0x2028 || n == 0x2029 || n == 0x202F || n == 0x205F || n == 0x3000

/-- Drops the longest suffix whose characters all satisfy `p`. -/
def dropEndWhile (p : Char → Bool) (cs : List Char) : List Char :=
  (cs.reverse.dropWhile p).reverse

/-- Drops the longest prefix and the longest suffix whose characters all satisfy `p`. -/
def dropAround (p : Char → Bool) (cs : List Char) : List Char :=
  dropEndWhile p (cs.dropWhile p)

/-- Drops leading blanks. -/
def trimStart (cs : List Char) : List Char := cs.dropWhile isBlank

/-- Drops leading and trailing blanks. -/
def trim (cs : List Char) : List Char := dropAround isBlank cs

/-- Drops leading and trailing blanks of a string. -/
def trimmed (s : String) : String := String.ofList (trim s.toList)

theorem isBlank_of_isWhitespace {c : Char} (hc : c.isWhitespace = true) : isBlank c = true := by
  simp only [Char.isWhitespace, Bool.or_eq_true, decide_eq_true_eq] at hc
  rcases hc with ((rfl | rfl) | rfl) | rfl <;> decide

end UberJar.Text
