import UberJar.Deflate.Token

namespace UberJar.Deflate

/-- The farthest a copy reaches back. -/
def windowSize : Nat := 32768

/-- The chains of the positions seen so far: those with the same hash of three bytes, the latest first. Of a
    position the low 16 bits are kept, and a link to position zero ends a chain. -/
structure History where
  /-- The latest position of each hash. -/
  heads : Array UInt16
  /-- The position before each position of the window on its chain. -/
  links : Array UInt16

/-- A copy that could stand at a position. -/
structure Match where
  length : Nat
  distance : Nat
  deriving DecidableEq, Repr, Inhabited

namespace History

/-- No positions. -/
def empty : History := ⟨Array.replicate windowSize 0, Array.replicate windowSize 0⟩

/-- The byte at a position; zero past the end. -/
def byteAt (data : Array UInt8) (position : Nat) : Nat := (data.getD position 0).toNat

/-- The hash of the three bytes at a position. -/
def hash (data : Array UInt8) (position : Nat) : Nat :=
  (byteAt data position <<< 10 ^^^ byteAt data (position + 1) <<< 5 ^^^ byteAt data (position + 2)) % windowSize

/-- The chains with a position added, if three bytes stand there. -/
def insert (data : Array UInt8) (position : Nat) (history : History) : History :=
  if position + 2 < data.size then
    let h := hash data position
    let { heads, links } := history
    let earlier := heads.getD h 0
    { heads := heads.set! h (UInt16.ofNat position), links := links.set! (position % windowSize) earlier }
  else history

/-- The chains with `count` positions added, from `position` on. -/
def insertAll (data : Array UInt8) (position : Nat) : (count : Nat) → History → History
  | 0, history => history
  | count + 1, history => insertAll data (position + 1) count (insert data position history)

/-- The number of bytes, up to a bound, that stand alike at two positions. -/
def agreement (data : Array UInt8) (first second : Nat) : (bound : Nat) → Nat
  | 0 => 0
  | bound + 1 =>
    if data.getD first 0 == data.getD second 0 then agreement data (first + 1) (second + 1) bound + 1 else 0

/-- Follows a chain from `place`, for at most the given number of links, to a position whose bytes at the end
    of a match of `length` agree with those at `position`, and gives its distance. None when the chain ends or
    leaves the window first; `some none` when the links run out. -/
def nextCandidate (history : History) (data : Array UInt8) (position reach length : Nat) :
    (tries : Nat) → (place : Nat) → Option (Nat × Option Nat)
  | 0, place => some (place, none)
  | tries + 1, place =>
    let link := (history.links.getD place 0).toNat
    let distance := (position % 65536 + 65536 - link) % 65536
    if link = 0 ∨ distance > reach then none
    else
      let place := link % windowSize
      let last := position + length - 1
      if byteAt data (last - distance) = byteAt data last
          ∧ byteAt data (last + 1 - distance) = byteAt data (last + 1) then some (place, some distance)
      else nextCandidate history data position reach length tries place

/-- Searches a chain from `place` for a match longer than `best`, of at most `bound` bytes. -/
def search (history : History) (data : Array UInt8) (position reach bound : Nat) :
    (rounds : Nat) → (place : Nat) → (best : Match) → Match
  | 0, _, best => best
  | rounds + 1, place, best =>
    match nextCandidate history data position reach best.length 3 place with
    | none => best
    | some (place, none) => search history data position reach bound rounds place best
    | some (place, some distance) =>
      if distance = 0 then best
      else
        let length := agreement data (position - distance) position bound
        if length ≤ best.length then search history data position reach bound rounds place best
        else if length = bound then ⟨length, distance⟩
        else search history data position reach bound rounds place ⟨length, distance⟩

/-- The number of rounds of a search: fewer when there is a good match already. -/
def rounds (length : Nat) : Nat := if length ≥ 32 then 11 else 43

/-- A match at a position that is longer than `length`, if the search finds one. Three bytes are not worth a
    long way back, nor is a match with the start of a window. -/
def find? (history : History) (data : Array UInt8) (position length : Nat) : Option Match :=
  let bound := min maxLength (data.size - position)
  if bound ≤ length then none
  else
    let reach := min position (windowSize - bound)
    let found := search history data position reach bound (rounds length) (position % windowSize) ⟨length, 0⟩
    let isFarForThree := found.length = 3 ∧ found.distance ≥ 8192
    if found.distance = 0 ∨ isFarForThree ∨ found.distance = position % windowSize then none else some found

end History
end UberJar.Deflate
