import UberJar.Glob.Pattern

namespace UberJar.Glob

/-- The bytes that a class names. A range runs from the last byte of its low end to the first byte of its
    high end, and a longer character adds its other bytes. -/
def classRanges (ranges : List (Char × Char)) : List (UInt8 × UInt8) :=
  ranges.flatMap fun (low, high) =>
    let lows := String.utf8EncodeChar low
    let highs := String.utf8EncodeChar high
    if low = high then lows.map fun b => (b, b)
    else lows.dropLast.map (fun b => (b, b)) ++ [(lows.getLastD 0, highs.headD 0)] ++ highs.tail.map fun b => (b, b)

/-- A set of places in a path: a flag for each place, from the one before the first byte to the one behind the
    last. -/
abbrev Places := List Bool

namespace Places

/-- The place before the first byte. -/
def first (path : Bytes) : Places := true :: path.map fun _ => false

/-- The places of two sets. -/
def union (a b : Places) : Places := List.zipWith (· || ·) a b

/-- The places one byte behind those given, where the byte has a property. -/
def behind (isTaken : UInt8 → Bool) (path : Bytes) (places : Places) : Places :=
  false :: List.zipWith (fun b place => place && isTaken b) path places

/-- The places any number of bytes behind those given, where the bytes have a property. `reached` tells whether
    the first place is among them already. -/
def spread (isTaken : UInt8 → Bool) (reached : Bool) : Bytes → Places → Places
  | b :: path, place :: places => (reached || place) :: spread isTaken ((reached || place) && isTaken b) path places
  | [], place :: _ => [reached || place]
  | _, [] => []

/-- The places anywhere behind those given, or at them. -/
def onward (path : Bytes) (places : Places) : Places := spread (fun _ => true) false path places

/-- The places behind a slash at those given. -/
def behindSlash : Bytes → Places → Places := behind (· == 0x2F)

end Places

mutual

/-- Whether a token stands for the empty text only, as a choice without a non-empty branch does. -/
def Token.isVoid : Token → Bool
  | .choice branches => areVoid branches
  | _ => false

/-- Whether all tokens of a branch are void. -/
def isVoid : List Token → Bool
  | [] => true
  | token :: tokens => token.isVoid && isVoid tokens

/-- Whether all branches are void. -/
def areVoid : List (List Token) → Bool
  | [] => true
  | branch :: branches => isVoid branch && areVoid branches

end

mutual

/-- The places to which a token leads. -/
def Token.places (path : Bytes) : Token → Places → Places
  | .literal c, places => (String.utf8EncodeChar c).foldl (fun places b => places.behind (· == b) path) places
  | .anyByte, places => places.behind (· != 0x2F) path
  | .anyName, places => places.spread (· != 0x2F) false path
  | .anyParents, places => places.union ((places.onward path).behindSlash path)
  | .anyBelow, places => (places.behindSlash path).onward path
  | .anyBetween, places =>
    let below := places.behindSlash path
    below.union ((below.onward path).behindSlash path)
  | .oneOf negated ranges, places =>
    let ranges := classRanges ranges
    places.behind (fun b => (ranges.any fun (low, high) => low ≤ b && b ≤ high) != negated) path
  | .choice branches, places => if areVoid branches then places else branchPlaces path branches places

/-- The places to which a row of tokens leads. -/
def rowPlaces (path : Bytes) : List Token → Places → Places
  | [], places => places
  | token :: tokens, places => rowPlaces path tokens (token.places path places)

/-- The places to which one of the non-void branches leads. -/
def branchPlaces (path : Bytes) : List (List Token) → Places → Places
  | [], places => places.map fun _ => false
  | branch :: branches, places =>
    let others := branchPlaces path branches places
    if isVoid branch then others else (rowPlaces path branch places).union others

end

/-- Whether a token is a literal. -/
def Token.isLiteral : Token → Bool
  | .literal _ => true
  | _ => false

/-- Whether a token is a certain literal. -/
def Token.isChar (c : Char) : Token → Bool
  | .literal d => c == d
  | _ => false

/-- Whether a pattern is decided on the file name of a path, rather than on the path as a whole, when it
    ends in a literal. A literal text is decided on the whole path, also behind `**/` if it has a slash. -/
def looksAtName : List Token → Bool
  | .anyParents :: tokens => !(tokens.all Token.isLiteral && tokens.any (Token.isChar '/'))
  | tokens => !tokens.all Token.isLiteral

/-- The last component of a path: its bytes behind the last slash. -/
def lastComponent (path : Bytes) : Bytes :=
  (path.reverse.takeWhile (· != 0x2F)).reverse

/-- Whether a path leads to a parent directory. Such a path has no file name. -/
def isUpward (path : Bytes) : Bool :=
  lastComponent path == [0x2E, 0x2E]

/-- Whether a pattern asks for a file name that ends in a dot, which no path without a file name has. -/
def asksForNameWithDot (tokens : List Token) : Bool :=
  (tokens.getLast?.any (Token.isChar '.')) && looksAtName tokens

/-- Whether a pattern matches a path. -/
def isMatch (tokens : List Token) (path : Bytes) : Bool :=
  match tokens with
  | [.anyParents] => true
  | tokens =>
    !(asksForNameWithDot tokens && isUpward path) && (rowPlaces path tokens (.first path)).getLast? == some true

end UberJar.Glob
