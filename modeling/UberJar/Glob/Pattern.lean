import UberJar.Text.Utf8

namespace UberJar.Glob

/-- One element of a pattern. -/
inductive Token
  /-- The character itself. -/
  | literal (c : Char)
  /-- `?`: one byte other than a slash. -/
  | anyByte
  /-- `*`: any bytes other than slashes. -/
  | anyName
  /-- `**/` at the start: any directories, or none. -/
  | anyParents
  /-- `/**` at the end: anything below. -/
  | anyBelow
  /-- `/**/` inside: a slash, or any directories between two slashes. -/
  | anyBetween
  /-- `[…]`: one byte of the ranges, or one byte outside them. -/
  | oneOf (negated : Bool) (ranges : List (Char × Char))
  /-- `{…,…}`: one of the branches. -/
  | choice (branches : List (List Token))
  deriving Repr, Inhabited

/-- Why a text is no pattern. -/
inductive Fault
  | unclosedClass
  | invalidRange (low high : Char)
  | unclosedChoice
  | unopenedChoice
  | danglingEscape
  deriving DecidableEq, Repr

/-- The wording of a fault. -/
def Fault.message : Fault → String
  | unclosedClass => "unclosed character class; missing ']'"
  | invalidRange low high => s!"invalid range; '{low}' > '{high}'"
  | unclosedChoice => "unclosed alternate group; missing '\x7d' (maybe escape '\x7b' with '[\x7b]'?)"
  | unopenedChoice => "unopened alternate group; missing '\x7b' (maybe escape '\x7d' with '[\x7d]'?)"
  | danglingEscape => "dangling '\\'"

/-- An open `{`: the tokens before it and its finished branches, both latest first. -/
structure Group where
  before : List Token
  branches : List (List Token)

/-- What the reader is in the middle of. -/
inductive Mode
  | plain
  /-- Behind a backslash. -/
  | escape
  /-- Behind the `[` of a class. -/
  | classStart
  /-- In a class, with its ranges, latest first; `first` until a character was read, `open` behind a dash
      that may go on to be a range. -/
  | inClass (negated : Bool) (ranges : List (Char × Char)) (first inRange : Bool)

/-- The state of the reader: its mode, the character before the next one, the tokens of the current branch,
    latest first, and the open groups, innermost first. -/
structure Reader where
  mode : Mode
  previous : Option Char
  tokens : List Token
  groups : List Group

namespace Reader

def push (r : Reader) (token : Token) : Reader := { r with tokens := token :: r.tokens }

/-- Two stars that are no `**` component. -/
def pushTwoNames (r : Reader) : Reader := (r.push .anyName).push .anyName

/-- The tokens once the separator before a `**` is taken back: neighbouring `**` components are one. -/
def joinAnyDirectories (last : Token) (tokens : List Token) : List Token :=
  match tokens with
  | .anyParents :: rest => .anyParents :: rest
  | .anyBelow :: rest => .anyBelow :: rest
  | _ :: rest => last :: rest
  | [] => [last]

/-- Whether a `**` behind tokens stands where a component may begin. -/
def startsComponent (r : Reader) : Bool :=
  r.previous == some '/' || (!r.groups.isEmpty && (r.previous == some ',' || r.previous == some '{'))

/-- Adds one character of a class. -/
def classChar (negated : Bool) (ranges : List (Char × Char)) (first inRange : Bool) (c : Char) :
    Except Fault (Mode ⊕ Token) :=
  if c = ']' ∧ !first then
    .ok (.inr (.oneOf negated (if inRange then ('-', '-') :: ranges else ranges).reverse))
  else if c = '-' ∧ !first ∧ !inRange then
    .ok (.inl (.inClass negated ranges false true))
  else
    match inRange, ranges with
    | true, (low, _) :: rest =>
      if c < low then .error (.invalidRange low c)
      else .ok (.inl (.inClass negated ((low, c) :: rest) false false))
    | _, _ => .ok (.inl (.inClass negated ((c, c) :: ranges) false false))

/-- Reads one character that does not begin a `**`. -/
def char (r : Reader) (c : Char) : Except Fault Reader :=
  match r.mode with
  | .escape => .ok { r.push (.literal c) with mode := .plain }
  | .classStart =>
    if c = '!' ∨ c = '^' then .ok { r with mode := .inClass true [] true false }
    else inClass r false [] true false c
  | .inClass negated ranges first inRange => inClass r negated ranges first inRange c
  | .plain =>
    match c with
    | '?' => .ok (r.push .anyByte)
    | '*' => .ok (r.push .anyName)
    | '[' => .ok { r with mode := .classStart }
    | '\\' => .ok { r with mode := .escape }
    | '{' => .ok { r with tokens := [], groups := ⟨r.tokens, []⟩ :: r.groups }
    | '}' =>
      match r.groups with
      | [] => .error .unopenedChoice
      | group :: groups =>
        .ok { r with tokens := .choice (r.tokens.reverse :: group.branches).reverse :: group.before, groups }
    | ',' =>
      match r.groups with
      | [] => .ok (r.push (.literal ','))
      | group :: groups =>
        .ok { r with tokens := [], groups := { group with branches := r.tokens.reverse :: group.branches } :: groups }
    | c => .ok (r.push (.literal c))
where
  inClass (r : Reader) (negated : Bool) (ranges : List (Char × Char)) (first inRange : Bool) (c : Char) :
      Except Fault Reader :=
    (classChar negated ranges first inRange c).map fun
      | .inl mode => { r with mode }
      | .inr token => { r.push token with mode := .plain }

/-- Reads the rest of a pattern's text. -/
def text (r : Reader) (cs : List Char) : Except Fault (List Token) :=
  match r.mode, cs with
  | .plain, '*' :: '*' :: more =>
    if r.tokens.isEmpty then
      match more with
      | '/' :: more => text { r.push .anyParents with previous := some '/' } more
      | [] => text (r.push .anyParents) []
      | next :: more => text { r.pushTwoNames with previous := some '*' } (next :: more)
    else if !r.startsComponent then text { r.pushTwoNames with previous := some '*' } more
    else
      match more with
      | '/' :: more =>
        text { r with tokens := joinAnyDirectories .anyBetween r.tokens, previous := some '/' } more
      | [] => text { r with tokens := joinAnyDirectories .anyBelow r.tokens } []
      | next :: more =>
        if (next = ',' ∨ next = '}') ∧ !r.groups.isEmpty then
          text { r with tokens := joinAnyDirectories .anyBelow r.tokens, previous := some '*' } (next :: more)
        else text { r.pushTwoNames with previous := some '*' } (next :: more)
  | _, c :: rest =>
    match r.char c with
    | .ok next => text { next with previous := some c } rest
    | .error fault => .error fault
  | .plain, [] => if r.groups.isEmpty then .ok r.tokens.reverse else .error .unclosedChoice
  | .escape, [] => .error .danglingEscape
  | _, [] => .error .unclosedClass
termination_by cs.length
decreasing_by all_goals (simp only [wfParam, List.length_cons, List.length_nil]; omega)

end Reader

/-- Reads a pattern. -/
def parse (pattern : List Char) : Except Fault (List Token) :=
  Reader.text ⟨.plain, none, [], []⟩ pattern

end UberJar.Glob
