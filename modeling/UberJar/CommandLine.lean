import UberJar.Files.Path
import UberJar.Text.Blank
import UberJar.Text.Split

namespace UberJar

namespace CommandLine

/-- An option that takes a value. The configuration file counts as one that needs no name. -/
inductive ValueOption
  | config
  | input
  | output
  | dependency
  | jar
  | repository
  | relocate
  | destinationRoot
  | exclude
  | targetRelease
  | cacheDir
  deriving DecidableEq, Repr

/-- An option that takes no value. -/
inductive Flag
  | relocatePrimary
  | mergeServiceFiles
  | offline
  | dryRun
  | verbose
  | quiet
  | json
  | help
  | version
  deriving DecidableEq, Repr

/-- Why arguments were refused, or what they ask for instead of a run. -/
inductive UsageError
  | unknownArgument (argument : String)
  | missingValue (option : ValueOption)
  | malformedValue (option : ValueOption) (value : String)
  | repeatedOption (name : String)
  | unexpectedValue (option : Flag)
  | help
  | version
  deriving DecidableEq, Repr

/-- The long names of options with values. -/
def longOptions : List (String × ValueOption) :=
  [("input", .input), ("output", .output), ("dependency", .dependency), ("jar", .jar),
    ("repository", .repository), ("relocate", .relocate), ("prefix", .destinationRoot), ("exclude", .exclude),
    ("target-release", .targetRelease), ("cache-dir", .cacheDir)]

/-- The long names of flags. -/
def longFlags : List (String × Flag) :=
  [("relocate-primary", .relocatePrimary), ("merge-service-files", .mergeServiceFiles), ("offline", .offline),
    ("dry-run", .dryRun), ("verbose", .verbose), ("quiet", .quiet), ("json", .json), ("help", .help),
    ("version", .version)]

/-- The letters of options with values. -/
def shortOptions : List (Char × ValueOption) := [('o', .output)]

/-- The letters of flags. -/
def shortFlags : List (Char × Flag) := [('n', .dryRun), ('q', .quiet), ('h', .help), ('V', .version)]

/-- A package to relocate, and where to. Without a destination it goes under the destination root. -/
structure PackageMove where
  source : String
  destination : Option String := none
  deriving DecidableEq, Repr, Inhabited

/-- Reads `SOURCE` or `SOURCE=DESTINATION`; neither may be blank. -/
def PackageMove.parse? (value : String) : Option PackageMove :=
  let text := Text.trim value.toList
  let (source, destination) := match Text.splitFirst? '=' text with
    | some (source, destination) => (Text.trim source, some (Text.trim destination))
    | none => (text, none)
  if source.isEmpty || destination = some [] then none
  else some ⟨String.ofList source, destination.map String.ofList⟩

/-- Reads a release: a number of sixteen bits, which a sign may precede. -/
def release? (value : String) : Option UInt16 :=
  let (isNegative, digits) := match value.toList with
    | '+' :: rest => (false, rest)
    | '-' :: rest => (true, rest)
    | cs => (false, cs)
  let n := digits.foldl (fun n c => n * 10 + (c.toNat - 48)) 0
  if digits.isEmpty || !digits.all Char.isDigit || n ≥ 65536 || (isNegative && n != 0) then none
  else some (UInt16.ofNat n)

end CommandLine

open CommandLine in
/-- The arguments of a run. -/
structure Arguments where
  config : Option Path := none
  input : Option Path := none
  output : Option Path := none
  dependencies : List String := []
  jars : List Path := []
  repositories : List String := []
  relocations : List PackageMove := []
  destinationRoot : Option String := none
  exclude : List String := []
  relocatePrimary : Bool := false
  mergeServiceFiles : Bool := false
  targetRelease : Option UInt16 := none
  cacheDir : Option Path := none
  offline : Bool := false
  dryRun : Bool := false
  verbose : Bool := false
  quiet : Bool := false
  json : Bool := false
  deriving DecidableEq, Repr, Inhabited

namespace CommandLine

/-- Fills an option that may be given once. -/
def fill {α : Type} (option : ValueOption) (name : String) (old new : Option α) : Except UsageError (Option α) :=
  if old.isSome then .error (.repeatedOption name)
  else if new.isNone then .error (.missingValue option)
  else .ok new

/-- The path that a value gives; an empty value gives none. -/
def path? (value : String) : Option Path := if value.isEmpty then none else some ⟨value⟩

/-- Stores the value of an option. -/
def store (a : Arguments) (option : ValueOption) (value : String) : Except UsageError Arguments :=
  match option with
  | .config => do return { a with config := ← fill option "config" a.config (path? value) }
  | .input => do return { a with input := ← fill option "input" a.input (path? value) }
  | .output => do return { a with output := ← fill option "output" a.output (path? value) }
  | .cacheDir => do return { a with cacheDir := ← fill option "cache-dir" a.cacheDir (path? value) }
  | .destinationRoot => do
    return { a with destinationRoot := ← fill option "prefix" a.destinationRoot (some value) }
  | .targetRelease =>
    if a.targetRelease.isSome then .error (.repeatedOption "target-release")
    else
      match release? value with
      | some release => .ok { a with targetRelease := some release }
      | none => .error (.malformedValue option value)
  | .jar =>
    match path? value with
    | some path => .ok { a with jars := a.jars ++ [path] }
    | none => .error (.missingValue option)
  | .relocate =>
    match PackageMove.parse? value with
    | some move => .ok { a with relocations := a.relocations ++ [move] }
    | none => .error (.malformedValue option value)
  | .dependency => .ok { a with dependencies := a.dependencies ++ [value] }
  | .repository => .ok { a with repositories := a.repositories ++ [value] }
  | .exclude => .ok { a with exclude := a.exclude ++ [value] }

/-- Raises a flag. -/
def raise (a : Arguments) (flag : Flag) : Except UsageError Arguments :=
  let once (name : String) (old : Bool) (raised : Arguments) : Except UsageError Arguments :=
    if old then .error (.repeatedOption name) else .ok raised
  match flag with
  | .relocatePrimary => once "relocate-primary" a.relocatePrimary { a with relocatePrimary := true }
  | .mergeServiceFiles => once "merge-service-files" a.mergeServiceFiles { a with mergeServiceFiles := true }
  | .offline => once "offline" a.offline { a with offline := true }
  | .dryRun => once "dry-run" a.dryRun { a with dryRun := true }
  | .verbose => once "verbose" a.verbose { a with verbose := true }
  | .quiet => once "quiet" a.quiet { a with quiet := true }
  | .json => once "json" a.json { a with json := true }
  | .help => .error .help
  | .version => .error .version

/-- What an argument comes to, when options have been told from values. -/
inductive Event
  | flag (flag : Flag)
  /-- An option, and the value that is attached to it. -/
  | option (option : ValueOption) (attached : Option String)
  | flagWithValue (flag : Flag)
  | unknown (argument : String)
  deriving DecidableEq, Repr

/-- The event of an argument that begins with two dashes. -/
def longEvent (body : List Char) : Event :=
  let (name, value) := match Text.splitFirst? '=' body with
    | some (name, value) => (String.ofList name, some (String.ofList value))
    | none => (String.ofList body, none)
  match longOptions.lookup name, longFlags.lookup name, value with
  | some option, _, _ => .option option value
  | none, some flag, none => .flag flag
  | none, some flag, some _ => .flagWithValue flag
  | none, none, _ => .unknown ("--" ++ name)

/-- The events of an argument that begins with one dash: letters of flags, up to one of an option, which takes
    what is left as its value. -/
def shortEvents : List Char → List Event
  | [] => []
  | c :: rest =>
    match shortOptions.lookup c, shortFlags.lookup c with
    | some option, _ =>
      let value := match rest with
        | '=' :: value => some (String.ofList value)
        | [] => none
        | _ => some (String.ofList rest)
      [.option option value]
    | none, some flag => .flag flag :: shortEvents rest
    | none, none => [.unknown (String.ofList ['-', c])]

/-- The arguments read so far, and the option that waits for its value, or has it but was not yet stored. -/
structure State where
  arguments : Arguments := {}
  pending : Option (ValueOption × Option String) := none
  /-- Whether `--` has ended the options. -/
  namesEnded : Bool := false

/-- Stores the option that is pending. -/
def State.settle (s : State) : Except UsageError State :=
  match s.pending with
  | none => .ok s
  | some (option, none) => .error (.missingValue option)
  | some (option, some value) => do
    return { s with arguments := ← store s.arguments option value, pending := none }

/-- Takes in an event. -/
def State.take (s : State) : Event → Except UsageError State
  | .flag flag => do
    let s ← s.settle
    return { s with arguments := ← raise s.arguments flag }
  | .option option none => do
    let s ← s.settle
    return { s with pending := some (option, none) }
  | .option option (some value) => do
    let s ← s.settle
    return { s with arguments := ← store s.arguments option value }
  | .flagWithValue flag => .error (.unexpectedValue flag)
  | .unknown argument => .error (.unknownArgument argument)

/-- Takes in an argument that is no option: the value of a pending option, or the configuration file. -/
def State.takeValue (s : State) (value : String) : Except UsageError State :=
  match s.pending, s.namesEnded with
  | some (option, none), false => .ok { s with pending := some (option, some value) }
  | pending, _ =>
    if s.arguments.config.isSome || (pending.map (·.1)) = some .config then .error (.unknownArgument value)
    else do
      let s ← s.settle
      return { s with pending := some (.config, some value) }

/-- Takes in an argument. -/
def State.step (s : State) (argument : String) : Except UsageError State :=
  if s.namesEnded then s.takeValue argument
  else
    match argument.toList with
    | ['-', '-'] => .ok { s with namesEnded := true }
    | '-' :: '-' :: body => s.take (longEvent body)
    | ['-'] => s.takeValue argument
    | '-' :: body => (shortEvents body).foldlM State.take s
    | _ => s.takeValue argument

/-- Reads arguments. -/
def parse (arguments : List String) : Except UsageError Arguments := do
  let s ← arguments.foldlM State.step {}
  return (← s.settle).arguments

end CommandLine
end UberJar
