import Std.Time.DateTime.Timestamp
import UberJar.Program

namespace UberJar.Main

/-- The refusal behind an error of the machine. -/
def refusal (e : IO.Error) : OsError :=
  let number : UInt32 := match e with
    | .alreadyExists _ n _ | .otherError n _ | .resourceBusy n _ | .resourceVanished n _
    | .unsupportedOperation n _ | .hardwareFault n _ | .unsatisfiedConstraints n _ | .illegalOperation n _
    | .protocolError n _ | .timeExpired n _ | .interrupted _ n _ | .noFileOrDirectory _ n _
    | .invalidArgument _ n _ | .permissionDenied _ n _ | .resourceExhausted _ n _ | .inappropriateType _ n _
    | .noSuchThing _ n _ => n
    | .unexpectedEof | .userError _ => 0
  OsError.ofNumber number.toNat (toString e)

/-- Tries an operation. -/
def attempt {α : Type} (operation : IO α) : IO (Except OsError α) := do
  match ← operation.toBaseIO with
  | .ok a => return .ok a
  | .error e => return .error (refusal e)

instance : FileSystem IO where
  isDirectory? p := do
    match ← attempt (do (← IO.FS.realPath p.text).metadata) with
    | .ok found => return some (found.type == .dir)
    | .error _ => return none
  readFile p := attempt (return (← IO.FS.readBinFile p.text).toList)
  listDirectory p := attempt (return (← (← IO.FS.realPath p.text).readDir).toList.map (·.fileName))
  makeDirectory p := attempt (IO.FS.createDir p.text)
  writeFile p data := attempt (IO.FS.writeBinFile p.text ⟨data.toArray⟩)
  renameFile p q := attempt (IO.FS.rename p.text q.text)
  removeFile p := attempt (IO.FS.removeFile p.text)

/-- The directory for cached files of this program. -/
def cacheDir : IO Path := do
  let root ← match ← IO.getEnv "XDG_CACHE_HOME", ← IO.getEnv "HOME" with
    | some dir, home =>
      if dir.startsWith "/" then pure dir else pure (home.elim "/tmp" (· ++ "/.cache"))
    | none, some home => pure (home ++ "/.cache")
    | none, none => pure "/tmp"
  return (Path.mk root).join ⟨Program.name⟩

/-- The time. -/
def now : IO Timestamp := do
  let time := (← Std.Time.Timestamp.now).val
  return { seconds := time.second.val, nanos := time.nano.val.toNat }

/-- What the machine offers. There is no network, so that requests reach nothing. -/
def environment : IO (Environment IO) := do
  let isTerminal ← (← IO.getStdout).isTty
  let isPlain := (← IO.getEnv "NO_COLOR").isSome
  return {
    transport := fun _ => return .unreachable
    clock := now
    cacheDir := ← cacheDir
    color := isTerminal && !isPlain }

end UberJar.Main

open UberJar in
/-- Runs the program on the arguments. -/
def main (arguments : List String) : IO UInt32 := do
  let ending ← Program.run (← Main.environment) arguments
  (← IO.getStderr).putStr ending.stderr
  (← IO.getStdout).putStr ending.stdout
  return ending.exitCode.toUInt32
