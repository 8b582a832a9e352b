import UberJar.Config.Overlay
import UberJar.Report.Render
import UberJar.Run

namespace UberJar.Program

/-- The program's name. -/
def name : String := "jarshade"

/-- The program's version. -/
def version : String := "0.4.2"

/-- The configuration file that is read if there is one and no other is named. -/
def defaultConfig : Path := ⟨"./jarshade.toml"⟩

/-- How the program ends. The notes are lines printed before the run. -/
inductive Ending
  | usage (error : CommandLine.UsageError)
  | failed (notes : List String) (failure : Failure)
  | reported (notes : List String) (options : Report.Options) (report : Report)
  deriving Repr

/-- The text of lines. -/
private def unlines (lines : List String) : String := String.join (lines.map (· ++ "\n"))

/-- What `--help` prints. -/
def help : String :=
  unlines
    ["Merges compiled classes with the jars they depend on into one jar",
      "",
      "Usage: jarshade [OPTIONS] [CONFIG]",
      "",
      "Arguments:",
      "  [CONFIG]                     Configuration file [default: jarshade.toml, if it exists]",
      "",
      "Options:",
      "      --input <PATH>           Jar or directory of classes of the application",
      "  -o, --output <PATH>          Jar to write",
      "      --dependency <COORD>     Maven coordinate to bundle",
      "      --jar <PATH>             Local jar to bundle",
      "      --repository <LOCATION>  Repository URL or directory",
      "      --relocate <RULE>        Package to relocate: SOURCE or SOURCE=DESTINATION",
      "      --prefix <PACKAGE>       Package under which packages without a destination go",
      "      --exclude <PATTERN>      Entries to leave out",
      "      --relocate-primary       Relocate the application's own entries too",
      "      --merge-service-files    Merge service files instead of requiring them to agree",
      "      --target-release <N>     Newest release whose classes are admitted",
      "      --cache-dir <PATH>       Directory for downloaded files",
      "      --offline                Do not use remote repositories",
      "  -n, --dry-run                Do everything but write the jar",
      "      --verbose                Say more",
      "  -q, --quiet                  Say less",
      "      --json                   Print the report as JSON",
      "  -h, --help                   Print help",
      "  -V, --version                Print version"]

/-- The wording of a usage error. -/
def usageMessage : CommandLine.UsageError → String
  | .unknownArgument argument => s!"unexpected argument '{argument}' found"
  | .missingValue _ => "a value is required for an option but none was supplied"
  | .malformedValue _ value => s!"invalid value '{value}' for an option"
  | .repeatedOption name => s!"the argument '--{name}' cannot be used multiple times"
  | .unexpectedValue _ => "unexpected value for a flag found"
  | .help | .version => ""

namespace Ending

/-- What is printed as the result. -/
def stdout : Ending → String
  | usage .help => help
  | usage .version => unlines [name ++ " " ++ version]
  | usage _ | failed .. => ""
  | reported _ options report => Report.render options report

/-- What is printed besides. -/
def stderr : Ending → String
  | usage .help | usage .version => ""
  | usage e => unlines ["error: " ++ usageMessage e]
  | failed notes .overflow => unlines (notes ++ [Failure.overflow.message])
  | failed notes failure => unlines (notes ++ ["Error: " ++ failure.message])
  | reported notes _ _ => unlines notes

/-- The exit code. -/
def exitCode : Ending → UInt8
  | usage .help | usage .version | reported .. => 0
  | usage _ => 2
  | failed _ failure => failure.exitCode

end Ending

/-- The lines that describe a plan. -/
def describe (p : Plan) : List String :=
  [name ++ " v" ++ version, "Input: " ++ p.input.text, "Output: " ++ p.output.text]
    ++ p.relocator.rules.map (fun rule => "Relocate: " ++ rule.render)
    ++ if p.dryRun then ["Mode: dry-run"] else []

variable {m : Type → Type} [Monad m] [FileSystem m]

/-- The plan that arguments ask for. -/
def plan (env : Environment m) (a : Arguments) : ExceptT ConfigError m Plan := do
  let file ← match a.config with
    | some path => pure (some path)
    | none => do
      if ← ExceptT.lift (FileSystem.isFile defaultConfig) then pure (some defaultConfig) else pure none
  let config ← match file with
    | some path => ExceptT.mk (Config.load path)
    | none => pure {}
  ExceptT.mk ((config.overlay a).plan env.cacheDir a.dryRun)

/-- Runs the program. -/
def run (env : Environment m) (arguments : List String) : m Ending := do
  match CommandLine.parse arguments with
  | .error e => return .usage e
  | .ok a =>
    match ← plan env a with
    | .error e => return .failed [] (.config e)
    | .ok p =>
      let notes := if a.verbose then describe p else []
      match ← p.run env with
      | .error e => return .failed notes e
      | .ok report =>
        let options := Report.Options.ofFlags a.json a.verbose a.quiet a.dryRun
        return .reported notes { options with color := env.color } report

end UberJar.Program
