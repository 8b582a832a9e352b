import UberJar.ClassFile.FormatError
import UberJar.Files.OsError
import UberJar.Files.Path
import UberJar.Glob.Pattern

namespace UberJar

/-- Why a text is no coordinate. -/
inductive CoordinateFault
  | emptyExtension
  | emptyComponent
  | wrongShape
  deriving DecidableEq, Repr

/-- The wording of a fault. -/
def CoordinateFault.message : CoordinateFault → String
  | emptyExtension => "empty extension"
  | emptyComponent => "empty component"
  | wrongShape => "expected 'group:artifact:version[:classifier][@extension]'"

/-- Why a text is no exclusion pattern. -/
inductive PatternFault
  | empty
  | glob (pattern : String) (fault : Glob.Fault)
  deriving DecidableEq, Repr

/-- The wording of a fault. -/
def PatternFault.message : PatternFault → String
  | empty => "empty pattern"
  | glob pattern fault => s!"error parsing glob '{pattern}': {fault.message}"

/-- Why a text file could not be read. -/
inductive TextReadFault
  | os (error : OsError)
  | notUtf8
  deriving DecidableEq, Repr

/-- The wording of a fault. -/
def TextReadFault.message : TextReadFault → String
  | os error => error.message
  | notUtf8 => "stream did not contain valid UTF-8"

/-- What is wrong with a configuration. -/
inductive ConfigError
  | unreadable (path : Path) (fault : TextReadFault)
  | malformedToml (path : Path) (detail : String)
  | missingOption (name : String)
  | inputNotFound (path : Path)
  | invalidCoordinate (value : String) (fault : CoordinateFault)
  | invalidPackage (value : String)
  | invalidPattern (pattern : String) (fault : PatternFault)
  | destinationUnderSource (source destination : String)
  | duplicateRelocation (source first second : String)
  | namespaceCollision (destination entry : String)
  /-- A dependency with both a coordinate, which is given, and a path, or with neither. -/
  | invalidDependency (coordinate : Option String)
  deriving DecidableEq, Repr

/-- Why a request got no answer of use. -/
inductive NetworkFault
  | unreachable
  | brokenBody
  | status (code : Nat) (reason : Option String)
  | other (text : String)
  deriving DecidableEq, Repr

/-- The wording of a fault. -/
def NetworkFault.message : NetworkFault → String
  | unreachable => "error sending request"
  | brokenBody => "failed to read response body: "
  | status code reason =>
    let words := reason.getD "<unknown status code>"
    s!"HTTP {code} {words}"
  | other text => text

/-- Why a dependency could not be resolved. -/
inductive ResolveError
  | missingDependency (coordinate : String) (searched : List String)
  | network (url : String) (fault : NetworkFault)
  | rateLimitExceeded (url : String)
  | timeout (url : String)
  | checksumMismatch (coordinate expected actual : String)
  | malformedPom (coordinate detail : String)
  | parentChainTooDeep (coordinate : String)
  | cacheWrite (path : Path) (error : OsError)
  /-- The declared modules require ever more of them. -/
  | endlessRequirements
  deriving DecidableEq, Repr

/-- Why an archive could not be read, written or relocated. -/
inductive ArchiveError
  | unreadable (path : Path) (detail : String)
  | unwritable (path : Path) (detail : String)
  | malformedClass (entry origin : String) (error : ClassFile.FormatError)
  | unsupportedClassVersion (entry origin : String) (major release : UInt16)
  deriving DecidableEq, Repr

/-- Two archives disagree about an entry. -/
structure Conflict where
  path : String
  first : String
  second : String
  deriving DecidableEq, Repr

/-- Why a run failed. -/
inductive Failure
  | config (error : ConfigError)
  | resolve (error : ResolveError)
  | archive (error : ArchiveError)
  | conflict (conflict : Conflict)
  /-- A sum that its machine integer does not hold. No error is reported then: the program breaks off. -/
  | overflow
  deriving DecidableEq, Repr

/-- The wording of an error up to the words of another format's reader. -/
def ConfigError.headline : ConfigError → String
  | unreadable path fault => s!"failed to read config file {path}: {fault.message}"
  | malformedToml path _ => s!"failed to parse TOML in {path}: "
  | missingOption name => s!"missing required option '{name}'"
  | inputNotFound path => s!"input not found: {path}"
  | invalidCoordinate value fault => s!"invalid coordinate '{value}': {fault.message}"
  | invalidPackage value => s!"invalid package name '{value}'"
  | invalidPattern pattern fault => s!"invalid exclusion pattern '{pattern}': {fault.message}"
  | destinationUnderSource source destination =>
    s!"relocation destination '{destination}' lies under its source '{source}'"
  | duplicateRelocation source first second => s!"package '{source}' is relocated to both '{first}' and '{second}'"
  | namespaceCollision destination entry =>
    s!"relocation destination '{destination}' collides with first-party entry '{entry}'"
  | invalidDependency (some coordinate) =>
    s!"invalid dependency declaration: '{coordinate}' has both a coordinate and a path"
  | invalidDependency none => "invalid dependency declaration: dependency needs a coordinate or a path"

/-- The words of another format's reader. -/
def ConfigError.detail : ConfigError → String
  | malformedToml _ detail => detail
  | _ => ""

/-- The wording of an error up to the words of another format's reader. -/
def ResolveError.headline : ResolveError → String
  | missingDependency coordinate searched =>
    let names := if searched.isEmpty then "no repositories" else ", ".intercalate searched
    s!"could not resolve dependency '{coordinate}' (searched: {names})"
  | network url fault => s!"failed to fetch {url}: {fault.message}"
  | rateLimitExceeded url => s!"rate limit exceeded for {url}"
  | timeout url => s!"timeout while fetching {url}"
  | checksumMismatch coordinate expected actual =>
    s!"checksum mismatch for '{coordinate}': expected {expected}, got {actual}"
  | malformedPom coordinate _ => s!"failed to parse POM for '{coordinate}': "
  | parentChainTooDeep coordinate => s!"parent POM chain of '{coordinate}' is too deep"
  | cacheWrite path error => s!"failed to write cache file {path}: {error.message}"
  | endlessRequirements => "gave up following requirements"

/-- The words of another format's reader. -/
def ResolveError.detail : ResolveError → String
  | malformedPom _ detail => detail
  | network _ .brokenBody => "connection closed before the announced length"
  | _ => ""

/-- The wording of an error up to the words of another format's reader. -/
def ArchiveError.headline : ArchiveError → String
  | unreadable path _ => s!"failed to read archive {path}: "
  | unwritable path _ => s!"failed to write archive {path}: "
  | malformedClass entry origin error => s!"malformed class file '{entry}' in {origin}: {error.message}"
  | unsupportedClassVersion entry origin major release =>
    s!"class '{entry}' in {origin} has class file version {major}, newer than release {release}"

/-- The words of another format's reader. -/
def ArchiveError.detail : ArchiveError → String
  | unreadable _ detail | unwritable _ detail => detail
  | _ => ""

/-- The wording of a conflict. -/
def Conflict.message (c : Conflict) : String :=
  s!"conflicting entry '{c.path}': provided by both {c.first} and {c.second} with different content"

namespace Failure

/-- The wording of a failure up to the words of another format's reader. -/
def headline : Failure → String
  | config error => error.headline
  | resolve error => error.headline
  | archive error => error.headline
  | conflict c => c.message
  | overflow => "attempt to add with overflow"

/-- The words of another format's reader. -/
def detail : Failure → String
  | config error => error.detail
  | resolve error => error.detail
  | archive error => error.detail
  | conflict _ | overflow => ""

/-- The full wording of a failure. -/
def message (f : Failure) : String := f.headline ++ f.detail

/-- The exit code of a run that failed. -/
def exitCode : Failure → UInt8
  | config _ => 2
  | resolve _ => 3
  | conflict _ => 4
  | archive _ => 1
  | overflow => 101

end Failure
end UberJar
