import UberJar.Repository.Basic
import UberJar.Text.Blank

namespace UberJar

/-- The answer to one request. -/
inductive Reply
  /-- A status, and the body unless it broke off. -/
  | response (status : Nat) (body : Option Bytes)
  | timedOut
  | unreachable
  deriving DecidableEq, Repr

/-- A way to make requests. -/
abbrev Transport (m : Type → Type) := (url : String) → m Reply

namespace Http

/-- The phrase that goes with a status. -/
def reason? (status : Nat) : Option String :=
  [(100, "Continue"), (101, "Switching Protocols"), (102, "Processing"), (300, "Multiple Choices"),
    (301, "Moved Permanently"), (302, "Found"), (303, "See Other"), (304, "Not Modified"), (305, "Use Proxy"),
    (307, "Temporary Redirect"), (308, "Permanent Redirect"), (400, "Bad Request"), (401, "Unauthorized"),
    (402, "Payment Required"), (403, "Forbidden"), (405, "Method Not Allowed"), (406, "Not Acceptable"),
    (407, "Proxy Authentication Required"), (408, "Request Timeout"), (409, "Conflict"), (410, "Gone"),
    (411, "Length Required"), (412, "Precondition Failed"), (413, "Payload Too Large"), (414, "URI Too Long"),
    (415, "Unsupported Media Type"), (416, "Range Not Satisfiable"), (417, "Expectation Failed"),
    (418, "I'm a teapot"), (421, "Misdirected Request"), (422, "Unprocessable Entity"), (423, "Locked"),
    (424, "Failed Dependency"), (425, "Too Early"), (426, "Upgrade Required"), (428, "Precondition Required"),
    (431, "Request Header Fields Too Large"), (451, "Unavailable For Legal Reasons"),
    (500, "Internal Server Error"), (501, "Not Implemented"), (502, "Bad Gateway"), (503, "Service Unavailable"),
    (504, "Gateway Timeout"), (505, "HTTP Version Not Supported"), (506, "Variant Also Negotiates"),
    (507, "Insufficient Storage"), (508, "Loop Detected"), (510, "Not Extended"),
    (511, "Network Authentication Required")].lookup status

/-- What follows from a reply. -/
inductive Verdict
  | answered (file : Option Bytes)
  | refused (error : ResolveError)
  /-- The request may be made again. -/
  | failed (error : ResolveError)
  deriving DecidableEq, Repr

/-- What follows from a reply: a missing file is no error, and a server that is busy may be asked again. -/
def verdict (url : String) : Reply → Verdict
  | .response status body =>
    if status = 429 then .failed (.rateLimitExceeded url)
    else if status = 404 then .answered none
    else if status < 200 ∨ status ≥ 300 then .refused (.network url (.status status (reason? status)))
    else
      match body with
      | some data => .answered (some data)
      | none => .failed (.network url .brokenBody)
  | .timedOut => .failed (.timeout url)
  | .unreachable => .failed (.network url .unreachable)

/-- The result if no further request is made. -/
def Verdict.result : Verdict → Except ResolveError (Option Bytes)
  | answered file => .ok file
  | refused e | failed e => .error e

/-- Requests a file, and again up to `retries` times while the request fails. -/
def get {m : Type → Type} [Monad m] (transport : Transport m) (url : String) :
    (retries : Nat) → m (Except ResolveError (Option Bytes))
  | 0 => return (verdict url (← transport url)).result
  | retries + 1 => do
    match verdict url (← transport url) with
    | .failed _ => get transport url retries
    | final => return final.result

/-- How often a request is made again by default. -/
def defaultRetries : Nat := 3

end Http

namespace Repository

variable {m : Type → Type} [Monad m]

/-- The repository below a URL. -/
def http (transport : Transport m) (retries : Nat) (base : String) : Repository m :=
  let name := String.ofList (Text.dropEndWhile (· == '/') base.toList)
  { name
    isRemote := true
    fetch := fun path => Http.get transport (name ++ "/" ++ path) retries }

/-- The repository at a location: a URL, or else a directory. -/
def ofLocation [FileSystem m] (transport : Transport m) (location : String) : Repository m :=
  let text := location.toList
  if "http://".toList.isPrefixOf text || "https://".toList.isPrefixOf text then
    http transport Http.defaultRetries location
  else directory ⟨String.ofList ((Text.dropPrefix? "file://".toList text).getD text)⟩

/-- The repositories at the locations; those that take a network are left out when there is none. -/
def ofLocations [FileSystem m] (transport : Transport m) (offline : Bool) (locations : List String) :
    List (Repository m) :=
  (locations.map (ofLocation transport)).filter fun r => !(offline && r.isRemote)

end Repository
end UberJar
