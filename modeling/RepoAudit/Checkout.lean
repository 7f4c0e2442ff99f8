import RepoAudit.Address
import RepoAudit.Files.Make
import RepoAudit.Files.Walk
import RepoAudit.Machine
import RepoAudit.Redaction
import RepoAudit.Text.Lowercase

/-!
# Checkouts

A repository is fetched into a new directory below a work root, within limits of time and size, and
the directory is removed after use.

* `CheckoutError` — what can go wrong, with a message that never shows the token.
* `Checkout.Config.fault` — the failure that the output of git tells of.
* `Checkout.fetch` — a repository fetched into a directory of its own; a fetch that fails leaves no
  directory behind.
* `Checkout.discard` — a directory below the work root removed; anything else is refused.
-/

namespace RepoAudit

/-- The kinds of failure of a checkout. -/
inductive CheckoutFault where
  | general
  | failed
  | notFound
  | privateRepository
  | credentials
  | network
  | timeout
  | tooLarge
  | path
  | cleanup
  deriving Repr, DecidableEq

namespace CheckoutFault

/-- The code under which a failure is reported. -/
def code : CheckoutFault → String
  | .general | .failed => "CLONE_FAILED"
  | .notFound => "REPO_NOT_FOUND"
  | .privateRepository => "PRIVATE_REPO"
  | .credentials => "AUTH_FAILED"
  | .network => "NETWORK_ERROR"
  | .timeout => "CLONE_TIMEOUT"
  | .tooLarge => "REPO_TOO_LARGE"
  | .path => "INVALID_REPO_PATH"
  | .cleanup => "CLEANUP_FAILED"

/-- A failure in words, where nothing more is known. -/
def text : CheckoutFault → String
  | .general | .failed => "failed to clone repository"
  | .notFound => "repository not found"
  | .privateRepository => "private repository requires authentication"
  | .credentials => "authentication failed"
  | .network => "network error during clone"
  | .timeout => "clone operation timed out"
  | .tooLarge => "repository exceeds maximum size limit"
  | .path => "invalid repository path"
  | .cleanup => "failed to cleanup repository"

end CheckoutFault

/-- A failure of a checkout and what it says. -/
structure CheckoutError where
  fault : CheckoutFault
  message : String
  deriving Repr, DecidableEq

namespace CheckoutError

/-- A failure with a message of its own; without one it says what its kind says. -/
def of (fault : CheckoutFault) (message : String := "") : CheckoutError :=
  ⟨fault, if message = "" then fault.text else message⟩

/-- A failure whose message adds a detail to what its kind says. -/
def because (fault : CheckoutFault) (detail : String) : CheckoutError :=
  .of fault (fault.text ++ ": " ++ detail)

/-- The code under which a failure is reported. -/
def code (e : CheckoutError) : String := e.fault.code

end CheckoutError

/-- Why a checkout ends early: a failure of its own, or a defect of what it stands on. -/
inductive CheckoutStop where
  | fault (e : CheckoutError)
  | crashed (message : String)
  deriving Repr, DecidableEq

/-- A repository that has been fetched, and its directory. -/
structure Checkout where
  path : String
  repository : Repository
  deriving Repr, DecidableEq

namespace Checkout

/-- How repositories are fetched: the token, if there is one, the size in megabytes that must not be
exceeded, the time for git, the work root, and how the names of directories in it start. -/
structure Config where
  token : String := ""
  maxMegabytes : Int := 500
  limit : Duration := .whole 300
  root : String
  stem : String := "scan-repo-"

namespace Config

/-- Whether fetching uses a token. -/
def hasToken (c : Config) : Bool := c.token ≠ ""

/-- The address that git fetches a repository from. -/
def source (c : Config) (r : Repository) : String :=
  let user := if c.hasToken then String.ofList Redaction.tokenUser ++ c.token ++ "@" else ""
  Address.scheme ++ user ++ Address.host ++ "/" ++ r.owner ++ "/" ++ r.name ++ ".git"

/-- The failure that the output of git tells of. The output itself is never shown. -/
def fault (c : Config) (output : String) : CheckoutError :=
  let tells (phrase : String) : Bool := Text.mentions (Text.lower output) phrase
  if tells "repository not found" then .of .notFound
  else if tells "could not read from remote repository" then
    if c.hasToken then .of .credentials else .of .privateRepository
  else if tells "authentication failed" then .of .credentials
  else if tells "could not resolve host" || tells "unable to access" then .of .network
  else .because .failed "git clone failed"

/-- The work root made, with the directories on the way to it. -/
def prepare (c : Config) (m : Machine) : Except SystemError Machine :=
  match m.files.makePath m.directory c.root with
  | .ok files => .ok { m with files := files }
  | .error (e, path) => .error (.ofPathError e path)

end Config

/-- The bytes in a megabyte. -/
def megabyte : Nat := 1048576

/-- The request that makes git fetch a repository into a directory. Git must not wait for a
password to be typed. -/
def request (c : Config) (r : Repository) (path : String) : Launch where
  program := "git"
  args := ["clone", "--depth=1", "--single-branch", c.source r, path]
  vars := [("GIT_TERMINAL_PROMPT", "0")]

/-- A new directory in the work root: of the names that are tried, the first that is free. -/
def newDirectory (c : Config) (tails : List String) (m : Machine) :
    Except CheckoutStop (String × Location × Machine) :=
  match tails with
  | [] => .error (.fault (.because .failed "failed to create temp directory"))
  | tail :: rest =>
    let path := Path.join c.root (c.stem ++ tail)
    match m.files.makeDirectory m.directory path with
    | .ok (files, loc) => .ok (path, loc, { m with files := files })
    | .error .alreadyThere => newDirectory c rest m
    | .error (.refused r) => .error (.crashed r.message)
    | .error _ => .error (.fault (.because .failed "failed to create temp directory"))

/-- What the size of the new directory means, or that it could not be found out. -/
def Config.weigh (c : Config) : Except WalkStop Nat → Except CheckoutStop Unit
  | .error .tooDeep => .error (.crashed WalkStop.tooDeepText)
  | .error (.onPath (.refused r) _) => .error (.crashed r.message)
  | .error (.onPath ..) => .error (.fault (.because .failed "failed to check repository size"))
  | .ok size =>
    if c.maxMegabytes * megabyte < size then
      .error (.fault (.because .tooLarge ("repository is " ++ toString (size / megabyte) ++
        " MB, maximum allowed is " ++ Decimal.renderInt c.maxMegabytes ++ " MB")))
    else .ok ()

/-- What a run of git means for the directory that it was to fill, whose size has been measured. -/
def verdict (c : Config) (reply : Except Execution.Failure Execution.Finished)
    (size : Except WalkStop Nat) : Except CheckoutStop Unit :=
  match reply with
  | .error (.timedOut ..) => .error (.fault (.of .timeout))
  | .error (.cancelled ..) => .error (.fault (.because .failed "operation canceled"))
  | .error (.system _) => .error (.fault (.because .failed "git is not available"))
  | .error (.crashed message) => .error (.crashed message)
  | .ok f =>
    if f.exitCode ≠ 0 then .error (.fault (c.fault (Redaction.sanitize f.output c.token)))
    else c.weigh size

/-- Whether a directory stays when its checkout ends early: only a defect leaves it. -/
def keepsDirectory : Except CheckoutStop Unit → Bool
  | .error (.fault _) => false
  | _ => true

/-- Fetches the repository of an address. `tails` are the ends of names that are tried for its
directory, and `fires` is when the cancel signal fires. -/
def fetch (c : Config) (tails : List String) (fires : Option Decimal) (address : String)
    (m : Machine) : Except CheckoutStop Checkout × Machine :=
  match Address.parse address with
  | .error e => (.error (.fault (.because .failed e.message)), m)
  | .ok repository =>
    match newDirectory c tails m with
    | .error e => (.error e, m)
    | .ok (path, loc, m) =>
      let (reply, m) := m.run (request c repository path) c.limit fires
      let v := verdict c reply (m.files.measure m.directory m.nesting path)
      let m := if keepsDirectory v then m else { m with files := m.files.removeBelow loc }
      (v.map fun _ => ⟨path, repository⟩, m)

/-- The place of a directory that may be removed: strictly below the work root, once all links are
followed. -/
def discardable (root : String) (t : FileTree) (cwd : Location) (path : String) :
    Except CheckoutStop Location :=
  if path = "" then .error (.fault (.because .path "empty path"))
  else do
    let loc ← (t.resolve cwd path).mapError fun r => .crashed r.message
    let rootLoc ← (t.resolve cwd root).mapError fun r => .crashed r.message
    if Location.isBelow rootLoc loc then return loc
    else throw (.fault (.because .path "path is not within temp directory"))

/-- Removes a directory below the work root with everything in it. One that is already gone is
fine. -/
def discard (root : String) (t : FileTree) (cwd : Location) (path : String) :
    Except CheckoutStop FileTree := do
  let loc ← discardable root t cwd path
  match t.removeTree loc with
  | .ok t => return t
  | .error (.system .missing) => return t
  | .error (.system (.refused r)) => throw (.crashed r.message)
  | .error e => throw (.fault (.because .cleanup e.reason))

end Checkout

end RepoAudit
