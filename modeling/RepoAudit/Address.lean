import RepoAudit.Text.Blank
import RepoAudit.Text.Search

/-!
# Repository addresses

An accepted address is the site, an owner and a name, with an optional `.git` and an optional slash
at the end.

* `Repository` — an owner and a name, with the address that `Repository.address` builds for it.
* `check` — the two segments of an address that passes the checks, or the reason why it does not.
* `locator?` — the repository of a text in the full grammar.
* `parse` — `check` and `locator?` one after the other.
* `canonical` — an address without surrounding blanks, one slash and one `.git` at its end.
-/

namespace RepoAudit

/-- An owner and a repository name. -/
structure Repository where
  owner : String
  name : String
  deriving Repr, DecidableEq

/-- Why an address is rejected. -/
inductive AddressError where
  | empty
  | protocol
  | site
  | form
  | owner (segment : String)
  | name (segment : String)
  | unreadable
  deriving Repr, DecidableEq

namespace Address

/-- The scheme that every address uses. -/
def scheme : String := "https://"

/-- The host that repositories are fetched from. -/
def host : String := "github.com"

/-- The start of every accepted address. -/
def site : String := "https://github.com/"

/-- The address shown as a model in messages. -/
def sample : String := "https://github.com/owner/repo"

/-- The longest owner. -/
def maxOwnerLength : Nat := 39

/-! ### The grammar -/

/-- Alphanumeric runs joined by single hyphens. -/
def isOwner (cs : List Char) : Bool :=
  (Text.splitOn '-' cs).all fun run => !run.isEmpty && run.all Char.isAlphanum

/-- A character of repository names. -/
def isNameChar (c : Char) : Bool := c.isAlphanum || c == '.' || c == '_' || c == '-'

/-- A non-empty run of characters of repository names. -/
def isName (cs : List Char) : Bool := !cs.isEmpty && cs.all isNameChar

/-- Whether a test holds of a text, or of the text without one line feed at its end. -/
def holdsUpToNewline (test : List Char → Bool) (cs : List Char) : Bool :=
  test cs || (cs.getLast? == some '\n' && test cs.dropLast)

/-- An owner segment that passes the check. -/
def acceptsOwner (cs : List Char) : Bool :=
  cs.length ≤ maxOwnerLength && holdsUpToNewline isOwner cs

/-- A name segment that passes the check: not a name of the directory itself or its parent, and
without a second `.git`. -/
def acceptsName (cs : List Char) : Bool :=
  holdsUpToNewline isName cs && cs != ['.'] && cs != ['.', '.'] &&
    !".git".toList.isSuffixOf cs

/-- What may follow the name in an address. -/
def isEnding (cs : List Char) : Bool :=
  cs.isEmpty || cs == ['/'] || cs == ".git".toList || cs == ".git/".toList

/-- The shortest non-empty segment that only an ending follows. -/
def segmentBeforeEnding? : List Char → Option (List Char)
  | [] => none
  | c :: r =>
    if c = '/' then none
    else if isEnding r then some [c]
    else (segmentBeforeEnding? r).map (c :: ·)

/-- The owner segment and the name segment of what follows the site. -/
def segments? (rest : List Char) : Option (List Char × List Char) :=
  match Text.cutFirst? ['/'] rest with
  | none => none
  | some (owner, tail) =>
    if owner.isEmpty then none else (segmentBeforeEnding? tail).map fun name => (owner, name)

/-- What follows the site in an address. -/
def afterSite? (cs : List Char) : Option (List Char) :=
  if site.toList.isPrefixOf cs then some (cs.drop site.length) else none

/-! ### Reading addresses -/

/-- The owner and name segments of an address that passes every check; otherwise the first check
that fails. -/
def check (url : String) : Except AddressError (String × String) :=
  let cs := Text.trim url.toList
  if cs.isEmpty then .error .empty
  else if !scheme.toList.isPrefixOf cs then .error .protocol
  else
    match afterSite? cs with
    | none => .error .site
    | some rest =>
      match segments? rest with
      | none => .error .form
      | some (owner, name) =>
        if !acceptsOwner owner then .error (.owner (String.ofList owner))
        else if !acceptsName name then .error (.name (String.ofList name))
        else .ok (String.ofList owner, String.ofList name)

/-- Whether an address passes every check. -/
def isAccepted (url : String) : Bool := (check url).isOk

/-- The repository of a text that matches the full grammar from its first to its last character. -/
def locator? (cs : List Char) : Option Repository :=
  match afterSite? cs with
  | none => none
  | some rest =>
    match segments? rest with
    | none => none
    | some (owner, name) =>
      if isOwner owner && isName name then some ⟨String.ofList owner, String.ofList name⟩ else none

/-- The repository that an address names. -/
def parse (url : String) : Except AddressError Repository :=
  match check url with
  | .error e => .error e
  | .ok _ =>
    match locator? (Text.trim url.toList) with
    | none => .error .unreadable
    | some r => .ok r

/-- A text without one given ending. -/
def dropEnding (ending cs : List Char) : List Char :=
  if ending.isSuffixOf cs then cs.take (cs.length - ending.length) else cs

/-- An address without surrounding blanks and without one slash and one `.git` at its end. -/
def canonical (url : String) : String :=
  String.ofList (dropEnding ".git".toList (dropEnding ['/'] (Text.trim url.toList)))

end Address

/-- The address of a repository. -/
def Repository.address (r : Repository) : String := Address.site ++ r.owner ++ "/" ++ r.name

namespace AddressError

/-- The stable name of a reason. -/
def code : AddressError → String
  | .empty => "EMPTY_URL"
  | .protocol => "INVALID_PROTOCOL"
  | .site => "NOT_GITHUB"
  | .form => "INVALID_FORMAT"
  | .owner _ => "INVALID_OWNER"
  | .name _ => "INVALID_REPO"
  | .unreadable => "PARSE_ERROR"

/-- The reason in words. -/
def message : AddressError → String
  | .empty => "repository URL cannot be empty"
  | .protocol => "repository URL must use HTTPS protocol"
  | .site => "URL must be a GitHub repository URL"
  | .form => "invalid repository URL format. Use: " ++ Address.sample
  | .owner s => "invalid owner format: " ++ s
  | .name s => "invalid repository name format: " ++ s
  | .unreadable => "failed to parse repository URL"

/-- The part of the input that is at fault. -/
def field : AddressError → String
  | .owner _ => "owner"
  | .name _ => "repo"
  | _ => "repo_url"

/-- What a good input looks like; empty when nothing is shown. -/
def hint : AddressError → String
  | .owner _ => "Valid owner names are alphanumeric with optional single hyphens"
  | .name _ => "Valid repo names are alphanumeric with optional hyphens, underscores, or dots"
  | .unreadable => ""
  | _ => Address.sample

end AddressError

end RepoAudit
