import RepoAudit.Text.Blank
import RepoAudit.Text.Search

/-!
# Redaction

Secrets taken out of texts that may be shown or stored.

* `hideToken` — every occurrence of one token replaced, together with the user name it is used
  with; when the replacement itself would show the token, by a run of a character it lacks.
* `hideCredentials` — user name and password taken out of every web address.
* `redact` — both, for a list of secrets.
-/

namespace RepoAudit.Redaction

/-- What stands for a token. -/
def tokenMark : List Char := "[REDACTED]".toList

/-- What stands for a user name with its secret. -/
def credentialMark : List Char := "[REDACTED_AUTH]".toList

/-- The user name that tokens are used with. -/
def tokenUser : List Char := "x-access-token:".toList

/-- The `i`-th character that a mask may be made of, counted from the asterisk; the code points that
are no characters are passed over. -/
def maskCandidate (i : Nat) : Char :=
  let n := 42 + i
  Char.ofNat (if n < 0xD800 then n else n + 0x800)

/-- The first candidate that a token does not hold. Among one more candidates than the token has
characters one is missing. -/
def maskChar (token : List Char) : Char :=
  (((List.range (token.length + 1)).map maskCandidate).find? fun c => !token.contains c).getD '*'

/-- Eight times the first candidate that a token does not hold. -/
def maskOf (token : List Char) : List Char := List.replicate 8 (maskChar token)

/-- A text with a token replaced: the token after its user name by `auth`, any other by `alone`. -/
def replaceToken (auth alone token text : List Char) : List Char :=
  Text.replaceAll token alone (Text.replaceAll (tokenUser ++ token) auth text)

/-- A text without a token. -/
def hideToken (text token : List Char) : List Char :=
  if text.isEmpty || token.isEmpty then text
  else
    let marked := replaceToken credentialMark tokenMark token text
    if Text.occursIn token marked then
      replaceToken (maskOf token) (maskOf token) token text
    else marked

/-! ### Credentials in web addresses -/

/-- A character of user names in addresses. -/
def isUserChar (c : Char) : Bool := c != '/' && !Text.isBlank c && c != ':' && c != '@'

/-- A character of passwords in addresses. -/
def isPasswordChar (c : Char) : Bool := c != '/' && !Text.isBlank c && c != '@'

/-- The schemes whose addresses are searched for credentials. -/
def schemes : List (List Char) := ["https://".toList, "http://".toList]

/-- The scheme at the start of a text. -/
def schemeAt? (cs : List Char) : Option (List Char) := schemes.find? (·.isPrefixOf cs)

/-- The length of `user:password@` at the start of a text. -/
def userInfoLength? (cs : List Char) : Option Nat :=
  let user := cs.takeWhile isUserChar
  match cs.drop user.length with
  | ':' :: r =>
    let password := r.takeWhile isPasswordChar
    if user.isEmpty || password.isEmpty then none
    else if (r.drop password.length).head? = some '@' then
      some (user.length + 1 + password.length + 1)
    else none
  | _ => none

/-- The scheme at the start of a text, if credentials follow it, with their length. -/
def credentialAt? (cs : List Char) : Option (List Char × Nat) :=
  match schemeAt? cs with
  | none => none
  | some s => (userInfoLength? (cs.drop s.length)).map fun n => (s, n)

/-- The scan behind `hideCredentials`: `skip` characters still belong to hidden credentials, and
`done` is what has been written, last character first. -/
def credentialScan (skip : Nat) (done : List Char) : List Char → List Char
  | [] => done.reverse
  | c :: r =>
    match skip with
    | k + 1 => credentialScan k done r
    | 0 =>
      match credentialAt? (c :: r) with
      | some (s, n) =>
        credentialScan (s.length + n - 1) ('@' :: credentialMark.reverse ++ s.reverse ++ done) r
      | none => credentialScan 0 (c :: done) r

/-- A text without the credentials in its web addresses. -/
def hideCredentials (text : List Char) : List Char := credentialScan 0 [] text

/-- A text with the secrets that still occur in it exchanged for their masks, one after the
other. -/
def maskRemaining (text : List Char) (secrets : List (List Char)) : List Char :=
  secrets.foldl (fun t s => if Text.occursIn s t then Text.replaceAll s (maskOf s) t else t) text

/-- A text without any of the secrets and without credentials in web addresses. -/
def redactChars (text : List Char) (secrets : List (List Char)) : List Char :=
  if text.isEmpty then text
  else
    let secrets := secrets.filter (!·.isEmpty)
    maskRemaining (hideCredentials (secrets.foldl hideToken text)) secrets

/-- `hideToken` on strings. -/
def sanitize (text token : String) : String := String.ofList (hideToken text.toList token.toList)

/-- `redactChars` on strings. -/
def redact (text : String) (secrets : List String) : String :=
  String.ofList (redactChars text.toList (secrets.map String.toList))

end RepoAudit.Redaction
