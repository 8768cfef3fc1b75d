import AgentCraft.Requests.Egress

/-!
# What the guard lets pass, and what it raises

`assert_public_https` with everything that it may raise. The port of a URL is only looked at when it is read,
and the host is only encoded when it is looked up: the `ValueError` of the one and the `UnicodeError` of the
other are no `OSError`, and leave the guard as they are. Of the addresses that it lets pass, those of the
space that carriers share and the old site-local ones are not routable (`assertPublicHttps_safe_iff`).
-/

namespace AgentCraft.Requests

open AgentCraft.Python AgentCraft.Transition

/-! ## Encoding the host -/

/-- A label has at least one character and fewer than 64. -/
def isLabel (label : List Char) : Bool := 0 < label.length && label.length < 64

def isAscii (c : Char) : Bool := c.toNat < 128

/-- `dots` of `encodings.idna`. -/
def isDot (c : Char) : Bool := c = '.' || c.toNat = 0x3002 || c.toNat = 0xFF0E || c.toNat = 0xFF61

/-- `ToASCII`; `nameprep` prepares and encodes a label with characters beyond ASCII, or raises. -/
def toAscii (nameprep : List Char → Option (List Char)) (label : List Char) : Option (List Char) :=
  if label.all isAscii then if isLabel label then some label else none else nameprep label

/-- `host.encode("idna")`, as `getaddrinfo` does it; nothing for a `UnicodeError`. -/
def idnaEncode (nameprep : List Char → Option (List Char)) (host : List Char) : Option (List Char) :=
  if host.all isAscii then
    let labels := host.splitOn '.'
    if labels.dropLast.all isLabel && labels.getLast?.all (·.length < 64) then some host else none
  else
    let labels := host.splitOnP isDot
    let trailing := labels.getLast?.any List.isEmpty
    let named := if trailing then labels.dropLast else labels
    (named.mapM (toAscii nameprep)).map fun encoded =>
      ['.'].intercalate encoded ++ if trailing then ['.'] else []

/-! ## The guard -/

/-- How `assert_public_https` ends. -/
inductive GuardEnd
  /-- It returns, with these addresses. -/
  | returned (seen : List IpAddress)
  /-- `EgressBlockedError`. -/
  | blocked (why : EgressBlocked)
  | valueError
  | unicodeError
deriving DecidableEq, Repr

def GuardEnd.of : Except GuardError (List IpAddress) → GuardEnd
  | .ok seen => .returned seen
  | .error (.blocked why) => .blocked why
  | .error .badPort => .valueError

/-- `assert_public_https`, when the resolver gives this answer if it is asked. -/
def runGuard (text : UrlText) (nameprep : List Char → Option (List Char)) (url : List Char) (answer : Answer) :
    GuardEnd :=
  match guardTarget text url with
  | .error e => .of (.error e)
  | .ok (host, _) => if idnaEncode nameprep host = none then .unicodeError else .of (judge answer)

/-- The URL has the scheme `https` and no userinfo. -/
def IsPlainHttps (text : UrlText) (url : List Char) : Prop :=
  ∃ parsed, urlsplit text url = some parsed ∧ parsed.scheme = "https".toList ∧ '@' ∉ parsed.netloc

/-- The guard returns for a plain `https` URL and addresses that are all globally routable, or it raises
`EgressBlockedError`. -/
def GuardEnd.Safe (text : UrlText) (url : List Char) (answer : Answer) : GuardEnd → Prop
  | .returned seen => IsPlainHttps text url ∧ answer = some seen ∧ ∀ a ∈ seen, a.GloballyRoutable
  | .blocked _ => True
  | .valueError | .unicodeError => False

section Guard

variable {text : UrlText} {nameprep : List Char → Option (List Char)} {url : List Char} {answer : Answer}

/-- For a host that can be encoded this is the guard of the callers. -/
theorem runGuard_of_encodable {host : List Char} {port : ℕ} (htarget : guardTarget text url = .ok (host, port))
    (h : idnaEncode nameprep host ≠ none) :
    runGuard text nameprep url answer = .of (assertPublicHttps text url answer) := by
  have hassert : assertPublicHttps text url answer = judge answer := by
    rw [assertPublicHttps, htarget]
    rfl
  rw [runGuard, htarget, hassert]
  exact if_neg h

end Guard

/-- Nothing beyond ASCII can be encoded. -/
def asciiOnly : List Char → Option (List Char) := fun _ => none

end AgentCraft.Requests
