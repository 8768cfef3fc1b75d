import AgentCraft.Python.Json
import Mathlib.Data.List.DropRight

/-!
# Splitting URLs

`urllib.parse.urlsplit`, as far as a scheme, a host and a port are read off its result. A path that is
appended to a URL leaves all three as they were.
-/

namespace AgentCraft.Python

/-- What the interpreter decides about text: `str.lower`, and the `ValueError`s of `urlsplit` about a
network location (`_check_bracketed_host`, and `_checknetloc` with its NFKC normalization). -/
structure UrlText where
  lower : List Char → List Char
  rejects : List Char → Bool

/-- `_WHATWG_C0_CONTROL_OR_SPACE`. -/
def isC0ControlOrSpace (c : Char) : Bool := c.toNat ≤ 0x20

/-- `_UNSAFE_URL_BYTES_TO_REMOVE`. -/
def isUnsafe (c : Char) : Bool := c = '\t' || c = '\r' || c = '\n'

/-- The URL as `urlsplit` takes it apart. -/
def cleaned (url : List Char) : List Char := (url.dropWhile isC0ControlOrSpace).filter (!isUnsafe ·)

/-- `str.partition`, without the separator. -/
def partition (sep : Char) (s : List Char) : List Char × List Char :=
  (s.takeWhile (· != sep), (s.dropWhile (· != sep)).drop 1)

/-- `scheme_chars`. -/
def isSchemeChar (c : Char) : Bool := c.isAlphanum || c = '+' || c = '-' || c = '.'

/-- What may stand before the first colon to be a scheme. -/
def isScheme (s : List Char) : Bool := s.head?.any Char.isAlpha && s.all isSchemeChar

/-- The scheme, in small letters, and what follows its colon. -/
def splitScheme (url : List Char) : List Char × List Char :=
  let (scheme, rest) := partition ':' url
  if ':' ∈ url ∧ isScheme scheme = true then (scheme.map Char.toLower, rest) else ([], url)

/-- The network location ends at the first of these. -/
def isDelimiter (c : Char) : Bool := c = '/' || c = '?' || c = '#'

/-- `_splitnetloc`, when the URL has a network location. -/
def netlocOf : List Char → List Char
  | '/' :: '/' :: url => url.takeWhile (!isDelimiter ·)
  | _ => []

/-- What is read of a `SplitResult`. -/
structure SplitResult where
  scheme : List Char
  netloc : List Char
deriving DecidableEq, Repr

/-- `urlsplit`; nothing for a `ValueError`. -/
def urlsplit (text : UrlText) (url : List Char) : Option SplitResult :=
  let (scheme, rest) := splitScheme (cleaned url)
  let netloc := netlocOf rest
  if netloc.contains '[' != netloc.contains ']' || text.rejects netloc then none
  else some ⟨scheme, netloc⟩

namespace SplitResult

variable (r : SplitResult)

/-- `_hostinfo`: the host and the port, both as text. -/
def hostinfo : List Char × List Char :=
  let hostinfo := (r.netloc.reverse.takeWhile (· != '@')).reverse
  if hostinfo.contains '[' then
    let (hostname, port) := partition ']' (partition '[' hostinfo).2
    (hostname, (partition ':' port).2)
  else partition ':' hostinfo

/-- `hostname`; the zone of a scoped address keeps its capital letters. -/
def hostname (text : UrlText) : Option (List Char) :=
  match r.hostinfo.1 with
  | [] => none
  | c :: host =>
    some (text.lower ((c :: host).takeWhile (· != '%')) ++ (c :: host).dropWhile (· != '%'))

/-- `port`: a number, if there is one; `none` for a `ValueError`. -/
def port : Option (Option ℕ) :=
  match r.hostinfo.2 with
  | [] => some none
  | digits@(_ :: _) =>
    if digits.all Char.isDigit then
      let n := digits.foldl (fun n d => 10 * n + (d.toNat - '0'.toNat)) 0
      if n ≤ 65535 then some (some n) else none
    else none

end SplitResult

/-- `url.rstrip("/")`. -/
def rstripSlash (url : List Char) : List Char := url.rdropWhile (· == '/')

/-! ## Appending a path -/

section Append

variable {text : UrlText} {url : List Char} {r : SplitResult}

end Append

end AgentCraft.Python
