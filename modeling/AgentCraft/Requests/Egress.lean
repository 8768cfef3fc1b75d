import AgentCraft.Python.Addresses
import AgentCraft.Python.Urls
import AgentCraft.Relational.Table
import AgentCraft.Transition.Fallible
import AgentCraft.Transition.System

/-!
# Requests to addresses that users name

`net_guard.py` and its four callers: the connectivity test of a provider, the discovery and the tool calls
of an MCP server over HTTP, and the forwarding of the provider proxy. The guard looks the host up and
judges the addresses. The client that then sends the request looks the same host up once more, and connects
to what it is told this time.
-/

namespace AgentCraft.Requests

open AgentCraft.Python AgentCraft.Relational AgentCraft.Transition

/-! ## The guard -/

/-- The texts of `EgressBlockedError`. -/
inductive EgressBlocked
  | badUrl
  | schemeHost
  | userinfo
  | resolve
  | privateRange
deriving DecidableEq, Repr

/-- How the guard ends without letting the request pass. -/
inductive GuardError
  | blocked (why : EgressBlocked)
  /-- The `ValueError` of `parsed.port`, which nobody catches. -/
  | badPort
deriving DecidableEq, Repr

/-- What the resolver answers: addresses, or nothing for an `OSError`. -/
abbrev Answer := Option (List IpAddress)

/-- `parsed.port or 443`. -/
def portOr443 : Option ℕ → ℕ
  | none | some 0 => 443
  | some (n + 1) => n + 1

/-- The host and the port that the guard looks up. A user name or a password needs an `@`, so the last of
the three tests for them is enough. -/
def guardTarget (text : UrlText) (url : List Char) : Except GuardError (List Char × ℕ) :=
  match urlsplit text url with
  | none => .error (.blocked .badUrl)
  | some parsed =>
    match parsed.hostname text with
    | none => .error (.blocked .schemeHost)
    | some hostname =>
      if parsed.scheme ≠ "https".toList then .error (.blocked .schemeHost)
      else if parsed.netloc.contains '@' then .error (.blocked .userinfo)
      else
        match parsed.port with
        | none => .error .badPort
        | some port => .ok (hostname, portOr443 port)

/-- What the guard makes of the answer: one special address is enough to be refused. -/
def judge : Answer → Except GuardError (List IpAddress)
  | none => .error (.blocked .resolve)
  | some infos => if infos.any IpAddress.isSpecial then .error (.blocked .privateRange) else .ok infos

/-- `assert_public_https`, when the resolver answers its query so; the addresses it has let pass. -/
def assertPublicHttps (text : UrlText) (url : List Char) (answer : Answer) :
    Except GuardError (List IpAddress) := do
  let _ ← guardTarget text url
  judge answer

/-! ## The callers -/

/-- Where a request to a user's URL comes from. -/
inductive EgressSite
  /-- `test_provider_connectivity`. -/
  | providerTest
  /-- The http branch of `discover_server`. -/
  | discover
  /-- The http branch of `call_user_mcp_tool`. -/
  | callTool
  /-- `_forward_upstream`, with the base URL of a grant or of a snapshot. -/
  | forward
deriving DecidableEq, Repr

/-- The messages of a client, one after the other. -/
inductive EgressMessage
  | models
  | initializeRequest
  | initialized
  | toolsList
  | toolsCall
  | chatCompletions
deriving DecidableEq, Repr

namespace EgressSite

/-- The URL that is given to the guard. The callers of `_forward_upstream` have stripped theirs. -/
def guardedUrl (site : EgressSite) (url : List Char) : List Char :=
  match site with
  | .providerTest | .discover | .callTool => url
  | .forward => rstripSlash url

/-- The path under the user's URL. -/
def path : EgressSite → List Char
  | .providerTest => "models".toList
  | .discover | .callTool => "mcp".toList
  | .forward => "chat/completions".toList

/-- The URL that is given to the client. -/
def requestUrl (site : EgressSite) (url : List Char) : List Char :=
  rstripSlash url ++ '/' :: site.path

def messages : EgressSite → List EgressMessage
  | .providerTest => [.models]
  | .discover => [.initializeRequest, .initialized, .toolsList]
  | .callTool => [.initializeRequest, .initialized, .toolsCall]
  | .forward => [.chatCompletions]

end EgressSite

abbrev EgressId := ℕ

/-- How far a caller has come. -/
inductive EgressStage
  | started
  /-- The guard has let the request pass, having seen these addresses; the messages are still to be sent. -/
  | sending (seen : List IpAddress) (rest : List EgressMessage)
  | ended
deriving DecidableEq, Repr

/-- A caller in progress, with the URL as the user has given it. -/
structure Egress where
  site : EgressSite
  url : List Char
  stage : EgressStage
deriving DecidableEq, Repr

/-- The clients: one for every call, but the proxy has a single one for all that it forwards. -/
inductive EgressClient
  | own (id : EgressId)
  | upstream
deriving DecidableEq, Repr

def EgressSite.client : EgressSite → EgressId → EgressClient
  | .forward, _ => .upstream
  | .providerTest, id | .discover, id | .callTool, id => .own id

/-- A connection that a client has opened. -/
structure Connection where
  client : EgressClient
  host : List Char
  port : ℕ
  address : IpAddress
deriving DecidableEq, Repr

/-- The callers, and every connection that has been opened so far. -/
structure EgressWorld where
  calls : Table EgressId Egress
  opened : List Connection

/-- Whether the client takes a connection from its pool, or looks the host of the URL up and opens a
connection to an address of the answer; which one is up to the client and to the network. -/
inductive Route
  | pooled
  | dial (answer : List IpAddress) (address : IpAddress)
deriving DecidableEq, Repr

/-- The labels of the system: in between two of them anything else may happen. -/
inductive EgressAction
  | start (id : EgressId) (site : EgressSite) (url : List Char)
  /-- The guard runs, and the resolver answers its query. -/
  | check (id : EgressId) (answer : Answer)
  /-- The next message is sent, and answered with the status code. -/
  | send (id : EgressId) (route : Route) (statusCode : ℕ)
  /-- The caller is given up: a missing row, a host that is not found, a failed connection, a timeout, an
  answer that is too long. -/
  | abort (id : EgressId)
deriving DecidableEq, Repr

/-- A label that does not fit the state. -/
inductive EgressStuck
  | stuck
deriving DecidableEq, Repr

/-- The host and the port of the URL itself; the URLs that pass the guard are `https` URLs. -/
def clientTarget (text : UrlText) (url : List Char) : Option (List Char × ℕ) := do
  let parsed ← urlsplit text url
  let host ← parsed.hostname text
  let port ← parsed.port
  return (host, portOr443 port)

/-- What remains to be sent after an answer: only the first message of a handshake must have succeeded. -/
def EgressMessage.next (message : EgressMessage) (statusCode : ℕ) (rest : List EgressMessage) :
    List EgressMessage :=
  if message = .initializeRequest ∧ statusCode / 100 ≠ 2 then [] else rest

namespace EgressWorld

variable (text : UrlText) (w : EgressWorld)

def setStage (id : EgressId) (q : Egress) (stage : EgressStage) : EgressWorld :=
  { w with calls := w.calls.set id { q with stage } }

/-- The connection over which a message goes, and those that have been opened then. -/
def connect (client : EgressClient) (host : List Char) (port : ℕ) :
    Route → Except EgressStuck (List Connection)
  | .pooled =>
    if w.opened.any fun c => c.client == client && c.host == host && c.port == port then .ok w.opened
    else .error .stuck
  | .dial answer address =>
    if address ∈ answer then .ok (w.opened ++ [⟨client, host, port, address⟩]) else .error .stuck

def step : EgressAction → Except EgressStuck EgressWorld
  | .start id site url =>
    if (w.calls.get? id).isSome then .error .stuck
    else .ok { w with calls := w.calls.insert id ⟨site, url, .started⟩ }
  | .check id answer =>
    match w.calls.get? id with
    | some q =>
      if q.stage = .started then
        match assertPublicHttps text (q.site.guardedUrl q.url) answer with
        | .ok seen => .ok (w.setStage id q (.sending seen q.site.messages))
        | .error _ => .ok (w.setStage id q .ended)
      else .error .stuck
    | none => .error .stuck
  | .send id route statusCode =>
    match w.calls.get? id with
    | some q =>
      match q.stage, clientTarget text (q.site.requestUrl q.url) with
      | .sending seen (message :: rest), some (host, port) => do
        let opened ← w.connect (q.site.client id) host port route
        return { w.setStage id q (.sending seen (message.next statusCode rest)) with opened }
      | _, _ => .error .stuck
    | none => .error .stuck
  | .abort id =>
    match w.calls.get? id with
    | some q => .ok (w.setStage id q .ended)
    | none => .error .stuck

end EgressWorld

/-- The callers and the clients, under any resolver: its answers stand on the labels. -/
def egress (text : UrlText) : System EgressWorld EgressAction EgressStuck := ⟨EgressWorld.step text⟩

/-- Nothing has been sent yet. -/
def idle : EgressWorld := ⟨Table.empty, []⟩

/-! ## The host that is checked is the host that is connected to -/

section Target

variable {text : UrlText} {url : List Char} {target : List Char × ℕ}

theorem judge_eq_ok {answer : Answer} {seen : List IpAddress} (h : judge answer = .ok seen) :
    answer = some seen ∧ ∀ a ∈ seen, a.isSpecial = false := by
  cases answer with
  | none => cases h
  | some infos =>
    obtain ⟨hspecial, h⟩ := ite_error_eq_ok.mp h
    cases h
    exact ⟨rfl, by simpa using hspecial⟩

end Target

/-! ## Confinement -/

/-- Every connection that has been opened goes to a publicly routable address. -/
def EgressWorld.Confined (w : EgressWorld) : Prop := ∀ c ∈ w.opened, c.address.PubliclyRoutable

/-- The caller has passed the guard, and none of the addresses that the guard has seen is special. -/
def Egress.Vetted (text : UrlText) (q : Egress) : Prop :=
  ∀ seen rest, q.stage = .sending seen rest →
    (∃ target, guardTarget text (q.site.guardedUrl q.url) = .ok target) ∧ ∀ a ∈ seen, a.isSpecial = false

def EgressWorld.Vetted (text : UrlText) (w : EgressWorld) : Prop :=
  ∀ id q, w.calls.get? id = some q → q.Vetted text

/-- A client that opens a connection goes to an address which the guard has seen, or which it would let
pass, and which is neither of the shared address space nor site-local. -/
def Route.Sound (seen : List IpAddress) : Route → Prop
  | .pooled => True
  | .dial answer address => address ∈ answer →
    address.isShared = false ∧ address.isSiteLocal = false ∧ (address ∈ seen ∨ address.isSpecial = false)

/-- The condition on the answers of the resolver to the clients. -/
def DialSound (w : EgressWorld) : EgressAction → Prop
  | .send id route _ => ∀ q seen message rest, w.calls.get? id = some q →
    q.stage = .sending seen (message :: rest) → route.Sound seen
  | .start .. | .check .. | .abort _ => True

section Steps

variable {text : UrlText} {w w' : EgressWorld} {a : EgressAction} {as : List EgressAction}

/-- A step opens no connection, or it is a message of a caller whose client dials. -/
inductive EgressAdvance (w : EgressWorld) : EgressAction → List Connection → Prop
  | none {a : EgressAction} : EgressAdvance w a w.opened
  | dialled {id : EgressId} {q : Egress} {seen : List IpAddress} {message : EgressMessage}
      {rest : List EgressMessage} {answer : List IpAddress} {c : Connection} {statusCode : ℕ}
      (hq : w.calls.get? id = some q) (hstage : q.stage = .sending seen (message :: rest))
      (hmem : c.address ∈ answer) :
      EgressAdvance w (.send id (.dial answer c.address) statusCode) (w.opened ++ [c])

theorem EgressWorld.setStage_vetted {id : EgressId} {q : Egress} {stage : EgressStage}
    (hw : w.Vetted text) (hstage : Egress.Vetted text { q with stage }) :
    (w.setStage id q stage).Vetted text := by
  intro id' q' hq'
  rcases Table.get?_set_cases hq' with hold | ⟨-, rfl⟩
  · exact hw id' q' hold
  · exact hstage

theorem vetted_ended {q : Egress} : Egress.Vetted text { q with stage := .ended } :=
  fun _ _ h => by cases h

/-- What one step does to the callers and to the connections. -/
theorem EgressWorld.step_spec (hw : w.Vetted text) (h : w.step text a = .ok w') :
    w'.Vetted text ∧ EgressAdvance w a w'.opened := by
  cases a with
  | start id site url =>
    obtain ⟨hfree, h⟩ := ite_error_eq_ok.mp h
    cases h
    refine ⟨fun id' q' hq' => ?_, .none⟩
    rcases Table.get?_insert_cases hq' with hold | ⟨-, rfl⟩
    · exact hw id' q' hold
    · exact fun _ _ hstage => by cases hstage
  | check id answer =>
    simp only [step] at h
    split at h
    · next q hq =>
      split at h
      · next hstage =>
        split at h
        · next seen hseen =>
          cases h
          obtain ⟨target, htarget, hjudge⟩ := bind_eq_ok.mp hseen
          refine ⟨setStage_vetted hw fun seen' rest heq => ?_, .none⟩
          cases heq
          exact ⟨⟨target, htarget⟩, (judge_eq_ok hjudge).2⟩
        · cases h
          exact ⟨setStage_vetted hw vetted_ended, .none⟩
      · cases h
    · cases h
  | send id route statusCode =>
    simp only [step] at h
    split at h
    · next q hq =>
      split at h
      · next seen message rest host port hstage htarget =>
        obtain ⟨opened, hopened, h⟩ := bind_eq_ok.mp h
        cases h
        have hv : (w.setStage id q (.sending seen (message.next statusCode rest))).Vetted text := by
          refine setStage_vetted hw fun seen' rest' heq => ?_
          cases heq
          exact hw id q hq seen _ hstage
        refine ⟨hv, ?_⟩
        cases route with
        | pooled =>
          obtain ⟨-, hopened⟩ := ite_ok_else_error.mp hopened
          cases hopened
          exact .none
        | dial answer address =>
          obtain ⟨hmem, hopened⟩ := ite_ok_else_error.mp hopened
          cases hopened
          exact .dialled (c := ⟨q.site.client id, host, port, address⟩) hq hstage hmem
      · cases h
    · cases h
  | abort id =>
    simp only [step] at h
    split at h
    · cases h
      exact ⟨setStage_vetted hw vetted_ended, .none⟩
    · cases h

/-- The guard has let the addresses pass that it has seen, so a sound dial goes to a public address. -/
theorem Route.Sound.publiclyRoutable {seen answer : List IpAddress} {address : IpAddress}
    (hseen : ∀ a ∈ seen, a.isSpecial = false) (hmem : address ∈ answer)
    (h : (Route.dial answer address).Sound seen) : address.PubliclyRoutable := by
  obtain ⟨hshared, hsite, hspecial⟩ := h hmem
  exact (IpAddress.publiclyRoutable_iff address).mpr
    ⟨hspecial.elim (hseen address) id, hshared, hsite⟩

theorem EgressWorld.confined_step (hw : w.Vetted text) (hc : w.Confined) (hs : DialSound w a)
    (h : w.step text a = .ok w') : w'.Confined := by
  obtain ⟨-, hadv⟩ := step_spec hw h
  unfold Confined
  generalize w'.opened = opened at hadv
  cases hadv with
  | none => exact hc
  | dialled hq hstage hmem =>
    intro c' hc'
    rcases List.mem_append.mp hc' with hold | hnew
    · exact hc c' hold
    · rw [List.mem_singleton.mp hnew]
      exact (hs _ _ _ _ hq hstage).publiclyRoutable (hw _ _ hq _ _ hstage).2 hmem

end Steps

theorem vetted_idle (text : UrlText) : idle.Vetted text := fun id q hq => by cases hq

theorem confined_of_dialSound (text : UrlText) {as : List EgressAction}
    (hG : (egress text).Guarded DialSound idle as) : ((egress text).run idle as).Confined := by
  have hinv := System.invariant_run_of_guarded (S := egress text)
    (I := fun w => w.Vetted text ∧ w.Confined)
    (fun w a w' hw hs h => ⟨(EgressWorld.step_spec hw.1 h).1, EgressWorld.confined_step hw.1 hw.2 hs h⟩)
    (s := idle) ⟨vetted_idle text, fun c hc => by cases hc⟩ hG
  exact hinv.2

/-- A resolver that tells the client what it has told the guard, of addresses that can be told apart. -/
def Steady (w : EgressWorld) : EgressAction → Prop
  | .send id (.dial answer _) _ => ∀ q seen rest, w.calls.get? id = some q →
    q.stage = .sending seen rest → ∀ a ∈ answer, a ∈ seen ∧ a.isShared = false ∧ a.isSiteLocal = false
  | _ => True

/-- Under such a resolver the guard does what it is for. -/
theorem confined_of_steady (text : UrlText) {as : List EgressAction}
    (h : (egress text).Guarded Steady idle as) : ((egress text).run idle as).Confined := by
  refine confined_of_dialSound text (h.mono fun w a hs => ?_)
  cases a with
  | send id route statusCode =>
    intro q seen message rest hq hstage
    cases route with
    | pooled => trivial
    | dial answer address =>
      intro hmem
      obtain ⟨hseen, hshared, hsite⟩ := hs q seen _ hq hstage address hmem
      exact ⟨hshared, hsite, .inl hseen⟩
  | start id site url => trivial
  | check id answer => trivial
  | abort id => trivial

end AgentCraft.Requests
