import AgentCraft.Access.Login

/-!
# Accounts, sessions and what revokes them

`session_service.py` with the services that write its tables. A login checks the password in one
transaction and creates the session in a later one; with a second factor a challenge lies between the
two. The operations that cut old access (password reset and change, account deletion, the cascade of a
suspension, the final sweep) revoke in one statement the sessions that it finds and commit later; what
they check before that is left open, except for the status that their statement asks for. Enrolment keeps
its secret in the memory of the process until a code for it has been presented. What the limiter answers
to a wrong code is left open.
-/

namespace AgentCraft.Access

open AgentCraft.Relational AgentCraft.Transition

/-- `USER_ROLES`. -/
inductive Role
  | user | admin
deriving DecidableEq, Repr

/-- `users`: the columns that authentication reads. -/
structure Account extends User where
  role : Role
deriving DecidableEq, Repr

/-- `sessions`. `checked` is not in the source: how many revocations had been committed when the password
check or the challenge that the session comes from was passed or issued. -/
structure SessionRow where
  userId : UserId
  createdAt : Time
  expiresAt : Time
  mfaVerifiedAt : Option Time
  revoked : Bool
  checked : ℕ
deriving DecidableEq, Repr

/-- A day in microseconds. -/
def day : Time := 86400 * 1000000

/-- `SESSION_TTL`. -/
def sessionTtl : Time := 7 * day

/-- `SESSION_ABSOLUTE`. -/
def sessionAbsolute : Time := 30 * day

/-- `REFRESH_THRESHOLD`. -/
def refreshThreshold : Time := 6 * day

/-- `_MFA_WINDOW`: twelve hours. -/
def mfaWindow : Time := 12 * 3600 * 1000000

/-! ## Pending secrets -/

/-- `_PendingSecret`. -/
structure PendingSecret where
  secret : String
  createdAt : Time
deriving DecidableEq, Repr

/-- `ttl_seconds` of `PendingMfaSecretStore`. -/
def pendingTtl : Time := 600 * 1000000

/-- `_entries` of `PendingMfaSecretStore`. -/
abbrev PendingStore := Table UserId PendingSecret

namespace PendingStore

/-- `_prune`. -/
def prune (s : PendingStore) (now : Time) : PendingStore :=
  s.filter fun _ e => now < e.createdAt + pendingTtl

/-- `put`. -/
def put (s : PendingStore) (now : Time) (user : UserId) (secret : String) : PendingStore :=
  ((s.prune now).insert user ⟨secret, now⟩).set user ⟨secret, now⟩

/-- `get`. -/
def find (s : PendingStore) (now : Time) (user : UserId) : Option String :=
  ((s.prune now).get? user).map (·.secret)

/-- `pop`. -/
def pop (s : PendingStore) (user : UserId) : PendingStore := s.filter fun u _ => u ≠ user

end PendingStore

/-! ## Operations in progress -/

/-- The operations that last longer than one step. -/
inductive AccountCall
  | login
  | loginMfa (challenge : Token) (code : String)
  | verifyMfa (session : SessionId) (code : String)
  | activateMfa (session : SessionId) (code : String)
  | disableMfa (session : SessionId)
  | cancelDeletion
deriving DecidableEq, Repr

/-- How far an operation has come. -/
inductive CallStage
  /-- It waits for the row of its user. -/
  | reading (user : UserId)
  /-- The code was wrong; the limiter has been asked. -/
  | wrong (user : UserId)
  /-- Its last transaction is to come. -/
  | passed (user : UserId)
  /-- The code was right for the pending secret; the enrolment is to come. -/
  | enrolling (user : UserId) (secret : String)
  /-- The enrolment has committed; the pending secret is still to be dropped. -/
  | enrolled (user : UserId)
  | ended
deriving DecidableEq, Repr

/-- An operation in progress; `checked` is as for `SessionRow`. -/
structure AccountOp where
  call : AccountCall
  stage : CallStage
  checked : ℕ
deriving DecidableEq, Repr

/-- Why sessions are revoked. -/
inductive RevokeCause
  /-- `confirm_password_reset`. -/
  | reset (newPassword : String)
  /-- `change_password`, which keeps the session that it comes from. -/
  | change (session : SessionId) (newPassword : String)
  /-- `request_deletion`. -/
  | deletion
  /-- `run_suspension_cascade`. -/
  | cascade
  /-- `sweep_expired`. -/
  | sweep (randomPassword : String)
deriving DecidableEq, Repr

/-- The session that is kept. -/
def RevokeCause.keep : RevokeCause → Option SessionId
  | .change sid _ => some sid
  | _ => none

/-- The transaction writes, and so locks, the row of the user. -/
def RevokeCause.locksUser : RevokeCause → Bool
  | .cascade => false
  | _ => true

/-- The status condition of the write. -/
def RevokeCause.applies : RevokeCause → UserStatus → Bool
  | .reset _, s => s = .active || s = .suspended || s = .deleting
  | .change .., _ => true
  | .deletion, s => s = .active
  | .cascade, _ => true
  | .sweep _, s => s = .deleting

/-- A revocation: its transaction is open until it commits. `found` are the sessions that the statement
has matched; `before` is not in the source: the sessions created before the statement ran have smaller
numbers. -/
structure Revocation where
  user : UserId
  cause : RevokeCause
  found : List SessionId
  before : SessionId
deriving DecidableEq, Repr

/-- The tables, the memory of the process, and what is in progress. Two components are not in the source:
`issued` tells for each challenge how many revocations had been committed when it was created, and `log`
lists the revocations that have been committed, oldest first. -/
structure Accounts where
  users : Table UserId Account
  sessions : Table SessionId SessionRow
  challenges : ChallengeStore
  issued : Token → ℕ
  pending : PendingStore
  ops : Table OpId AccountOp
  revoking : List Revocation
  log : List Revocation
  nextToken : Token
  nextSession : SessionId
  now : Time

namespace Accounts

variable (w : Accounts)

/-- Another transaction holds the row of the user. -/
def userLocked (u : UserId) : Bool := w.revoking.any fun r => r.user = u && r.cause.locksUser

/-- Another transaction holds the row of the session. -/
def sessionLocked (sid : SessionId) : Bool := w.revoking.any (sid ∈ ·.found)

/-- Rewrite the row of a user. -/
def setUser (u : UserId) (f : Account → Account) : Accounts :=
  { w with users := w.users.map fun u' row => if u' = u then f row else row }

/-- Set the status of a user. -/
def setStatus (u : UserId) (s : UserStatus) : Accounts :=
  w.setUser u fun row => { row with status := s }

def setStage (id : OpId) (op : AccountOp) (stage : CallStage) : Accounts :=
  { w with ops := w.ops.set id { op with stage := stage } }

/-- `create_session`. -/
def createSession (u : UserId) (mfaVerified : Bool) (checked : ℕ) : Accounts :=
  { w with
    sessions := w.sessions.insert w.nextSession
      ⟨u, w.now, w.now + sessionTtl, if mfaVerified then some w.now else none, false, checked⟩
    nextSession := w.nextSession + 1 }

/-- `UPDATE sessions SET mfa_verified_at = now() WHERE id = :sid AND revoked_at IS NULL`; the session
sees the rows of its user only. -/
def stamp (u : UserId) (sid : SessionId) : Accounts :=
  { w with
    sessions := w.sessions.map fun sid' s =>
      if sid' = sid && s.userId = u && !s.revoked then { s with mfaVerifiedAt := some w.now } else s }

/-- `refresh_if_needed`. -/
def refresh (sid : SessionId) : Accounts :=
  { w with
    sessions := w.sessions.map fun sid' s =>
      if sid' = sid && !s.revoked && s.expiresAt < w.now + refreshThreshold then
        { s with expiresAt := min (w.now + sessionTtl) (s.createdAt + sessionAbsolute) }
      else s }

/-- `revoke`. -/
def revokeOne (u : UserId) (sid : SessionId) : Accounts :=
  { w with
    sessions := w.sessions.map fun sid' s =>
      if sid' = sid && s.userId = u then { s with revoked := true } else s }

/-! ## Authentication -/

/-- The detail of an `HTTPException`. -/
def sessionExpired : Problem := ⟨401, "SESSION_EXPIRED", "登录状态已失效，请重新登录", none⟩

/-- `resolve_session`. -/
def resolveSession (sid : SessionId) : Option (SessionRow × Account) :=
  match w.sessions.get? sid with
  | none => none
  | some s =>
    match w.users.get? s.userId with
    | none => none
    | some row =>
      if s.revoked = false ∧ w.now < s.expiresAt ∧ row.status ≠ .deleted then some (s, row) else none

/-- `get_v2_auth`, without the CSRF gate. -/
def getV2Auth (sid : SessionId) : Except Problem (SessionRow × Account) :=
  match w.resolveSession sid with
  | none => .error sessionExpired
  | some (s, row) =>
    if row.status = .suspended then .error accountSuspended
    else if row.status = .deleting then .error accountDeleting
    else if row.status = .pending ∨ row.status = .active then .ok (s, row)
    else .error sessionExpired

/-- What `get_v2_auth` accepts is alive, and its user is there. -/
theorem getV2Auth_eq_ok {w : Accounts} {sid : SessionId} {s : SessionRow} {row : Account}
    (h : w.getV2Auth sid = .ok (s, row)) :
    w.sessions.get? sid = some s ∧ s.revoked = false ∧ w.users.get? s.userId = some row := by
  unfold getV2Auth resolveSession at h
  cases hs : w.sessions.get? sid with
  | none =>
    simp only [hs] at h
    cases h
  | some s' =>
    simp only [hs] at h
    cases hu : w.users.get? s'.userId with
    | none =>
      simp only [hu] at h
      cases h
    | some row' =>
      simp only [hu] at h
      by_cases hlive : s'.revoked = false ∧ w.now < s'.expiresAt ∧ row'.status ≠ .deleted
      · rw [if_pos hlive] at h
        simp only at h
        obtain ⟨-, h⟩ := ite_error_eq_ok.mp h
        obtain ⟨-, h⟩ := ite_error_eq_ok.mp h
        obtain ⟨-, h⟩ := ite_ok_else_error.mp h
        cases h
        exact ⟨rfl, hlive.1, hu⟩
      · rw [if_neg hlive] at h
        cases h

/-- `_FORBIDDEN_DETAIL`. -/
def forbidden : Problem := ⟨403, "FORBIDDEN", "需要管理员权限", none⟩

/-- `_ADMIN_DISABLE_FORBIDDEN_DETAIL`. -/
def adminDisableForbidden : Problem := ⟨403, "FORBIDDEN", "管理员不可停用 TOTP", none⟩

/-- `_ADMIN_MFA_REQUIRED_DETAIL`. -/
def adminMfaRequired : Problem := ⟨403, "ADMIN_MFA_REQUIRED", "管理员操作需要有效的 MFA 验证", none⟩

/-- `get_v2_admin_auth`. -/
def getV2AdminAuth (sid : SessionId) : Except Problem (SessionRow × Account) := do
  let (s, row) ← w.getV2Auth sid
  if row.role ≠ .admin then .error forbidden
  else if row.mfaSecretEnc = none then .error adminMfaRequired
  else
    match s.mfaVerifiedAt with
    | none => .error adminMfaRequired
    | some verifiedAt =>
      if verifiedAt + mfaWindow < w.now then .error adminMfaRequired else .ok (s, row)

/-- `_invalid_cancel`. -/
def invalidCancel : Problem := ⟨409, "ACCOUNT_DELETING", "撤销链接无效或已过期", none⟩

/-! ## Logging in -/

/-- `_mfa_invalid`. -/
def mfaInvalid (status : ℕ) : Problem := ⟨status, "MFA_INVALID", "验证码无效或已过期", none⟩

variable (P : Primitives)

/-- `login` after its limiter, up to the challenge, or to the transaction of `_start_session`. -/
def login (id : OpId) (email password : String) : Except Problem Accounts :=
  match w.users.rows.find? fun r => r.2.email = P.normalizeEmail email with
  | none => .error invalidCredentials
  | some (u, row) =>
    if row.status = .deleted then .error invalidCredentials
    else if P.verifyPassword password row.passwordHash = false then .error invalidCredentials
    else if row.status = .suspended then .error accountSuspended
    else if row.status = .deleting then .error accountDeleting
    else if row.mfaSecretEnc.isSome then
      .ok { w with
        challenges := (w.challenges.prune w.now).insert w.nextToken ⟨u, w.now, 0⟩
        issued := Function.update w.issued w.nextToken w.log.length
        nextToken := w.nextToken + 1 }
    else .ok { w with ops := w.ops.insert id ⟨.login, .passed u, w.log.length⟩ }

/-- The first step of `login_mfa`. -/
def loginMfa (id : OpId) (t : Token) (code : String) : Except Problem Accounts :=
  match (w.challenges.prune w.now).get? t with
  | none => .error (mfaInvalid 401)
  | some e => .ok { w with
      challenges := w.challenges.prune w.now
      ops := w.ops.insert id ⟨.loginMfa t code, .reading e.userId, w.issued t⟩ }

/-- The secret that the row of a user holds. -/
def secretOf (u : UserId) : Option String :=
  (w.users.get? u).bind fun row => row.mfaSecretEnc.bind fun e => P.decryptText e u

/-- The row has been read: the code is tested against its secret. A right code of `login_mfa` destroys
the challenge. -/
def test (id : OpId) (op : AccountOp) (u : UserId) : Accounts :=
  match op.call, w.secretOf P u with
  | .loginMfa t code, some secret =>
    if P.verifyTotp secret code w.now then
      { w.setStage id op (.passed u) with challenges := w.challenges.destroy t }
    else w.setStage id op (.wrong u)
  | .verifyMfa _ code, some secret =>
    if P.verifyTotp secret code w.now then w.setStage id op (.passed u)
    else w.setStage id op (.wrong u)
  | _, _ => w.setStage id op .ended

/-- The limiter has answered: unless it refuses, the failure of a `login_mfa` is counted. -/
def refuse (id : OpId) (op : AccountOp) (limited : Bool) : Accounts :=
  match op.call with
  | .loginMfa t _ =>
    if limited then w.setStage id op .ended
    else { w.setStage id op .ended with challenges := w.challenges.recordFailure t }
  | _ => w.setStage id op .ended

/-- `activate_mfa`, up to its transaction. -/
def activateMfa (id : OpId) (u : UserId) (sid : SessionId) (code : String) : Except Problem Accounts :=
  match w.pending.find w.now u with
  | none => .error (mfaInvalid 400)
  | some secret =>
    let stage : CallStage :=
      if P.verifyTotp secret code w.now then .enrolling u secret else .wrong u
    .ok { w with
      pending := w.pending.prune w.now
      ops := w.ops.insert id ⟨.activateMfa sid code, stage, w.log.length⟩ }

/-! ## Revoking -/

/-- The statement of `revoke_all`, or `_REVOKE_OTHER_SESSIONS_SQL`, finds these sessions. -/
def revocable (u : UserId) (keep : Option SessionId) : List SessionId :=
  (w.sessions.rows.filter fun r => r.2.userId = u && !r.2.revoked && some r.1 ≠ keep).map Prod.fst

/-- What the transaction writes into the row of the user. -/
def RevokeCause.write (u : UserId) (row : Account) : RevokeCause → Account
  | .reset new => { row with passwordHash := P.hashPassword new }
  | .change _ new => { row with passwordHash := P.hashPassword new }
  | .deletion => { row with status := .deleting }
  | .cascade => row
  | .sweep random => { row with
      status := .deleted
      passwordHash := P.hashPassword random
      mfaSecretEnc := none
      email := "deleted+" ++ u ++ "@users.invalid" }

/-- The transaction has come to its end. -/
def commit (r : Revocation) : Accounts :=
  { w.setUser r.user fun row => RevokeCause.write P r.user row r.cause with
    sessions := w.sessions.map fun sid s => if sid ∈ r.found then { s with revoked := true } else s
    revoking := w.revoking.erase r
    log := w.log ++ [r] }

end Accounts

/-! ## The system -/

/-- The labels of the system. -/
inductive AccountAction
  | tick (d : Time)
  | login (id : OpId) (email password : String)
  | loginMfa (id : OpId) (t : Token) (code : String)
  | verifyMfa (id : OpId) (sid : SessionId) (code : String)
  /-- `setup_mfa` with the secret that it generates. -/
  | setupMfa (sid : SessionId) (secret : String)
  | activateMfa (id : OpId) (sid : SessionId) (code : String)
  | disableMfa (id : OpId) (sid : SessionId)
  | test (id : OpId)
  | refuse (id : OpId) (limited : Bool)
  /-- The last transaction of a login, a verification or a deactivation; the statements of
  `cancel_deletion` that write. -/
  | finish (id : OpId)
  /-- The transaction of an enrolment, with the envelope that `encrypt_text` makes. -/
  | enrol (id : OpId) (envelope : String)
  | pop (id : OpId)
  | revoke (user : UserId) (cause : RevokeCause)
  | commit (r : Revocation)
  | rollBack (r : Revocation)
  /-- `logout`, or the removal of one of one's sessions. -/
  | endSession (sid target : SessionId)
  | suspend (user : UserId)
  | unsuspend (user : UserId)
  | confirmEmail (user : UserId)
  /-- `cancel_deletion` under a valid token, up to the check of the password. -/
  | cancelDeletion (id : OpId) (user : UserId) (password : String)
  /-- The transaction of `accept_invitation`. -/
  | accept (user : UserId) (email password : String)
  /-- Any authenticated request. -/
  | access (sid : SessionId)
deriving DecidableEq

variable (P : Primitives)

/-- A step of an operation in progress. -/
def Accounts.advance (w : Accounts) (id : OpId) (op : AccountOp) :
    AccountAction → Except PortalFailure Accounts
  | .test _ =>
    match op.stage with
    | .reading u => .ok (w.test P id op u)
    | _ => .error .notEnabled
  | .refuse _ limited =>
    match op.stage with
    | .wrong _ => .ok (w.refuse id op limited)
    | _ => .error .notEnabled
  | .finish _ =>
    match op.call, op.stage with
    | .login, .passed u => .ok ((w.createSession u false op.checked).setStage id op .ended)
    | .loginMfa .., .passed u => .ok ((w.createSession u true op.checked).setStage id op .ended)
    | .verifyMfa sid _, .passed u =>
      if w.sessionLocked sid then .error .notEnabled
      else .ok ((w.stamp u sid).setStage id op .ended)
    | .disableMfa _, .passed u =>
      if w.userLocked u then .error .notEnabled
      else .ok ((w.setUser u fun row => { row with mfaSecretEnc := none }).setStage id op .ended)
    | .cancelDeletion, .passed u =>
      if w.userLocked u then .error .notEnabled
      else if (w.users.get? u).any (·.status = .deleting) then
        .ok (((w.setStatus u .active).createSession u false op.checked).setStage id op .ended)
      else .ok (w.setStage id op .ended)
    | _, _ => .error .notEnabled
  | .enrol _ envelope =>
    match op.call, op.stage with
    | .activateMfa sid _, .enrolling u secret =>
      if P.decryptText envelope u = some secret ∧ w.userLocked u = false ∧
          w.sessionLocked sid = false then
        .ok (((w.setUser u fun row => { row with mfaSecretEnc := some envelope }).stamp u sid).setStage
          id op (.enrolled u))
      else .error .notEnabled
    | _, _ => .error .notEnabled
  | .pop _ =>
    match op.stage with
    | .enrolled u => .ok { w.setStage id op .ended with pending := w.pending.pop u }
    | _ => .error .notEnabled
  | _ => .error .notEnabled

/-- The operation that an action moves on. -/
def AccountAction.op? : AccountAction → Option OpId
  | .test id | .refuse id _ | .finish id | .enrol id _ | .pop id => some id
  | _ => none

/-- The operation that an action begins. -/
def AccountAction.begins? : AccountAction → Option OpId
  | .login id .. | .loginMfa id .. | .verifyMfa id .. | .activateMfa id .. | .disableMfa id .. |
    .cancelDeletion id .. => some id
  | _ => none

/-- The steps that are not about an operation in progress. -/
def Accounts.perform (w : Accounts) : AccountAction → Except PortalFailure Accounts
  | .tick d => .ok { w with now := w.now + d }
  | .login id email password => (w.login P id email password).mapError .problem
  | .loginMfa id t code => (w.loginMfa id t code).mapError .problem
  | .verifyMfa id sid code => do
    let (s, _) ← (w.getV2Auth sid).mapError .problem
    return { w with ops := w.ops.insert id ⟨.verifyMfa sid code, .reading s.userId, w.log.length⟩ }
  | .setupMfa sid secret => do
    let (s, _) ← (w.getV2Auth sid).mapError .problem
    return { w with pending := w.pending.put w.now s.userId secret }
  | .activateMfa id sid code => do
    let (s, _) ← (w.getV2Auth sid).mapError .problem
    (w.activateMfa P id s.userId sid code).mapError .problem
  | .disableMfa id sid => do
    let (s, row) ← (w.getV2Auth sid).mapError .problem
    if row.role = .admin then .error (.problem Accounts.adminDisableForbidden)
    else .ok { w with ops := w.ops.insert id ⟨.disableMfa sid, .passed s.userId, w.log.length⟩ }
  | .revoke u cause =>
    match w.users.get? u with
    | none => .error .notEnabled
    | some row =>
      if cause.applies row.status ∧ (cause.locksUser && w.userLocked u) = false ∧
          (∀ sid ∈ cause.keep, (w.sessions.get? sid).any (·.userId = u) = true) then
        .ok { w with revoking := ⟨u, cause, w.revocable u cause.keep, w.nextSession⟩ :: w.revoking }
      else .error .notEnabled
  | .commit r => if r ∈ w.revoking then .ok (w.commit P r) else .error .notEnabled
  | .rollBack r => .ok { w with revoking := w.revoking.erase r }
  | .endSession sid target => do
    let (s, _) ← (w.getV2Auth sid).mapError .problem
    if w.sessionLocked target then .error .notEnabled else .ok (w.revokeOne s.userId target)
  | .suspend u =>
    match w.users.get? u with
    | none => .error .notEnabled
    | some row =>
      if w.userLocked u = false ∧ (row.status = .active ∨ row.status = .deleting) then
        .ok (w.setStatus u .suspended)
      else .error .notEnabled
  | .unsuspend u =>
    match w.users.get? u with
    | none => .error .notEnabled
    | some row =>
      if w.userLocked u = false ∧ row.status = .suspended then .ok (w.setStatus u .active)
      else .error .notEnabled
  | .confirmEmail u =>
    match w.users.get? u with
    | none => .error .notEnabled
    | some row =>
      if w.userLocked u = false ∧ row.status = .pending then .ok (w.setStatus u .active)
      else .error .notEnabled
  | .cancelDeletion id u password =>
    match w.users.get? u with
    | none => .error (.problem Accounts.invalidCancel)
    | some row =>
      if row.status ≠ .deleting then .error (.problem Accounts.invalidCancel)
      else if P.verifyPassword password row.passwordHash then
        .ok { w with ops := w.ops.insert id ⟨.cancelDeletion, .passed u, w.log.length⟩ }
      else .error (.problem invalidCurrent)
  | .accept u email password =>
    match w.users.get? u with
    | some _ => .error .notEnabled
    | none =>
      if w.users.rows.any (·.2.email = email) then .error .notEnabled
      else
        let row : Account := ⟨⟨email, P.hashPassword password, .pending, none⟩, .user⟩
        .ok ({ w with users := w.users.insert u row }.createSession u false w.log.length)
  | .access sid => do
    let _ ← (w.getV2Auth sid).mapError .problem
    return w.refresh sid
  | _ => .error .notEnabled

/-- The step function. -/
def Accounts.step (w : Accounts) (a : AccountAction) : Except PortalFailure Accounts :=
  match a.op? with
  | some id =>
    match w.ops.get? id with
    | some op => w.advance P id op a
    | none => .error .notEnabled
  | none =>
    match a.begins?.bind w.ops.get? with
    | some _ => .error .notEnabled
    | none => w.perform P a

/-- Accounts under all requests about them. -/
def accounts : System Accounts AccountAction PortalFailure := ⟨Accounts.step P⟩

/-- Any users; no session, nothing in memory and nothing in progress. -/
structure Accounts.Initial (w : Accounts) : Prop where
  sessions : w.sessions = .empty
  challenges : w.challenges = .empty
  pending : w.pending = .empty
  ops : w.ops = .empty
  revoking : w.revoking = []
  log : w.log = []

end AgentCraft.Access
