import AgentCraft.Access.RateLimit

/-!
# Passwords and TOTP codes

`login_service.py` and the TOTP gate of `password_service.py`: a login with a second factor creates a
challenge, and three operations test a code: `login_mfa`, `verify_mfa` and `change_password`. What
stands between two awaits of the source is one step here, so an operation goes through phases: it waits
for the user's row, tests the code against it, waits for the limiter if the code is wrong, and ends in
a final transaction if it is right. The challenge store is a dictionary of the process; its clock is
the one of the database.
-/

namespace AgentCraft.Access

open AgentCraft.Relational AgentCraft.Transition

/-- `str(user.id)`. -/
abbrev UserId := String

/-- `token_urlsafe(32)`, in the order of issue: none is issued twice. -/
abbrev Token := ℕ

abbrev SessionId := ℕ

/-- An operation in progress. -/
abbrev OpId := ℕ

/-- What the services take from libraries: the HMAC of `hmac_subject`, PostgreSQL's `hashtext`, Argon2,
the envelope encryption with the AAD of the user, TOTP, and the normal form of e-mail addresses. -/
structure Primitives where
  hmacSubject : String → String → Subject
  hashtext : String → ℤ
  verifyPassword : String → String → Bool
  hashPassword : String → String
  decryptText : String → UserId → Option String
  verifyTotp : String → String → Time → Bool
  normalizeEmail : String → String

/-- `USER_STATUSES`. -/
inductive UserStatus
  | pending | active | suspended | deleting | deleted
deriving DecidableEq, Repr

/-- `users`: the columns that the login reads. -/
structure User where
  email : String
  passwordHash : String
  status : UserStatus
  mfaSecretEnc : Option String
deriving DecidableEq, Repr

/-- `sessions`. -/
structure Session where
  userId : UserId
  mfaVerifiedAt : Option Time
  revoked : Bool
deriving DecidableEq, Repr

/-- An error response. -/
structure Problem where
  status : ℕ
  code : String
  message : String
  retryAfter : Option ℤ := none
deriving DecidableEq, Repr

/-- `_invalid_credentials`. -/
def invalidCredentials : Problem := ⟨401, "INVALID_CREDENTIALS", "账号或密码不正确", none⟩

/-- `_invalid_current`. -/
def invalidCurrent : Problem := ⟨401, "INVALID_CREDENTIALS", "当前密码不正确", none⟩

def accountSuspended : Problem := ⟨403, "ACCOUNT_SUSPENDED", "账户已被停用", none⟩

def accountDeleting : Problem := ⟨403, "ACCOUNT_DELETING", "账户注销处理中", none⟩

/-- `_mfa_not_configured`. -/
def mfaNotConfigured : Problem := ⟨400, "MFA_NOT_CONFIGURED", "尚未配置 TOTP 两步验证", none⟩

/-- The 429 of `enforce`. -/
def tooManyRequests (retryAfter : ℤ) : Problem :=
  ⟨429, "TOO_MANY_REQUESTS", "请求过于频繁，请稍后重试", some retryAfter⟩

/-- An exception that no handler maps. -/
def internalError : Problem := ⟨500, "INTERNAL_ERROR", "服务器内部错误，请稍后重试", none⟩

/-! ## Challenges -/

/-- `_Challenge`. -/
structure Challenge where
  userId : UserId
  createdAt : Time
  attempts : ℕ
deriving DecidableEq, Repr

/-- `ttl_seconds` of `MfaChallengeStore`. -/
def challengeTtl : Time := 300 * 1000000

/-- `max_attempts` of `MfaChallengeStore`. -/
def maxAttempts : ℕ := 5

/-- `_entries` of `MfaChallengeStore`. -/
abbrev ChallengeStore := Table Token Challenge

namespace ChallengeStore

/-- `_prune`. -/
def prune (s : ChallengeStore) (now : Time) : ChallengeStore :=
  s.filter fun _ e => now < e.createdAt + challengeTtl

/-- `destroy`. -/
def destroy (s : ChallengeStore) (t : Token) : ChallengeStore := s.filter fun t' _ => t' ≠ t

/-- `record_failure`: the last attempt destroys the challenge. -/
def recordFailure (s : ChallengeStore) (t : Token) : ChallengeStore :=
  match s.get? t with
  | none => s
  | some e =>
    if maxAttempts ≤ e.attempts + 1 then s.destroy t
    else s.set t { e with attempts := e.attempts + 1 }

end ChallengeStore

/-! ## Operations -/

/-- The operations that test a code. -/
inductive OpKind
  | loginMfa (challenge : Token) (code : String)
  | verifyMfa (session : SessionId) (code : String)
  | changePassword (session : SessionId) (code : Option String) (current new : String)
deriving DecidableEq, Repr

@[grind] def OpKind.code : OpKind → Option String
  | .loginMfa _ code => some code
  | .verifyMfa _ code => some code
  | .changePassword _ code _ _ => code

/-- The scope under which a wrong code counts. -/
def OpKind.scope : OpKind → Scope
  | .loginMfa .. => .mfaFailure
  | .verifyMfa .. => .mfaFailure
  | .changePassword .. => .passwordChangeTotp

/-- `_mfa_invalid` of the two services. -/
def OpKind.mfaInvalid : OpKind → Problem
  | .loginMfa .. => ⟨401, "MFA_INVALID", "验证码无效或已过期", none⟩
  | .verifyMfa .. => ⟨401, "MFA_INVALID", "验证码无效或已过期", none⟩
  | .changePassword .. => ⟨400, "MFA_INVALID", "验证码无效", none⟩

/-- How an operation ends. -/
inductive Reply
  | ok
  | session (id : SessionId)
  | problem (p : Problem)
deriving DecidableEq, Repr

/-- How far an operation has come: it waits for the row of its user, is about to test the code, has
found it wrong, waits for the limiter, has found it right, or has ended. -/
inductive OpPhase
  | reading (user : UserId)
  | testing (user : UserId) (row : Option User)
  | refused (user : UserId)
  | refusing (user : UserId) (call : CallId)
  | passed (user : UserId) (row : Option User)
  | done (reply : Reply)
deriving DecidableEq, Repr

structure Op where
  kind : OpKind
  phase : OpPhase
deriving DecidableEq, Repr

/-- The tables, the process and the operations in progress. -/
structure Portal where
  limiter : Limiter
  users : Table UserId User
  sessions : Table SessionId Session
  challenges : ChallengeStore
  nextToken : Token
  nextSession : SessionId
  ops : Table OpId Op

/-- The clock. -/
def Portal.now (w : Portal) : Time := w.limiter.now

/-- An operation moves on. -/
def Portal.setPhase (w : Portal) (id : OpId) (op : Op) (phase : OpPhase) : Portal :=
  { w with ops := w.ops.set id { op with phase := phase } }

/-- An operation ends. -/
def Portal.answer (w : Portal) (id : OpId) (op : Op) (reply : Reply) : Portal :=
  w.setPhase id op (.done reply)

/-- `create_session` in its transaction. -/
def Portal.createSession (w : Portal) (user : UserId) (mfaVerified : Bool) : Portal :=
  { w with
    sessions := w.sessions.insert w.nextSession
      ⟨user, if mfaVerified then some w.now else none, false⟩
    nextSession := w.nextSession + 1 }

/-- `challenge_store.create`. -/
def Portal.createChallenge (w : Portal) (user : UserId) : Portal :=
  { w with
    challenges := (w.challenges.prune w.now).insert w.nextToken ⟨user, w.now, 0⟩
    nextToken := w.nextToken + 1 }

/-- `login` after its limiter: a user with a second factor gets a challenge, others a session. -/
def Portal.login (P : Primitives) (w : Portal) (email password : String) : Except Problem Portal :=
  match w.users.rows.find? fun r => r.2.email = P.normalizeEmail email with
  | none => .error invalidCredentials
  | some (user, row) =>
    if row.status = .deleted then .error invalidCredentials
    else if P.verifyPassword password row.passwordHash = false then .error invalidCredentials
    else if row.status = .suspended then .error accountSuspended
    else if row.status = .deleting then .error accountDeleting
    else if row.mfaSecretEnc.isSome then .ok (w.createChallenge user)
    else .ok (w.createSession user false)

/-- The first step of an operation. `login_mfa` looks its challenge up; the other two know their user,
and `change_password` has the row already, from its authentication. -/
def Portal.submit (w : Portal) (id : OpId) (user : UserId) : OpKind → Portal
  | kind@(.loginMfa t _) =>
    let pruned := w.challenges.prune w.now
    { w with
      challenges := pruned
      ops := w.ops.insert id ⟨kind,
        match pruned.get? t with
        | none => .done (.problem kind.mfaInvalid)
        | some e => .reading e.userId⟩ }
  | kind@(.verifyMfa ..) => { w with ops := w.ops.insert id ⟨kind, .reading user⟩ }
  | kind@(.changePassword ..) =>
    { w with ops := w.ops.insert id ⟨kind, .testing user (w.users.get? user)⟩ }

/-- A code that is right: `login_mfa` destroys the challenge at once. -/
def Portal.accept (w : Portal) (id : OpId) (op : Op) (user : UserId) (row : Option User) : Portal :=
  match op.kind with
  | .loginMfa t _ =>
    { w.setPhase id op (.passed user row) with challenges := w.challenges.destroy t }
  | _ => w.setPhase id op (.passed user row)

/-- Test the code against the row. Without a second factor `change_password` goes on, the others end;
an envelope that cannot be opened is no attempt; a missing code is a wrong one. -/
def Portal.test (P : Primitives) (w : Portal) (id : OpId) (op : Op) (user : UserId)
    (row : Option User) : Portal :=
  match row.bind (·.mfaSecretEnc) with
  | none =>
    match op.kind with
    | .loginMfa .. => w.answer id op (.problem op.kind.mfaInvalid)
    | .verifyMfa .. => w.answer id op (.problem mfaNotConfigured)
    | .changePassword .. => w.setPhase id op (.passed user row)
  | some envelope =>
    match op.kind.code with
    | none => w.setPhase id op (.refused user)
    | some code =>
      match P.decryptText envelope user with
      | none => w.answer id op (.problem op.kind.mfaInvalid)
      | some secret =>
        if P.verifyTotp secret code w.now then w.accept id op user row
        else w.setPhase id op (.refused user)

/-- The call that `_enforce_mfa_failure` and `_enforce_change_totp_failure` make. -/
def failureCall (P : Primitives) (kind : OpKind) (user : UserId) : Enforce :=
  ⟨kind.scope, [P.hmacSubject "user" user], List.nodup_singleton _⟩

/-- The limiter has answered: a 429 takes the place of the answer, and the attempt of `login_mfa` is
not counted then. -/
def Portal.resume (w : Portal) (id : OpId) (op : Op) : CallPhase → Option Portal
  | .admitted =>
    let w := w.answer id op (.problem op.kind.mfaInvalid)
    match op.kind with
    | .loginMfa t _ => some { w with challenges := w.challenges.recordFailure t }
    | _ => some w
  | .rejected r => some (w.answer id op (.problem (tooManyRequests r)))
  | .lost => some (w.answer id op (.problem internalError))
  | _ => none

/-- The final transaction of an operation whose code was right. -/
def Portal.finish (P : Primitives) (w : Portal) (id : OpId) (op : Op) (user : UserId)
    (row : Option User) : Portal :=
  match op.kind with
  | .loginMfa .. => (w.createSession user true).answer id op (.session w.nextSession)
  | .verifyMfa sid _ =>
    { w with
      sessions := w.sessions.map fun sid' s =>
        if sid' = sid && s.userId = user && !s.revoked then { s with mfaVerifiedAt := some w.now }
        else s }.answer id op .ok
  | .changePassword sid _ current new =>
    if P.verifyPassword current ((row.map (·.passwordHash)).getD "") = false then
      w.answer id op (.problem invalidCurrent)
    else
      { w with
        users := w.users.map fun u r =>
          if u = user then { r with passwordHash := P.hashPassword new } else r
        sessions := w.sessions.map fun sid' s =>
          if s.userId = user && sid' ≠ sid then { s with revoked := true } else s }.answer id op .ok

/-! ## The system -/

inductive PortalFailure
  | problem (p : Problem)
  | limiter (f : LimiterFailure)
  | notEnabled
deriving DecidableEq, Repr

/-- The steps of the operations, of the limiter, and of everything else that writes users. -/
inductive PortalAction
  | limiter (a : LimiterAction)
  | setUser (user : UserId) (row : User)
  | login (email password : String)
  | submit (id : OpId) (user : UserId) (kind : OpKind)
  | read (id : OpId)
  | test (id : OpId)
  | refuse (id : OpId) (call : CallId)
  | resume (id : OpId)
  | finish (id : OpId)
deriving DecidableEq

/-- The scopes of wrong codes. -/
def Scope.isGuess : Scope → Bool
  | .mfaFailure | .passwordChangeTotp => true
  | _ => false

/-- Whoever else finds a code wrong (`activate_mfa`, `request_deletion`) counts one user too. -/
def LimiterAction.countsSeveral : LimiterAction → Bool
  | .enter _ e => e.scope.isGuess && 1 < e.subjects.length
  | _ => false

variable (P : Primitives)

/-- The step of an operation in progress. -/
def Portal.advance (w : Portal) (id : OpId) (op : Op) : PortalAction → Except PortalFailure Portal
  | .read _ =>
    match op.phase with
    | .reading u => .ok (w.setPhase id op (.testing u (w.users.get? u)))
    | _ => .error .notEnabled
  | .test _ =>
    match op.phase with
    | .testing u row => .ok (w.test P id op u row)
    | _ => .error .notEnabled
  | .refuse _ call =>
    match op.phase with
    | .refused u =>
      match w.limiter.step P.hashtext (.enter call (failureCall P op.kind u)) with
      | .ok limiter => .ok { w.setPhase id op (.refusing u call) with limiter := limiter }
      | .error f => .error (.limiter f)
    | _ => .error .notEnabled
  | .resume _ =>
    match op.phase with
    | .refusing _ call =>
      match (w.limiter.calls.get? call).bind fun c => w.resume id op c.phase with
      | some w' => .ok w'
      | none => .error .notEnabled
    | _ => .error .notEnabled
  | .finish _ =>
    match op.phase with
    | .passed u row => .ok (w.finish P id op u row)
    | _ => .error .notEnabled
  | _ => .error .notEnabled

/-- The operation that an action moves on. -/
def PortalAction.op? : PortalAction → Option OpId
  | .read id | .test id | .refuse id _ | .resume id | .finish id => some id
  | _ => none

/-- The step function. -/
def Portal.step (w : Portal) (a : PortalAction) : Except PortalFailure Portal :=
  match a with
  | .limiter a =>
    if a.countsSeveral then .error .notEnabled
    else
      match w.limiter.step P.hashtext a with
      | .ok limiter => .ok { w with limiter := limiter }
      | .error f => .error (.limiter f)
  | .setUser u row => .ok { w with users := (w.users.insert u row).set u row }
  | .login email password =>
    match w.login P email password with
    | .ok w' => .ok w'
    | .error p => .error (.problem p)
  | .submit id user kind =>
    match w.ops.get? id with
    | some _ => .error .notEnabled
    | none => .ok (w.submit id user kind)
  | a =>
    match a.op?.bind fun id => (w.ops.get? id).map fun op => (id, op) with
    | some (id, op) => w.advance P id op a
    | none => .error .notEnabled

/-- The login and the operations that test codes. -/
def portal : System Portal PortalAction PortalFailure := ⟨Portal.step P⟩

/-- No challenge, no operation and no event of the limiter yet; users and sessions are arbitrary. -/
structure Portal.Initial (w : Portal) : Prop where
  limiter : w.limiter.Initial
  challenges : w.challenges = .empty
  ops : w.ops = .empty

/-- The code that the row makes possible to test, and whether it is right. -/
def Op.verdict? (w : Portal) (op : Op) (user : UserId) (row : Option User) : Option Bool := do
  let envelope ← row.bind (·.mfaSecretEnc)
  let code ← op.kind.code
  let secret ← P.decryptText envelope user
  return P.verifyTotp secret code w.now

end AgentCraft.Access
