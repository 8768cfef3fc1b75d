import AgentCraft.Access.Login

/-!
# Action tokens

`request_password_reset` and `confirm_password_reset` of `password_service.py` and
`resend_email_verification` and `confirm_email_verification` of `verification_service.py`. A request
invalidates the tokens that its `UPDATE` finds, one row after the other, and inserts its own; a confirmation
finds the user of its token, locks the row and writes. Both are one transaction at READ COMMITTED: a
statement finds what had been committed when it began, waits for a row that another transaction has locked,
and looks at it again. `now()` is the start of the transaction. The limiter and the replay of a stored
response come before and leave the tokens alone; the mail and the revoked sessions are left out.
-/

namespace AgentCraft.Access.ActionTokens

open AgentCraft.Relational AgentCraft.Transition

/-- `token_hash`, which is unique. -/
abbrev TokenHash := String

abbrev TxId := ℕ

/-- The purposes of `ACTION_TOKEN_PURPOSES` whose tokens can be asked for again. -/
inductive Purpose
  | emailVerify | passwordReset
deriving DecidableEq, Repr

/-- `VALID_HOURS`, in microseconds. -/
def Purpose.ttl : Purpose → Time
  | .emailVerify => 72 * 3600 * 1000000
  | .passwordReset => 1800 * 1000000

/-- `account_action_tokens`. -/
structure ActionToken where
  userId : UserId
  purpose : Purpose
  expiresAt : Time
  consumedAt : Option Time
deriving DecidableEq, Repr

/-- Unconsumed and unexpired. -/
def ActionToken.isLive (t : ActionToken) (now : Time) : Bool :=
  t.consumedAt.isNone && now < t.expiresAt

/-- `_invalid`: every reason has the same answer. -/
def invalid : Purpose → Problem
  | .emailVerify => ⟨400, "EMAIL_NOT_VERIFIED", "验证链接无效或已过期", none⟩
  | .passwordReset => ⟨400, "EMAIL_NOT_VERIFIED", "链接无效或已过期", none⟩

/-- `_RESEND_WRONG_STATUS_DETAIL`. -/
def resendWrongStatus : Problem := ⟨409, "VALIDATION_ERROR", "当前账户状态无法重发验证邮件", none⟩

/-- `_RESETTABLE_STATUSES`, and the status condition of `_RESET_PASSWORD_SQL`. -/
def isResettable (s : UserStatus) : Bool := s = .active || s = .suspended || s = .deleting

/-- A request or a confirmation, with what it still needs. -/
inductive Tx
  /-- A request that has passed its checks. -/
  | asked (user : UserId) (purpose : Purpose)
  /-- The transaction of a request before its `UPDATE`. -/
  | opened (user : UserId) (purpose : Purpose) (startedAt : Time)
  /-- The `UPDATE`: `found` are the rows of its snapshot, `todo` those still to be visited, `written` those
  that it has consumed. -/
  | invalidating (user : UserId) (purpose : Purpose) (startedAt : Time)
      (found todo written : List TokenHash)
  /-- The new token is inserted; the commit is to come. -/
  | issuing (user : UserId) (purpose : Purpose) (startedAt : Time) (found written : List TokenHash)
      (token : TokenHash) (expiresAt : Time)
  /-- A confirmation that has found the user of its token. -/
  | located (token : TokenHash) (user : UserId) (purpose : Purpose)
  /-- The transaction of a confirmation before its locking read. -/
  | begun (token : TokenHash) (user : UserId) (purpose : Purpose) (startedAt : Time)
  /-- The row of the token is locked, unconsumed and unexpired. -/
  | locked (token : TokenHash) (user : UserId) (purpose : Purpose) (startedAt : Time)
  /-- The token is consumed and the row of the user written; the commit is to come. -/
  | applied (token : TokenHash) (user : UserId) (purpose : Purpose) (startedAt : Time)
      (write : Option User)
  | ended (outcome : Except Problem Unit)
deriving DecidableEq

/-- The tokens whose rows are locked. -/
def Tx.holds : Tx → List TokenHash
  | .invalidating _ _ _ _ _ written => written
  | .issuing _ _ _ _ written _ _ => written
  | .locked token .. => [token]
  | .applied token .. => [token]
  | _ => []

/-- The user whose row is locked. -/
def Tx.writesUser : Tx → Option UserId
  | .applied _ user _ _ (some _) => some user
  | _ => none

/-- The user and the purpose. -/
def Tx.subject : Tx → Option (UserId × Purpose)
  | .asked u p | .opened u p _ | .invalidating u p .. | .issuing u p .. | .located _ u p
  | .begun _ u p _ | .locked _ u p _ | .applied _ u p .. => some (u, p)
  | .ended _ => none

/-- The tables and the transactions. -/
structure Registry where
  users : Table UserId User
  tokens : Table TokenHash ActionToken
  txs : Table TxId Tx
  now : Time

inductive Failure
  | problem (p : Problem)
  /-- It is not its turn, or it waits for a lock. -/
  | notEnabled
deriving DecidableEq

/-- The labels of the system. `clock` is `datetime.now` of the application. -/
inductive Action
  | tick (micros : ℕ)
  /-- `accept_invitation` creates the account with its first token. -/
  | register (user : UserId) (email passwordHash : String) (token : TokenHash) (clock : Time)
  /-- Other services change the status of an account. -/
  | setStatus (user : UserId) (status : UserStatus)
  /-- `request_password_reset` up to its transaction. -/
  | requestReset (tx : TxId) (email : String)
  /-- `resend_email_verification` up to its transaction. -/
  | resend (tx : TxId) (user : UserId)
  /-- `confirm_password_reset` and `confirm_email_verification` up to their transaction. -/
  | locate (tx : TxId) (token : TokenHash) (purpose : Purpose)
  | begin (tx : TxId)
  /-- The snapshot of `_INVALIDATE_PRIOR_SQL`. -/
  | scan (tx : TxId)
  /-- The next row of `_INVALIDATE_PRIOR_SQL`. -/
  | visit (tx : TxId)
  | issue (tx : TxId) (token : TokenHash) (clock : Time)
  /-- `_SELECT_TOKEN_FOR_UPDATE`. -/
  | lock (tx : TxId)
  /-- The writes of a confirmation. -/
  | apply (tx : TxId) (newPassword : String)
  | commit (tx : TxId)
  /-- An exception, a lost connection or a crash. -/
  | fail (tx : TxId)
deriving DecidableEq

namespace Registry

variable (w : Registry)

/-- Another transaction has locked the row of the token. -/
def tokenLocked (tx : TxId) (h : TokenHash) : Bool :=
  w.txs.rows.any fun x => x.1 ≠ tx && x.2.holds.contains h

/-- A transaction has locked the row of the user. -/
def userLocked (u : UserId) : Bool := w.txs.rows.any fun x => x.2.writesUser = some u

def setTx (tx : TxId) (x : Tx) : Registry := { w with txs := w.txs.set tx x }

def enter (tx : TxId) (x : Tx) : Registry := { w with txs := w.txs.insert tx x }

/-- The transaction is rolled back. -/
def reject (tx : TxId) (p : Problem) : Registry := w.setTx tx (.ended (.error p))

/-- The rows that `_INVALIDATE_PRIOR_SQL` matches. -/
def prior (u : UserId) (p : Purpose) : List TokenHash :=
  (w.tokens.rows.filter fun x => x.2.userId = u && x.2.purpose = p && x.2.consumedAt.isNone).map Prod.fst

/-- The account and its first token. -/
def register (u : UserId) (email passwordHash : String) (token : TokenHash) (clock : Time) :
    Except Failure Registry :=
  if (w.users.get? u).isSome ∨ (w.tokens.get? token).isSome then .error (.problem internalError)
  else
    .ok { w with
      users := w.users.insert u ⟨email, passwordHash, .pending, none⟩
      tokens := w.tokens.insert token ⟨u, .emailVerify, clock + Purpose.emailVerify.ttl, none⟩ }

/-- A request that cannot be answered with a mail is answered all the same. -/
def requestReset (P : Primitives) (tx : TxId) (email : String) : Registry :=
  match w.users.rows.find? fun r => r.2.email = P.normalizeEmail email with
  | none => w.enter tx (.ended (.ok ()))
  | some (u, row) =>
    if isResettable row.status then w.enter tx (.asked u .passwordReset) else w.enter tx (.ended (.ok ()))

def resend (tx : TxId) (u : UserId) : Except Failure Registry :=
  match w.users.get? u with
  | none => .error (.problem internalError)
  | some row =>
    if row.status = .pending then .ok (w.enter tx (.asked u .emailVerify))
    else .error (.problem resendWrongStatus)

def locate (tx : TxId) (token : TokenHash) (p : Purpose) : Except Failure Registry :=
  match w.tokens.get? token with
  | none => .error (.problem (invalid p))
  | some t =>
    if t.purpose = p then .ok (w.enter tx (.located token t.userId p)) else .error (.problem (invalid p))

/-- A row that is still unconsumed when it is visited is written. -/
def visit (tx : TxId) (u : UserId) (p : Purpose) (startedAt : Time) (found : List TokenHash)
    (h : TokenHash) (todo written : List TokenHash) : Except Failure Registry :=
  if w.tokenLocked tx h then .error .notEnabled
  else if (w.tokens.get? h).any fun t => t.consumedAt.isNone then
    .ok (w.setTx tx (.invalidating u p startedAt found todo (h :: written)))
  else .ok (w.setTx tx (.invalidating u p startedAt found todo written))

def issue (tx : TxId) (u : UserId) (p : Purpose) (startedAt : Time) (found written : List TokenHash)
    (token : TokenHash) (clock : Time) : Registry :=
  if (w.tokens.get? token).isSome then w.reject tx internalError
  else w.setTx tx (.issuing u p startedAt found written token (clock + p.ttl))

/-- The locking read with the checks behind it. -/
def lock (tx : TxId) (token : TokenHash) (u : UserId) (p : Purpose) (startedAt : Time) :
    Except Failure Registry :=
  if w.tokenLocked tx token then .error .notEnabled
  else
    match w.tokens.get? token with
    | none => .ok (w.reject tx (invalid p))
    | some t =>
      if t.userId = u ∧ t.purpose = p ∧ t.isLive startedAt = true then
        .ok (w.setTx tx (.locked token u p startedAt))
      else .ok (w.reject tx (invalid p))

/-- The writes: the activation of a pending account, or the new password of one that can be reset. -/
def applyWrites (P : Primitives) (tx : TxId) (token : TokenHash) (u : UserId) (p : Purpose)
    (startedAt : Time) (newPassword : String) : Except Failure Registry :=
  match w.users.get? u, p with
  | none, .emailVerify => .ok (w.reject tx internalError)
  | none, .passwordReset => .ok (w.reject tx (invalid .passwordReset))
  | some row, .emailVerify =>
    if row.status = .pending then
      if w.userLocked u then .error .notEnabled
      else .ok (w.setTx tx (.applied token u p startedAt (some { row with status := .active })))
    else if row.status = .active then .ok (w.setTx tx (.applied token u p startedAt none))
    else .ok (w.reject tx (invalid .emailVerify))
  | some row, .passwordReset =>
    if isResettable row.status then
      if w.userLocked u then .error .notEnabled
      else
        .ok (w.setTx tx (.applied token u p startedAt
          (some { row with passwordHash := P.hashPassword newPassword })))
    else .ok (w.reject tx (invalid .passwordReset))

/-- The tokens are consumed at the start of the transaction. -/
def consume (startedAt : Time) (hs : List TokenHash) : Table TokenHash ActionToken :=
  w.tokens.map fun h t => if hs.contains h then { t with consumedAt := some startedAt } else t

/-- The commit of a request: of two inserts with one hash the second fails. -/
def commitIssue (tx : TxId) (u : UserId) (p : Purpose) (startedAt : Time) (written : List TokenHash)
    (token : TokenHash) (expiresAt : Time) : Registry :=
  if (w.tokens.get? token).isSome then w.reject tx internalError
  else
    { w with
      tokens := (w.consume startedAt written).insert token ⟨u, p, expiresAt, none⟩
      txs := w.txs.set tx (.ended (.ok ())) }

/-- The commit of a confirmation. -/
def commitConfirm (tx : TxId) (token : TokenHash) (u : UserId) (startedAt : Time) (write : Option User) :
    Registry :=
  { w with
    users := match write with
      | none => w.users
      | some row => w.users.set u row
    tokens := w.consume startedAt [token]
    txs := w.txs.set tx (.ended (.ok ())) }

/-- The step function. -/
def step (P : Primitives) : Action → Except Failure Registry
  | .tick micros => .ok { w with now := w.now + micros }
  | .register u email passwordHash token clock => w.register u email passwordHash token clock
  | .setStatus u status =>
    if w.userLocked u then .error .notEnabled
    else
      .ok { w with
        users := w.users.map fun u' row => if u' = u then { row with status := status } else row }
  | .requestReset tx email =>
    if (w.txs.get? tx).isSome then .error .notEnabled else .ok (w.requestReset P tx email)
  | .resend tx u => if (w.txs.get? tx).isSome then .error .notEnabled else w.resend tx u
  | .locate tx token p => if (w.txs.get? tx).isSome then .error .notEnabled else w.locate tx token p
  | .begin tx =>
    match w.txs.get? tx with
    | some (.asked u p) => .ok (w.setTx tx (.opened u p w.now))
    | some (.located token u p) => .ok (w.setTx tx (.begun token u p w.now))
    | _ => .error .notEnabled
  | .scan tx =>
    match w.txs.get? tx with
    | some (.opened u p startedAt) =>
      .ok (w.setTx tx (.invalidating u p startedAt (w.prior u p) (w.prior u p) []))
    | _ => .error .notEnabled
  | .visit tx =>
    match w.txs.get? tx with
    | some (.invalidating u p startedAt found (h :: todo) written) =>
      w.visit tx u p startedAt found h todo written
    | _ => .error .notEnabled
  | .issue tx token clock =>
    match w.txs.get? tx with
    | some (.invalidating u p startedAt found [] written) =>
      .ok (w.issue tx u p startedAt found written token clock)
    | _ => .error .notEnabled
  | .lock tx =>
    match w.txs.get? tx with
    | some (.begun token u p startedAt) => w.lock tx token u p startedAt
    | _ => .error .notEnabled
  | .apply tx newPassword =>
    match w.txs.get? tx with
    | some (.locked token u p startedAt) => w.applyWrites P tx token u p startedAt newPassword
    | _ => .error .notEnabled
  | .commit tx =>
    match w.txs.get? tx with
    | some (.issuing u p startedAt _ written token expiresAt) =>
      .ok (w.commitIssue tx u p startedAt written token expiresAt)
    | some (.applied token u _ startedAt write) => .ok (w.commitConfirm tx token u startedAt write)
    | _ => .error .notEnabled
  | .fail tx =>
    match w.txs.get? tx with
    | none => .error .notEnabled
    | some (.ended _) => .error .notEnabled
    | some _ => .ok (w.reject tx internalError)

end Registry

/-- Tokens under their transactions. -/
def actionTokens (P : Primitives) : System Registry Action Failure := ⟨fun w a => w.step P a⟩

/-- No token has been issued; accounts that have been verified long ago may be there. -/
structure Registry.Initial (w : Registry) : Prop where
  tokens : w.tokens = .empty
  txs : w.txs = .empty

/-- What is seen of the tokens. -/
inductive Event
  | issued (user : UserId) (purpose : Purpose) (token : TokenHash)
  | confirmed (user : UserId) (purpose : Purpose) (token : TokenHash)
deriving DecidableEq

/-- A token is issued and a confirmation succeeds with the commit. -/
def Registry.observed (w : Registry) : Action → List Event
  | .register u _ _ token _ => [.issued u .emailVerify token]
  | .commit tx =>
    match w.txs.get? tx with
    | some (.issuing u p _ _ _ token _) =>
      if (w.tokens.get? token).isSome then [] else [.issued u p token]
    | some (.applied token u p _ _) => [.confirmed u p token]
    | _ => []
  | _ => []

end AgentCraft.Access.ActionTokens
