import AgentCraft.Relational.Table
import AgentCraft.Transition.Fallible
import AgentCraft.Transition.System

/-!
# Invitations

`invitation_service.py` and `admin_invitation_service.py`. An accept and a revocation lock the row of the
invitation first and keep it until their transaction ends; what they write becomes visible with the commit.
`now()` is the start of the transaction. The limiter, the idempotency record and the replay of a stored
response come before and leave the tables alone; the verification mail that an accept puts into its
transaction is left out, and so are the roles and sessions of the new user.
-/

namespace AgentCraft.Access.Invitations

open AgentCraft.Relational AgentCraft.Transition

/-- Microseconds of the database clock. -/
abbrev Time := ℕ

abbrev InvitationId := ℕ

abbrev UserId := ℕ

abbrev TxId := ℕ

/-- `invitations`. -/
structure Invitation where
  tokenHash : String
  email : String
  expiresAt : Time
  consumedAt : Option Time
  revokedAt : Option Time
deriving DecidableEq, Repr

/-- `users`. `via` is not in the source: the invitation and the transaction that the user comes from. -/
structure User where
  email : String
  passwordHash : String
  via : Option (InvitationId × TxId)
deriving DecidableEq, Repr

/-- An error response. -/
structure InvitationProblem where
  status : ℕ
  code : String
  message : String
deriving DecidableEq, Repr

/-- `_invalid`: every reason has the same answer. -/
def invalid : InvitationProblem := ⟨409, "INVITATION_INVALID", "邀请无效或已过期"⟩

/-- `_duplicate_open`. -/
def duplicateOpen : InvitationProblem := ⟨409, "INVITATION_INVALID", "该邮箱已有未消费且未撤销的邀请"⟩

/-- `_validation`. -/
def badRequest (message : String) : InvitationProblem := ⟨400, "VALIDATION_ERROR", message⟩

/-- `_unified_404`. -/
def unknownInvitation : InvitationProblem := ⟨404, "NOT_FOUND", "邀请不存在"⟩

/-- `INVITATION_CONSUMED`. -/
def alreadyConsumed : InvitationProblem := ⟨409, "INVITATION_CONSUMED", "邀请已被消费，无法撤销"⟩

def alreadyRevoked : InvitationProblem := ⟨409, "INVITATION_INVALID", "邀请已撤销"⟩

/-- Anything else that goes wrong. -/
def internal : InvitationProblem := ⟨500, "INTERNAL_ERROR", "服务器内部错误，请稍后重试"⟩

/-- A transaction, with what it still needs. -/
inductive Tx
  /-- `accept_invitation` before it locks the row. -/
  | accepting (tokenHash email passwordHash : String) (startedAt : Time)
  | validated (invitation : InvitationId) (email passwordHash : String) (startedAt : Time)
  /-- The row of the user is flushed. -/
  | persisted (invitation : InvitationId) (user : UserId) (email passwordHash : String) (startedAt : Time)
  /-- The invitation is consumed; the mail, the stored response and the commit are to come. -/
  | consumed (invitation : InvitationId) (user : UserId) (email passwordHash : String) (startedAt : Time)
  /-- `revoke_invitation` before its commit. -/
  | revoking (invitation : InvitationId) (clock : Time)
  /-- An accept that has committed, and any transaction that has failed. -/
  | ended (outcome : Except InvitationProblem UserId)
  /-- A revocation that has committed. -/
  | revoked
deriving DecidableEq, Repr

/-- The invitation whose row is locked. -/
def Tx.holds : Tx → Option InvitationId
  | .validated i .. | .persisted i .. | .consumed i .. | .revoking i _ => some i
  | _ => none

/-- The row of the user that is flushed. -/
def Tx.reserves : Tx → Option (UserId × String)
  | .persisted _ u email .. | .consumed _ u email .. => some (u, email)
  | _ => none

/-- The tables and the transactions. `mismatches` are the audit rows of accepts under another address. -/
structure Desk where
  invitations : Table InvitationId Invitation
  users : Table UserId User
  mismatches : List InvitationId
  txs : Table TxId Tx
  now : Time

inductive Failure
  | problem (p : InvitationProblem)
  | notEnabled
deriving DecidableEq, Repr

/-- The labels of the system. `clock` is `datetime.now` of the application. -/
inductive Action
  | tick (micros : ℕ)
  | createInvitation (invitation : InvitationId) (tokenHash email : String) (expiresInDays : ℕ) (clock : Time)
  /-- `email` and `password` as they come with the request. -/
  | accept (tx : TxId) (tokenHash email password : String)
  | lock (tx : TxId)
  | persist (tx : TxId) (user : UserId)
  | consume (tx : TxId)
  | commit (tx : TxId)
  /-- An exception, a lost connection or a crash. -/
  | fail (tx : TxId)
  | revoke (tx : TxId) (invitation : InvitationId) (clock : Time)
deriving DecidableEq, Repr

/-- What comes from elsewhere: `normalize_email` and `hash_password`. -/
structure Codec where
  normalizeEmail : String → Option String
  hashPassword : String → String

/-- A day in microseconds. -/
def day : Time := 86400 * 1000000

namespace Desk

variable (w : Desk)

/-- A transaction holds the row of the invitation. -/
def locked (i : InvitationId) : Bool := w.txs.rows.any fun x => x.2.holds = some i

/-- A transaction has flushed a row with this id or address. -/
def reserved (u : UserId) (email : String) : Bool :=
  w.txs.rows.any fun x => x.2.reserves.any fun y => y.1 = u || y.2 = email

def setTx (tx : TxId) (t : Tx) : Desk := { w with txs := w.txs.set tx t }

/-- The transaction is rolled back. -/
def reject (tx : TxId) (p : InvitationProblem) : Desk := w.setTx tx (.ended (.error p))

/-- `create_invitation`. -/
def createInvitation (C : Codec) (i : InvitationId) (tokenHash email : String) (expiresInDays : ℕ)
    (clock : Time) : Except InvitationProblem Desk :=
  if expiresInDays < 1 ∨ 7 < expiresInDays then .error (badRequest "expires_in_days 须为 1..7 的整数（>7 → 400）")
  else
    match C.normalizeEmail email with
    | none => .error (badRequest "email 格式非法")
    | some email =>
      if w.invitations.rows.any fun x => x.2.email = email && x.2.consumedAt = none && x.2.revokedAt = none then
        .error duplicateOpen
      else if (w.invitations.get? i).isSome ∨ w.invitations.rows.any fun x => x.2.tokenHash = tokenHash then
        .error duplicateOpen
      else
        .ok { w with
          invitations := w.invitations.insert i ⟨tokenHash, email, clock + expiresInDays * day, none, none⟩ }

/-- `accept_invitation` up to its transaction. -/
def accept (C : Codec) (tx : TxId) (tokenHash email password : String) : Except InvitationProblem Desk :=
  if 1024 < password.length then .error (badRequest "请求参数校验失败")
  else
    match C.normalizeEmail email with
    | none => .error (badRequest "请求参数校验失败")
    | some email =>
      .ok { w with txs := w.txs.insert tx (.accepting tokenHash email (C.hashPassword password) w.now) }

/-- `_lock_and_validate`. -/
def lockAndValidate (tx : TxId) (tokenHash email passwordHash : String) (startedAt : Time) :
    Except Failure Desk :=
  match w.invitations.rows.find? fun x => x.2.tokenHash = tokenHash with
  | none => .ok (w.reject tx invalid)
  | some (i, inv) =>
    if w.locked i then .error .notEnabled
    else if inv.consumedAt = none ∧ inv.revokedAt = none ∧ startedAt < inv.expiresAt then
      if inv.email ≠ email then .ok { w.reject tx invalid with mismatches := i :: w.mismatches }
      else .ok (w.setTx tx (.validated i email passwordHash startedAt))
    else .ok (w.reject tx invalid)

/-- `_persist_account`: a concurrent transaction with the same address is waited for. -/
def persistAccount (tx : TxId) (i : InvitationId) (u : UserId) (email passwordHash : String)
    (startedAt : Time) : Except Failure Desk :=
  if w.reserved u email then .error .notEnabled
  else if (w.users.get? u).isSome ∨ w.users.rows.any fun x => x.2.email = email then
    .ok (w.reject tx invalid)
  else .ok (w.setTx tx (.persisted i u email passwordHash startedAt))

/-- The `UPDATE` of the invitation, whose row count is checked. -/
def consume (tx : TxId) (i : InvitationId) (u : UserId) (email passwordHash : String) (startedAt : Time) :
    Desk :=
  if (w.invitations.get? i).any fun inv => inv.consumedAt = none && inv.revokedAt = none then
    w.setTx tx (.consumed i u email passwordHash startedAt)
  else w.reject tx invalid

/-- The commit of an accept. -/
def commitAccept (tx : TxId) (i : InvitationId) (u : UserId) (email passwordHash : String)
    (startedAt : Time) : Desk :=
  { w with
    users := w.users.insert u ⟨email, passwordHash, some (i, tx)⟩
    invitations := w.invitations.map fun i' inv => if i' = i then { inv with consumedAt := some startedAt } else inv
    txs := w.txs.set tx (.ended (.ok u)) }

/-- The commit of a revocation. -/
def commitRevoke (tx : TxId) (i : InvitationId) (clock : Time) : Desk :=
  { w with
    invitations := w.invitations.map fun i' inv => if i' = i then { inv with revokedAt := some clock } else inv
    txs := w.txs.set tx .revoked }

/-- `revoke_invitation` up to its commit: an expired invitation can be revoked, too. -/
def revoke (tx : TxId) (i : InvitationId) (clock : Time) : Except InvitationProblem Desk :=
  match w.invitations.get? i with
  | none => .error unknownInvitation
  | some inv =>
    if inv.consumedAt ≠ none then .error alreadyConsumed
    else if inv.revokedAt ≠ none then .error alreadyRevoked
    else .ok { w with txs := w.txs.insert tx (.revoking i clock) }

/-- The step function. -/
def step (C : Codec) : Action → Except Failure Desk
  | .tick micros => .ok { w with now := w.now + micros }
  | .createInvitation i tokenHash email expiresInDays clock =>
    (w.createInvitation C i tokenHash email expiresInDays clock).mapError .problem
  | .accept tx tokenHash email password =>
    if (w.txs.get? tx).isSome then .error .notEnabled
    else (w.accept C tx tokenHash email password).mapError .problem
  | .lock tx =>
    match w.txs.get? tx with
    | some (.accepting tokenHash email passwordHash startedAt) =>
      w.lockAndValidate tx tokenHash email passwordHash startedAt
    | _ => .error .notEnabled
  | .persist tx u =>
    match w.txs.get? tx with
    | some (.validated i email passwordHash startedAt) =>
      w.persistAccount tx i u email passwordHash startedAt
    | _ => .error .notEnabled
  | .consume tx =>
    match w.txs.get? tx with
    | some (.persisted i u email passwordHash startedAt) =>
      .ok (w.consume tx i u email passwordHash startedAt)
    | _ => .error .notEnabled
  | .commit tx =>
    match w.txs.get? tx with
    | some (.consumed i u email passwordHash startedAt) =>
      .ok (w.commitAccept tx i u email passwordHash startedAt)
    | some (.revoking i clock) => .ok (w.commitRevoke tx i clock)
    | _ => .error .notEnabled
  | .fail tx =>
    match w.txs.get? tx with
    | none => .error .notEnabled
    | some (.ended _) => .error .notEnabled
    | some .revoked => .error .notEnabled
    | some _ => .ok (w.reject tx internal)
  | .revoke tx i clock =>
    if (w.txs.get? tx).isSome ∨ w.locked i then .error .notEnabled
    else (w.revoke tx i clock).mapError .problem

end Desk

/-- Invitations under their transactions. -/
def invitationDesk (C : Codec) : System Desk Action Failure := ⟨fun w a => w.step C a⟩

/-- No invitation and no transaction yet; the users that there are have come another way. -/
structure Desk.Initial (w : Desk) : Prop where
  invitations : w.invitations = .empty
  txs : w.txs = .empty
  users : ∀ u row, w.users.get? u = some row → row.via = none

end AgentCraft.Access.Invitations
