import AgentCraft.Access.Login
import AgentCraft.Content.Catalogue
import AgentCraft.Transition.RowLocks

/-!
# Reports, suspensions and entitlements

`report_service.py` with `suspend_user_atomic`, `suspend_user`, `unsuspend_user`, `grant_entitlement` and
`revoke_entitlement` of `admin_user_service.py`: what administrators decide about users and contents, and the
audit rows that they leave. Every operation is one transaction at READ COMMITTED; a statement that locks a row
or inserts into a unique index waits for the transactions that have it. The status of a user is also moved by
the activation and by the deletion of the account, and the contents by their authors and reviewers. The reason
gate, the idempotency and the cascade of a suspension are left out.
-/

namespace AgentCraft.Access.Moderation

open AgentCraft.Relational AgentCraft.Transition
open AgentCraft.Content (Catalogue EntityId RevisionId Entity Revision)

abbrev ReportId := ℕ

abbrev MessageId := ℕ

/-- The number of a row of `user_entitlements`; `uuid7` gives none twice. -/
abbrev RowId := ℕ

abbrev TxId := ℕ

/-- `ENTITLEMENTS`. -/
def allEntitlements : List String := ["expert_author"]

/-- `reports.target_type`. -/
inductive TargetType
  | expertRevision | skillRevision | message
deriving DecidableEq, Repr

/-- The domain of the revision that a report is about. -/
def TargetType.kind? : TargetType → Option Content.Kind
  | expertRevision => some .expert
  | skillRevision => some .skill
  | message => none

/-- `REPORT_STATUSES`; `opened` is the source's `open`. -/
inductive ReportStatus
  | opened | dismissed | actioned
deriving DecidableEq, Repr

/-- `reports`. -/
structure Report where
  reporter : UserId
  targetType : TargetType
  target : ℕ
  targetRevisionHash : Option String
  status : ReportStatus
  reason : String
deriving DecidableEq, Repr

/-- `users`: what is read and written here. -/
structure UserRow where
  status : UserStatus
  deadline : Option Time
deriving DecidableEq, Repr

/-- `user_entitlements`. Nothing sets `revoked_at`: a revocation deletes the row. -/
structure Entitlement where
  user : UserId
  kind : String
deriving DecidableEq, Repr

/-- `task_messages`: whose task it is, and whether the assistant has written it. -/
structure Message where
  owner : UserId
  assistant : Bool
deriving DecidableEq, Repr

/-- `action`, `target_id` and `detail` of an audit row. -/
inductive AuditAction
  | dismiss (report : ReportId)
  | banAuthor (report : ReportId) (user : UserId)
  | takedown (report : ReportId) (revision : RevisionId) (contentSha256 : String) (entity : EntityId)
  | suspend (user : UserId) (before : UserStatus) (deadlineCleared : Bool)
  | unsuspend (user : UserId) (before : UserStatus)
  | grant (entitlement : Entitlement) (row : RowId)
  | revoke (entitlement : Entitlement) (row : RowId)
deriving DecidableEq, Repr

/-- The text of `action`. -/
def AuditAction.name : AuditAction → String
  | dismiss .. => "report.dismiss"
  | banAuthor .. => "report.ban_author"
  | takedown .. => "report.takedown"
  | suspend .. => "user.suspend"
  | unsuspend .. => "user.unsuspend"
  | grant .. => "user.entitlement.grant"
  | revoke .. => "user.entitlement.revoke"

/-- `audit_logs`. -/
structure AuditLog where
  actor : UserId
  action : AuditAction
  reason : String
  requestId : Option String
deriving DecidableEq, Repr

/-! ## Transactions -/

/-- `_VALID_ACTIONS`. -/
inductive ReportAction
  | dismiss | takedownRevision | banAuthor
deriving DecidableEq, Repr

/-- The operations. -/
inductive Request
  | resolveReport (report : ReportId) (action : ReportAction)
  | suspendUser (user : UserId)
  | unsuspendUser (user : UserId)
  | grantEntitlement (user : UserId) (kind : String)
  | revokeEntitlement (user : UserId) (kind : String)
deriving DecidableEq, Repr

/-- An operation of an administrator. -/
structure Call where
  admin : UserId
  reason : String
  requestId : Option String
  request : Request
deriving DecidableEq, Repr

/-- What a transaction has written when only the commit is left; `before` is the status that it read first. -/
inductive Outcome
  | dismissed (report : ReportId)
  /-- The row of the entitlement, if there was one. -/
  | banned (report : ReportId) (user : UserId) (before : UserStatus) (row : Option RowId)
  | takenDown (report : ReportId) (entity : EntityId) (revision : RevisionId) (contentSha256 : String)
  | suspended (user : UserId) (before : UserStatus)
  | unsuspended (user : UserId) (before : UserStatus)
  | granted (entitlement : Entitlement)
  | revoked (entitlement : Entitlement) (row : RowId)
deriving DecidableEq, Repr

/-- How far a transaction has come. -/
inductive Phase
  /-- `resolve_report`, before it has locked the report. -/
  | resolving (report : ReportId) (action : ReportAction)
  /-- `_resolve_ban_author`, before it reads the revision, and before it reads the entity. -/
  | banning (report : ReportId) (kind : Content.Kind) (target : RevisionId)
  | owning (report : ReportId) (entity : EntityId)
  /-- The takedown, before it reads the revision, and before it locks the entity. -/
  | taking (report : ReportId) (kind : Content.Kind) (target : RevisionId)
  | takingEntity (report : ReportId) (entity : EntityId)
  /-- `suspend_user_atomic`, for a report or not: before it reads the status, and before `_SUSPEND_USER_SQL`. -/
  | reading (report : Option ReportId) (user : UserId)
  | flipping (report : Option ReportId) (user : UserId) (before : UserStatus)
  /-- `revoke_entitlement=True`: before it looks for the row of the entitlement, and before it has locked it. -/
  | stripping (report : ReportId) (user : UserId) (before : UserStatus)
  | strippingRow (report : ReportId) (user : UserId) (before : UserStatus) (row : RowId)
  /-- `unsuspend_user`: before it reads the status, and before `_UNSUSPEND_USER_SQL`. -/
  | restoring (user : UserId)
  | unflipping (user : UserId) (before : UserStatus)
  /-- `grant_entitlement`: before it looks for the active row, and before it inserts one. -/
  | granting (entitlement : Entitlement)
  | inserting (entitlement : Entitlement)
  /-- `revoke_entitlement`: before it looks for the row, and before it has locked it. -/
  | revoking (entitlement : Entitlement)
  | revokingRow (entitlement : Entitlement) (row : RowId)
  | ready (outcome : Outcome)
deriving DecidableEq, Repr

/-- A transaction in progress. -/
structure Tx where
  call : Call
  phase : Phase
deriving DecidableEq, Repr

/-- What is locked: a row, or the place of an entitlement in `one_active_entitlement`. -/
inductive LockRow
  | report (report : ReportId)
  | user (user : UserId)
  | entitlement (entitlement : Entitlement)
  | entity (entity : EntityId)
deriving DecidableEq, Repr

/-- The entitlement that a ban takes away. -/
def authorship (user : UserId) : Entitlement := ⟨user, "expert_author"⟩

def Outcome.holds : Outcome → List LockRow
  | dismissed r => [.report r]
  | banned r u _ none => [.report r, .user u]
  | banned r u _ (some _) => [.report r, .user u, .entitlement (authorship u)]
  | takenDown r e _ _ => [.report r, .entity e]
  | suspended u _ | unsuspended u _ => [.user u]
  | granted x | revoked x _ => [.entitlement x]

def Phase.holds : Phase → List LockRow
  | banning r _ _ | owning r _ | taking r _ _ | takingEntity r _ | reading (some r) _ | flipping (some r) _ _ =>
    [.report r]
  | stripping r u _ | strippingRow r u _ _ => [.report r, .user u]
  | ready outcome => outcome.holds
  | _ => []

def Tx.holds (tx : Tx) : List LockRow := tx.phase.holds

/-- The audit row of an outcome; `row` is the number of a new row. -/
def Outcome.audit (row : RowId) : Outcome → AuditAction
  | dismissed r => .dismiss r
  | banned r u _ _ => .banAuthor r u
  | takenDown r e revision sha => .takedown r revision sha e
  | suspended u before => .suspend u before (before = .deleting)
  | unsuspended u before => .unsuspend u before
  | granted x => .grant x row
  | revoked x row => .revoke x row

/-! ## Problems -/

def validationError (message : String) : Problem := ⟨400, "VALIDATION_ERROR", message, none⟩

def notFound (message : String) : Problem := ⟨404, "NOT_FOUND", message, none⟩

/-- `_unified_404`. -/
def unified404 : Problem := notFound "用户不存在"

/-- `_entitlement_active`. -/
def entitlementActive : Problem := ⟨409, "ENTITLEMENT_ACTIVE", "该用户已持有此活跃 entitlement", none⟩

/-- `_user_status_conflict`. -/
def userStatusConflict (message : String) : Problem := ⟨409, "USER_STATUS_CONFLICT", message, none⟩

/-- `REPORT_INVALID_TARGET`. -/
def invalidTarget (message : String) : Problem := ⟨400, "REPORT_INVALID_TARGET", message, none⟩

/-- An exception that no handler maps. -/
def internalError : Problem := ⟨500, "INTERNAL_ERROR", "服务器内部错误，请稍后重试", none⟩

/-- Why a step does not happen. -/
inductive Failure
  | problem (p : Problem)
  | notEnabled
deriving DecidableEq, Repr

/-- The tables, and the transactions in progress. `issued` is not in the source: the numbers that rows of
`user_entitlements` have had so far. -/
structure Bureau where
  users : Table UserId UserRow
  entitlements : Table RowId Entitlement
  reports : Table ReportId Report
  audit : List AuditLog
  content : Catalogue
  messages : Table MessageId Message
  txs : Table TxId Tx
  issued : List RowId

/-- The labels of the system. -/
inductive Action
  | begin (tx : TxId) (call : Call)
  /-- The next statement of the transaction. -/
  | next (tx : TxId)
  /-- `row` is the number of the row that a grant inserts. -/
  | commit (tx : TxId) (row : RowId)
  | rollBack (tx : TxId)
  /-- `create_report`. -/
  | createReport (id : ReportId) (report : Report)
  /-- An invitation is accepted. -/
  | register (user : UserId)
  /-- `_ACTIVATE_SQL`. -/
  | activate (user : UserId)
  /-- `_DEACTIVATE_SQL`. -/
  | requestDeletion (user : UserId) (deadline : Time)
  /-- `_REACTIVATE_SQL`. -/
  | cancelDeletion (user : UserId)
  /-- `_ANONYMIZE_SQL`. -/
  | anonymise (user : UserId)
  /-- Authors and reviewers. -/
  | setContent (content : Catalogue)
  | setMessages (messages : Table MessageId Message)

namespace Bureau

variable (w : Bureau)

/-- Another transaction has the lock. -/
def rowLocked (tx : TxId) (l : LockRow) : Bool :=
  w.txs.rows.any fun x => x.1 ≠ tx && x.2.holds.contains l

/-- A transaction has the lock. -/
def locked (l : LockRow) : Bool := w.txs.rows.any fun x => x.2.holds.contains l

/-- The row of an entitlement. -/
def entitlementRow (x : Entitlement) : Option RowId := (w.entitlements.rows.find? (·.2 = x)).map (·.1)

/-- `_require_user`. -/
def requireUser (user : UserId) : Except Problem Unit :=
  if (w.users.get? user).isSome then .ok () else .error unified404

/-- `_validate_kind`. -/
def validateKind (kind : String) : Except Problem Unit :=
  if allEntitlements.contains kind then .ok ()
  else .error (validationError ("entitlement kind 仅支持 " ++ "/".intercalate allEntitlements))

/-- An operation up to its first statement here. -/
def firstPhase : Request → Except Problem Phase
  | .resolveReport r action => .ok (.resolving r action)
  | .suspendUser u => .ok (.reading none u)
  | .unsuspendUser u => .ok (.restoring u)
  | .grantEntitlement u kind => do
    validateKind kind
    w.requireUser u
    .ok (.granting ⟨u, kind⟩)
  | .revokeEntitlement u kind => do
    validateKind kind
    w.requireUser u
    .ok (.revoking ⟨u, kind⟩)

/-- `resolve_report`: the report is locked, and the action is looked at. -/
def resolve (r : ReportId) (action : ReportAction) : Except Problem Phase :=
  match w.reports.get? r with
  | none => .error (notFound "举报不存在")
  | some report =>
    if report.status ≠ .opened then .error ⟨409, "REPORT_ALREADY_RESOLVED", "举报已被处置", none⟩
    else
      match action, report.targetType.kind? with
      | .dismiss, _ => .ok (.ready (.dismissed r))
      | .banAuthor, some kind => .ok (.banning r kind report.target)
      | .banAuthor, none =>
        .error (validationError "message 举报不支持 ban_author（消息作者为 AI 角色，无作者可封）")
      | .takedownRevision, some kind => .ok (.taking r kind report.target)
      | .takedownRevision, none =>
        .error (validationError "message 举报不支持 takedown_revision，请使用 dismiss")

/-- The entity of the revision that a report is about. -/
def reported (kind : Content.Kind) (target : RevisionId) : Except Problem EntityId :=
  match w.content.entityOf kind target with
  | none => .error (notFound "举报目标不存在")
  | some e => .ok e

/-- The takedown with the lock of the entity. -/
def takedown (r : ReportId) (e : EntityId) : Except Problem Phase :=
  match w.content.entities.get? e with
  | none => .error internalError
  | some row =>
    match row.published with
    | none => .error ⟨409, "REVISION_NOT_PUBLISHED", "该内容当前没有公开版本", none⟩
    | some current =>
      match w.content.revisions.get? current with
      | none => .error internalError
      | some revision => .ok (.ready (.takenDown r e current revision.sha))

/-- `_SUSPEND_USER_SQL` with the lock of the user. -/
def flip (report : Option ReportId) (user : UserId) (before : UserStatus) : Except Problem Phase :=
  match w.users.get? user with
  | none => .error unified404
  | some row =>
    if row.status = .active ∨ row.status = .deleting then
      match report with
      | none => .ok (.ready (.suspended user before))
      | some r => .ok (.stripping r user before)
    else .error (userStatusConflict "仅 active/deleting 用户可被停用")

/-- `_UNSUSPEND_USER_SQL` with the lock of the user. -/
def unflip (user : UserId) (before : UserStatus) : Except Problem Phase :=
  match w.users.get? user with
  | none => .error unified404
  | some row =>
    if row.status = .suspended then .ok (.ready (.unsuspended user before))
    else .error (userStatusConflict "仅 suspended 用户可被恢复")

/-- A statement that waits for a lock. -/
def withLock (tx : TxId) (l : LockRow) (phase : Except Problem Phase) : Except Failure Phase :=
  if w.rowLocked tx l then .error .notEnabled else phase.mapError .problem

/-- The next statement. -/
def nextPhase (tx : TxId) : Phase → Except Failure Phase
  | .resolving r action => w.withLock tx (.report r) (w.resolve r action)
  | .banning r kind target => ((w.reported kind target).map (.owning r)).mapError .problem
  | .owning r e =>
    match w.content.entities.get? e with
    | none => .error (.problem internalError)
    | some row => .ok (.reading (some r) row.owner)
  | .taking r kind target => ((w.reported kind target).map (.takingEntity r)).mapError .problem
  | .takingEntity r e => w.withLock tx (.entity e) (w.takedown r e)
  | .reading report u =>
    match w.users.get? u with
    | none => .error (.problem unified404)
    | some row => .ok (.flipping report u row.status)
  | .flipping report u before => w.withLock tx (.user u) (w.flip report u before)
  | .stripping r u before =>
    match w.entitlementRow (authorship u) with
    | none => .ok (.ready (.banned r u before none))
    | some row => .ok (.strippingRow r u before row)
  | .strippingRow r u before row =>
    w.withLock tx (.entitlement (authorship u)) (.ok (.ready (.banned r u before
      ((w.entitlements.get? row).map fun _ => row))))
  | .restoring u =>
    match w.users.get? u with
    | none => .error (.problem unified404)
    | some row => .ok (.unflipping u row.status)
  | .unflipping u before => w.withLock tx (.user u) (w.unflip u before)
  | .granting x =>
    if (w.entitlementRow x).isSome then .error (.problem entitlementActive) else .ok (.inserting x)
  | .inserting x => w.withLock tx (.entitlement x)
      (if (w.entitlementRow x).isSome then .error entitlementActive else .ok (.ready (.granted x)))
  | .revoking x =>
    match w.entitlementRow x with
    | none => .error (.problem unified404)
    | some row => .ok (.revokingRow x row)
  | .revokingRow x row => w.withLock tx (.entitlement x)
      (if (w.entitlements.get? row).isSome then .ok (.ready (.revoked x row)) else .error unified404)
  | .ready _ => .error .notEnabled

/-! ## Commits -/

def setStatus (r : ReportId) (status : ReportStatus) : Bureau :=
  { w with reports := w.reports.map fun r' report => if r' = r then { report with status := status } else report }

/-- `_SUSPEND_USER_SQL`: a deletion loses its deadline. -/
def suspend (user : UserId) : Bureau :=
  { w with users := w.users.map fun u row =>
      if u = user then ⟨.suspended, if row.status = .deleting then none else row.deadline⟩ else row }

def deleteRow (row : RowId) : Bureau := { w with entitlements := w.entitlements.filter fun row' _ => row' ≠ row }

/-- The published revision is archived, and its entity is a draft without a published revision. -/
def archive (e : EntityId) (rid : RevisionId) : Bureau :=
  { w with content :=
      { w.content.setEntity e fun row => { row with published := none, status := .draft } with
        revisions := w.content.revisions.map fun rid' r =>
          if rid' = rid then { r with status := .archived } else r } }

/-- What becomes visible when a transaction commits, without the audit row. -/
def apply (row : RowId) : Outcome → Bureau
  | .dismissed r => w.setStatus r .dismissed
  | .banned r u _ none => (w.setStatus r .actioned).suspend u
  | .banned r u _ (some row) => ((w.setStatus r .actioned).suspend u).deleteRow row
  | .takenDown r e rid _ => (w.setStatus r .actioned).archive e rid
  | .suspended u _ => w.suspend u
  | .unsuspended u _ =>
    { w with users := w.users.map fun u' user => if u' = u then { user with status := .active } else user }
  | .granted x => { w with entitlements := w.entitlements.insert row x, issued := row :: w.issued }
  | .revoked _ row => w.deleteRow row

/-- The transaction ends. -/
def close (tx : TxId) : Bureau := { w with txs := w.txs.filter fun tx' _ => tx' ≠ tx }

/-- The commit of a transaction. -/
def finish (tx : TxId) (row : RowId) (call : Call) (outcome : Outcome) : Bureau :=
  { (w.apply row outcome).close tx with
    audit := w.audit ++ [⟨call.admin, outcome.audit row, call.reason, call.requestId⟩] }

/-! ## The steps of others -/

/-- `_validate_target`. -/
def validateTarget (reporter : UserId) (targetType : TargetType) (target : ℕ) : Except Problem Unit :=
  match targetType.kind? with
  | some kind =>
    match w.content.visibleRevision kind reporter target with
    | none => .error (notFound "举报目标不存在")
    | some r => if r.status = .published then .ok () else .error (invalidTarget "仅可举报已公开的内容版本")
  | none =>
    match (w.messages.get? target).filter (·.owner = reporter) with
    | none => .error (notFound "举报目标不存在")
    | some m => if m.assistant then .ok () else .error (invalidTarget "仅可举报任务中的 AI 回复消息")

/-- A statement on the row of one user, with its condition. -/
def moveUser (user : UserId) (before : UserStatus) (f : UserRow → UserRow) : Except Failure Bureau :=
  if w.locked (.user user) ∨ (w.users.get? user).map (·.status) ≠ some before then .error .notEnabled
  else .ok { w with users := w.users.map fun u row => if u = user then f row else row }

/-- The entities that takedowns have locked. -/
def heldEntities : List EntityId :=
  w.txs.rows.flatMap fun x => x.2.holds.filterMap fun l =>
    match l with
    | .entity e => some e
    | _ => none

/-- The entity and its revisions are as they were. -/
def SameEntity (content : Catalogue) (e : EntityId) : Prop :=
  content.entities.get? e = w.content.entities.get? e ∧
    ∀ x ∈ w.content.revisions.rows, x.2.entity = e → content.revisions.get? x.1 = some x.2

instance (content : Catalogue) (e : EntityId) : Decidable (w.SameEntity content e) := by
  unfold SameEntity
  infer_instance

/-- The step function. -/
def step : Action → Except Failure Bureau
  | .begin tx call =>
    match w.txs.get? tx with
    | some _ => .error .notEnabled
    | none => do
      let phase ← (w.firstPhase call.request).mapError .problem
      .ok { w with txs := w.txs.insert tx ⟨call, phase⟩ }
  | .next tx =>
    match w.txs.get? tx with
    | some x => do
      let phase ← w.nextPhase tx x.phase
      .ok { w with txs := w.txs.set tx ⟨x.call, phase⟩ }
    | none => .error .notEnabled
  | .commit tx row =>
    match w.txs.get? tx with
    | some ⟨call, .ready outcome⟩ =>
      if row ∈ w.issued then .error .notEnabled else .ok (w.finish tx row call outcome)
    | _ => .error .notEnabled
  | .rollBack tx => .ok (w.close tx)
  | .createReport id report =>
    match w.reports.get? id with
    | some _ => .error .notEnabled
    | none => do
      (w.validateTarget report.reporter report.targetType report.target).mapError .problem
      .ok { w with reports := w.reports.insert id { report with status := .opened } }
  | .register user =>
    match w.users.get? user with
    | some _ => .error .notEnabled
    | none => .ok { w with users := w.users.insert user ⟨.pending, none⟩ }
  | .activate user => w.moveUser user .pending fun row => { row with status := .active }
  | .requestDeletion user deadline => w.moveUser user .active fun _ => ⟨.deleting, some deadline⟩
  | .cancelDeletion user => w.moveUser user .deleting fun _ => ⟨.active, none⟩
  | .anonymise user => w.moveUser user .deleting fun _ => ⟨.deleted, none⟩
  | .setContent content =>
    if ∀ e ∈ w.heldEntities, w.SameEntity content e then .ok { w with content := content } else .error .notEnabled
  | .setMessages messages => .ok { w with messages := messages }

end Bureau

/-- Users, reports and contents under the decisions of administrators. -/
def bureau : System Bureau Action Failure := ⟨Bureau.step⟩

/-- Nothing has happened yet. -/
def Bureau.blank (content : Catalogue) (messages : Table MessageId Message) : Bureau where
  users := .empty
  entitlements := .empty
  reports := .empty
  audit := []
  content := content
  messages := messages
  txs := .empty
  issued := []

/-- A takedown here is the takedown of the content domain. -/
theorem Bureau.archive_content (w : Bureau) (C : Content.Checks) (e : EntityId) (rid : RevisionId)
    (newEntity : EntityId) (newRevision : RevisionId) :
    (w.archive e rid).content = w.content.apply C newEntity newRevision (.takedown e rid) := rfl

end AgentCraft.Access.Moderation
