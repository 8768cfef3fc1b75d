import AgentCraft.Python.Uuid
import AgentCraft.Relational.Table
import AgentCraft.Transition.Fallible
import AgentCraft.Transition.System

/-!
# Skills and experts

`author_service.py`, `review_service.py`, the takedown of `report_service.py` and the switch of
`tool_service.py`. Whoever writes an entity or its revisions takes the lock of the entity first and reads
after that; what he writes becomes visible when he commits. Everything that an operation reads elsewhere
(the skill revisions that an expert refers to, the tools, the references to a skill) it reads without a
lock, one statement after the other, while others commit. A statement that fails changes nothing here;
the operation is then rolled back. Idempotency, audit and the reports themselves are left out.
-/

namespace AgentCraft.Content

open AgentCraft.Python AgentCraft.Relational AgentCraft.Transition

abbrev UserId := String

/-- The number of a UUID; `uuid7` gives none twice. -/
abbrev EntityId := ℕ

abbrev RevisionId := ℕ

/-- `tool_id` and `version`. -/
abbrev Tool := String × String

abbrev TxId := ℕ

/-- The two domains. -/
inductive Kind
  | expert | skill
deriving DecidableEq, Repr

/-- `ENTITY_STATUSES`. -/
inductive EntityStatus
  | draft | published | archived
deriving DecidableEq, Repr

/-- `REVISION_STATUSES`. -/
inductive RevisionStatus
  | draft | pendingReview | approved | rejected | published | archived
deriving DecidableEq, Repr

/-- `SkillRefItem`. -/
structure SkillRef where
  skillId : String
  revisionId : String
deriving DecidableEq, Repr

/-- `content_json`: the skill references, and the texts of the other fields. -/
structure ContentJson where
  fields : List (String × List String)
  skillRefs : List SkillRef
deriving DecidableEq, Repr

/-- `experts` and `skills`. -/
structure Entity where
  kind : Kind
  owner : UserId
  published : Option RevisionId
  status : EntityStatus
deriving DecidableEq, Repr

/-- `expert_revisions` and `skill_revisions`, with the rows of `revision_tools`. Two fields are not in the
source: `frozen` is the hash at the time of the submission, and `superseded` tells that an approval has
put another revision in its place. -/
structure Revision where
  kind : Kind
  entity : EntityId
  owner : UserId
  no : ℕ
  content : ContentJson
  sha : String
  status : RevisionStatus
  tools : List Tool
  frozen : Option String
  superseded : Bool
deriving DecidableEq, Repr

/-- What the services take from elsewhere: `content_sha256`, the size of the canonical JSON, the summary of
the issues if `run_auto_check` finds the content not valid, and the Unicode database that `uuid.UUID`
uses. -/
structure Checks where
  contentSha256 : ContentJson → String
  contentSize : ContentJson → ℕ
  runAutoCheck : Kind → ContentJson → Option String
  unicode : UnicodeData

/-! ## Operations -/

/-- The operations on one entity. -/
inductive Call
  | createEntity (kind : Kind) (user : UserId) (content : ContentJson)
  | editEntity (kind : Kind) (user : UserId) (entity : EntityId) (content : ContentJson)
  | submitRevision (kind : Kind) (user : UserId) (entity : EntityId) (revision : RevisionId)
      (tools : List Tool)
  | offlineEntity (kind : Kind) (user : UserId) (entity : EntityId)
  | deleteEntity (kind : Kind) (user : UserId) (entity : EntityId)
  | approveRevision (kind : Kind) (revision : RevisionId)
  | rejectRevision (kind : Kind) (revision : RevisionId)
  /-- `resolve_report` with `takedown_revision`, for the revision that the report names. -/
  | takedown (kind : Kind) (revision : RevisionId)
deriving DecidableEq, Repr

/-- What a transaction writes. -/
inductive Write
  | create (kind : Kind) (owner : UserId) (content : ContentJson)
  | overwrite (entity : EntityId) (revision : RevisionId) (content : ContentJson)
  | newDraft (entity : EntityId) (kind : Kind) (owner : UserId) (no : ℕ) (content : ContentJson)
  | submit (entity : EntityId) (revision : RevisionId) (tools : List Tool)
  | offline (entity : EntityId)
  | unchanged (entity : EntityId)
  | delete (entity : EntityId)
  | approve (entity : EntityId) (revision : RevisionId) (previous : Option RevisionId)
  | reject (entity : EntityId) (revision : RevisionId)
  | takedown (entity : EntityId) (revision : RevisionId)
deriving DecidableEq, Repr

/-- The entity that the transaction has locked for it. -/
def Write.entity? : Write → Option EntityId
  | .create .. => none
  | .overwrite e .. | .newDraft e .. | .submit e .. | .offline e | .unchanged e | .delete e |
    .approve e .. | .reject e _ | .takedown e _ => some e

/-- An approval that has read its revision: the pointer that it has found, and the tools and references
that it has checked and those that are left. -/
structure Approval where
  entity : EntityId
  revision : RevisionId
  previous : Option RevisionId
  checkedTools : List Tool
  tools : List Tool
  checkedRefs : List SkillRef
  refs : List SkillRef
deriving DecidableEq, Repr

/-- How far a transaction has come. -/
inductive Stage
  /-- `_validate_skill_refs`: the references that have been validated and those that are left. -/
  | validating (done left : List SkillRef)
  /-- It waits for the lock of the entity. -/
  | locking (entity : EntityId)
  | checking (approval : Approval)
  /-- `delete_entity`, before it counts the references. -/
  | counting (entity : EntityId)
  /-- All but the commit is done. -/
  | ready (write : Write)
deriving DecidableEq, Repr

/-- The entity whose lock is held. -/
def Stage.holds : Stage → Option EntityId
  | .validating .. => none
  | .locking _ => none
  | .checking x => some x.entity
  | .counting e => some e
  | .ready write => write.entity?

/-- A transaction in progress. -/
structure Tx where
  call : Call
  stage : Stage
deriving DecidableEq, Repr

/-- An error response. -/
structure ContentProblem where
  status : ℕ
  code : String
  message : String
deriving DecidableEq, Repr

/-- Why a step does not happen. -/
inductive CatalogueFailure
  | problem (p : ContentProblem)
  | notEnabled
deriving DecidableEq, Repr

/-- The tables, and the transactions in progress. `issued` is not in the source: the numbers that entities
and revisions have had so far. -/
structure Catalogue where
  entities : Table EntityId Entity
  revisions : Table RevisionId Revision
  toolCatalog : Table Tool Bool
  /-- `user_entitlements`: who is an expert author. -/
  authors : List UserId
  /-- The expert revision of each task. -/
  tasks : List RevisionId
  txs : Table TxId Tx
  issued : List ℕ

/-! ## Problems -/

def validationError (message : String) : ContentProblem := ⟨400, "VALIDATION_ERROR", message⟩

def notFound (message : String) : ContentProblem := ⟨404, "NOT_FOUND", message⟩

/-- `REVIEW_PENDING`. -/
def reviewPending (message : String) : ContentProblem := ⟨409, "REVIEW_PENDING", message⟩

/-- `ENTITY_IN_USE`. -/
def entityInUse (message : String) : ContentProblem := ⟨409, "ENTITY_IN_USE", message⟩

/-- `REVISION_NOT_PUBLISHED`. -/
def revisionNotPublished (message : String) : ContentProblem := ⟨409, "REVISION_NOT_PUBLISHED", message⟩

/-- An exception that no handler maps. -/
def internalError : ContentProblem := ⟨500, "INTERNAL_ERROR", "服务器内部错误，请稍后重试"⟩

/-- `MAX_CONTENT_BYTES`. -/
def maxContentBytes : ℕ := 64 * 1024

/-- `_MAX_TOOLS`. -/
def maxTools : ℕ := 20

/-- `_HARNESS_TOOL_KEYS`. -/
def harnessToolKeys : List Tool := [("check_code_style", "1")]

namespace Catalogue

variable (w : Catalogue)

/-- A transaction holds the lock of the entity. -/
def locked (e : EntityId) : Bool := w.txs.rows.any fun x => x.2.stage.holds = some e

/-! ## Authors -/

/-- The row-level policies of the two revision tables: a user sees one's own revisions, and those that an
entity points to which is published or one's own. -/
def visibleRevision (kind : Kind) (user : UserId) (rid : RevisionId) : Option Revision :=
  (w.revisions.get? rid).filter fun r => r.kind = kind && (r.owner = user ||
    w.entities.rows.any fun x => x.2.kind = kind && x.2.published = some rid &&
      (x.2.status = .published || x.2.owner = user))

/-- `select(SkillRevision)` in the session of a user. -/
def visibleSkillRevision (user : UserId) (rid : RevisionId) : Option Revision :=
  w.visibleRevision .skill user rid

variable (C : Checks)

/-- `_reject_invalid_uuid`. -/
def rejectInvalidUuid (value field : String) : Except ContentProblem ℕ :=
  match parseUuid C.unicode value with
  | some n => .ok n
  | none => .error (validationError (field ++ " 不是合法 UUID"))

/-- One round of `_validate_skill_refs`. -/
def validateSkillRef (user : UserId) (ref : SkillRef) : Except ContentProblem Unit := do
  let skillId ← rejectInvalidUuid C ref.skillId "skill_refs[].skill_id"
  let revisionId ← rejectInvalidUuid C ref.revisionId "skill_refs[].revision_id"
  match w.visibleSkillRevision user revisionId with
  | none => .error (validationError "skill_refs 引用的 skill revision 不存在或与 skill_id 不匹配")
  | some r =>
    if r.entity ≠ skillId then
      .error (validationError "skill_refs 引用的 skill revision 不存在或与 skill_id 不匹配")
    else if r.owner ≠ user ∧ r.status ≠ .published then
      .error (validationError "skill_refs 仅可引用本人 skill revision 或他人已发布 revision")
    else .ok ()

/-- `_assert_expert_author`. -/
def assertExpertAuthor (user : UserId) : Except ContentProblem Unit :=
  if user ∈ w.authors then .ok () else .error ⟨403, "FORBIDDEN", "需要专家作者身份"⟩

/-- `skill_refs` in the schema of the request; that of a skill has no such field. -/
def schemaRefs (kind : Kind) (content : ContentJson) : Except ContentProblem Unit :=
  match kind with
  | .expert =>
    if content.skillRefs.length ≤ 20 ∧
        ∀ ref ∈ content.skillRefs, ref.skillId.length = 36 ∧ ref.revisionId.length = 36 then .ok ()
    else .error (validationError "请求参数校验失败")
  | .skill => if content.skillRefs = [] then .ok () else .error (validationError "请求参数校验失败")

/-- `assert_content_size`. -/
def assertContentSize (content : ContentJson) : Except ContentProblem Unit :=
  if maxContentBytes < C.contentSize content then
    .error (validationError ("内容规范化后 " ++ toString (C.contentSize content) ++ " 字节，超出上限 " ++
      toString maxContentBytes ++ " 字节"))
  else .ok ()

/-- The row of one's own entity, once it is locked. -/
def ownEntity (kind : Kind) (user : UserId) (e : EntityId) : Except ContentProblem Entity :=
  match w.entities.get? e with
  | none => .error (notFound "实体不存在")
  | some entity =>
    if entity.kind = kind ∧ entity.owner = user then .ok entity else .error (notFound "实体不存在")

/-- The revisions of an entity. -/
def revisionsOf (e : EntityId) : List (RevisionId × Revision) :=
  w.revisions.rows.filter (·.2.entity = e)

/-- `select(func.max(revision_no))`. -/
def latestNo (e : EntityId) : Option ℕ := ((w.revisionsOf e).map (·.2.no)).max?

/-- `edit_entity` with the lock: the latest revision is overwritten if it is a draft. -/
def editLocked (kind : Kind) (user : UserId) (e : EntityId) (content : ContentJson) :
    Except ContentProblem Stage := do
  let _ ← w.ownEntity kind user e
  match (w.revisionsOf e).find? fun r => w.latestNo e = some r.2.no with
  | some (rid, r) =>
    if r.status = .draft then .ok (.ready (.overwrite e rid content))
    else .ok (.ready (.newDraft e kind user (r.no + 1) content))
  | none => .ok (.ready (.newDraft e kind user 1 content))

/-- `_normalize_tools`. -/
def normalizeTools (tools : List Tool) (allow : Bool) : Except ContentProblem (List Tool) :=
  if allow = false ∧ tools ≠ [] then .error (validationError "skill revision 不携带工具")
  else if tools.any fun t => t.1 = "" || t.2 = "" then .error (validationError "tools 条目格式非法")
  else if maxTools < tools.eraseDups.length then .error (validationError "工具最多 20 项")
  else .ok tools.eraseDups

/-- `submit_revision` with the lock. -/
def submitLocked (kind : Kind) (user : UserId) (e : EntityId) (rid : RevisionId) (tools : List Tool) :
    Except ContentProblem Stage := do
  let _ ← w.ownEntity kind user e
  match w.revisions.get? rid with
  | none => .error (notFound "revision 不存在")
  | some r =>
    if r.entity ≠ e then .error (notFound "revision 不存在")
    else if r.status ≠ .draft then .error (reviewPending "仅 draft 状态可提交审核")
    else
      match C.runAutoCheck kind r.content, tools.find? fun t => (w.toolCatalog.get? t).isNone with
      | some summary, _ => .error (validationError ("自动检查未通过：" ++ summary))
      | none, some t => .error (validationError ("工具不在目录中：" ++ t.1 ++ "@" ++ t.2))
      | none, none => .ok (.ready (.submit e rid tools))

/-- `offline_entity` with the lock. -/
def offlineLocked (kind : Kind) (user : UserId) (e : EntityId) : Except ContentProblem Stage := do
  let entity ← w.ownEntity kind user e
  match entity.status with
  | .published => .ok (.ready (.offline e))
  | .draft => .ok (.ready (.unchanged e))
  | .archived => .error (revisionNotPublished "archived 实体不可下架")

/-- `delete_entity` with the lock. -/
def deleteLocked (kind : Kind) (user : UserId) (e : EntityId) : Except ContentProblem Stage := do
  let _ ← w.ownEntity kind user e
  .ok (.counting e)

/-- `content_json->'skill_refs' @> '[{"skill_id": …}]'`: the needle has the canonical spelling. -/
def refersTo (content : ContentJson) (e : EntityId) : Bool :=
  content.skillRefs.any (·.skillId = formatUuid e)

/-- `_count_references`. -/
def countReferences (kind : Kind) (e : EntityId) : ℕ :=
  match kind with
  | .expert => w.tasks.countP fun rid => (w.revisions.get? rid).any (·.entity = e)
  | .skill =>
    ((w.revisions.rows.filter fun r => r.2.kind = .expert && refersTo r.2.content e).map
      (·.2.entity)).dedup.length

/-! ## Reviewers -/

/-- `approve_revision` with the lock: the revision is read again. -/
def approveLocked (kind : Kind) (e : EntityId) (rid : RevisionId) : Except ContentProblem Stage :=
  match w.entities.get? e, w.revisions.get? rid with
  | some entity, some r =>
    if r.owner ≠ entity.owner then .error (reviewPending "revision 归属与实体所有者不一致")
    else if r.status ≠ .pendingReview then .error (reviewPending "revision 不处于待审核状态")
    else if C.contentSha256 r.content ≠ r.sha then
      .error (reviewPending "revision 内容与哈希不一致，审核绑定失效")
    else
      match kind with
      | .expert => .ok (.checking ⟨e, rid, entity.published, [], r.tools, [], r.content.skillRefs⟩)
      | .skill => .ok (.checking ⟨e, rid, entity.published, [], [], [], []⟩)
  | _, _ => .error internalError

/-- The next statement of an approval: one round of `_assert_tools_enabled` or of
`_assert_skill_refs_published`, then the conditional update of the pointer. -/
def approveCheck (x : Approval) : Except ContentProblem Stage :=
  match x.tools, x.refs with
  | t :: tools, _ =>
    if w.toolCatalog.get? t = some true then
      .ok (.checking { x with checkedTools := t :: x.checkedTools, tools := tools })
    else .error ⟨409, "TOOL_REVOKED", "工具版本未启用：" ++ t.1 ++ "@" ++ t.2⟩
  | [], ref :: refs =>
    match parseUuid C.unicode ref.revisionId with
    | none => .error internalError
    | some rid =>
      if (w.revisions.get? rid).any (fun r => r.kind = .skill && r.status = .published) then
        .ok (.checking { x with checkedRefs := ref :: x.checkedRefs, refs := refs })
      else .error (revisionNotPublished "引用的 skill revision 未发布")
  | [], [] =>
    if (w.entities.get? x.entity).any (·.published = x.previous) then
      .ok (.ready (.approve x.entity x.revision x.previous))
    else .error (reviewPending "发布指针已被并发操作改变，请重试")

/-- `reject_revision` with the lock. -/
def rejectLocked (e : EntityId) (rid : RevisionId) : Except ContentProblem Stage :=
  match w.entities.get? e, w.revisions.get? rid with
  | some entity, some r =>
    if r.owner ≠ entity.owner then .error (reviewPending "revision 归属与实体所有者不一致")
    else if r.status ≠ .pendingReview then .error (reviewPending "revision 不处于待审核状态")
    else if C.contentSha256 r.content ≠ r.sha then
      .error (reviewPending "revision 内容与哈希不一致，审核绑定失效")
    else .ok (.ready (.reject e rid))
  | _, _ => .error internalError

/-- The takedown with the lock: it is about the revision that is published now. -/
def takedownLocked (e : EntityId) : Except ContentProblem Stage :=
  match w.entities.get? e with
  | none => .error internalError
  | some entity =>
    match entity.published with
    | none => .error (revisionNotPublished "该内容当前没有公开版本")
    | some current => .ok (.ready (.takedown e current))

/-! ## Steps of a transaction -/

/-- The lock has been granted. -/
def lockedStage (e : EntityId) : Call → Except ContentProblem Stage
  | .createEntity .. => .error internalError
  | .editEntity kind user _ content => w.editLocked kind user e content
  | .submitRevision kind user _ rid tools => w.submitLocked C kind user e rid tools
  | .offlineEntity kind user _ => w.offlineLocked kind user e
  | .deleteEntity kind user _ => w.deleteLocked kind user e
  | .approveRevision kind rid => w.approveLocked C kind e rid
  | .rejectRevision _ rid => w.rejectLocked C e rid
  | .takedown .. => w.takedownLocked e

/-- The next statement that is not the one that takes the lock, nor the commit. -/
def nextStage (call : Call) : Stage → Except CatalogueFailure Stage
  | .validating done (ref :: left) =>
    match call with
    | .createEntity _ user _ | .editEntity _ user _ _ => do
      let _ ← (w.validateSkillRef C user ref).mapError .problem
      .ok (.validating (ref :: done) left)
    | _ => .error .notEnabled
  | .validating _ [] =>
    match call with
    | .createEntity kind user content => .ok (.ready (.create kind user content))
    | .editEntity _ _ e _ => .ok (.locking e)
    | _ => .error .notEnabled
  | .checking x => (w.approveCheck C x).mapError .problem
  | .counting e =>
    match call with
    | .deleteEntity kind _ _ =>
      let n := w.countReferences kind e
      if 0 < n then
        .error (.problem (entityInUse ("被 " ++ toString n ++
          (if kind = .expert then " 个任务引用" else " 个专家引用"))))
      else .ok (.ready (.delete e))
    | _ => .error .notEnabled
  | _ => .error .notEnabled

/-! ## Commits -/

/-- A new draft. -/
def draft (kind : Kind) (e : EntityId) (owner : UserId) (no : ℕ) (content : ContentJson) : Revision :=
  ⟨kind, e, owner, no, content, C.contentSha256 content, .draft, [], none, false⟩

/-- Rewrite a revision. -/
def setRevision (rid : RevisionId) (f : Revision → Revision) : Catalogue :=
  { w with revisions := w.revisions.map fun rid' r => if rid' = rid then f r else r }

/-- Rewrite an entity. -/
def setEntity (e : EntityId) (f : Entity → Entity) : Catalogue :=
  { w with entities := w.entities.map fun e' row => if e' = e then f row else row }

/-- What becomes visible when a transaction commits; `newEntity` and `newRevision` are the numbers that
`uuid7` has given to the rows that it inserts. -/
def apply (newEntity : EntityId) (newRevision : RevisionId) : Write → Catalogue
  | .create kind owner content =>
    { w with
      entities := w.entities.insert newEntity ⟨kind, owner, none, .draft⟩
      revisions := w.revisions.insert newRevision (draft C kind newEntity owner 1 content)
      issued := newRevision :: newEntity :: w.issued }
  | .overwrite _ rid content =>
    w.setRevision rid fun r => { r with content := content, sha := C.contentSha256 content }
  | .newDraft e kind owner no content =>
    { w with
      revisions := w.revisions.insert newRevision (draft C kind e owner no content)
      issued := newRevision :: w.issued }
  | .submit _ rid tools =>
    w.setRevision rid fun r => { r with status := .pendingReview, tools := tools, frozen := some r.sha }
  | .offline e => w.setEntity e fun row => { row with status := .draft }
  | .unchanged _ => w
  | .delete e =>
    { w with
      entities := w.entities.filter fun e' _ => e' ≠ e
      revisions := w.revisions.filter fun _ r => r.entity ≠ e }
  | .approve e rid previous =>
    { w.setEntity e fun row => { row with published := some rid, status := .published } with
      revisions := w.revisions.map fun rid' r =>
        if rid' = rid then { r with status := .published }
        else if previous = some rid' then { r with status := .archived, superseded := true }
        else r }
  | .reject _ rid => w.setRevision rid fun r => { r with status := .rejected }
  | .takedown e rid =>
    { w.setEntity e fun row => { row with published := none, status := .draft } with
      revisions := w.revisions.map fun rid' r => if rid' = rid then { r with status := .archived } else r }

/-- The foreign key of the tasks holds the deletion back. -/
def restricted : Write → Bool
  | .delete e => w.tasks.any fun rid => (w.revisions.get? rid).any (·.entity = e)
  | _ => false

/-- The transaction ends. -/
def close (id : TxId) : Catalogue := { w with txs := w.txs.filter fun id' _ => id' ≠ id }

/-- A transaction begins. -/
def start (id : TxId) (call : Call) (stage : Stage) : Catalogue :=
  { w with txs := w.txs.insert id ⟨call, stage⟩ }

/-- The entity of a revision, read without a lock. -/
def entityOf (kind : Kind) (rid : RevisionId) : Option EntityId :=
  ((w.revisions.get? rid).filter (·.kind = kind)).map (·.entity)

/-- An operation up to its first wait. -/
def begin (id : TxId) (call : Call) : Except ContentProblem Catalogue :=
  match call with
  | .createEntity kind user content | .editEntity kind user _ content => do
    schemaRefs kind content
    w.assertExpertAuthor user
    assertContentSize C content
    .ok (w.start id call (.validating [] content.skillRefs))
  | .submitRevision kind user e rid tools => do
    let tools ← normalizeTools tools (kind = .expert)
    match tools.find? harnessToolKeys.contains with
    | some t => .error (validationError ("平台工具不可进作者工具集：" ++ t.1 ++ "@" ++ t.2))
    | none => do
      w.assertExpertAuthor user
      .ok (w.start id (.submitRevision kind user e rid tools) (.locking e))
  | .offlineEntity _ user e | .deleteEntity _ user e => do
    w.assertExpertAuthor user
    .ok (w.start id call (.locking e))
  | .approveRevision kind rid | .rejectRevision kind rid =>
    match w.entityOf kind rid with
    | none => .error (notFound "revision 不存在")
    | some e => .ok (w.start id call (.locking e))
  | .takedown kind rid =>
    match w.entityOf kind rid with
    | none => .error (notFound "举报目标不存在")
    | some e => .ok (w.start id call (.locking e))

end Catalogue

/-! ## The system -/

/-- The labels of the system. -/
inductive CatalogueAction
  | begin (id : TxId) (call : Call)
  /-- The lock is granted. -/
  | lock (id : TxId)
  /-- The next statement of the transaction. -/
  | next (id : TxId)
  | commit (id : TxId) (newEntity : EntityId) (newRevision : RevisionId)
  | rollBack (id : TxId)
  /-- `set_tool_enabled`. -/
  | setToolEnabled (tool : Tool) (enabled : Bool)
  /-- `user_entitlements` changes. -/
  | setAuthors (authors : List UserId)
  /-- A task is created with an expert revision, or goes. -/
  | createTask (revision : RevisionId)
  | dropTask (revision : RevisionId)
deriving DecidableEq

variable (C : Checks)

/-- The step function. -/
def Catalogue.step (w : Catalogue) : CatalogueAction → Except CatalogueFailure Catalogue
  | .begin id call =>
    match w.txs.get? id with
    | some _ => .error .notEnabled
    | none => (w.begin C id call).mapError .problem
  | .lock id =>
    match w.txs.get? id with
    | some ⟨call, .locking e⟩ =>
      if w.locked e then .error .notEnabled
      else do
        let stage ← (w.lockedStage C e call).mapError .problem
        .ok { w with txs := w.txs.set id ⟨call, stage⟩ }
    | _ => .error .notEnabled
  | .next id =>
    match w.txs.get? id with
    | some tx => do
      let stage ← w.nextStage C tx.call tx.stage
      .ok { w with txs := w.txs.set id ⟨tx.call, stage⟩ }
    | none => .error .notEnabled
  | .commit id newEntity newRevision =>
    match w.txs.get? id with
    | some ⟨_, .ready write⟩ =>
      if newEntity ∈ w.issued ∨ newRevision ∈ w.issued ∨ newEntity = newRevision then .error .notEnabled
      else if w.restricted write then
        .error (.problem (entityInUse "实体正被任务引用，无法删除"))
      else .ok ((w.apply C newEntity newRevision write).close id)
    | _ => .error .notEnabled
  | .rollBack id => .ok (w.close id)
  | .setToolEnabled tool enabled =>
    match w.toolCatalog.get? tool with
    | none => .error (.problem (notFound "工具目录行不存在"))
    | some _ => .ok { w with toolCatalog := w.toolCatalog.set tool enabled }
  | .setAuthors authors => .ok { w with authors := authors }
  | .createTask rid =>
    match w.revisions.get? rid with
    | none => .error .notEnabled
    | some _ => .ok { w with tasks := rid :: w.tasks }
  | .dropTask rid => .ok { w with tasks := w.tasks.erase rid }

/-- Skills and experts under all operations on them. -/
def catalogue : System Catalogue CatalogueAction CatalogueFailure := ⟨Catalogue.step C⟩

/-- No content yet; any tools and authors. -/
structure Catalogue.Initial (w : Catalogue) : Prop where
  entities : w.entities = .empty
  revisions : w.revisions = .empty
  txs : w.txs = .empty

end AgentCraft.Content
