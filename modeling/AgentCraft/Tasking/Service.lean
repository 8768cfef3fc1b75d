import AgentCraft.Tasking.Providers
import AgentCraft.Transition.Fallible

/-!
# Creating, committing, ending and messaging tasks

`task_service.py`: the transactions that user requests run. Each is split into what it does to the task
row (`Task.…`) and what it does to the accounts; a failure rolls the whole transaction back.
-/

namespace AgentCraft.Tasking

open AgentCraft.Relational AgentCraft.Transition

/-- What a task transaction reports to its route. -/
inductive TaskReply
  /-- The current view of the task (200). -/
  | view
  /-- The view with `round: {state: cancelling}` (202). -/
  | cancelling
  | created (task : TaskId) (message : MessageId) (eventSequence : ℕ)
  | committed (manifestSha256 : String) (round : RoundId) (eventSequence : ℕ)
  | sent (message : MessageId) (messageSequence eventSequence : ℕ) (round : RoundId)
  | deleted (task : TaskId)
deriving DecidableEq, Repr

/-- `_lock_task`: the row of the owner, unless deleted. -/
def lockTask (db : Db) (owner : UserId) (tid : TaskId) : Except Failure Task :=
  match db.tasks.get? tid with
  | some t => if t.ownerId = owner ∧ t.status ≠ .deleted then .ok t else .error taskNotFound
  | none => .error taskNotFound

/-! ## Quota -/

/-- An update of `user_quota_usage` that must report a row. -/
def Db.chargeUsage (db : Db) (u : UserId) (p : UserQuotaUsage → Bool)
    (f : UserQuotaUsage → UserQuotaUsage) (e : Failure) : Except Failure Db :=
  if db.usageHit u p then .ok (db.updateUsage u p f) else .error e

/-- A comparison with a column of `user_quotas`; a missing row compares as false. -/
def Db.underQuota (db : Db) (u : UserId) (p : UserQuota → Bool) : Bool :=
  match db.quotas.get? u with
  | some q => p q
  | none => false

/-- `_ensure_quota_rows`. -/
def Db.ensureQuotaRows (db : Db) (u : UserId) : Db :=
  { db with quotas := db.quotas.insert u {}, usage := db.usage.insert u {} }

/-- `CURRENT_DATE`. -/
def Db.today (db : Db) : ℕ := db.now / 86400

/-- The `usage_daily` upsert of `_charge_creation_quota`. -/
def Db.chargeDaily (db : Db) (u : UserId) : Except Failure Db :=
  let exceeded := agentCraftError .quotaDailyExceeded "今日任务创建数已达上限" 429
  if !db.underQuota u (0 < ·.maxDailyTasks) then .error exceeded
  else
    match db.usageDaily.get? (u, db.today) with
    | none => .ok { db with usageDaily := db.usageDaily.insert (u, db.today) 1 }
    | some n =>
      if db.underQuota u (n < ·.maxDailyTasks) then
        .ok { db with usageDaily := db.usageDaily.set (u, db.today) (n + 1) }
      else .error exceeded

/-- `_charge_creation_quota`. -/
def Db.chargeCreationQuota (db : Db) (u : UserId) : Except Failure Db := do
  let db ← (db.ensureQuotaRows u).chargeDaily u
  db.chargeUsage u (fun row => db.underQuota u (row.activeTasks < ·.maxActiveTasks))
    (fun row => { row with activeTasks := row.activeTasks + 1 })
    (agentCraftError .quotaActiveExceeded "活跃任务数已达上限" 429)

/-- The two storage charges of `commit_input` and `register_output`: the user's account, then the
platform's, each under its maximum. -/
def Db.chargeStorage (db : Db) (u : UserId) (nbytes : ℕ) (userError platformError : Failure) :
    Except Failure Db := do
  let db ← db.chargeUsage u
    (fun row => db.underQuota u (row.retainedStorageBytes + nbytes ≤ ·.maxRetainedStorageBytes))
    (fun row => { row with retainedStorageBytes := row.retainedStorageBytes + nbytes }) userError
  if db.storage.retainedStorageBytes + nbytes ≤ db.storage.maxRetainedStorageBytes then
    .ok (db.addPlatformStorage (fun _ => true) nbytes)
  else .error platformError

/-- Charging moves counters only: the task rows and the clock stay, and no identifier is issued. -/
theorem Db.chargeUsage_frame {db charged : Db} {u : UserId} {p f} {e : Failure}
    (h : db.chargeUsage u p f e = .ok charged) :
    charged.tasks = db.tasks ∧ charged.now = db.now ∧ charged.nextId = db.nextId := by
  obtain ⟨-, h⟩ := ite_ok_else_error.mp h
  cases h
  exact ⟨rfl, rfl, rfl⟩

theorem Db.chargeCreationQuota_frame {db charged : Db} {u : UserId}
    (h : db.chargeCreationQuota u = .ok charged) :
    charged.tasks = db.tasks ∧ charged.now = db.now ∧ charged.nextId = db.nextId := by
  obtain ⟨daily, hdaily, h⟩ := bind_eq_ok.mp h
  have hd : daily.tasks = db.tasks ∧ daily.now = db.now ∧ daily.nextId = db.nextId := by
    unfold Db.chargeDaily at hdaily
    obtain ⟨-, hdaily⟩ := ite_error_eq_ok.mp hdaily
    split at hdaily
    · cases hdaily
      exact ⟨rfl, rfl, rfl⟩
    · obtain ⟨-, hdaily⟩ := ite_ok_else_error.mp hdaily
      cases hdaily
      exact ⟨rfl, rfl, rfl⟩
  obtain ⟨htasks, hnow, hid⟩ := Db.chargeUsage_frame h
  exact ⟨htasks.trans hd.1, hnow.trans hd.2.1, hid.trans hd.2.2⟩

theorem Db.chargeStorage_frame {db charged : Db} {u : UserId} {n : ℕ} {e e' : Failure}
    (h : db.chargeStorage u n e e' = .ok charged) :
    charged.tasks = db.tasks ∧ charged.now = db.now ∧ charged.nextId = db.nextId := by
  obtain ⟨user, huser, h⟩ := bind_eq_ok.mp h
  obtain ⟨-, h⟩ := ite_ok_else_error.mp h
  cases h
  simpa using Db.chargeUsage_frame huser

/-! ## Input checks -/

/-- The characters that `str.strip` removes. -/
def isPyWhitespace (c : Char) : Bool :=
  c.val ∈ [0x9, 0xA, 0xB, 0xC, 0xD, 0x1C, 0x1D, 0x1E, 0x1F, 0x20, 0x85, 0xA0, 0x1680, 0x2028, 0x2029,
    0x202F, 0x205F, 0x3000] || (0x2000 ≤ c.val && c.val ≤ 0x200A)

/-- `_validate_initial_message`: not blank, and within the prompt budget in UTF-8 bytes. -/
def validateInitialMessage (cfg : Settings) (message : String) : Except Failure Unit :=
  if message.toList.all isPyWhitespace then .error (validationError "initial_message 不能为空白")
  else if cfg.skillPromptMaxBytes < message.utf8ByteSize then
    .error (validationError
      ("initial_message 超出提示词预算（" ++ toString cfg.skillPromptMaxBytes ++ " 字节）"))
  else .ok ()

/-- `assert_tool_enabled`. -/
def assertToolEnabled (db : Db) (tool : ToolKey) (httpStatus : ℕ) : Except Failure Unit :=
  if db.catalog.toolEnabled.get? tool = some true then .ok ()
  else .error (agentCraftError .toolRevoked "工具已停用或不存在" httpStatus)

/-- `MAX_MCP_REFS_PER_TASK`. -/
def maxMcpRefsPerTask : ℕ := 3

/-- One entry of the frozen snapshot: the server must be the owner's and enabled. -/
def snapshotRef (db : Db) (owner : UserId) (sid : ServerId) : Except Failure McpDescriptor :=
  match db.catalog.mcpServers.get? sid with
  | none => .error providerNotFound
  | some row =>
    if row.ownerId ≠ owner then .error providerNotFound
    else if !row.enabled then .error (validationError "不能挂载已停用的 MCP server")
    else .ok ⟨sid, row.name, row.transportKind⟩

/-- `snapshot_refs_for_task`: at most three references, deduplicated in order. -/
def snapshotRefsForTask (db : Db) (owner : UserId) (refs : List ServerId) :
    Except Failure (List McpDescriptor) :=
  if maxMcpRefsPerTask < refs.length then
    .error (validationError
      ("mcp_refs 最多挂载 " ++ toString maxMcpRefsPerTask ++ " 个 MCP server"))
  else (refs.reverse.dedup.reverse).mapM (snapshotRef db owner)

/-! ## Creation and input freeze -/

/-- The row that `create_task` inserts, with its first message and its active reservation. -/
def Task.create (owner : UserId) (revision : RevisionId) (provider : ResolvedProvider)
    (mcpServers : List McpDescriptor) (now : Time) (mid : MessageId) (message : String) : Task :=
  let t : Task :=
    { ownerId := owner, expertRevisionId := revision, providerId := provider.providerId
      providerModelId := provider.modelId, providerKeyVersion := provider.keyVersion
      mcpServers := mcpServers, initialMessageId := some mid, status := .uploading
      inputManifestSha256 := none, inputCommittedAt := none, eventSequence := 0
      abortReason := none, pendingTerminal := none, createdAt := now
      files := [], reservations := [⟨owner, .active, none, 0, .held⟩], messages := []
      rounds := [], events := [] }
  t.saveMessage mid .user message

/-- The revision of a new task must be published. -/
def publishedRevision (db : Db) (revision : RevisionId) : Except Failure ExpertRevision :=
  match (db.catalog.revisions.get? revision).filter (·.published) with
  | some rev => .ok rev
  | none => .error (agentCraftError .revisionNotPublished "专家修订版本不存在或未发布" 400)

/-- `create_task`, with the provider resolved by the route. -/
def createTask (cfg : Settings) (db : Db) (owner : UserId) (revision : RevisionId)
    (provider : Option ProviderId) (message : String) (mcpRefs : List ServerId) :
    Except Failure (Db × TaskReply) := do
  let resolved ← resolveTaskProvider db owner provider
  validateInitialMessage cfg message
  let rev ← publishedRevision db revision
  let mcpServers ← snapshotRefsForTask db owner mcpRefs
  let charged ← db.chargeCreationQuota owner
  rev.tools.forM fun tool => assertToolEnabled db tool 409
  let tid := db.nextId
  let mid := db.nextId + 1
  match charged.tasks.get? tid with
  | some _ => .error (.integrity "pk_tasks")
  | none =>
    let t := Task.create owner revision resolved mcpServers db.now mid message
    .ok ({ charged with tasks := charged.tasks.insert tid t, nextId := db.nextId + 2 },
      .created tid mid 1)

/-- `Σ size_bytes` of the committed input files. -/
def Task.committedInputBytes (t : Task) : ℕ :=
  ((t.files.filter fun f => f.direction = .input && f.state = .committed).map (·.sizeBytes)).sum

/-- The staged files become the committed input. -/
def Task.commitFiles (t : Task) : Task :=
  { t with files := updateWhere (·.state = .staged) (fun f => { f with state := .committed }) t.files }

/-- The task part of `commit_input`: files, manifest, `task_root` reservation, first round, status and
events. -/
def Task.commitInput (t : Task) (manifestSha256 : String) (now : Time) (rid : RoundId) :
    Except Failure Task := do
  let t := { t.commitFiles with
    inputManifestSha256 := some manifestSha256, inputCommittedAt := some now }
  let t ← t.insertReservation ⟨t.ownerId, .taskRoot, none, t.committedInputBytes, .held⟩
  match t.initialMessageId with
  | none => .error (transitionConflict "任务缺少初始消息")
  | some mid =>
    let t ← t.insertRound ⟨rid, mid, .pending, none, 0, none, 0⟩
    assertTransition .uploading .queued
    if t.status = .uploading then
      .ok (({ t with status := .queued } : Task).appendEvents
        [(.statusChanged .queued none, none), (.roundQueued rid none, some rid)])
    else .error (transitionConflict "任务状态已变化")

/-- `_input_committed`. -/
def inputCommitted : Failure := agentCraftError .inputCommitted "任务输入已冻结" 409

/-- The gate of `commit_input` and of `_lock_uploading_task`: the task is still open for input. -/
def Task.assertUploading (t : Task) : Except Failure Unit :=
  if t.status = .uploading then .ok ()
  else if t.inputCommittedAt.isSome || t.status ∈ [TaskStatus.queued, .running, .ready] then
    .error inputCommitted
  else assertTransition t.status .queued

/-- `commit_input`. -/
def commitInput (db : Db) (owner : UserId) (tid : TaskId) (manifestSha256 : String) :
    Except Failure (Db × TaskReply) := do
  let t ← lockTask db owner tid
  t.assertUploading
  let t' ← t.commitInput manifestSha256 db.now db.nextId
  let charged ← db.chargeStorage owner t.commitFiles.committedInputBytes
    (agentCraftError .quotaStorageExceeded "用户保留存储配额不足" 429)
    (agentCraftError .quotaStorageExceeded "平台保留存储配额不足" 429)
  return ({ charged.setTask tid t' with nextId := db.nextId + 1 },
    .committed manifestSha256 db.nextId (t.eventSequence + 2))

/-! ## Terminal requests -/

/-- `_request_terminal_while_running`: the active round starts cancelling and the intent is noted; with
no active round nothing is written. -/
def Task.requestTerminalWhileRunning (t : Task) (terminal : PendingTerminal) : Task × TaskReply :=
  if t.rounds.countP (·.state.isActive) = 0 then (t, .view)
  else
    ({ t.updateRounds (·.state.isActive) (fun r => { r with state := .cancelling }) with
        pendingTerminal := some terminal }, .cancelling)

/-- `_terminalize_queued`: the pending round is cancelled with the task. -/
def Task.terminalizeQueued (t : Task) (terminal : TaskStatus) (reason : Option AbortReason) :
    Except Failure Task := do
  let cancelled := t.rounds.countP (·.state = .pending)
  let t' := t.updateRounds (·.state = .pending) fun r => { r with state := .cancelled }
  assertTransition .queued terminal
  return ({ t' with status := terminal, abortReason := reason } : Task).appendEvents
    ((.statusChanged terminal reason, none) ::
      if cancelled = 0 then [] else [(.roundCancelled none reason, none)])

/-- `_finalize_terminal`. -/
def Task.finalizeTerminal (t : Task) (terminal : TaskStatus) (reason : Option AbortReason) :
    Except Failure Task := do
  assertTransition t.status terminal
  return ({ t with status := terminal, abortReason := reason } : Task).appendEvents
    [(.statusChanged terminal reason, none)]

/-- The shape that `abort_task` and `complete_task` share. -/
def endTask (db : Db) (owner : UserId) (tid : TaskId) (terminal : PendingTerminal)
    (reason : Option AbortReason) : Except Failure (Db × TaskReply) := do
  let t ← lockTask db owner tid
  match t.status with
  | .running =>
    return (db.setTask tid (t.requestTerminalWhileRunning terminal).1,
      (t.requestTerminalWhileRunning terminal).2)
  | .queued =>
    let t' ← t.terminalizeQueued terminal.status reason
    return ((db.setTask tid t').releaseTaskHoldings tid owner, .view)
  | _ =>
    let t' ← t.finalizeTerminal terminal.status reason
    return ((db.setTask tid t').releaseTaskHoldings tid owner, .view)

/-- `abort_task`. -/
def abortTask (db : Db) (owner : UserId) (tid : TaskId) : Except Failure (Db × TaskReply) :=
  endTask db owner tid .aborted (some .userCancel)

/-- `complete_task`. -/
def completeTask (db : Db) (owner : UserId) (tid : TaskId) : Except Failure (Db × TaskReply) :=
  endTask db owner tid .completed none

/-- The rounds of a task that is being deleted: a running task's round starts cancelling, a queued
task's round is cancelled. -/
def Task.deleteRounds (t : Task) : Task :=
  match t.status with
  | .running =>
    { t.updateRounds (·.state.isActive) (fun r => { r with state := .cancelling }) with
      pendingTerminal := some .deleted }
  | .queued => t.updateRounds (·.state = .pending) fun r => { r with state := .cancelled }
  | _ => t

/-- The task part of `delete_task`. -/
def Task.delete (t : Task) : Except Failure Task := do
  assertTransition t.status .deleted
  let roundCancelled := t.status = .queued ∧ t.rounds.countP (·.state = .pending) ≠ 0
  return ({ t.deleteRounds with status := .deleted } : Task).appendEvents
    ((.statusChanged .deleted none, none) ::
      if roundCancelled then [(.roundCancelled none none, none)] else [])

/-- `delete_task`. -/
def deleteTask (db : Db) (owner : UserId) (tid : TaskId) : Except Failure (Db × TaskReply) := do
  let t ← lockTask db owner tid
  let t' ← t.delete
  return ((db.setTask tid t').releaseTaskHoldings tid owner, .deleted tid)

/-! ## Messages -/

/-- `_round_busy`. -/
def roundBusy : Failure :=
  .agentCraft .taskRoundBusy "当前一轮回复仍在进行，请稍后再发送" 429 (some "5")

/-- The task part of `send_message`; a violation of `one_active_round_per_task` becomes the same
answer as the pre-check. -/
def Task.sendMessage (t : Task) (mid : MessageId) (rid : RoundId) (content : String) :
    Except Failure Task := do
  let t := t.saveMessage mid .user content
  assertTransition .ready .queued
  let (t, seq) := ({ t with status := .queued } : Task).allocateEventSequence 2
  let t := t.addEvent seq (.statusChanged .queued none)
  let t ← (t.insertRound ⟨rid, mid, .pending, none, 0, none, 0⟩).mapError fun _ => roundBusy
  return t.addEvent (seq + 1) (.roundQueued rid none) none (some rid)

/-- The gates of `send_message`: no round is in progress, and the task is ready. -/
def Task.assertReady (t : Task) : Except Failure Unit :=
  if t.activeRounds ≠ [] then .error roundBusy
  else if t.status ≠ .ready then .error (transitionConflict "任务当前状态不可发送消息")
  else .ok ()

/-- `send_message`. -/
def sendMessage (cfg : Settings) (db : Db) (owner : UserId) (tid : TaskId) (content : String) :
    Except Failure (Db × TaskReply) := do
  let t ← lockTask db owner tid
  t.assertReady
  validateInitialMessage cfg content
  let mid := db.nextId
  let rid := db.nextId + 1
  let t' ← t.sendMessage mid rid content
  return ({ db.setTask tid t' with nextId := db.nextId + 2 },
    .sent mid (t.eventSequence + 1) (t.eventSequence + 3) rid)

end AgentCraft.Tasking
