import AgentCraft.Relational.Rows
import AgentCraft.Relational.Table
import AgentCraft.Tasking.State

/-!
# The task tables

The rows that the task domain reads and writes. The child tables of `tasks` (files, reservations,
messages, rounds, events) hang off their task with `ON DELETE CASCADE` and never change it, so a task
row carries them; their redundant `owner_id` columns are the owner of the task. Row-level security
becomes a comparison with that owner. The content, tool and MCP catalogues appear with the columns that
`create_task` consults.
-/

namespace AgentCraft.Tasking

open AgentCraft.Relational

/-- A `uuid7` identifier. `Db.nextId` hands them out in order, so none is issued twice. -/
abbrev Uuid := ℕ

abbrev UserId := Uuid
abbrev TaskId := Uuid
abbrev RoundId := Uuid
abbrev MessageId := Uuid
abbrev FileId := Uuid
abbrev ProviderId := Uuid
abbrev RevisionId := Uuid
abbrev ServerId := Uuid

/-- Seconds of the database clock. -/
abbrev Time := ℕ

/-- `_instance_id`: the process that holds a lease. -/
abbrev InstanceId := ℕ

/-- A tool of the catalogue: `(tool_id, version)`. -/
abbrev ToolKey := String × String

/-! ## Children of a task -/

/-- `task_files`. -/
structure TaskFile where
  id : FileId
  direction : FileDirection
  fileName : String
  sha256 : String
  sizeBytes : ℕ
  state : FileState
  producedInRoundId : Option RoundId
deriving DecidableEq, Repr

/-- `task_reservations`. -/
structure TaskReservation where
  userId : UserId
  kind : ReservationKind
  fileId : Option FileId
  bytes : ℕ
  state : ReservationState
deriving DecidableEq, Repr

/-- `task_messages`. -/
structure TaskMessage where
  id : MessageId
  eventSequence : ℕ
  author : MessageAuthor
  content : String
deriving DecidableEq, Repr

/-- `task_rounds`, in the order of `created_at`. -/
structure TaskRound where
  id : RoundId
  sourceMessageId : MessageId
  state : RoundState
  leaseOwner : Option InstanceId
  leaseEpoch : ℕ
  leaseExpiresAt : Option Time
  attempt : ℕ
deriving DecidableEq, Repr

/-- `type` and `payload_json` of an event. -/
inductive EventBody
  | messageSaved (messageId : MessageId) (eventSequence : ℕ) (author : MessageAuthor)
  | roundQueued (roundId : RoundId) (attempt : Option ℕ)
  | roundRunning (roundId : RoundId) (attempt : ℕ)
  | roundSettled (roundId : RoundId) (attempt : ℕ) (finishReason usage : String)
  | roundFailed (roundId : RoundId) (attempt : ℕ)
  | roundCancelled (roundId : Option RoundId) (reason : Option AbortReason)
  | statusChanged (status : TaskStatus) (reason : Option AbortReason)
deriving DecidableEq, Repr

/-- `type = 'message_saved'`. -/
def EventBody.isMessageSaved : EventBody → Bool
  | .messageSaved .. => true
  | _ => false

/-- `task_events`. -/
structure TaskEvent where
  sequence : ℕ
  body : EventBody
  messageId : Option MessageId
  roundId : Option RoundId
deriving DecidableEq, Repr

/-- An entry of `tasks.mcp_servers`, frozen when the task is created. -/
structure McpDescriptor where
  serverId : ServerId
  name : String
  transportKind : String
deriving DecidableEq, Repr

/-- `tasks` with its child tables. -/
structure Task where
  ownerId : UserId
  expertRevisionId : RevisionId
  providerId : ProviderId
  providerModelId : String
  providerKeyVersion : ℕ
  mcpServers : List McpDescriptor
  initialMessageId : Option MessageId
  status : TaskStatus
  inputManifestSha256 : Option String
  inputCommittedAt : Option Time
  eventSequence : ℕ
  abortReason : Option AbortReason
  pendingTerminal : Option PendingTerminal
  createdAt : Time
  files : List TaskFile
  reservations : List TaskReservation
  messages : List TaskMessage
  rounds : List TaskRound
  events : List TaskEvent
deriving DecidableEq, Repr

/-! ## Quotas, slots, providers, catalogues -/

/-- `user_quotas`; the defaults are the column defaults. -/
structure UserQuota where
  maxDailyTasks : ℤ := 5
  maxActiveTasks : ℤ := 3
  maxRunningTasks : ℤ := 1
  maxRetainedStorageBytes : ℤ := 1073741824
deriving DecidableEq, Repr

/-- `user_quota_usage`. -/
structure UserQuotaUsage where
  activeTasks : ℤ := 0
  runningTasks : ℤ := 0
  retainedStorageBytes : ℤ := 0
deriving DecidableEq, Repr

/-- `SLOT_STATES`. -/
inductive SlotState
  | free | leased
deriving DecidableEq, Repr

/-- `platform_slots`, keyed by `slot_no`. -/
structure PlatformSlot where
  taskId : Option TaskId
  state : SlotState
  leasedUntil : Option Time
deriving DecidableEq, Repr

/-- The single row of `platform_storage`. -/
structure PlatformStorage where
  retainedStorageBytes : ℤ
  maxRetainedStorageBytes : ℤ
deriving DecidableEq, Repr

/-- `PROVIDER_STATUSES`. -/
inductive ProviderStatus
  | active | revoked
deriving DecidableEq, Repr

/-- `user_providers`: the columns that tasks depend on. -/
structure UserProvider where
  userId : UserId
  modelId : String
  keyVersion : ℕ
  status : ProviderStatus
  isDefault : Bool
deriving DecidableEq, Repr

/-- `expert_revisions` with its `revision_tools`. -/
structure ExpertRevision where
  published : Bool
  tools : List ToolKey
deriving DecidableEq, Repr

/-- `user_mcp_servers`: the columns that `snapshot_refs_for_task` reads. -/
structure UserMcpServer where
  ownerId : UserId
  name : String
  transportKind : String
  enabled : Bool
deriving DecidableEq, Repr

/-- The catalogues that a new task is checked against. -/
structure Catalog where
  revisions : Table RevisionId ExpertRevision
  toolEnabled : Table ToolKey Bool
  mcpServers : Table ServerId UserMcpServer

/-- `V2TaskSettings`, and `SKILL_PROMPT_MAX_BYTES`. -/
structure Settings where
  leaseTtlSeconds : ℕ := 90
  leaseRenewSeconds : ℕ := 30
  roundDeadlineSeconds : ℕ := 1200
  uploadTtlHours : ℕ := 24
  terminalRetentionDays : ℕ := 7
  dispatchBatch : ℕ := 16
  skillPromptMaxBytes : ℕ := 65536

/-- The database: everything that a transaction of the task domain sees. -/
structure Db where
  tasks : Table TaskId Task
  usage : Table UserId UserQuotaUsage
  quotas : Table UserId UserQuota
  usageDaily : Table (UserId × ℕ) ℤ
  slots : Table ℕ PlatformSlot
  storage : PlatformStorage
  providers : Table ProviderId UserProvider
  catalog : Catalog
  now : Time
  nextId : Uuid

/-- No task has been created and every counter is zero; quotas, providers, catalogues and the number
of slots are arbitrary. -/
structure Db.Initial (db : Db) : Prop where
  tasks : db.tasks = Table.empty
  usage : ∀ u row, db.usage.get? u = some row → row = {}
  slots : ∀ n s, db.slots.get? n = some s → s.state = .free ∧ s.taskId = none
  storage : db.storage.retainedStorageBytes = 0

/-! ## Task-local statements -/

namespace Task

/-- The active rounds, at most one by `one_active_round_per_task`. -/
def activeRounds (t : Task) : List TaskRound := t.rounds.filter (·.state.isActive)

/-- `UPDATE task_rounds SET f WHERE task_id = … AND p`. -/
def updateRounds (t : Task) (p : TaskRound → Bool) (f : TaskRound → TaskRound) : Task :=
  { t with rounds := updateWhere p f t.rounds }

/-- `INSERT INTO task_rounds`, under the partial unique index `one_active_round_per_task`. -/
def insertRound (t : Task) (r : TaskRound) : Except Failure Task :=
  if r.state.isActive && !t.activeRounds.isEmpty then .error (.integrity "one_active_round_per_task")
  else .ok { t with rounds := t.rounds ++ [r] }

/-- The live reservations of one kind. -/
def liveReservations (t : Task) (kind : ReservationKind) (fileId : Option FileId) :
    List TaskReservation :=
  t.reservations.filter fun r => r.kind = kind && r.fileId = fileId && r.state.isLive

/-- `INSERT INTO task_reservations`, under the partial unique indexes `one_live_*_reservation`. -/
def insertReservation (t : Task) (r : TaskReservation) : Except Failure Task :=
  if r.state.isLive && !(t.liveReservations r.kind r.fileId).isEmpty then
    .error (.integrity "one_live_reservation")
  else .ok { t with reservations := t.reservations ++ [r] }

theorem eq_of_insertRound {t t' : Task} {r : TaskRound} (h : t.insertRound r = .ok t') :
    (r.state.isActive = true → t.activeRounds = []) ∧ t' = { t with rounds := t.rounds ++ [r] } := by
  unfold insertRound at h
  split at h
  · cases h
  · next hno =>
    cases h
    refine ⟨fun ha => ?_, rfl⟩
    simpa [ha] using hno

theorem eq_of_insertReservation {t t' : Task} {r : TaskReservation}
    (h : t.insertReservation r = .ok t') :
    t' = { t with reservations := t.reservations ++ [r] } := by
  unfold insertReservation at h
  split at h
  · cases h
  · cases h
    rfl

/-- `_allocate_event_sequence`: advance the counter, return the first number of the batch. -/
def allocateEventSequence (t : Task) (count : ℕ) : Task × ℕ :=
  ({ t with eventSequence := t.eventSequence + count }, t.eventSequence + 1)

/-- `_add_event`. -/
def addEvent (t : Task) (sequence : ℕ) (body : EventBody) (messageId : Option MessageId := none)
    (roundId : Option RoundId := none) : Task :=
  { t with events := t.events ++ [⟨sequence, body, messageId, roundId⟩] }

/-- The message row and its `message_saved` event, under one freshly allocated number. -/
def saveMessage (t : Task) (mid : MessageId) (author : MessageAuthor) (content : String)
    (roundId : Option RoundId := none) : Task :=
  let seq := (t.allocateEventSequence 1).2
  let saved : Task :=
    { (t.allocateEventSequence 1).1 with messages := t.messages ++ [⟨mid, seq, author, content⟩] }
  saved.addEvent seq (.messageSaved mid seq author) (some mid) roundId

end Task

/-- The row of a task as a session of `owner` sees it (row-level security). -/
def Db.visibleTask (db : Db) (owner : UserId) (tid : TaskId) : Option Task :=
  (db.tasks.get? tid).filter (·.ownerId = owner)

theorem Db.visibleTask_eq_some {db : Db} {owner : UserId} {tid : TaskId} {t : Task} :
    db.visibleTask owner tid = some t ↔ db.tasks.get? tid = some t ∧ t.ownerId = owner := by
  simp [Db.visibleTask, Option.filter_eq_some_iff]

/-- Write a task row back. -/
def Db.setTask (db : Db) (tid : TaskId) (t : Task) : Db := { db with tasks := db.tasks.set tid t }

@[simp] theorem Db.setTask_tasks (db : Db) (tid : TaskId) (t : Task) :
    (db.setTask tid t).tasks = db.tasks.set tid t := rfl
@[simp] theorem Db.setTask_usage (db : Db) (tid : TaskId) (t : Task) :
    (db.setTask tid t).usage = db.usage := rfl
@[simp] theorem Db.setTask_slots (db : Db) (tid : TaskId) (t : Task) :
    (db.setTask tid t).slots = db.slots := rfl
@[simp] theorem Db.setTask_storage (db : Db) (tid : TaskId) (t : Task) :
    (db.setTask tid t).storage = db.storage := rfl
@[simp] theorem Db.setTask_now (db : Db) (tid : TaskId) (t : Task) :
    (db.setTask tid t).now = db.now := rfl
@[simp] theorem Db.setTask_nextId (db : Db) (tid : TaskId) (t : Task) :
    (db.setTask tid t).nextId = db.nextId := rfl

end AgentCraft.Tasking
