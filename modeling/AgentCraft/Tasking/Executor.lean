import AgentCraft.Tasking.Dispatcher

/-!
# What executors, terminators and the account hook write

`task_executor.py`, as far as the tables are concerned. An executor writes under a lease: facts,
settlement, deadline failure and renewal carry `(round, instance, epoch)` in their `WHERE` clause. The
terminators (tool and MCP kill switch, suspension) and the reconciliation arbitrate on the status of
the task. The account hook reads the identifiers of the user's tasks, releases those, and then deletes
whatever tasks the user has.
-/

namespace AgentCraft.Tasking

open AgentCraft.Relational

/-- `_RoundContext`: the lease under which an executor writes. -/
structure RoundContext where
  round : RoundId
  task : TaskId
  owner : UserId
  inst : InstanceId
  epoch : ℕ
deriving DecidableEq, Repr

/-- The predicate of `_FENCE_ROUND_SQL`, `_RENEW_ROUND_SQL`, `_SETTLE_ROUND_SQL`,
`_DEADLINE_FAIL_ROUND_SQL` and `_ROUND_RECHECK_SQL`. -/
def RoundContext.fences (c : RoundContext) (r : TaskRound) : Bool :=
  r.id = c.round && r.leaseOwner = some c.inst && r.leaseEpoch = c.epoch && r.state = .running

theorem RoundContext.state_of_fences (c : RoundContext) {r : TaskRound} (h : c.fences r = true) :
    r.state = .running := by
  simp only [RoundContext.fences, Bool.and_eq_true, decide_eq_true_eq] at h
  exact h.2

/-- `_SCAN_CLAIMED_SQL`: the rounds of the task that this instance has claimed. -/
def scanClaimed (db : Db) (tid : TaskId) (iid : InstanceId) : List RoundContext :=
  match db.tasks.get? tid with
  | none => []
  | some t =>
    (t.rounds.filter fun r => r.leaseOwner = some iid && r.state = .running).map fun r =>
      ⟨r.id, tid, t.ownerId, iid, r.leaseEpoch⟩

/-- `_ROUND_RECHECK_SQL`. -/
def recheckRound (db : Db) (c : RoundContext) : Bool :=
  match db.visibleTask c.owner c.task with
  | none => false
  | some t => t.rounds.any c.fences

/-- `_assert_round_live`, a plain read: the round runs at the epoch of the token. -/
def assertRoundLive (db : Db) (c : RoundContext) : Bool :=
  match db.visibleTask c.owner c.task with
  | none => false
  | some t => t.rounds.any (·.runsAt c.round c.epoch)

/-! ## Fenced writes -/

/-- `_persist_fact`. -/
def persistFact (db : Db) (c : RoundContext) (author : MessageAuthor) (content : String) :
    Except Failure Db :=
  match db.visibleTask c.owner c.task with
  | none => .error .fencedOut
  | some t =>
    if t.rounds.countP c.fences = 0 then .error .fencedOut
    else .ok { db.setTask c.task (t.saveMessage db.nextId author content (some c.round)) with
      nextId := db.nextId + 1 }

/-- `_provider_revoked`: the provider no longer resolves, or has another key version. -/
def providerRevoked (db : Db) (t : Task) : Bool :=
  match resolveTaskProvider db t.ownerId (some t.providerId) with
  | .error _ => true
  | .ok resolved => resolved.keyVersion ≠ t.providerKeyVersion

/-- The round part of `_SETTLE_ROUND_SQL`. -/
def TaskRound.settle (r : TaskRound) : TaskRound := { r with state := .settled }

/-- The round part of `_RENEW_ROUND_SQL`. -/
def TaskRound.renew (expires : Time) (r : TaskRound) : TaskRound :=
  { r with leaseExpiresAt := some expires }

/-- The end of the round in `settle`: the task becomes `ready`, or `aborted` if its provider key was
revoked meanwhile. A task that is no longer running is left alone. -/
def Task.settleStatus (t : Task) (revoked : Bool) : Task :=
  if t.status ≠ .running then t
  else
    let status : TaskStatus := if revoked then .aborted else .ready
    let reason : Option AbortReason := if revoked then some .providerKeyRevoked else none
    ({ t with status := status, abortReason := reason } : Task).appendEvents
      [(.statusChanged status reason, none)]

/-- `settle`, the task part; `pending` is the assistant message whose own transaction had failed. -/
def Task.settle (t : Task) (c : RoundContext) (mid : MessageId) (pending : Option String)
    (finishReason usage : String) (revoked : Bool) : Except Failure Task :=
  match t.rounds.find? c.fences with
  | none => .error .fencedOut
  | some r =>
    let t := t.updateRounds c.fences (·.settle)
    let t := match pending with
      | none => t
      | some content => t.saveMessage mid .assistant content (some c.round)
    let t := t.appendEvents
      [(.roundSettled c.round r.attempt finishReason usage, some c.round)]
    .ok (t.settleStatus revoked)

/-- `settle`. -/
def settle (db : Db) (c : RoundContext) (pending : Option String) (finishReason usage : String) :
    Except Failure Db := do
  match db.visibleTask c.owner c.task with
  | none => .error .fencedOut
  | some t =>
    let t' ← t.settle c db.nextId pending finishReason usage (providerRevoked db t)
    return { (db.setTask c.task t').releaseTaskHoldings c.task c.owner with
      nextId := db.nextId + 1 }

/-- The round part of `_DEADLINE_FAIL_ROUND_SQL`. -/
def TaskRound.fail (r : TaskRound) : TaskRound :=
  { r with state := .failed, leaseOwner := none, leaseExpiresAt := none }

/-- The transaction of `_enforce_round_deadline`. If the task is no longer running, the failed round
is committed alone. -/
def failAtDeadline (db : Db) (c : RoundContext) : Except Failure Db :=
  match db.visibleTask c.owner c.task with
  | none => .error .fencedOut
  | some t =>
    match t.rounds.find? c.fences with
    | none => .error .fencedOut
    | some r =>
      let t' := t.updateRounds c.fences (·.fail)
      if t.status ≠ .running then .ok (db.setTask c.task t')
      else
        let t' : Task := { t' with
          status := .failed, abortReason := some .roundFailed, pendingTerminal := none }
        let t' := t'.appendEvents [(.statusChanged .failed (some .roundFailed), none),
          (.roundFailed c.round r.attempt, some c.round)]
        .ok ((db.setTask c.task t').releaseTaskHoldings c.task c.owner)

/-- `_RENEW_SLOT_SQL`. -/
def Db.renewSlots (db : Db) (tid : TaskId) (expires : Time) : Db :=
  { db with
    slots := db.slots.map fun _ s =>
      if s.taskId = some tid && s.state = .leased then { s with leasedUntil := some expires } else s }

/-- One beat of `_renew_loop`: the lease of the round and of its slot move on together. -/
def renewLease (cfg : Settings) (db : Db) (c : RoundContext) : Except Failure Db :=
  match db.visibleTask c.owner c.task with
  | none => .error .fencedOut
  | some t =>
    if t.rounds.countP c.fences = 0 then .error .fencedOut
    else
      let expires := db.now + cfg.leaseTtlSeconds
      .ok ((db.setTask c.task (t.updateRounds c.fences (·.renew expires))).renewSlots c.task expires)

/-! ## Reconciliation and terminators -/

/-- A row of `_PENDING_TERMINAL_CANDIDATES_SQL`. -/
structure ReconcileCandidate where
  task : TaskId
  owner : UserId
  terminal : PendingTerminal
deriving DecidableEq, Repr

/-- `_PENDING_TERMINAL_CANDIDATES_SQL`: running tasks with an intent and no active round. -/
def reconcileCandidates (db : Db) : List ReconcileCandidate :=
  db.tasks.rows.flatMap fun row =>
    if row.2.status = .running ∧ row.2.activeRounds = [] then
      row.2.pendingTerminal.toList.map fun pt => ⟨row.1, row.2.ownerId, pt⟩
    else []

/-- The task part of `reconcile_pending_terminal`; the rounds are not looked at again. -/
def Task.reconcile (t : Task) (terminal : PendingTerminal) : Except Failure Task :=
  if t.status = .running ∧ t.pendingTerminal = some terminal then
    let reason : Option AbortReason := if terminal = .aborted then some .userCancel else none
    .ok (({ t with
        status := terminal.status, abortReason := reason, pendingTerminal := none } :
      Task).appendEvents [(.statusChanged terminal.status reason, none)])
  else .error .candidateDropped

/-- One candidate of `reconcile_pending_terminal`. -/
def reconcile (db : Db) (c : ReconcileCandidate) : Except Failure Db := do
  match db.visibleTask c.owner c.task with
  | none => .error .candidateDropped
  | some t =>
    let t' ← t.reconcile c.terminal
    return (db.setTask c.task t').releaseTaskHoldings c.task c.owner

/-- `status IN ('queued','running')`. -/
def TaskStatus.isTerminable : TaskStatus → Bool
  | .queued | .running => true
  | _ => false

/-- `_TERMINATOR_CANDIDATES_SQL`: the tasks of the revisions that use the tool. -/
def toolTerminatorCandidates (db : Db) (tool : ToolKey) : List TaskCandidate :=
  scanTasks db fun t => t.status.isTerminable &&
    (db.catalog.revisions.get? t.expertRevisionId).any (tool ∈ ·.tools)

/-- `_MCP_TERMINATOR_CANDIDATES_SQL`: the tasks that mounted the server. -/
def mcpTerminatorCandidates (db : Db) (sid : ServerId) : List TaskCandidate :=
  scanTasks db fun t => t.status.isTerminable && t.mcpServers.any (·.serverId = sid)

/-- `_SUSPEND_TASK_CANDIDATES_SQL`: the tasks of the suspended user. -/
def suspendCandidates (db : Db) (u : UserId) : List TaskCandidate :=
  scanTasks db fun t => t.status.isTerminable && t.ownerId = u

/-- The task part of `_terminate_one` and `_suspend_one_task`, which differ in the reason: every active
round is cancelled with the task. -/
def Task.terminate (t : Task) (reason : AbortReason) : Except Failure Task :=
  if t.status.isTerminable then
    let cancelled := t.activeRounds.map (·.id)
    let t := t.updateRounds (·.state.isActive) (·.cancel)
    let t : Task := { t with
      status := .aborted, abortReason := some reason, pendingTerminal := none }
    .ok (t.appendEvents ((.statusChanged .aborted (some reason), none) ::
      cancelled.map fun rid => (.roundCancelled (some rid) (some reason), some rid)))
  else .error .candidateDropped

/-- `_terminate_one` and `_suspend_one_task`. -/
def terminate (db : Db) (c : TaskCandidate) (reason : AbortReason) : Except Failure Db := do
  match db.visibleTask c.owner c.task with
  | none => .error .candidateDropped
  | some t =>
    let t' ← t.terminate reason
    return (db.setTask c.task t').releaseTaskHoldings c.task c.owner

/-! ## Account deletion -/

/-- `_TERMINATE_USER_TASK_IDS_SQL`, a plain read. -/
def userTaskIds (db : Db) (u : UserId) : List TaskId :=
  (db.tasks.rows.filter fun row => row.2.ownerId = u).map Prod.fst

/-- `_TERMINATE_USER_ROUNDS_SQL` and `_TERMINATE_USER_TASK_FLIP_SQL` for one task. -/
def Task.markDeleted (t : Task) : Task :=
  let t := t.updateRounds (·.state.isActive) (·.cancel)
  if t.status = .deleted then t else { t with status := .deleted, pendingTerminal := none }

/-- The first two statements of the hook: they address every task of the user. -/
def Db.markUserTasks (db : Db) (u : UserId) : Db :=
  { db with tasks := db.tasks.map fun _ t => if t.ownerId = u then t.markDeleted else t }

/-- `_TERMINATE_USER_TASK_DELETE_SQL`: the rows go with their children, and slots that refer to them
lose the reference (`ON DELETE SET NULL`). -/
def Db.deleteUserTasks (db : Db) (u : UserId) : Db :=
  { db with
    tasks := db.tasks.filter fun _ t => t.ownerId ≠ u
    slots := db.slots.map fun _ s =>
      if s.taskId.any fun tid => (db.visibleTask u tid).isSome then { s with taskId := none } else s }

/-- `terminate_tasks_hook` after its scan: the tasks scanned are released one by one, then all tasks
of the user are deleted. Without a scanned task nothing happens. -/
def terminateTasksHook (db : Db) (u : UserId) (ids : List TaskId) : Db :=
  if ids = [] then db
  else
    (ids.foldl (fun db tid => db.releaseTaskHoldings tid u) (db.markUserTasks u)).deleteUserTasks u

end AgentCraft.Tasking
