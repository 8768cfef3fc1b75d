import AgentCraft.Tasking.Release

/-!
# Providers and the tasks that depend on them

`provider_service.py`: resolving the provider of a task, and what revoking a provider or rotating its
key does to the tasks that have not started. The module has its own `_release_task_holdings`, which
releases every held reservation but gives back the active count only.
-/

namespace AgentCraft.Tasking

open AgentCraft.Relational

namespace Task

/-- `_add_event` for consecutive numbers. -/
def addEvents (t : Task) (sequence : ℕ) : List (EventBody × Option RoundId) → Task
  | [] => t
  | e :: es => (t.addEvent sequence e.1 none e.2).addEvents (sequence + 1) es

/-- Allocate a batch of numbers and append one event for each. -/
def appendEvents (t : Task) (es : List (EventBody × Option RoundId)) : Task :=
  (t.allocateEventSequence es.length).1.addEvents (t.allocateEventSequence es.length).2 es

end Task

/-- `ResolvedProvider`. -/
structure ResolvedProvider where
  providerId : ProviderId
  modelId : String
  keyVersion : ℕ
deriving DecidableEq, Repr

/-- `_provider_not_found`. -/
def providerNotFound : Failure := .http 404 "NOT_FOUND" "资源不存在"

/-- `get_provider_row`: the active row of the owner. -/
def getProviderRow (db : Db) (owner : UserId) (pid : ProviderId) : Except Failure UserProvider :=
  match db.providers.get? pid with
  | some row => if row.userId = owner ∧ row.status = .active then .ok row else .error providerNotFound
  | none => .error providerNotFound

/-- `_resolve_default_row`: the owner's active default. -/
def resolveDefaultRow (db : Db) (owner : UserId) : Option (ProviderId × UserProvider) :=
  db.providers.rows.find? fun r => r.2.userId = owner && r.2.isDefault && r.2.status = .active

/-- `resolve_task_provider`. -/
def resolveTaskProvider (db : Db) (owner : UserId) :
    Option ProviderId → Except Failure ResolvedProvider
  | some pid => do
    let row ← getProviderRow db owner pid
    return ⟨pid, row.modelId, row.keyVersion⟩
  | none =>
    match resolveDefaultRow db owner with
    | some r => .ok ⟨r.1, r.2.modelId, r.2.keyVersion⟩
    | none => .error (.http 400 "PROVIDER_NOT_CONFIGURED" "未配置有效 Provider")

/-! ## Failing unstarted tasks -/

/-- The task part of one round of the `fail_unstarted_tasks` loop: every held reservation released,
a pending round cancelled, the task failed with one or two events. -/
def Task.failUnstarted (t : Task) (reason : AbortReason) : Task :=
  let cancelled := t.rounds.countP (·.state = .pending)
  let t := (t.releaseReservations none).1
  let t := t.updateRounds (·.state = .pending) fun r => { r with state := .cancelled }
  let t := { t with status := .failed, abortReason := some reason }
  t.appendEvents ((.statusChanged .failed (some reason), none) ::
    if cancelled = 0 then [] else [(.roundCancelled none (some reason), none)])

/-- `_release_task_holdings` of the provider service, the counter part: `active_tasks` down by the
active rows released, with no lower bound. The storage accounts and the slots are not touched. -/
def Db.releaseUnstartedAccounting (db : Db) (u : UserId) (released : Released) : Db :=
  if released.count .active = 0 then db
  else db.updateUsage u (fun _ => true)
    fun row => { row with activeTasks := row.activeTasks - released.count .active }

/-- One round of the `fail_unstarted_tasks` loop. -/
def failUnstartedTask (reason : AbortReason) (db : Db) (tid : TaskId) : Db :=
  match db.tasks.get? tid with
  | none => db
  | some t =>
    (db.setTask tid (t.failUnstarted reason)).releaseUnstartedAccounting t.ownerId
      (t.releaseReservations none).2

/-- The tasks that `fail_unstarted_tasks` locks. -/
def unstartedTasks (db : Db) (pid : ProviderId) : List TaskId :=
  (db.tasks.rows.filter fun r => r.2.providerId = pid && r.2.status.isUnstarted).map Prod.fst

/-- `fail_unstarted_tasks`. -/
def failUnstartedTasks (db : Db) (pid : ProviderId)
    (reason : AbortReason := .providerKeyRevoked) : Db :=
  (unstartedTasks db pid).foldl (failUnstartedTask reason) db

/-- `update_provider` with a new key: the version moves on and the unstarted tasks fail. The other
columns that the route can change are not read by tasks in flight. -/
def rotateProviderKey (db : Db) (owner : UserId) (pid : ProviderId) : Except Failure Db := do
  let row ← getProviderRow db owner pid
  let db := { db with providers := db.providers.set pid { row with keyVersion := row.keyVersion + 1 } }
  return failUnstartedTasks db pid

/-- `revoke_provider`. -/
def revokeProvider (db : Db) (owner : UserId) (pid : ProviderId) : Except Failure Db := do
  let row ← getProviderRow db owner pid
  let db := { db with
    providers := db.providers.set pid { row with status := .revoked, isDefault := false } }
  return failUnstartedTasks db pid

/-- `create_provider`: a fresh active row; a new default takes the default from the others. -/
def createProvider (db : Db) (owner : UserId) (modelId : String) (isDefault : Bool) :
    Except Failure Db :=
  let cleared := db.providers.map fun _ row =>
    if row.userId = owner && isDefault then { row with isDefault := false } else row
  match cleared.get? db.nextId with
  | some _ => .error (.integrity "pk_user_providers")
  | none => .ok { db with
      providers := cleared.insert db.nextId ⟨owner, modelId, 1, .active, isDefault⟩
      nextId := db.nextId + 1 }

end AgentCraft.Tasking
