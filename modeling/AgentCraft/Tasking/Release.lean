import AgentCraft.Tasking.Schema

/-!
# Releasing what a task holds

`task_release.py`: reservations go from `held` to `released`, and the accounts (active and running
counters, platform slots, retained storage) follow the rows that the update returned. Which kinds are
released depends on the status the task has taken: any status gives back the running reservation,
`completed`/`failed`/`aborted` also the active one, `deleted` everything including the storage.
-/

namespace AgentCraft.Tasking

open AgentCraft.Relational

/-- Rows of `RETURNING kind, bytes`. -/
abbrev Released := List (ReservationKind × ℕ)

/-- The kinds of a release: `none` releases every kind. -/
abbrev ReleaseKinds := Option (List ReservationKind)

/-- `state = 'held' AND kind IN kinds`. -/
def TaskReservation.releasable (kinds : ReleaseKinds) (r : TaskReservation) : Bool :=
  r.state = .held && match kinds with
    | none => true
    | some ks => r.kind ∈ ks

/-- `_release_reservations`: flip the held rows, return what was flipped. -/
def Task.releaseReservations (t : Task) (kinds : ReleaseKinds) : Task × Released :=
  ({ t with reservations :=
      updateWhere (·.releasable kinds) (fun r => { r with state := .released }) t.reservations },
    (t.reservations.filter (·.releasable kinds)).map fun r => (r.kind, r.bytes))

/-- How many of the released rows are of one kind. -/
def Released.count (released : Released) (kind : ReservationKind) : ℕ :=
  released.countP (·.1 = kind)

/-- `sum(n for _, n in released)`. -/
def Released.bytes (released : Released) : ℕ := (released.map (·.2)).sum

/-! ## Accounts -/

/-- The tables that count what tasks hold. -/
structure Accounts where
  usage : Table UserId UserQuotaUsage
  slots : Table ℕ PlatformSlot
  storage : PlatformStorage

def Db.accounts (db : Db) : Accounts := ⟨db.usage, db.slots, db.storage⟩

/-- `UPDATE user_quota_usage SET f WHERE user_id = u AND p`. -/
def Db.updateUsage (db : Db) (u : UserId) (p : UserQuotaUsage → Bool)
    (f : UserQuotaUsage → UserQuotaUsage) : Db :=
  { db with usage := db.usage.map fun u' row => if u' = u && p row then f row else row }

/-- The update above reports a row. -/
def Db.usageHit (db : Db) (u : UserId) (p : UserQuotaUsage → Bool) : Bool :=
  match db.usage.get? u with
  | some row => p row
  | none => false

/-- `UPDATE platform_storage SET retained_storage_bytes = retained_storage_bytes + n WHERE p`. -/
def Db.addPlatformStorage (db : Db) (p : PlatformStorage → Bool) (n : ℤ) : Db :=
  if p db.storage then
    { db with storage :=
        { db.storage with retainedStorageBytes := db.storage.retainedStorageBytes + n } }
  else db

/-- `_refund_storage`: two subtractions, each refused (and only logged) if it would go below zero. -/
def Db.refundStorage (db : Db) (u : UserId) (nbytes : ℕ) : Db :=
  (db.updateUsage u (fun row => nbytes ≤ row.retainedStorageBytes)
    (fun row => { row with retainedStorageBytes := row.retainedStorageBytes - nbytes }))
    |>.addPlatformStorage (fun s => nbytes ≤ s.retainedStorageBytes) (-nbytes)

/-- Set the slots that the task leases free. -/
def Db.freeSlots (db : Db) (tid : TaskId) : Db :=
  { db with
    slots := db.slots.map fun _ s =>
      if s.taskId = some tid && s.state = .leased then ⟨none, .free, none⟩ else s }

/-- The `running` part of `_apply_release_accounting`: slots free, `running_tasks` down. -/
def Db.releaseRunning (db : Db) (tid : TaskId) (u : UserId) (n : ℕ) : Db :=
  if n = 0 then db
  else (db.freeSlots tid).updateUsage u (fun row => n ≤ row.runningTasks)
    (fun row => { row with runningTasks := row.runningTasks - n })

/-- The `active` part of `_apply_release_accounting`: `active_tasks` down. -/
def Db.releaseActive (db : Db) (u : UserId) (n : ℕ) : Db :=
  if n = 0 then db
  else db.updateUsage u (fun row => n ≤ row.activeTasks)
    (fun row => { row with activeTasks := row.activeTasks - n })

/-- `_apply_release_accounting`. -/
def Db.applyReleaseAccounting (db : Db) (tid : TaskId) (u : UserId) (released : Released)
    (refundStorage : Bool) : Db :=
  let db := db.releaseRunning tid u (released.count .running)
  let db := db.releaseActive u (released.count .active)
  if refundStorage && 0 < released.bytes then db.refundStorage u released.bytes else db

/-- The kinds that `release_task_holdings` releases for a task in this status. -/
def TaskStatus.releaseKinds : TaskStatus → ReleaseKinds
  | .deleted => none
  | .completed | .failed | .aborted => some [.running, .active]
  | _ => some [.running]

/-- The task after `release_task_holdings`. -/
def Task.releaseHoldings (t : Task) : Task := (t.releaseReservations t.status.releaseKinds).1

/-- `release_task_holdings`: a task row that has vanished, or that the session does not see, is skipped
silently. -/
def Db.releaseTaskHoldings (db : Db) (tid : TaskId) (u : UserId) : Db :=
  match db.visibleTask u tid with
  | none => db
  | some t =>
    (db.setTask tid t.releaseHoldings).applyReleaseAccounting tid u
      (t.releaseReservations t.status.releaseKinds).2 (t.status = .deleted)

/-! ## What the accounts leave alone -/

@[simp] theorem Db.updateUsage_tasks (db : Db) (u p f) : (db.updateUsage u p f).tasks = db.tasks := rfl
@[simp] theorem Db.updateUsage_slots (db : Db) (u p f) : (db.updateUsage u p f).slots = db.slots := rfl
@[simp] theorem Db.updateUsage_storage (db : Db) (u p f) :
    (db.updateUsage u p f).storage = db.storage := rfl
@[simp] theorem Db.updateUsage_now (db : Db) (u p f) : (db.updateUsage u p f).now = db.now := rfl
@[simp] theorem Db.updateUsage_nextId (db : Db) (u p f) :
    (db.updateUsage u p f).nextId = db.nextId := rfl

@[simp] theorem Db.freeSlots_tasks (db : Db) (tid) : (db.freeSlots tid).tasks = db.tasks := rfl
@[simp] theorem Db.freeSlots_usage (db : Db) (tid) : (db.freeSlots tid).usage = db.usage := rfl
@[simp] theorem Db.freeSlots_storage (db : Db) (tid) : (db.freeSlots tid).storage = db.storage := rfl

@[simp] theorem Db.addPlatformStorage_tasks (db : Db) (p n) :
    (db.addPlatformStorage p n).tasks = db.tasks := by
  unfold Db.addPlatformStorage; split <;> rfl
@[simp] theorem Db.addPlatformStorage_usage (db : Db) (p n) :
    (db.addPlatformStorage p n).usage = db.usage := by
  unfold Db.addPlatformStorage; split <;> rfl
@[simp] theorem Db.addPlatformStorage_slots (db : Db) (p n) :
    (db.addPlatformStorage p n).slots = db.slots := by
  unfold Db.addPlatformStorage; split <;> rfl
@[simp] theorem Db.addPlatformStorage_now (db : Db) (p n) :
    (db.addPlatformStorage p n).now = db.now := by
  unfold Db.addPlatformStorage; split <;> rfl
@[simp] theorem Db.addPlatformStorage_nextId (db : Db) (p n) :
    (db.addPlatformStorage p n).nextId = db.nextId := by
  unfold Db.addPlatformStorage; split <;> rfl

/-- Releasing never touches a task row other than the one it is about, nor the clock. -/
theorem Db.applyReleaseAccounting_frame (db : Db) (tid : TaskId) (u : UserId) (released : Released)
    (b : Bool) :
    (db.applyReleaseAccounting tid u released b).tasks = db.tasks ∧
      (db.applyReleaseAccounting tid u released b).now = db.now ∧
      (db.applyReleaseAccounting tid u released b).nextId = db.nextId := by
  unfold Db.applyReleaseAccounting Db.releaseActive Db.releaseRunning Db.refundStorage
  simp only
  split_ifs <;> exact ⟨by simp, by simp [Db.freeSlots], by simp [Db.freeSlots]⟩

@[simp] theorem Db.applyReleaseAccounting_tasks (db : Db) (tid u released b) :
    (db.applyReleaseAccounting tid u released b).tasks = db.tasks :=
  (db.applyReleaseAccounting_frame tid u released b).1
@[simp] theorem Db.applyReleaseAccounting_now (db : Db) (tid u released b) :
    (db.applyReleaseAccounting tid u released b).now = db.now :=
  (db.applyReleaseAccounting_frame tid u released b).2.1
@[simp] theorem Db.applyReleaseAccounting_nextId (db : Db) (tid u released b) :
    (db.applyReleaseAccounting tid u released b).nextId = db.nextId :=
  (db.applyReleaseAccounting_frame tid u released b).2.2

section SetTask

variable (db : Db) (tid tid' : TaskId) (u : UserId) (t : Task)

theorem Db.releaseRunning_setTask (n : ℕ) :
    (db.setTask tid' t).releaseRunning tid u n = (db.releaseRunning tid u n).setTask tid' t := by
  unfold Db.releaseRunning
  split <;> rfl

theorem Db.releaseActive_setTask (n : ℕ) :
    (db.setTask tid' t).releaseActive u n = (db.releaseActive u n).setTask tid' t := by
  unfold Db.releaseActive
  split <;> rfl

theorem Db.refundStorage_setTask (n : ℕ) :
    (db.setTask tid' t).refundStorage u n = (db.refundStorage u n).setTask tid' t := by
  unfold Db.refundStorage Db.addPlatformStorage
  rw [Db.updateUsage_storage, Db.updateUsage_storage, Db.setTask_storage]
  split <;> rfl

/-- Releasing does not read the task rows. -/
theorem Db.applyReleaseAccounting_setTask (released : Released) (b : Bool) :
    (db.setTask tid' t).applyReleaseAccounting tid u released b =
      (db.applyReleaseAccounting tid u released b).setTask tid' t := by
  unfold Db.applyReleaseAccounting
  simp only [Db.releaseRunning_setTask, Db.releaseActive_setTask, Db.refundStorage_setTask]
  split <;> rfl

end SetTask

/-- `release_task_holdings` rewrites one task row. -/
theorem Db.releaseTaskHoldings_tasks {db : Db} {tid : TaskId} {u : UserId} {t : Task}
    (h : db.visibleTask u tid = some t) :
    (db.releaseTaskHoldings tid u).tasks = db.tasks.set tid t.releaseHoldings := by
  simp [Db.releaseTaskHoldings, h]

theorem Db.releaseTaskHoldings_of_none {db : Db} {tid : TaskId} {u : UserId}
    (h : db.visibleTask u tid = none) : db.releaseTaskHoldings tid u = db := by
  simp [Db.releaseTaskHoldings, h]

@[simp] theorem Db.releaseTaskHoldings_now (db : Db) (tid u) :
    (db.releaseTaskHoldings tid u).now = db.now := by
  unfold Db.releaseTaskHoldings; split <;> simp
@[simp] theorem Db.releaseTaskHoldings_nextId (db : Db) (tid u) :
    (db.releaseTaskHoldings tid u).nextId = db.nextId := by
  unfold Db.releaseTaskHoldings; split <;> simp

end AgentCraft.Tasking
