import AgentCraft.Relational.Lineage
import AgentCraft.Tasking.ProviderRefs
import AgentCraft.Tasking.Suspension

/-!
# Closing an account

`request_deletion` is one transaction: it sets the status to `deleting` (and so locks the user row),
revokes the sessions and calls the task hook, which reads the task ids of the user, stops if there are
none, and deletes all tasks of the user in a later statement. After 14 days `sweep_expired` anonymises the
user and deletes the providers, which a task that refers to one forbids. Requests that were authenticated
before are still in flight meanwhile, and `create_task` does not look at the user row.
-/

namespace AgentCraft.Tasking

open AgentCraft.Relational AgentCraft.Transition
open AgentCraft.Access (UserStatus)

/-- `GRACE_DAYS`, in seconds. -/
def graceSeconds : ℕ := 14 * 86400

/-- The statements of `request_deletion` that have run. -/
inductive DeletionPhase
  /-- `_DEACTIVATE_SQL` and `revoke_all`. -/
  | opened
  /-- `_TERMINATE_USER_TASK_IDS_SQL` has returned these ids. -/
  | scanned (tasks : List TaskId)
  /-- The hook has returned; if it went on, `_TERMINATE_USER_TASK_DELETE_SQL` has found these rows. -/
  | erased (tasks rows : List TaskId)
deriving DecidableEq, Repr

/-- A transaction of `request_deletion` in progress. Nobody else sees its writes before it commits. -/
structure Deletion where
  user : UserId
  phase : DeletionPhase
deriving DecidableEq, Repr

/-- The domain with accounts that can be closed. -/
structure ClosingWorld where
  base : UserWorld
  deletions : List Deletion
  /-- `users.deletion_deadline_at`. -/
  deadlines : Table UserId Time
  /-- The users whose deletion has committed and has not been cancelled. -/
  closed : List UserId

/-- The labels of the system. -/
inductive ClosingAction
  | base (a : UserAction)
  | requestDeletion (user : UserId)
  /-- The next statement of the transaction; after the last one, it commits. -/
  | advance (d : Deletion)
  | rollBack (d : Deletion)
  /-- The transaction of `sweep_expired` for one candidate. -/
  | sweep (user : UserId)

/-- `terminate_tasks_hook`, as it takes effect when the transaction commits: the scanned tasks are
released one by one and the rows that the last statement has found are deleted. -/
def Db.eraseUserTasks (db : Db) (u : UserId) (tasks rows : List TaskId) : Db :=
  if tasks = [] then db
  else
    let marked := { db with
      tasks := db.tasks.map fun tid t => if t.ownerId = u ∧ tid ∈ rows then t.markDeleted else t }
    let released := tasks.foldl (fun db tid => db.releaseTaskHoldings tid u) marked
    { released with
      tasks := released.tasks.filter fun tid t => ¬(t.ownerId = u ∧ tid ∈ rows)
      slots := released.slots.map fun _ s =>
        if s.taskId.any (· ∈ rows) then { s with taskId := none } else s }

/-- A task refers to a provider of the user. -/
def Db.providerInUse (db : Db) (u : UserId) : Bool :=
  db.tasks.rows.any fun row => (db.providers.get? row.2.providerId).any (·.userId = u)

/-- `fk_tasks_provider_id_user_providers`, with `ON DELETE RESTRICT`. -/
def providerRestricted : Failure := .integrity "fk_tasks_provider_id_user_providers"

/-- The transactions of the base system that run beside deletions: the status of a user waits for the
lock on the user row, and only the transactions below set it to `deleting` or `deleted`. -/
def ClosingWorld.allows (w : ClosingWorld) : UserAction → Bool
  | .setStatus u s => s ≠ .deleting && s ≠ .deleted && w.deletions.all (·.user ≠ u)
  | .other (.scan (.accountHook _)) | .other (.perform (.terminateUser ..) _) => false
  | _ => true

/-- A cancelled deletion and a suspension clear the deadline; a user who is active again is not closed. -/
def ClosingWorld.afterBase (w : ClosingWorld) : UserAction → ClosingWorld
  | .setStatus u s => { w with
      deadlines := w.deadlines.filter fun v _ => v ≠ u
      closed := if s = .active then w.closed.filter (· ≠ u) else w.closed }
  | _ => w

/-- `revoke_all`. -/
def UserWorld.revokeAll (w : UserWorld) (u : UserId) : UserWorld :=
  { w with sessions := w.sessions.map fun _ s => if s.userId = u then { s with revoked := true } else s }

/-- The commit of `request_deletion`. -/
def ClosingWorld.close (w : ClosingWorld) (u : UserId) (tasks rows : List TaskId) : ClosingWorld where
  base :=
    let w := w.base.revokeAll u
    ({ w with
      world := { w.world with db := w.world.db.eraseUserTasks u tasks rows }
      users := w.users.set u .deleting } : UserWorld).afterStatus u .deleting
  deletions := w.deletions.erase ⟨u, .erased tasks rows⟩
  deadlines := (w.deadlines.filter fun v _ => v ≠ u).insert u (w.base.world.db.now + graceSeconds)
  closed := u :: w.closed

/-- The next statement of `request_deletion`. -/
def ClosingWorld.advance (w : ClosingWorld) (d : Deletion) : ClosingWorld :=
  let others := w.deletions.erase d
  let own := userTaskIds w.base.world.db d.user
  match d.phase with
  | .opened => { w with deletions := ⟨d.user, .scanned own⟩ :: others }
  | .scanned tasks => { w with
      deletions := ⟨d.user, .erased tasks (if tasks = [] then [] else own)⟩ :: others }
  | .erased tasks rows => w.close d.user tasks rows

/-- `sweep_expired` for one user. -/
def ClosingWorld.sweep (w : ClosingWorld) (u : UserId) : Except Failure ClosingWorld :=
  if w.base.users.get? u = some .deleting ∧
      (w.deadlines.get? u).any (· ≤ w.base.world.db.now) then
    if w.base.world.db.providerInUse u then .error providerRestricted
    else
      let base := w.base.revokeAll u
      let db := base.world.db
      .ok { w with
        base := ({ base with
          world := { base.world with
            db := { db with providers := db.providers.filter fun _ p => p.userId ≠ u } }
          users := base.users.set u .deleted } : UserWorld).afterStatus u .deleted
        deadlines := w.deadlines.filter fun v _ => v ≠ u }
  else .error .notEnabled

variable (cfg : Settings) (nfc : String → String)

/-- The step function. -/
def ClosingWorld.step (w : ClosingWorld) : ClosingAction → Except Failure ClosingWorld
  | .base a =>
    if w.allows a then do
      let base ← w.base.step cfg nfc a
      return { w with base := base }.afterBase a
    else .error .notEnabled
  | .requestDeletion u =>
    if w.base.users.get? u = some .active ∧ w.deletions.all (·.user ≠ u) then
      .ok { w with deletions := ⟨u, .opened⟩ :: w.deletions }
    else .error .notEnabled
  | .advance d => if d ∈ w.deletions then .ok (w.advance d) else .error .notEnabled
  | .rollBack d => .ok { w with deletions := w.deletions.erase d }
  | .sweep u => w.sweep u

/-- The domain with deletions. -/
def closingSystem : System ClosingWorld ClosingAction Failure := ⟨ClosingWorld.step cfg nfc⟩

/-- No task, and no deletion yet. -/
structure ClosingWorld.Initial (w : ClosingWorld) : Prop where
  world : w.base.world.Initial
  users : ∀ u, w.base.users.get? u ≠ some .deleting
  deletions : w.deletions = []
  closed : w.closed = []

/-- Deletion closes the account for tasks: from its commit until it is cancelled the user has no task,
and the sweep is not kept from deleting the providers. -/
def ClosingWorld.Shut (w : ClosingWorld) : Prop :=
  ∀ u, u ∈ w.closed ∨ w.base.users.get? u = some .deleting →
    (∀ tid t, w.base.world.db.tasks.get? tid = some t → t.ownerId ≠ u) ∧
      w.sweep u ≠ .error providerRestricted

/-- The hook is still going to find a task that appears now. -/
def Deletion.stillFinds (d : Deletion) : Prop :=
  match d.phase with
  | .opened => True
  | .scanned tasks => tasks ≠ []
  | .erased _ _ => False

/-- The condition: no task of a user is created after the hook has found none, or after it has deleted
those that it found, until the deletion is cancelled. -/
def BeforeClosing (w : ClosingWorld) : ClosingAction → Prop
  | .base (.commit r) => r.createsTask = true → r ∈ w.base.requests →
      r.owner ∉ w.closed ∧ ∀ d ∈ w.deletions, d.user = r.owner → d.stillFinds
  | _ => True

section Closing

variable {cfg : Settings} {nfc : String → String} {db : Db} {v v' : UserWorld} {w w' : ClosingWorld}
  {b : UserAction} {a : ClosingAction} {d : Deletion} {u : UserId} {tid : TaskId} {t t' : Task}

/-! ## The base system -/

/-- A row keeps its owner, its provider and what else only its creation writes. -/
def SameFrozen (_ : TaskId) (t t' : Task) : Prop := t'.frozen = t.frozen

theorem SameFrozen.refl (tid : TaskId) (t : Task) : SameFrozen tid t t := rfl

theorem SameFrozen.trans {x y z : Task} (h : SameFrozen tid x y) (h' : SameFrozen tid y z) :
    SameFrozen tid x z :=
  Eq.trans h' h

theorem SameFrozen.owner (h : SameFrozen tid t t') : t'.ownerId = t.ownerId :=
  congrArg Frozen.ownerId h

theorem Db.RowsFollow.descends {E : TaskId → TaskStatus → TaskStatus → Prop} {db db' : Db}
    (h : db.RowsFollow E db') : db.tasks.Descends SameFrozen db'.tasks := by
  intro tid t' ht'
  obtain ⟨t, ht, hf⟩ := h tid t' ht'
  exact ⟨t, ht, hf.frozen⟩

/-- A step that creates no task. -/
structure Db.Keeps (db db' : Db) : Prop where
  rows : db.tasks.Descends SameFrozen db'.tasks
  providers : db.ProvidersStay db'

/-- A step of the base system keeps tasks and providers, or it is the transaction of a `create_task`
under the identifier of its user. -/
theorem UserWorld.step_keeps (h : v.step cfg nfc b = .ok v') :
    v.world.db.Keeps v'.world.db ∨ ∃ r, b = .commit r ∧ r ∈ v.requests ∧ r.createsTask = true ∧
      ∃ world, Tasking.step cfg nfc v.world (.request r) = .ok world ∧ v'.world = world := by
  have hdomain {c : Action} {world : World} (hc : ∀ r, c = .request r → r.createsTask = false)
      (h : Tasking.step cfg nfc v.world c = .ok world) : v.world.db.Keeps world.db := by
    refine ⟨fun tid t' ht' => ?_, step_providersStay h⟩
    rcases step_frozen_row h ht' with ⟨t, ht, hf⟩ | ⟨_, _, _, _, rfl, -⟩
    · exact ⟨t, ht, hf⟩
    · cases hc _ rfl
  have hsame {db : Db} (hdb : db = v.world.db) : v.world.db.Keeps db := by
    rw [hdb]
    exact ⟨.refl SameFrozen.refl _, .of_eq rfl⟩
  cases b with
  | other c =>
    obtain ⟨hc, hworld, -⟩ := UserWorld.other_eq_ok h
    refine .inl (hdomain (fun r hr => ?_) hworld)
    subst hr
    cases hc
  | commit r =>
    obtain ⟨hr, h⟩ := ite_ok_else_error.mp h
    obtain ⟨world, hworld, h⟩ := bind_eq_ok.mp h
    cases h
    cases hcreates : r.createsTask with
    | true => exact .inr ⟨r, rfl, hr, hcreates, world, hworld, rfl⟩
    | false =>
      refine .inl (hdomain (fun r' hr' => ?_) hworld)
      cases hr'
      exact hcreates
  | advance k =>
    obtain ⟨-, h⟩ := ite_ok_else_error.mp h
    cases h
    unfold UserWorld.advance
    split
    · exact .inl (hsame rfl)
    · exact .inl (hsame rfl)
    · next c cs hphase =>
      have hf := terminateOne_follows .adminSuspended v.world.db c
      exact .inl ⟨hf.rows.descends, .of_eq hf.providers⟩
    · exact .inl (hsame rfl)
  | setStatus u s =>
    obtain ⟨-, h⟩ := ite_ok_else_error.mp h
    cases h
    refine .inl (hsame ?_)
    unfold UserWorld.afterStatus
    split <;> rfl
  | startSession id u =>
    obtain ⟨-, h⟩ := ite_ok_else_error.mp h
    cases h
    exact .inl (hsame rfl)
  | authenticate id r =>
    obtain ⟨-, h⟩ := ite_ok_else_error.mp h
    cases h
    exact .inl (hsame rfl)
  | _ =>
    cases h
    exact .inl (hsame rfl)

/-- Statuses change by their own transactions only. -/
theorem UserWorld.step_users (h : v.step cfg nfc b = .ok v') :
    v'.users = v.users ∨ ∃ u s, b = .setStatus u s ∧ v'.users = v.users.set u s := by
  cases b with
  | other c =>
    obtain ⟨-, -, hv'⟩ := UserWorld.other_eq_ok h
    rw [hv']
    exact .inl rfl
  | commit r =>
    obtain ⟨-, h⟩ := ite_ok_else_error.mp h
    obtain ⟨world, -, h⟩ := bind_eq_ok.mp h
    cases h
    exact .inl rfl
  | advance k =>
    obtain ⟨-, h⟩ := ite_ok_else_error.mp h
    cases h
    unfold UserWorld.advance
    split <;> exact .inl rfl
  | setStatus u s =>
    obtain ⟨-, h⟩ := ite_ok_else_error.mp h
    cases h
    refine .inr ⟨u, s, rfl, ?_⟩
    unfold UserWorld.afterStatus
    split <;> rfl
  | startSession id u =>
    obtain ⟨-, h⟩ := ite_ok_else_error.mp h
    cases h
    exact .inl rfl
  | authenticate id r =>
    obtain ⟨-, h⟩ := ite_ok_else_error.mp h
    cases h
    exact .inl rfl
  | _ =>
    cases h
    exact .inl rfl

/-! ## The hook -/

/-- The hook keeps providers, and of the rows that it does not delete it keeps owner and provider. -/
theorem Db.eraseUserTasks_keeps (db : Db) (u : UserId) (tasks rows : List TaskId) :
    (db.eraseUserTasks u tasks rows).providers = db.providers ∧
      db.tasks.Descends SameFrozen (db.eraseUserTasks u tasks rows).tasks := by
  have hfold (db : Db) : db.Follows NoLift
      (tasks.foldl (fun db tid => db.releaseTaskHoldings tid u) db) := by
    induction tasks generalizing db with
    | nil => exact .of_tasks rfl rfl
    | cons tid tasks ih => exact (Db.Follows.releaseTaskHoldings tid u).trans (ih _)
  unfold Db.eraseUserTasks
  split
  · exact ⟨rfl, .refl SameFrozen.refl _⟩
  · have hmark : db.tasks.Descends SameFrozen (db.tasks.map fun tid t =>
        if t.ownerId = u ∧ tid ∈ rows then t.markDeleted else t) := by
      refine .map _ (fun tid t => ?_) _
      split
      · unfold SameFrozen Task.markDeleted
        simp only
        split <;> rfl
      · rfl
    have hrelease := hfold { db with
      tasks := db.tasks.map fun tid t => if t.ownerId = u ∧ tid ∈ rows then t.markDeleted else t }
    refine ⟨hrelease.providers, ?_⟩
    refine (hmark.trans hrelease.rows.descends fun _ _ _ _ => SameFrozen.trans).trans
      (.filter SameFrozen.refl _ _) fun _ _ _ _ => SameFrozen.trans

/-- What the hook has found, it deletes. -/
theorem Db.eraseUserTasks_erases {tasks rows : List TaskId} (hne : tasks ≠ [])
    (ht' : (db.eraseUserTasks u tasks rows).tasks.get? tid = some t') (hown : t'.ownerId = u) :
    tid ∉ rows := by
  unfold Db.eraseUserTasks at ht'
  rw [if_neg hne] at ht'
  simp only [Table.get?_filter] at ht'
  intro hmem
  have hp := (Option.filter_eq_some_iff.mp ht').2
  simp [hown, hmem] at hp

theorem mem_userTaskIds : tid ∈ userTaskIds db u ↔ (db.tasks.get? tid).map (·.ownerId) = some u := by
  constructor
  · intro h
    obtain ⟨⟨tid', t⟩, hrow, rfl⟩ := List.mem_map.mp h
    obtain ⟨hmem, hown⟩ := List.mem_filter.mp hrow
    rw [Table.get?_eq_some_iff.mpr hmem]
    simpa using hown
  · intro h
    obtain ⟨t, ht, hown⟩ := Option.map_eq_some_iff.mp h
    refine List.mem_map.mpr ⟨(tid, t), List.mem_filter.mpr ⟨Table.get?_eq_some_iff.mp ht, ?_⟩, rfl⟩
    simpa using hown

theorem releaseTaskHoldings_owner (db : Db) (tid x : TaskId) (u : UserId) :
    ((db.releaseTaskHoldings tid u).tasks.get? x).map (·.ownerId) =
      (db.tasks.get? x).map (·.ownerId) := by
  cases hvis : db.visibleTask u tid with
  | none => rw [Db.releaseTaskHoldings_of_none hvis]
  | some t =>
    have hfound := (Db.visibleTask_eq_some.mp hvis).1
    rw [Db.releaseTaskHoldings_tasks hvis, Table.get?_set]
    split
    · next heq =>
      rw [heq, hfound]
      rfl
    · rfl

theorem releaseAll_owner (db : Db) (tasks : List TaskId) (x : TaskId) (u : UserId) :
    ((tasks.foldl (fun db tid => db.releaseTaskHoldings tid u) db).tasks.get? x).map (·.ownerId) =
      (db.tasks.get? x).map (·.ownerId) := by
  induction tasks generalizing db with
  | nil => rfl
  | cons tid tasks ih => exact (ih _).trans (releaseTaskHoldings_owner db tid x u)

/-- If nothing happens between its statements, the hook is the hook of the task domain. -/
theorem Db.eraseUserTasks_eq_hook (db : Db) (u : UserId) (tasks : List TaskId) :
    db.eraseUserTasks u tasks (userTaskIds db u) = terminateTasksHook db u tasks := by
  unfold Db.eraseUserTasks terminateTasksHook
  split
  · rfl
  · have hmark : ({ db with tasks := db.tasks.map fun tid t =>
        if t.ownerId = u ∧ tid ∈ userTaskIds db u then t.markDeleted else t } : Db) =
        db.markUserTasks u := by
      have hrows : (db.tasks.map fun tid t =>
          if t.ownerId = u ∧ tid ∈ userTaskIds db u then t.markDeleted else t) =
          db.tasks.map fun _ t => if t.ownerId = u then t.markDeleted else t := by
        simp only [Table.map, Table.mk.injEq]
        refine List.map_congr_left fun row hrow => ?_
        by_cases hown : row.2.ownerId = u
        · have hmem : row.1 ∈ userTaskIds db u := by
            rw [mem_userTaskIds, Table.get?_eq_some_iff.mpr hrow, Option.map_some, hown]
          simp [hown, hmem]
        · simp [hown]
      unfold Db.markUserTasks
      rw [hrows]
    simp only [hmark]
    have howner (x : TaskId) : ((tasks.foldl (fun db tid => db.releaseTaskHoldings tid u)
        (db.markUserTasks u)).tasks.get? x).map (·.ownerId) = (db.tasks.get? x).map (·.ownerId) := by
      rw [releaseAll_owner, Db.markUserTasks, Table.get?_map, Option.map_map]
      congr 1
      funext t
      simp only [Function.comp_apply]
      split
      · unfold Task.markDeleted
        simp only
        split <;> rfl
      · rfl
    generalize tasks.foldl (fun db tid => db.releaseTaskHoldings tid u) (db.markUserTasks u) =
      released at howner
    have hvis (tid : TaskId) : decide (tid ∈ userTaskIds db u) = (released.visibleTask u tid).isSome := by
      rw [Bool.eq_iff_iff, decide_eq_true_eq, mem_userTaskIds, ← howner, Db.visibleTask]
      cases released.tasks.get? tid with
      | none => simp
      | some t => by_cases hown : t.ownerId = u <;> simp [hown]
    have hfilter : (released.tasks.filter fun tid t => ¬(t.ownerId = u ∧ tid ∈ userTaskIds db u)) =
        released.tasks.filter fun _ t => t.ownerId ≠ u := by
      simp only [Table.filter, Table.mk.injEq]
      refine List.filter_congr fun row hrow => ?_
      by_cases hown : row.2.ownerId = u
      · have hmem : row.1 ∈ userTaskIds db u := by
          rw [mem_userTaskIds, ← howner, Table.get?_eq_some_iff.mpr hrow, Option.map_some, hown]
        simp [hown, hmem]
      · simp [hown]
    unfold Db.deleteUserTasks
    rw [hfilter]
    simp only [hvis]

/-! ## The invariant -/

/-- The deletion is still going to find this task, or has found it. -/
def Deletion.finds (d : Deletion) (tid : TaskId) : Prop :=
  match d.phase with
  | .opened => True
  | .scanned tasks => tasks ≠ []
  | .erased tasks rows => tasks ≠ [] ∧ tid ∈ rows

theorem Deletion.stillFinds.finds (h : d.stillFinds) (tid : TaskId) : d.finds tid := by
  obtain ⟨u, phase⟩ := d
  cases phase with
  | opened => trivial
  | scanned tasks => exact h
  | erased tasks rows => exact h.elim

/-- Users under deletion are locked, no task escapes a deletion in progress, and the closed users have
none. -/
structure ClosingWorld.Sound (w : ClosingWorld) : Prop where
  owned : w.base.world.db.ProvidersOwned
  active : ∀ d ∈ w.deletions, w.base.users.get? d.user = some .active
  distinct : (w.deletions.map (·.user)).Nodup
  finds : ∀ d ∈ w.deletions, ∀ tid t, w.base.world.db.tasks.get? tid = some t →
    t.ownerId = d.user → d.finds tid
  empty : ∀ u ∈ w.closed, ∀ tid t, w.base.world.db.tasks.get? tid = some t → t.ownerId ≠ u
  deleting : ∀ u, w.base.users.get? u = some .deleting → u ∈ w.closed

theorem ClosingWorld.Initial.sound (h : w.Initial) : w.Sound where
  owned tid t ht := by
    rw [h.world.db.tasks] at ht
    cases ht
  active := by simp [h.deletions]
  distinct := by simp [h.deletions]
  finds := by simp [h.deletions]
  empty := by simp [h.closed]
  deleting u hu := absurd hu (h.users u)

/-- The deletions in progress find every row that was there, or that appears in time. -/
theorem ClosingWorld.Sound.rows (hw : w.Sound) {db' : Db}
    (hrows : ∀ tid t', db'.tasks.get? tid = some t' →
      (∃ t, w.base.world.db.tasks.get? tid = some t ∧ t.ownerId = t'.ownerId) ∨
      t'.ownerId ∉ w.closed ∧ ∀ d ∈ w.deletions, d.user = t'.ownerId → d.stillFinds) :
    (∀ d ∈ w.deletions, ∀ tid t, db'.tasks.get? tid = some t → t.ownerId = d.user → d.finds tid) ∧
      ∀ u ∈ w.closed, ∀ tid t, db'.tasks.get? tid = some t → t.ownerId ≠ u := by
  refine ⟨fun d hd tid t' ht' hown => ?_, fun u hu tid t' ht' hown => ?_⟩
  · rcases hrows tid t' ht' with ⟨t, ht, heq⟩ | ⟨-, hnew⟩
    · exact hw.finds d hd tid t ht (heq.trans hown)
    · exact (hnew d hd hown.symm).finds tid
  · rcases hrows tid t' ht' with ⟨t, ht, heq⟩ | ⟨hnot, -⟩
    · exact hw.empty u hu tid t ht (heq.trans hown)
    · exact hnot (hown ▸ hu)

/-- Where the rows after a step of the base system come from, if the condition is met. -/
theorem ClosingWorld.base_rows (hG : BeforeClosing w (.base b))
    (h : w.base.step cfg nfc b = .ok v') (ht' : v'.world.db.tasks.get? tid = some t') :
    (∃ t, w.base.world.db.tasks.get? tid = some t ∧ t.ownerId = t'.ownerId) ∨
      t'.ownerId ∉ w.closed ∧ ∀ d ∈ w.deletions, d.user = t'.ownerId → d.stillFinds := by
  rcases UserWorld.step_keeps h with hkeeps | ⟨r, rfl, hr, hcreates, world, hworld, hv'⟩
  · obtain ⟨t, ht, hf⟩ := hkeeps.rows tid t' ht'
    exact .inl ⟨t, ht, hf.owner.symm⟩
  · rw [hv'] at ht'
    rcases step_frozen_row hworld ht' with ⟨t, ht, hf⟩ | ⟨_, _, _, _, heq, -⟩
    · exact .inl ⟨t, ht, (congrArg Frozen.ownerId hf).symm⟩
    · have howner : r.owner = t'.ownerId := by
        cases heq
        rfl
      rw [← howner]
      exact .inr (hG hcreates hr)

theorem ClosingWorld.base_owned (hw : w.base.world.db.ProvidersOwned)
    (h : w.base.step cfg nfc b = .ok v') : v'.world.db.ProvidersOwned := by
  rcases UserWorld.step_keeps h with hkeeps | ⟨r, -, -, -, world, hworld, hv'⟩
  · intro tid t' ht'
    obtain ⟨t, ht, hf⟩ := hkeeps.rows tid t' ht'
    exact hw.of_frozen hkeeps.providers ht hf
  · rw [hv']
    exact hw.step hworld

/-- A transaction of the base system. -/
theorem ClosingWorld.Sound.base (hw : w.Sound) (hG : BeforeClosing w (.base b))
    (h : w.step cfg nfc (.base b) = .ok w') : w'.Sound := by
  obtain ⟨hallows, h⟩ := ite_ok_else_error.mp h
  obtain ⟨v', hv', h⟩ := bind_eq_ok.mp h
  cases h
  obtain ⟨hfinds, hempty⟩ := hw.rows fun tid t' ht' => ClosingWorld.base_rows hG hv' ht'
  have howned := ClosingWorld.base_owned hw.owned hv'
  by_cases hset : ∃ u s, b = .setStatus u s
  · obtain ⟨u, s, rfl⟩ := hset
    obtain ⟨-, hv'⟩ := ite_ok_else_error.mp hv'
    have husers : v'.users = w.base.users.set u s := by
      cases hv'
      unfold UserWorld.afterStatus
      split <;> rfl
    simp only [ClosingWorld.allows, Bool.and_eq_true, decide_eq_true_eq, List.all_eq_true] at hallows
    obtain ⟨⟨hdeleting, -⟩, hlocked⟩ := hallows
    refine ⟨howned, fun d hd => ?_, hw.distinct, hfinds, fun x hx => ?_, fun x hx => ?_⟩
    · change v'.users.get? d.user = _
      rw [husers, Table.get?_set_ne _ (hlocked d hd)]
      exact hw.active d hd
    · refine hempty x ?_
      change x ∈ (if s = .active then w.closed.filter (· ≠ u) else w.closed) at hx
      split at hx
      · exact List.mem_of_mem_filter hx
      · exact hx
    · change v'.users.get? x = _ at hx
      have hne : x ≠ u := by
        rintro rfl
        rw [husers, Table.get?_set, if_pos rfl] at hx
        obtain ⟨_, -, heq⟩ := Option.map_eq_some_iff.mp hx
        exact hdeleting heq
      rw [husers, Table.get?_set_ne _ hne] at hx
      have hclosed := hw.deleting x hx
      change x ∈ (if s = .active then w.closed.filter (· ≠ u) else w.closed)
      split
      · exact List.mem_filter.mpr ⟨hclosed, by simpa using hne⟩
      · exact hclosed
  · have husers : v'.users = w.base.users := by
      rcases UserWorld.step_users hv' with heq | ⟨u, s, hb, -⟩
      · exact heq
      · exact absurd ⟨u, s, hb⟩ hset
    have hafter : ({ w with base := v' } : ClosingWorld).afterBase b = { w with base := v' } := by
      unfold ClosingWorld.afterBase
      split
      · exact absurd ⟨_, _, rfl⟩ hset
      · rfl
    rw [hafter]
    exact ⟨howned, by rw [husers]; exact hw.active, hw.distinct, hfinds, hempty,
      by rw [husers]; exact hw.deleting⟩

/-! ## The transactions of a deletion -/

/-- The other deletions are of other users. -/
theorem ClosingWorld.Sound.others (hw : w.Sound) (hd : d ∈ w.deletions) {d' : Deletion}
    (hd' : d' ∈ w.deletions.erase d) : d' ∈ w.deletions ∧ d'.user ≠ d.user := by
  have hmem := List.mem_of_mem_erase hd'
  refine ⟨hmem, fun heq => ?_⟩
  have hsame : d' = d := List.inj_on_of_nodup_map hw.distinct hmem hd heq
  rw [hsame] at hd'
  exact absurd rfl (((hw.distinct.of_map _).mem_erase_iff).mp hd').1

/-- A deletion whose next statement has run, and still finds every task of its user. -/
theorem ClosingWorld.Sound.next (hw : w.Sound) (hd : d ∈ w.deletions) {phase : DeletionPhase}
    (hphase : ∀ tid t, w.base.world.db.tasks.get? tid = some t → t.ownerId = d.user →
      (⟨d.user, phase⟩ : Deletion).finds tid) :
    ClosingWorld.Sound { w with deletions := ⟨d.user, phase⟩ :: w.deletions.erase d } where
  owned := hw.owned
  active := by
    intro d' hd'
    rcases List.mem_cons.mp hd' with rfl | hd'
    · exact hw.active d hd
    · exact hw.active d' (hw.others hd hd').1
  distinct := by
    rw [List.map_cons, List.nodup_cons]
    refine ⟨fun hmem => ?_, hw.distinct.sublist (List.erase_sublist.map _)⟩
    obtain ⟨d', hd', heq⟩ := List.mem_map.mp hmem
    exact (hw.others hd hd').2 heq
  finds := by
    intro d' hd'
    rcases List.mem_cons.mp hd' with rfl | hd'
    · exact hphase
    · exact hw.finds d' (hw.others hd hd').1
  empty := hw.empty
  deleting := hw.deleting

/-- The commit: the status and the rows that have been found go together. -/
theorem ClosingWorld.Sound.close (hw : w.Sound) {tasks rows : List TaskId}
    (hd : ⟨u, .erased tasks rows⟩ ∈ w.deletions) : (w.close u tasks rows).Sound := by
  obtain ⟨hproviders, hdescends⟩ := w.base.world.db.eraseUserTasks_keeps u tasks rows
  have hactive := hw.active _ hd
  have hempty {x : UserId} (hx : x = u ∨ x ∈ w.closed) {tid : TaskId} {t' : Task}
      (ht' : (w.base.world.db.eraseUserTasks u tasks rows).tasks.get? tid = some t') :
      t'.ownerId ≠ x := by
    intro hown
    obtain ⟨t, ht, hf⟩ := hdescends tid t' ht'
    have hown₀ : t.ownerId = x := hf.owner.symm.trans hown
    rcases hx with rfl | hx
    · obtain ⟨hne, hmem⟩ := hw.finds _ hd tid t ht hown₀
      exact Db.eraseUserTasks_erases hne ht' hown hmem
    · exact hw.empty x hx tid t ht hown₀
  refine ⟨fun tid t' ht' => ?_, fun d' hd' => ?_, ?_, fun d' hd' tid t' ht' hown => ?_, ?_, ?_⟩
  · obtain ⟨t, ht, hf⟩ := hdescends tid t' ht'
    exact hw.owned.of_frozen (.of_eq hproviders) ht hf
  · obtain ⟨hmem, hne⟩ := hw.others hd hd'
    change (w.base.users.set u .deleting).get? d'.user = _
    rw [Table.get?_set_ne _ hne]
    exact hw.active d' hmem
  · exact hw.distinct.sublist (List.erase_sublist.map _)
  · obtain ⟨t, ht, hf⟩ := hdescends tid t' ht'
    exact hw.finds d' (hw.others hd hd').1 tid t ht (hf.owner.symm.trans hown)
  · intro x hx tid t' ht'
    exact hempty (List.mem_cons.mp hx) ht'
  · intro x hx
    change (w.base.users.set u .deleting).get? x = _ at hx
    by_cases hxu : x = u
    · exact List.mem_cons.mpr (.inl hxu)
    · rw [Table.get?_set_ne _ hxu] at hx
      exact List.mem_cons_of_mem _ (hw.deleting x hx)

theorem ClosingWorld.Sound.advance (hw : w.Sound) (hd : d ∈ w.deletions) : (w.advance d).Sound := by
  obtain ⟨u, phase⟩ := d
  cases phase with
  | opened =>
    refine hw.next hd fun tid t ht hown hnil => ?_
    have hmem : tid ∈ userTaskIds w.base.world.db u :=
      mem_userTaskIds.mpr (by rw [ht, Option.map_some, hown])
    rw [hnil] at hmem
    cases hmem
  | scanned tasks =>
    refine hw.next hd fun tid t ht hown => ?_
    have hne : tasks ≠ [] := hw.finds _ hd tid t ht hown
    refine ⟨hne, ?_⟩
    rw [if_neg hne]
    exact mem_userTaskIds.mpr (by rw [ht, Option.map_some, hown])
  | erased tasks rows => exact hw.close hd

/-- What the sweep deletes, no task refers to. -/
theorem ClosingWorld.Sound.sweep (hw : w.Sound) (h : w.sweep u = .ok w') : w'.Sound := by
  obtain ⟨⟨hstatus, -⟩, h⟩ := ite_ok_else_error.mp h
  obtain ⟨hfree, h⟩ := ite_error_eq_ok.mp h
  cases h
  have hset (x : UserId) (s : UserStatus) (hs : s ≠ .deleted)
      (hx : (w.base.users.set u .deleted).get? x = some s) : w.base.users.get? x = some s := by
    rw [Table.get?_set] at hx
    split at hx
    · obtain ⟨_, -, heq⟩ := Option.map_eq_some_iff.mp hx
      exact absurd heq.symm hs
    · exact hx
  refine ⟨fun tid t ht => ?_, fun d hd => ?_, hw.distinct, hw.finds, hw.empty, fun x hx => ?_⟩
  · obtain ⟨p, hp, huser⟩ := hw.owned tid t ht
    refine ⟨p, ?_, huser⟩
    change (w.base.world.db.providers.filter fun _ p => p.userId ≠ u).get? t.providerId = _
    rw [Table.get?_filter, hp]
    refine Option.filter_some_pos ?_
    -- otherwise the constraint would have been violated
    by_contra hin
    refine hfree (List.any_eq_true.mpr ⟨(tid, t), Table.get?_eq_some_iff.mp ht, ?_⟩)
    rw [hp]
    simpa using hin
  · change (w.base.users.set u .deleted).get? d.user = _
    have hne : d.user ≠ u := by
      rintro rfl
      rw [hw.active d hd] at hstatus
      cases hstatus
    rw [Table.get?_set_ne _ hne]
    exact hw.active d hd
  · exact hw.deleting x (hset x .deleting nofun hx)

theorem ClosingWorld.Sound.step (hw : w.Sound) (hG : BeforeClosing w a)
    (h : w.step cfg nfc a = .ok w') : w'.Sound := by
  cases a with
  | base b => exact hw.base hG h
  | requestDeletion u =>
    obtain ⟨⟨hactive, hfree⟩, h⟩ := ite_ok_else_error.mp h
    cases h
    simp only [List.all_eq_true, decide_eq_true_eq] at hfree
    refine ⟨hw.owned, fun d hd => ?_, ?_, fun d hd => ?_, hw.empty, hw.deleting⟩
    · rcases List.mem_cons.mp hd with rfl | hd
      · exact hactive
      · exact hw.active d hd
    · rw [List.map_cons, List.nodup_cons]
      refine ⟨fun hmem => ?_, hw.distinct⟩
      obtain ⟨d, hd, heq⟩ := List.mem_map.mp hmem
      exact hfree d hd heq
    · rcases List.mem_cons.mp hd with rfl | hd
      · exact fun _ _ _ _ => trivial
      · exact hw.finds d hd
  | advance d =>
    obtain ⟨hd, h⟩ := ite_ok_else_error.mp h
    cases h
    exact hw.advance hd
  | rollBack d =>
    cases h
    exact ⟨hw.owned, fun d' hd' => hw.active d' (List.mem_of_mem_erase hd'),
      hw.distinct.sublist (List.erase_sublist.map _),
      fun d' hd' => hw.finds d' (List.mem_of_mem_erase hd'), hw.empty, hw.deleting⟩
  | sweep u => exact hw.sweep h

/-! ## Runs -/

/-- Without tasks of the user, nothing refers to the user's providers. -/
theorem ClosingWorld.Sound.shut (hw : w.Sound) : w.Shut := by
  intro u hu
  have hempty := hw.empty u (hu.elim id (hw.deleting u))
  refine ⟨hempty, fun hsweep => ?_⟩
  have hfree : w.base.world.db.providerInUse u = false := by
    by_contra hin
    obtain ⟨⟨tid, t⟩, hrow, hany⟩ := List.any_eq_true.mp (Bool.eq_true_of_not_eq_false hin)
    have ht := Table.get?_eq_some_iff.mpr hrow
    obtain ⟨p, hp, huser⟩ := hw.owned tid t ht
    rw [hp] at hany
    have hown : p.userId = u := by simpa using hany
    exact hempty tid t ht (huser.symm.trans hown)
  unfold ClosingWorld.sweep at hsweep
  split at hsweep
  · rw [hfree] at hsweep
    cases hsweep
  · cases hsweep

/-- In every run that meets the condition, a user whose deletion has committed has no task until the
deletion is cancelled, and the sweep of the user is never refused. -/
theorem shut_of_run {w₀ : ClosingWorld} {as : List ClosingAction} (h₀ : w₀.Initial)
    (hG : (closingSystem cfg nfc).Guarded BeforeClosing w₀ as) :
    ((closingSystem cfg nfc).run w₀ as).Shut := by
  have hsound : ((closingSystem cfg nfc).run w₀ as).Sound :=
    System.invariant_run_of_guarded (S := closingSystem cfg nfc)
      (fun _ _ _ hw hG hs => ClosingWorld.Sound.step hw hG hs) h₀.sound hG
  exact hsound.shut

/-- The small installation without deletions. -/
def ClosingWorld.small : ClosingWorld := ⟨.small, [], .empty, []⟩

theorem ClosingWorld.small_initial : ClosingWorld.small.Initial where
  world := World.small_initial
  users := by
    intro u hu
    have hmem := Table.get?_eq_some_iff.mp hu
    change (u, UserStatus.deleting) ∈ [(1, UserStatus.active), (2, UserStatus.active)] at hmem
    rcases List.mem_pair.mp hmem with h | h <;> cases h
  deletions := rfl
  closed := rfl

/-- The statements of the deletion of user 1, whose hook scans these tasks and finds these rows. -/
def deletionOf1 (tasks rows : List TaskId) : List ClosingAction :=
  [.requestDeletion 1, .advance ⟨1, .opened⟩, .advance ⟨1, .scanned tasks⟩,
    .advance ⟨1, .erased tasks rows⟩]

/-- User 1 has task 10 and deletes the account; after the period of grace it is swept. -/
def closedRun : List ClosingAction :=
  createdBy1.map .base ++ deletionOf1 [10] [10] ++ [.base (.other (.tick graceSeconds)), .sweep 1]

theorem shut_of_run_closed :
    ((closingSystem {} id).run ClosingWorld.small closedRun).base.users.get? 1 = some .deleted ∧
      ((closingSystem {} id).run ClosingWorld.small closedRun).Shut :=
  ⟨by decide +kernel, shut_of_run ClosingWorld.small_initial (by
    have hnone : ((closingSystem {} id).next ClosingWorld.small
        (.base (.authenticate 1 (.createTask 1 5 none "hi" [])))).deletions = [] := by
      decide +kernel
    refine ⟨trivial, fun _ _ => ⟨by decide +kernel, fun d hd => ?_⟩, ?_⟩
    · rw [hnone] at hd
      cases hd
    · repeat' constructor)⟩

/-- The creation of a task has passed the gate before the deletion and commits after it. -/
def lateCreateRun : List ClosingAction :=
  .base (.authenticate 1 (.createTask 1 5 none "hi" [])) :: deletionOf1 [] [] ++
    [.base (.commit (.createTask 1 5 none "hi" [])), .base (.other (.tick graceSeconds))]

/-- The closed user has a task, and at the deadline the sweep is refused. -/
theorem not_shut_of_lateCreate :
    ¬ ((closingSystem {} id).run ClosingWorld.small lateCreateRun).Shut ∧
      ((closingSystem {} id).run ClosingWorld.small lateCreateRun).base.users.get? 1 =
        some .deleting ∧
      ((closingSystem {} id).run ClosingWorld.small lateCreateRun).sweep 1 =
        .error providerRestricted := by
  have hstatus : ((closingSystem {} id).run ClosingWorld.small lateCreateRun).base.users.get? 1 =
      some .deleting := by decide +kernel
  have hsweep : ((closingSystem {} id).run ClosingWorld.small lateCreateRun).sweep 1 =
      .error providerRestricted :=
    (if_pos ⟨hstatus, by decide +kernel⟩).trans (if_pos (by decide +kernel))
  exact ⟨fun h => (h 1 (.inr hstatus)).2 hsweep, hstatus, hsweep⟩

end Closing

end AgentCraft.Tasking
