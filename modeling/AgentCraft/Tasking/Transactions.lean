import AgentCraft.Tasking.Control
import AgentCraft.Tasking.EventLog
import AgentCraft.Tasking.World
import AgentCraft.Transition.Fallible

/-!
# What the transactions do

Each transaction of the domain, inverted: what a successful run has done to the one task row it moves
(`Moved`) and to the accounts (`Posted`). A `Change` is such a move, the creation of a task, or a
statement that touches neither; every transaction except the account hook is a sequence of changes
(`step_changes`). The invariants of the later modules are proved for one change each.
-/

namespace AgentCraft.Tasking

open AgentCraft.Relational AgentCraft.Transition

/-- The bytes of the reservations that `p` selects. -/
def copiedBytes (t : Task) (p : TaskReservation → Bool) : ℕ :=
  ((t.reservations.filter p).map (·.bytes)).sum

/-- What the transactions do to the reservations of a task `t` and to the accounts, by kind. -/
inductive Posted (db db' : Db) (tid : TaskId) (t t' : Task) : MoveKind → Prop
  | quiet (hres : t'.reservations = t.reservations) (hacc : db'.accounts = db.accounts) :
      Posted db db' tid t t' .quiet
  /-- An output replaces at most the copies that `p` selects. -/
  | output (p : TaskReservation → Bool) (fid : FileId) (n : ℕ) (charged : Db) (e e' : Failure)
      (hp : ∀ r, p r = true → r.kind = .artifactCopy ∧ r.state = .held)
      (hres : t'.reservations =
        updateWhere p (fun r => { r with state := .released }) t.reservations ++
          [⟨t.ownerId, .artifactCopy, some fid, n, .held⟩])
      (hcharge : (db.refundStorage t.ownerId (copiedBytes t p)).chargeStorage t.ownerId n e e'
        = .ok charged)
      (hacc : db'.accounts = charged.accounts) : Posted db db' tid t t' .quiet
  | renew (hres : t'.reservations = t.reservations) (e : Time)
      (hacc : db'.accounts = (db.renewSlots tid e).accounts) : Posted db db' tid t t' .renew
  | commit (n : ℕ) (charged : Db) (e e' : Failure)
      (hres : t'.reservations = t.reservations ++ [⟨t.ownerId, .taskRoot, none, n, .held⟩])
      (hcharge : db.chargeStorage t.ownerId n e e' = .ok charged)
      (hacc : db'.accounts = charged.accounts) : Posted db db' tid t t' .commit
  | claim (p : UserQuotaUsage → Bool) (n : ℕ) (e : Time) (s : PlatformSlot)
      (hres : t'.reservations = t.reservations ++ [⟨t.ownerId, .running, none, 0, .held⟩])
      (hhit : db.usageHit t.ownerId p = true) (hslot : db.slots.get? n = some s)
      (hfree : s.state = .free)
      (hacc : db'.accounts = ⟨(db.updateUsage t.ownerId p fun row =>
        { row with runningTasks := row.runningTasks + 1 }).usage,
        db.slots.set n ⟨some tid, .leased, some e⟩, db.storage⟩) : Posted db db' tid t t' .claim
  | close (back : Bool)
      (hres : t'.reservations = (t.releaseReservations t'.status.releaseKinds).1.reservations)
      (hacc : db'.accounts = (db.applyReleaseAccounting tid t.ownerId
        (t.releaseReservations t'.status.releaseKinds).2 (t'.status = .deleted)).accounts) :
      Posted db db' tid t t' (.close back)
  | fail (hres : t'.reservations = (t.releaseReservations none).1.reservations)
      (hacc : db'.accounts =
        (db.releaseUnstartedAccounting t.ownerId (t.releaseReservations none).2).accounts) :
      Posted db db' tid t t' .fail
  | cleanup (hres : t'.reservations = (t.releaseReservations none).1.reservations)
      (hacc : db'.accounts =
        (db.applyReleaseAccounting tid t.ownerId (t.releaseReservations none).2 true).accounts) :
      Posted db db' tid t t' .cleanup

/-- One task row is moved, the others are left alone. -/
structure Moved (db db' : Db) (k : MoveKind) (tid : TaskId) (t t' : Task) : Prop where
  found : db.tasks.get? tid = some t
  written : db'.tasks = db.tasks.set tid t'
  owner : t'.ownerId = t.ownerId
  control : Control.Move db.nextId db'.nextId k t.control t'.control
  log : k ≠ .cleanup → t.log.Extends t'.log
  posted : Posted db db' tid t t' k
  now : db'.now = db.now
  nextId : db.nextId ≤ db'.nextId

/-- A task is created. -/
structure Born (db db' : Db) (tid : TaskId) (t : Task) : Prop where
  fresh : db.tasks.get? tid = none
  written : db'.tasks = db.tasks.insert tid t
  control : t.control = ⟨.uploading, none, []⟩
  log : Log.Extends ⟨0, [], []⟩ t.log
  reservations : t.reservations = [⟨t.ownerId, .active, none, 0, .held⟩]
  charged : ∃ charged, db.chargeCreationQuota t.ownerId = .ok charged ∧
    db'.accounts = charged.accounts
  now : db'.now = db.now
  nextId : db.nextId ≤ tid ∧ tid < db'.nextId

/-- Which kinds of moves of which task rows are to be expected. -/
abbrev Expects := MoveKind → TaskId → Task → Prop

/-- A transaction, or a part of one, that moves at most one task, as expected. -/
inductive Change (expects : Expects) (db db' : Db) : Prop
  | still (htasks : db'.tasks = db.tasks) (hacc : db'.accounts = db.accounts)
      (hnow : db.now ≤ db'.now) (hid : db.nextId ≤ db'.nextId)
  | born (tid : TaskId) (t : Task) (h : Born db db' tid t)
  | moved (k : MoveKind) (tid : TaskId) (t t' : Task) (h : Moved db db' k tid t t')
      (hexp : expects k tid t)

/-- A sequence of changes. -/
def Changes (expects : Expects) : Db → Db → Prop := Relation.ReflTransGen (Change expects)

theorem Change.mono {expects expects' : Expects} (h : ∀ k tid t, expects k tid t → expects' k tid t)
    {db db' : Db} (hc : Change expects db db') : Change expects' db db' := by
  cases hc with
  | still htasks hacc hnow hid => exact .still htasks hacc hnow hid
  | born tid t hb => exact .born tid t hb
  | moved k tid t t' hm hexp => exact .moved k tid t t' hm (h k tid t hexp)

theorem Changes.mono {expects expects' : Expects}
    (h : ∀ k tid t, expects k tid t → expects' k tid t) {db db' : Db}
    (hc : Changes expects db db') : Changes expects' db db' :=
  Relation.ReflTransGen.mono (fun _ _ => Change.mono h) _ _ hc

theorem Moved.changes {expects : Expects} {db db' : Db} {k : MoveKind} {tid : TaskId} {t t' : Task}
    (h : Moved db db' k tid t t') (hexp : expects k tid t) : Changes expects db db' :=
  Relation.ReflTransGen.single (.moved k tid t t' h hexp)

/-! ## Building blocks -/

theorem lockTask_eq_ok {db : Db} {owner : UserId} {tid : TaskId} {t : Task}
    (h : lockTask db owner tid = .ok t) :
    db.visibleTask owner tid = some t ∧ t.status ≠ .deleted := by
  unfold lockTask at h
  split at h
  · next t₀ ht₀ =>
    obtain ⟨⟨hown, hst⟩, heq⟩ := ite_ok_else_error.mp h
    cases heq
    exact ⟨Db.visibleTask_eq_some.mpr ⟨ht₀, hown⟩, hst⟩
  · cases h

/-- A row update that leaves reservations and accounts alone. -/
theorem moved_quiet {db db' : Db} {tid : TaskId} {t t' : Task} (hfound : db.tasks.get? tid = some t)
    (htasks : db'.tasks = db.tasks.set tid t') (hacc : db'.accounts = db.accounts)
    (hnow : db'.now = db.now) (hid : db.nextId ≤ db'.nextId) (hown : t'.ownerId = t.ownerId)
    (hres : t'.reservations = t.reservations)
    (hc : Control.Move db.nextId db'.nextId .quiet t.control t'.control)
    (hlog : t.log.Extends t'.log) : Moved db db' .quiet tid t t' where
  found := hfound
  written := htasks
  owner := hown
  control := hc
  log := fun _ => hlog
  posted := .quiet hres hacc
  now := hnow
  nextId := hid

/-- A row update followed by `release_task_holdings`. -/
theorem moved_close {back : Bool} {db db' : Db} {tid : TaskId} {u : UserId} {t t₁ : Task}
    (hvis : db.visibleTask u tid = some t) (hown : t₁.ownerId = t.ownerId)
    (hres : t₁.reservations = t.reservations)
    (hc : Control.Move db.nextId db'.nextId (.close back) t.control t₁.control)
    (hlog : t.log.Extends t₁.log)
    (htasks : db'.tasks = ((db.setTask tid t₁).releaseTaskHoldings tid u).tasks)
    (hacc : db'.accounts = ((db.setTask tid t₁).releaseTaskHoldings tid u).accounts)
    (hnow : db'.now = db.now) (hid : db.nextId ≤ db'.nextId) :
    Moved db db' (.close back) tid t t₁.releaseHoldings := by
  obtain ⟨hfound, hu⟩ := Db.visibleTask_eq_some.mp hvis
  have hvis₁ : (db.setTask tid t₁).visibleTask u tid = some t₁ :=
    Db.visibleTask_eq_some.mpr ⟨Table.get?_set_self hfound t₁, hown.trans hu⟩
  have hrel (ks : ReleaseKinds) :
      (t₁.releaseReservations ks).2 = (t.releaseReservations ks).2 ∧
      (t₁.releaseReservations ks).1.reservations = (t.releaseReservations ks).1.reservations := by
    simp [Task.releaseReservations, hres]
  refine ⟨hfound, ?_, hown, hc, fun _ => hlog, .close back (hrel _).2 ?_, hnow, hid⟩
  · rw [htasks, Db.releaseTaskHoldings_tasks hvis₁, Db.setTask_tasks, Table.set_set]
  · rw [hacc, Db.releaseTaskHoldings, hvis₁]
    simp only [Db.applyReleaseAccounting_setTask, (hrel _).1, hu]
    rfl

/-- The batches of the domain announce no message. -/
theorem log_extends_appendEvents {t t₀ : Task} {es : List (EventBody × Option RoundId)}
    (h : t₀.log = t.log) (hes : ∀ e ∈ es, e.1.isMessageSaved = false) :
    t.log.Extends (t₀.appendEvents es).log :=
  h ▸ t₀.appendEvents_extends hes

/-! ## Requests -/

section Requests

variable {cfg : Settings} {nfc : String → String} {db db' : Db} {owner : UserId} {tid : TaskId}
  {reply : TaskReply}

theorem createTask_born {revision : RevisionId} {provider : Option ProviderId} {message : String}
    {mcpRefs : List ServerId}
    (h : createTask cfg db owner revision provider message mcpRefs = .ok (db', reply)) :
    ∃ tid t, t.ownerId = owner ∧ Born db db' tid t := by
  unfold createTask at h
  obtain ⟨resolved, -, h⟩ := bind_eq_ok.mp h
  obtain ⟨-, -, h⟩ := bind_eq_ok.mp h
  obtain ⟨rev, -, h⟩ := bind_eq_ok.mp h
  obtain ⟨mcpServers, -, h⟩ := bind_eq_ok.mp h
  obtain ⟨charged, hcharged, h⟩ := bind_eq_ok.mp h
  obtain ⟨-, -, h⟩ := bind_eq_ok.mp h
  obtain ⟨htasks, hnow, -⟩ := Db.chargeCreationQuota_frame hcharged
  simp only at h
  split at h
  · cases h
  · next hnone =>
    obtain ⟨rfl, -⟩ := Prod.mk.inj (Except.ok.inj h)
    rw [htasks] at hnone
    refine ⟨db.nextId, Task.create owner revision resolved mcpServers db.now (db.nextId + 1) message,
      rfl, hnone, ?_, rfl, ?_, rfl, ⟨charged, hcharged, rfl⟩, hnow, le_rfl, ?_⟩
    · show charged.tasks.insert _ _ = _
      rw [htasks]
    · exact (Log.Step.message _ _ _ _ _).extends
    · exact Nat.lt_add_of_pos_right (Nat.succ_pos 1)

/-- The task part of `commit_input`. -/
theorem Task.eq_of_commitInput {t t' : Task} {manifest : String} {now : Time} {rid : RoundId}
    (h : t.commitInput manifest now rid = .ok t') :
    t.status = .uploading ∧ t.activeRounds = [] ∧ t'.ownerId = t.ownerId ∧
      t'.reservations = t.reservations ++
        [⟨t.ownerId, .taskRoot, none, t.commitFiles.committedInputBytes, .held⟩] ∧
      (∃ mid, t'.control =
        ⟨.queued, t.pendingTerminal, t.rounds ++ [Control.pendingRound rid mid]⟩) ∧
      t.log.Extends t'.log := by
  unfold Task.commitInput at h
  obtain ⟨t₁, ht₁, h⟩ := bind_eq_ok.mp h
  obtain rfl := eq_of_insertReservation ht₁
  simp only at h
  split at h
  · cases h
  · next mid hmid =>
    obtain ⟨t₂, ht₂, h⟩ := bind_eq_ok.mp h
    obtain ⟨hactive, rfl⟩ := eq_of_insertRound ht₂
    obtain ⟨-, -, h⟩ := bind_eq_ok.mp h
    obtain ⟨hst, h⟩ := ite_ok_else_error.mp h
    cases h
    refine ⟨hst, hactive rfl, by simp [commitFiles], by simp [commitFiles, committedInputBytes],
      ⟨mid, by simp [control, commitFiles, Control.pendingRound]⟩, ?_⟩
    exact log_extends_appendEvents rfl (by simp [EventBody.isMessageSaved])

theorem commitInput_moved {manifest : String}
    (h : commitInput db owner tid manifest = .ok (db', reply)) :
    ∃ t t', Moved db db' .commit tid t t' := by
  unfold commitInput at h
  obtain ⟨t, ht, h⟩ := bind_eq_ok.mp h
  obtain ⟨-, -, h⟩ := bind_eq_ok.mp h
  obtain ⟨t', ht', h⟩ := bind_eq_ok.mp h
  obtain ⟨charged, hcharged, h⟩ := bind_eq_ok.mp h
  obtain ⟨rfl, -⟩ := Prod.mk.inj (Except.ok.inj h)
  obtain ⟨hfound, rfl⟩ := Db.visibleTask_eq_some.mp (lockTask_eq_ok ht).1
  obtain ⟨htasks, hnow, -⟩ := Db.chargeStorage_frame hcharged
  obtain ⟨hst, hactive, hown, hres, ⟨mid, hc⟩, hlog⟩ := Task.eq_of_commitInput ht'
  refine ⟨t, t', hfound, ?_, hown, ?_, fun _ => hlog, ?_, hnow, Nat.le_succ _⟩
  · show charged.tasks.set tid t' = _
    rw [htasks]
  · rw [hc]
    exact .commit db.nextId mid le_rfl (Nat.lt_succ_self _) hst
      (Control.activeStates_eq_nil_of_activeRounds hactive)
  · exact .commit _ charged _ _ hres hcharged rfl

theorem lockUploadingTask_eq_ok {t : Task} (h : lockUploadingTask db owner tid = .ok t) :
    db.visibleTask owner tid = some t := by
  unfold lockUploadingTask at h
  obtain ⟨t', ht', h⟩ := bind_eq_ok.mp h
  obtain ⟨-, -, h⟩ := bind_eq_ok.mp h
  obtain ⟨-, h⟩ := ite_error_eq_ok.mp h
  cases h
  exact (lockTask_eq_ok ht').1

theorem uploadFiles_moved {uploads : List (String × FileContent)} {rows : List TaskFile}
    (h : uploadFiles nfc db owner tid uploads = .ok (db', rows)) :
    ∃ t t', Moved db db' .quiet tid t t' := by
  unfold uploadFiles at h
  obtain ⟨t, ht, h⟩ := bind_eq_ok.mp h
  obtain ⟨-, -, h⟩ := bind_eq_ok.mp h
  obtain ⟨-, -, h⟩ := bind_eq_ok.mp h
  obtain ⟨-, -, h⟩ := bind_eq_ok.mp h
  obtain ⟨rfl, -⟩ := Prod.mk.inj (Except.ok.inj h)
  have hfound := (Db.visibleTask_eq_some.mp (lockUploadingTask_eq_ok ht)).1
  exact ⟨t, _, moved_quiet hfound rfl rfl rfl (Nat.le_add_right _ _) rfl rfl (.stay _) (.refl _)⟩

theorem deleteFile_moved {fid fid' : FileId} (h : deleteFile db owner tid fid = .ok (db', fid')) :
    ∃ t t', Moved db db' .quiet tid t t' := by
  unfold deleteFile at h
  obtain ⟨t, ht, h⟩ := bind_eq_ok.mp h
  obtain ⟨-, h⟩ := ite_error_eq_ok.mp h
  obtain ⟨rfl, -⟩ := Prod.mk.inj (Except.ok.inj h)
  have hfound := (Db.visibleTask_eq_some.mp (lockUploadingTask_eq_ok ht)).1
  exact ⟨t, _, moved_quiet hfound rfl rfl rfl le_rfl rfl rfl (.stay _) (.refl _)⟩

/-- `abort` and `complete` with the status they end in. -/
theorem PendingTerminal.status_eq {pt : PendingTerminal} (h : pt ≠ .deleted) :
    ∃ e : Ending, pt.status = e.status ∧ (e = .completed ∨ e = .aborted) := by
  cases pt with
  | completed => exact ⟨.completed, rfl, .inl rfl⟩
  | aborted => exact ⟨.aborted, rfl, .inr rfl⟩
  | deleted => exact absurd rfl h

theorem endTask_moved {terminal : PendingTerminal} {reason : Option AbortReason}
    (hterm : terminal ≠ .deleted) (h : endTask db owner tid terminal reason = .ok (db', reply)) :
    ∃ k t t', (k = .quiet ∨ k = .close false) ∧ Moved db db' k tid t t' := by
  unfold endTask at h
  obtain ⟨t, ht, h⟩ := bind_eq_ok.mp h
  have hvis := (lockTask_eq_ok ht).1
  have hfound := (Db.visibleTask_eq_some.mp hvis).1
  obtain ⟨e, he, hce⟩ := PendingTerminal.status_eq hterm
  split at h
  · next hst =>
    obtain ⟨rfl, -⟩ := Prod.mk.inj (Except.ok.inj h)
    refine ⟨.quiet, t, _, .inl rfl, moved_quiet hfound rfl rfl rfl le_rfl ?_ ?_ ?_ ?_⟩ <;>
      unfold Task.requestTerminalWhileRunning
    · split <;> rfl
    · split <;> rfl
    · split
      · exact .stay _
      · next hr => exact .request terminal hst hr
    · split <;> exact .refl _
  · next hst =>
    obtain ⟨t', ht', h⟩ := bind_eq_ok.mp h
    obtain ⟨rfl, -⟩ := Prod.mk.inj (Except.ok.inj h)
    obtain ⟨-, -, ht'⟩ := bind_eq_ok.mp ht'
    cases ht'
    refine ⟨.close false, t, _, .inr rfl, moved_close hvis ?_ ?_ ?_ ?_ rfl rfl ?_ ?_⟩
    · simp [Task.updateRounds]
    · simp [Task.updateRounds]
    · rw [he]
      simp only [Task.control, Task.appendEvents_status, Task.appendEvents_pendingTerminal,
        Task.appendEvents_rounds]
      exact .endQueued (c := t.control) e hst
    · refine log_extends_appendEvents rfl ?_
      intro x hx
      split at hx <;> simp at hx <;> rcases hx with rfl | rfl <;> rfl
    · simp
    · simp
  · next hrun hqu =>
    obtain ⟨t', ht', h⟩ := bind_eq_ok.mp h
    obtain ⟨rfl, -⟩ := Prod.mk.inj (Except.ok.inj h)
    obtain ⟨⟨⟩, hvalid, ht'⟩ := bind_eq_ok.mp ht'
    cases ht'
    -- of the remaining statuses, only `ready` may become `completed` or `aborted`
    have hready : t.status = .ready := by
      have hmem := assertTransition_eq_ok.mp hvalid
      rw [he] at hmem
      rcases hce with rfl | rfl <;> cases hs : t.status <;>
        simp_all [validTransitions, Ending.status]
    refine ⟨.close false, t, _, .inr rfl, moved_close hvis ?_ ?_ ?_ ?_ rfl rfl ?_ ?_⟩
    · simp
    · simp
    · rw [he]
      simp only [Task.control, Task.appendEvents_status, Task.appendEvents_pendingTerminal,
        Task.appendEvents_rounds]
      exact .endReady (c := t.control) e hready
    · exact log_extends_appendEvents rfl (by simp [EventBody.isMessageSaved])
    · simp
    · simp

theorem deleteTask_moved (h : deleteTask db owner tid = .ok (db', reply)) :
    ∃ t t', Moved db db' (.close false) tid t t' := by
  unfold deleteTask at h
  obtain ⟨t, ht, h⟩ := bind_eq_ok.mp h
  obtain ⟨hvis, hne⟩ := lockTask_eq_ok ht
  obtain ⟨t', ht', h⟩ := bind_eq_ok.mp h
  obtain ⟨rfl, -⟩ := Prod.mk.inj (Except.ok.inj h)
  obtain ⟨-, -, ht'⟩ := bind_eq_ok.mp ht'
  cases ht'
  have hown : t.deleteRounds.ownerId = t.ownerId ∧ t.deleteRounds.reservations = t.reservations ∧
      t.deleteRounds.log = t.log := by
    unfold Task.deleteRounds
    split <;> exact ⟨rfl, rfl, rfl⟩
  have hc : ({ t.deleteRounds with status := .deleted } : Task).control = t.control.delete := by
    unfold Task.deleteRounds Control.delete Task.control
    cases t.status <;> rfl
  refine ⟨t, _, moved_close hvis ?_ ?_ ?_ ?_ rfl rfl ?_ ?_⟩
  · simpa using hown.1
  · simpa using hown.2.1
  · have hctl := Control.Move.delete (n := db.nextId) (m := db.nextId) (c := t.control) hne
    rw [← hc] at hctl
    simpa [Task.control] using hctl
  · refine log_extends_appendEvents hown.2.2 ?_
    intro x hx
    split at hx <;> simp at hx
    · rcases hx with rfl | rfl <;> rfl
    · rw [hx]
      rfl
  · simp
  · simp

/-- The task part of `send_message`. -/
theorem Task.eq_of_sendMessage {t t' : Task} {mid : MessageId} {rid : RoundId} {content : String}
    (h : t.sendMessage mid rid content = .ok t') :
    t.activeRounds = [] ∧ t'.ownerId = t.ownerId ∧ t'.reservations = t.reservations ∧
      t'.control = ⟨.queued, t.pendingTerminal, t.rounds ++ [Control.pendingRound rid mid]⟩ ∧
      t.log.Extends t'.log := by
  unfold Task.sendMessage at h
  obtain ⟨-, -, h⟩ := bind_eq_ok.mp h
  obtain ⟨t₁, ht₁, h⟩ := bind_eq_ok.mp h
  obtain ⟨hactive, rfl⟩ := eq_of_insertRound (mapError_eq_ok.mp ht₁)
  cases h
  refine ⟨hactive rfl, rfl, rfl, rfl, ?_⟩
  refine (Log.Step.message t.log mid .user content none).extends.trans ?_
  refine (Log.Step.event _ (.statusChanged .queued none) none rfl).extends.trans ?_
  exact (Log.Step.event _ (.roundQueued rid none) (some rid) rfl).extends

theorem sendMessage_moved {content : String}
    (h : sendMessage cfg db owner tid content = .ok (db', reply)) :
    ∃ t t', Moved db db' .quiet tid t t' := by
  unfold sendMessage at h
  obtain ⟨t, ht, h⟩ := bind_eq_ok.mp h
  obtain ⟨⟨⟩, hready, h⟩ := bind_eq_ok.mp h
  obtain ⟨-, -, h⟩ := bind_eq_ok.mp h
  obtain ⟨t', ht', h⟩ := bind_eq_ok.mp h
  obtain ⟨rfl, -⟩ := Prod.mk.inj (Except.ok.inj h)
  have hfound := (Db.visibleTask_eq_some.mp (lockTask_eq_ok ht).1).1
  have hst : t.status = .ready := by
    obtain ⟨-, hready⟩ := ite_error_eq_ok.mp hready
    obtain ⟨hst, -⟩ := ite_error_eq_ok.mp hready
    exact not_not.mp hst
  obtain ⟨hactive, hown, hres, hc, hlog⟩ := Task.eq_of_sendMessage ht'
  refine ⟨t, t', moved_quiet hfound rfl rfl rfl (Nat.le_add_right _ _) hown hres ?_ hlog⟩
  rw [hc]
  exact .send (db.nextId + 1) db.nextId (Nat.le_succ _) (Nat.lt_succ_self _) hst
    (Control.activeStates_eq_nil_of_activeRounds hactive)

end Requests

/-! ## Fenced writes -/

section Writes

variable {cfg : Settings} {nfc : String → String} {db db' : Db} {c : RoundContext}

/-- Under a fence that matches, a task in some phase executes. -/
theorem status_of_fences {t : Task} {q : Phase} (hq : t.control.phase? = some q)
    (hr : t.rounds.countP c.fences ≠ 0) : t.status = .running :=
  (Control.eq_executing hq (Control.activeStates_of_hit hq (fun _ h => c.state_of_fences h) rfl hr)).2.1

theorem countP_ne_zero_of_find? {rounds : List TaskRound} {p : TaskRound → Bool} {r : TaskRound}
    (h : rounds.find? p = some r) : rounds.countP p ≠ 0 :=
  (List.countP_pos_iff.mpr ⟨r, List.mem_of_find?_eq_some h, List.find?_some h⟩).ne'

theorem persistFact_moved {author : MessageAuthor} {content : String}
    (h : persistFact db c author content = .ok db') :
    ∃ t t', t.rounds.countP c.fences ≠ 0 ∧ Moved db db' .quiet c.task t t' := by
  unfold persistFact at h
  split at h
  · cases h
  · next t hvis =>
    obtain ⟨hr, h⟩ := ite_error_eq_ok.mp h
    cases h
    have hfound := (Db.visibleTask_eq_some.mp hvis).1
    refine ⟨t, _, hr, moved_quiet hfound rfl rfl rfl (Nat.le_succ _) rfl rfl (.stay _) ?_⟩
    exact (Log.Step.message _ _ _ _ _).extends

/-- The task part of `settle`, under a fence that matches. -/
theorem Task.eq_of_settle {t t' : Task} {mid : MessageId} {pending : Option String}
    {finishReason usage : String} {revoked : Bool} (hst : t.status = .running)
    (h : t.settle c mid pending finishReason usage revoked = .ok t') :
    t.rounds.countP c.fences ≠ 0 ∧ t'.ownerId = t.ownerId ∧ t'.reservations = t.reservations ∧
      t'.control = t.control.settle c revoked ∧ t.log.Extends t'.log := by
  unfold Task.settle at h
  split at h
  · cases h
  · next r hfind =>
    cases h
    refine ⟨countP_ne_zero_of_find? hfind, ?_⟩
    have hfinish {t₁ : Task} (hst₁ : t₁.status = .running) (hown : t₁.ownerId = t.ownerId)
        (hres : t₁.reservations = t.reservations)
        (hc : t₁.control = t.control.updateRounds c.fences (·.settle)) (hlog : t.log.Extends t₁.log) :
        (t₁.settleStatus revoked).ownerId = t.ownerId ∧
          (t₁.settleStatus revoked).reservations = t.reservations ∧
          (t₁.settleStatus revoked).control = t.control.settle c revoked ∧
          t.log.Extends (t₁.settleStatus revoked).log := by
      unfold Task.settleStatus
      rw [if_neg (not_not.mpr hst₁)]
      refine ⟨by simpa using hown, by simpa using hres, ?_, ?_⟩
      · unfold Control.settle
        rw [← hc]
        simp [Task.control]
      · exact hlog.trans (log_extends_appendEvents rfl (by simp [EventBody.isMessageSaved]))
    cases pending with
    | none =>
      refine hfinish (by simpa [Task.updateRounds] using hst) (by simp [Task.updateRounds])
        (by simp [Task.updateRounds])
        (by simp [Task.control, Task.updateRounds, Control.updateRounds]) ?_
      exact log_extends_appendEvents rfl (by simp [EventBody.isMessageSaved])
    | some content =>
      refine hfinish (by simpa [Task.updateRounds] using hst) (by simp [Task.updateRounds])
        (by simp [Task.updateRounds])
        (by simp [Task.control, Task.updateRounds, Control.updateRounds]) ?_
      refine (Log.Step.message t.log mid .assistant content (some c.round)).extends.trans ?_
      refine Task.appendEvents_extends
        ((t.updateRounds c.fences (·.settle)).saveMessage mid .assistant content (some c.round)) ?_
      simp [EventBody.isMessageSaved]

theorem settle_moved {pending : Option String} {finishReason usage : String}
    (hphase : ∀ t, db.tasks.get? c.task = some t → ∃ q, t.control.phase? = some q)
    (h : settle db c pending finishReason usage = .ok db') :
    ∃ t t', t.rounds.countP c.fences ≠ 0 ∧
      t'.rounds = updateWhere c.fences (·.settle) t.rounds ∧ Moved db db' (.close true) c.task t t' := by
  unfold settle at h
  split at h
  · cases h
  · next t hvis =>
    obtain ⟨t', ht', h⟩ := bind_eq_ok.mp h
    cases h
    obtain ⟨q, hq⟩ := hphase t (Db.visibleTask_eq_some.mp hvis).1
    have hr : t.rounds.countP c.fences ≠ 0 := by
      unfold Task.settle at ht'
      split at ht'
      · cases ht'
      · next r hfind => exact countP_ne_zero_of_find? hfind
    obtain ⟨-, hown, hres, hc, hlog⟩ := Task.eq_of_settle (status_of_fences hq hr) ht'
    refine ⟨t, t'.releaseHoldings, hr, congrArg Control.rounds hc,
      moved_close hvis hown hres ?_ hlog rfl rfl ?_ (Nat.le_succ _)⟩
    · rw [hc]
      exact .settle c _ hr
    · simp

theorem failAtDeadline_moved
    (hphase : ∀ t, db.tasks.get? c.task = some t → ∃ q, t.control.phase? = some q)
    (h : failAtDeadline db c = .ok db') :
    ∃ t t', t.rounds.countP c.fences ≠ 0 ∧ Moved db db' (.close false) c.task t t' := by
  unfold failAtDeadline at h
  split at h
  · cases h
  · next t hvis =>
    split at h
    · cases h
    · next r hfind =>
      obtain ⟨q, hq⟩ := hphase t (Db.visibleTask_eq_some.mp hvis).1
      have hr := countP_ne_zero_of_find? hfind
      simp only at h
      rw [if_neg (not_not.mpr (status_of_fences hq hr))] at h
      cases h
      refine ⟨t, _, hr, moved_close hvis ?_ ?_ ?_ ?_ rfl rfl ?_ ?_⟩
      · simp [Task.updateRounds]
      · simp [Task.updateRounds]
      · simp only [Task.control, Task.appendEvents_status, Task.appendEvents_pendingTerminal,
          Task.appendEvents_rounds]
        exact .deadline (c := t.control) c hr
      · exact log_extends_appendEvents rfl (by simp [EventBody.isMessageSaved])
      · simp
      · simp

theorem renewLease_moved (h : renewLease cfg db c = .ok db') :
    ∃ t t', t.rounds.countP c.fences ≠ 0 ∧ Moved db db' .renew c.task t t' := by
  unfold renewLease at h
  split at h
  · cases h
  · next t hvis =>
    obtain ⟨hr, h⟩ := ite_error_eq_ok.mp h
    cases h
    have hfound := (Db.visibleTask_eq_some.mp hvis).1
    exact ⟨t, _, hr, hfound, rfl, rfl, .renew c _, fun _ => .refl _, .renew rfl _ rfl, rfl, le_rfl⟩

/-- Refunding nothing changes nothing. -/
theorem Db.refundStorage_zero (db : Db) (u : UserId) : db.refundStorage u 0 = db := by
  have husage : (db.usage.map fun u' row =>
      if u' = u && decide (((0 : ℕ) : ℤ) ≤ row.retainedStorageBytes) then
        { row with retainedStorageBytes := row.retainedStorageBytes - ((0 : ℕ) : ℤ) } else row)
        = db.usage := by
    simp [Table.map]
  unfold Db.refundStorage Db.updateUsage Db.addPlatformStorage
  rw [husage]
  split <;> simp

theorem Task.eq_of_retireOldRow {t t' : Task} {old : TaskFile} {refunded : ℕ}
    (h : t.retireOldRow old = .ok (t', refunded)) :
    refunded = copiedBytes t (·.copies old.id) ∧ t'.ownerId = t.ownerId ∧
      t'.control = t.control ∧ t'.log = t.log ∧
      t'.reservations = updateWhere (·.copies old.id) (fun r => { r with state := .released })
        t.reservations := by
  obtain ⟨-, h⟩ := ite_error_eq_ok.mp h
  obtain ⟨rfl, rfl⟩ := Prod.mk.inj (Except.ok.inj h)
  exact ⟨rfl, rfl, rfl, rfl, rfl⟩

theorem Task.eq_of_insertRegisteredRow {t t' : Task} {fid : FileId} {fileName : String}
    {content : FileContent} {rid : RoundId}
    (h : t.insertRegisteredRow fid fileName content rid = .ok t') :
    t'.ownerId = t.ownerId ∧ t'.control = t.control ∧ t'.log = t.log ∧
      t'.reservations = t.reservations ++
        [⟨t.ownerId, .artifactCopy, some fid, content.size, .held⟩] := by
  obtain rfl := eq_of_insertReservation h
  exact ⟨rfl, rfl, rfl, rfl⟩

/-- The task part of `register_output`: at most one old copy is released, one new copy is held. -/
theorem Task.eq_of_registerOutput {t t' : Task} {fid : FileId} {fileName : String}
    {content : FileContent} {rid : RoundId} {epoch refunded : ℕ}
    (h : t.registerOutput nfc fid fileName content rid epoch = .ok (t', refunded)) :
    t.rounds.countP (·.runsAt rid epoch) ≠ 0 ∧ t'.ownerId = t.ownerId ∧ t'.control = t.control ∧
      t'.log = t.log ∧ ∃ p : TaskReservation → Bool,
        (∀ r, p r = true → r.kind = .artifactCopy ∧ r.state = .held) ∧
        refunded = copiedBytes t p ∧
        t'.reservations = updateWhere p (fun r => { r with state := .released }) t.reservations ++
          [⟨t.ownerId, .artifactCopy, some fid, content.size, .held⟩] := by
  unfold Task.registerOutput at h
  obtain ⟨⟨⟩, hfence, h⟩ := bind_eq_ok.mp h
  refine ⟨(ite_error_eq_ok.mp hfence).1, ?_⟩
  obtain ⟨-, -, h⟩ := bind_eq_ok.mp h
  simp only at h
  split at h
  · obtain ⟨-, -, h⟩ := bind_eq_ok.mp h
    obtain ⟨t₁, ht₁, h⟩ := bind_eq_ok.mp h
    obtain ⟨rfl, rfl⟩ := Prod.mk.inj (Except.ok.inj h)
    obtain ⟨hown, hc, hlog, hres⟩ := Task.eq_of_insertRegisteredRow ht₁
    refine ⟨hown, hc, hlog, fun _ => false, by simp, by simp [copiedBytes], ?_⟩
    simpa [updateWhere] using hres
  · next old hold =>
    obtain ⟨-, -, h⟩ := bind_eq_ok.mp h
    obtain ⟨⟨t₁, n⟩, ht₁, h⟩ := bind_eq_ok.mp h
    obtain ⟨t₂, ht₂, h⟩ := bind_eq_ok.mp h
    obtain ⟨rfl, rfl⟩ := Prod.mk.inj (Except.ok.inj h)
    obtain ⟨hn, hown₁, hc₁, hlog₁, hres₁⟩ := Task.eq_of_retireOldRow ht₁
    obtain ⟨hown, hc, hlog, hres⟩ := Task.eq_of_insertRegisteredRow ht₂
    refine ⟨hown.trans hown₁, hc.trans hc₁, hlog.trans hlog₁, _, ?_, hn, ?_⟩
    · intro r hr
      simp only [TaskReservation.copies, Bool.and_eq_true, decide_eq_true_eq] at hr
      exact ⟨hr.1.2, hr.2⟩
    · rw [hres, hres₁, hown₁]

theorem registerOutput_moved {owner : UserId} {tid : TaskId} {fileName : String}
    {content : FileContent} {rid : RoundId} {epoch : ℕ} {fid : FileId}
    (h : registerOutput nfc db owner tid fileName content rid epoch = .ok (db', fid)) :
    ∃ t t', t.rounds.countP (·.runsAt rid epoch) ≠ 0 ∧ Moved db db' .quiet tid t t' := by
  unfold registerOutput at h
  obtain ⟨t, ht, h⟩ := bind_eq_ok.mp h
  obtain ⟨⟨t', refunded⟩, ht', h⟩ := bind_eq_ok.mp h
  obtain ⟨charged, hcharged, h⟩ := bind_eq_ok.mp h
  obtain ⟨rfl, -⟩ := Prod.mk.inj (Except.ok.inj h)
  obtain ⟨hfound, rfl⟩ := Db.visibleTask_eq_some.mp (lockTask_eq_ok ht).1
  obtain ⟨hr, hown, hc, hlog, p, hp, rfl, hres⟩ := Task.eq_of_registerOutput ht'
  have hrefund : (if copiedBytes t p = 0 then db else db.refundStorage t.ownerId (copiedBytes t p))
      = db.refundStorage t.ownerId (copiedBytes t p) := by
    split
    · next h0 => rw [h0, Db.refundStorage_zero]
    · rfl
  rw [hrefund] at hcharged
  obtain ⟨htasks, hnow, hid⟩ := Db.chargeStorage_frame hcharged
  refine ⟨t, t', hr, hfound, ?_, hown, ?_, fun _ => ?_, ?_, ?_, Nat.le_succ _⟩
  · show charged.tasks.set tid t' = _
    rw [htasks]
    simp [Db.refundStorage]
  · rw [hc]
    exact .stay _
  · rw [hlog]
    exact .refl _
  · exact .output p db.nextId content.size charged _ _ hp hres hcharged rfl
  · show charged.now = db.now
    rw [hnow]
    simp [Db.refundStorage]

end Writes

/-! ## Candidates -/

section Jobs

variable {cfg : Settings} {db db' : Db}

/-- The task part of `_claim_round`. -/
theorem Task.eq_of_claimRound {t t' : Task} {rid : RoundId} {iid : InstanceId} {e : Time}
    (h : t.claimRound rid iid e = .ok t') :
    t.status = .queued ∧ t.rounds.countP (·.claimable rid) ≠ 0 ∧ t'.ownerId = t.ownerId ∧
      t'.reservations = t.reservations ++ [⟨t.ownerId, .running, none, 0, .held⟩] ∧
      t'.control = { t.control.updateRounds (·.claimable rid) (·.claim iid e) with
        status := .running } ∧
      t.log.Extends t'.log := by
  unfold Task.claimRound at h
  split at h
  · cases h
  · next r hfind =>
    obtain ⟨hst, h⟩ := ite_error_eq_ok.mp h
    obtain ⟨t₁, ht₁, h⟩ := bind_eq_ok.mp h
    obtain rfl := eq_of_insertReservation ht₁
    cases h
    refine ⟨not_not.mp hst, countP_ne_zero_of_find? hfind, by simp [Task.updateRounds],
      by simp [Task.updateRounds],
      by simp [Task.control, Task.updateRounds, Control.updateRounds], ?_⟩
    exact log_extends_appendEvents rfl (by simp [EventBody.isMessageSaved])

theorem claimRound_moved {locked : List ℕ} {c : RoundCandidate} {iid : InstanceId}
    (h : claimRound cfg db locked c iid = .ok db') :
    ∃ t t', t.rounds.countP (·.claimable c.round) ≠ 0 ∧
      t'.rounds = updateWhere (·.claimable c.round) (·.claim iid (db.now + cfg.leaseTtlSeconds))
        t.rounds ∧
      Moved db db' .claim c.task t t' := by
  unfold claimRound at h
  split at h
  · cases h
  · next t hvis =>
    obtain ⟨hfound, hu⟩ := Db.visibleTask_eq_some.mp hvis
    obtain ⟨t', ht', h⟩ := bind_eq_ok.mp h
    obtain ⟨charged, hcharged, h⟩ := bind_eq_ok.mp h
    obtain ⟨hst, hr, hown, hres, hc, hlog⟩ := Task.eq_of_claimRound ht'
    obtain ⟨hhit, hcharged⟩ := ite_ok_else_error.mp hcharged
    cases hcharged
    unfold Db.leaseSlot at h
    split at h
    · cases h
    · next s hfind =>
      cases h
      have hfree : s.2.state = .free := by
        have hs := List.find?_some hfind
        simp only [Bool.and_eq_true, decide_eq_true_eq] at hs
        exact hs.1
      have hslot : db.slots.get? s.1 = some s.2 :=
        Table.get?_eq_some_iff.mpr (List.mem_of_find?_eq_some hfind)
      refine ⟨t, t', hr, congrArg Control.rounds hc, hfound, rfl, hown, ?_, fun _ => hlog, ?_, rfl,
        le_rfl⟩
      · rw [hc]
        exact .claim (c := t.control) c.round iid _ hst hr
      · rw [← hu] at hhit
        exact .claim _ s.1 _ s.2 hres hhit hslot hfree (by rw [hu]; rfl)

/-- The task part of `_reclaim_expired_round`. -/
theorem Task.eq_of_reclaimExpired {t t' : Task} {c : ExpiredCandidate}
    (h : t.reclaimExpired c = .ok t') :
    ∃ r, t.rounds.find? c.fences = some r ∧ t.status = .running ∧ t'.ownerId = t.ownerId ∧
      t'.reservations = t.reservations ∧ t'.control = t.control.reclaim c r.attempt ∧
      t.log.Extends t'.log := by
  unfold Task.reclaimExpired at h
  split at h
  · cases h
  · next r hfind =>
    obtain ⟨hst, h⟩ := ite_error_eq_ok.mp h
    refine ⟨r, hfind, not_not.mp hst, ?_⟩
    simp only at h
    split at h
    · next hlim =>
      cases h
      refine ⟨by simp [Task.updateRounds], by simp [Task.updateRounds], ?_,
        log_extends_appendEvents rfl (by simp [EventBody.isMessageSaved])⟩
      simp [Task.control, Task.updateRounds, Control.reclaim, Control.updateRounds, reclaimOutcome,
        hlim]
    · next hlim =>
      cases h
      refine ⟨by simp [Task.updateRounds], by simp [Task.updateRounds], ?_,
        log_extends_appendEvents rfl (by simp [EventBody.isMessageSaved])⟩
      simp [Task.control, Task.updateRounds, Control.reclaim, Control.updateRounds, reclaimOutcome,
        hlim]

theorem reclaimExpired_moved {c : ExpiredCandidate} (h : reclaimExpired db c = .ok db') :
    ∃ t t' r, t.rounds.find? c.fences = some r ∧ t'.status = (reclaimOutcome r.attempt).2 ∧
      t'.rounds = updateWhere c.fences (·.reclaim r.attempt) t.rounds ∧
      Moved db db' (.close true) c.task t t' := by
  unfold reclaimExpired at h
  split at h
  · cases h
  · next t hvis =>
    obtain ⟨t', ht', h⟩ := bind_eq_ok.mp h
    cases h
    obtain ⟨r, hfind, hst, hown, hres, hc, hlog⟩ := Task.eq_of_reclaimExpired ht'
    refine ⟨t, t'.releaseHoldings, r, hfind, congrArg Control.status hc, congrArg Control.rounds hc,
      moved_close hvis hown hres ?_ hlog rfl rfl (by simp) (by simp)⟩
    rw [hc]
    exact .reclaim c r hst hfind

theorem cancelCancellingRound_moved {c : RoundCandidate}
    (h : cancelCancellingRound db c = .ok db') : ∃ t t', Moved db db' (.close false) c.task t t' := by
  unfold cancelCancellingRound at h
  split at h
  · cases h
  · next t hvis =>
    obtain ⟨t', ht', h⟩ := bind_eq_ok.mp h
    cases h
    obtain ⟨hr, ht'⟩ := ite_error_eq_ok.mp ht'
    cases ht'
    refine ⟨t, _, moved_close hvis (by simp [Task.updateRounds]) (by simp [Task.updateRounds]) ?_ ?_
      rfl rfl (by simp) (by simp)⟩
    · simp only [Task.control, Task.appendEvents_status, Task.appendEvents_pendingTerminal,
        Task.appendEvents_rounds]
      exact .cancelRound (c := t.control) c.round hr
    · exact log_extends_appendEvents rfl (by simp [EventBody.isMessageSaved])

theorem expireUpload_moved {c : TaskCandidate} (h : expireUpload db c = .ok db') :
    ∃ t t', Moved db db' (.close false) c.task t t' := by
  unfold expireUpload at h
  split at h
  · cases h
  · next t hvis =>
    obtain ⟨t', ht', h⟩ := bind_eq_ok.mp h
    cases h
    obtain ⟨hst, ht'⟩ := ite_error_eq_ok.mp ht'
    cases ht'
    refine ⟨t, _, moved_close hvis (by simp) (by simp) ?_ ?_ rfl rfl (by simp) (by simp)⟩
    · simp only [Task.control, Task.appendEvents_status, Task.appendEvents_pendingTerminal,
        Task.appendEvents_rounds]
      exact .expire (c := t.control) (not_not.mp hst)
    · exact log_extends_appendEvents rfl (by simp [EventBody.isMessageSaved])

/-- The sweep relies on its scan: the task must still be terminal. -/
theorem cleanupTask_moved {c : TaskCandidate}
    (hterm : ∀ t, db.visibleTask c.owner c.task = some t → t.status.isTerminal = true)
    (h : cleanupTask db c = .ok db') : db' = db ∨ ∃ t t', Moved db db' .cleanup c.task t t' := by
  unfold cleanupTask at h
  split at h
  · cases h
    exact .inl rfl
  · next t hvis =>
    cases h
    obtain ⟨hfound, hu⟩ := Db.visibleTask_eq_some.mp hvis
    refine .inr ⟨t, t.cleanup, hfound, by simp, rfl, .cleanup (hterm t hvis), by simp, ?_, by simp,
      by simp⟩
    refine .cleanup rfl ?_
    rw [Db.applyReleaseAccounting_setTask, hu]
    rfl

/-- The reconciliation relies on its scan: the task must still be without an active round. -/
theorem reconcile_moved {c : ReconcileCandidate}
    (hstop : ∀ t, db.visibleTask c.owner c.task = some t → t.status = .running →
      t.pendingTerminal = some c.terminal → t.control.activeStates = [])
    (h : reconcile db c = .ok db') : ∃ t t', Moved db db' (.close false) c.task t t' := by
  unfold reconcile at h
  split at h
  · cases h
  · next t hvis =>
    obtain ⟨t', ht', h⟩ := bind_eq_ok.mp h
    cases h
    obtain ⟨⟨hst, hpt⟩, ht'⟩ := ite_ok_else_error.mp ht'
    cases ht'
    refine ⟨t, _, moved_close hvis (by simp) (by simp) ?_ ?_ rfl rfl (by simp) (by simp)⟩
    · simp only [Task.control, Task.appendEvents_status, Task.appendEvents_pendingTerminal,
        Task.appendEvents_rounds]
      exact .reconcile (c := t.control) c.terminal hst hpt (hstop t hvis hst hpt)
    · exact log_extends_appendEvents rfl (by simp [EventBody.isMessageSaved])

theorem terminate_moved {c : TaskCandidate} {reason : AbortReason}
    (h : terminate db c reason = .ok db') : ∃ t t', Moved db db' (.close false) c.task t t' := by
  unfold terminate at h
  split at h
  · cases h
  · next t hvis =>
    obtain ⟨t', ht', h⟩ := bind_eq_ok.mp h
    cases h
    obtain ⟨hst, ht'⟩ := ite_ok_else_error.mp ht'
    cases ht'
    refine ⟨t, _, moved_close hvis (by simp [Task.updateRounds]) (by simp [Task.updateRounds]) ?_ ?_
      rfl rfl (by simp) (by simp)⟩
    · simp only [Task.control, Task.appendEvents_status, Task.appendEvents_pendingTerminal,
        Task.appendEvents_rounds]
      exact .terminate (c := t.control) hst
    · refine log_extends_appendEvents rfl ?_
      intro e he
      rcases List.mem_cons.mp he with rfl | he
      · rfl
      · obtain ⟨rid, -, rfl⟩ := List.mem_map.mp he
        rfl

end Jobs

/-! ## Provider failures -/

section Providers

variable {db : Db} {reason : AbortReason}

theorem Db.releaseUnstartedAccounting_frame (db : Db) (u : UserId) (released : Released) :
    (db.releaseUnstartedAccounting u released).tasks = db.tasks ∧
      (db.releaseUnstartedAccounting u released).now = db.now ∧
      (db.releaseUnstartedAccounting u released).nextId = db.nextId := by
  unfold Db.releaseUnstartedAccounting
  split <;> exact ⟨rfl, rfl, rfl⟩

theorem Db.releaseUnstartedAccounting_setTask (db : Db) (tid : TaskId) (t : Task) (u : UserId)
    (released : Released) :
    ((db.setTask tid t).releaseUnstartedAccounting u released).accounts =
      (db.releaseUnstartedAccounting u released).accounts := by
  unfold Db.releaseUnstartedAccounting
  split <;> rfl

/-- One round of the `fail_unstarted_tasks` loop. -/
theorem failUnstartedTask_moved (reason : AbortReason) {tid : TaskId} {t : Task}
    (hfound : db.tasks.get? tid = some t) (hst : t.status.isUnstarted = true) :
    Moved db (failUnstartedTask reason db tid) .fail tid t (t.failUnstarted reason) := by
  have hdb : failUnstartedTask reason db tid = (db.setTask tid (t.failUnstarted reason)
      ).releaseUnstartedAccounting t.ownerId (t.releaseReservations none).2 := by
    simp [failUnstartedTask, hfound]
  obtain ⟨htasks, hnow, hid⟩ := Db.releaseUnstartedAccounting_frame
    (db.setTask tid (t.failUnstarted reason)) t.ownerId (t.releaseReservations none).2
  rw [hdb]
  refine ⟨hfound, htasks, by simp [Task.failUnstarted, Task.updateRounds, Task.releaseReservations],
    ?_, fun _ => ?_, ?_, hnow, hid.ge⟩
  · have hc : (t.failUnstarted reason).control =
        { t.control.cancelPending with status := .failed } := by
      simp [Task.failUnstarted, Task.control, Task.updateRounds, Task.releaseReservations,
        Control.cancelPending, Control.updateRounds]
    rw [hc]
    exact .fail (c := t.control) hst
  · refine log_extends_appendEvents rfl ?_
    intro e he
    rcases List.mem_cons.mp he with rfl | he
    · rfl
    · split at he <;> simp at he
      rw [he]
      rfl
  · refine .fail ?_ (Db.releaseUnstartedAccounting_setTask _ _ _ _ _)
    simp [Task.failUnstarted, Task.updateRounds, Task.releaseReservations]

/-- What a loop over `ids` is expected to do: fail each of the tasks, from the row it had before. -/
def FailsAmong (db : Db) (ids : List TaskId) : Expects :=
  fun k tid t => k = .fail ∧ tid ∈ ids ∧ db.tasks.get? tid = some t

/-- The loop moves each of its tasks once. -/
theorem foldl_failUnstartedTask (db₀ : Db) {ids : List TaskId} (hnd : ids.Nodup)
    (hsame : ∀ tid ∈ ids, db.tasks.get? tid = db₀.tasks.get? tid)
    (hst : ∀ tid ∈ ids, ∃ t, db₀.tasks.get? tid = some t ∧ t.status.isUnstarted = true) :
    Changes (FailsAmong db₀ ids) db (ids.foldl (failUnstartedTask reason) db) := by
  induction ids generalizing db with
  | nil => exact .refl
  | cons tid ids ih =>
    obtain ⟨hnot, hnd⟩ := List.nodup_cons.mp hnd
    obtain ⟨t, ht, hun⟩ := hst tid List.mem_cons_self
    have hm := failUnstartedTask_moved reason
      ((hsame tid List.mem_cons_self).trans ht) hun
    have hrest : Changes (FailsAmong db₀ ids) (failUnstartedTask reason db tid)
        (ids.foldl (failUnstartedTask reason) (failUnstartedTask reason db tid)) := by
      refine ih hnd (fun tid' h' => ?_) fun tid' h' => hst tid' (List.mem_cons_of_mem _ h')
      have hne : tid' ≠ tid := fun he => hnot (he ▸ h')
      rw [hm.written, Table.get?_set_ne _ hne, hsame tid' (List.mem_cons_of_mem _ h')]
    refine Relation.ReflTransGen.head (.moved _ tid t _ hm ⟨rfl, List.mem_cons_self, ht⟩) ?_
    exact hrest.mono fun k tid' t' ⟨hk, hmem, h'⟩ => ⟨hk, List.mem_cons_of_mem _ hmem, h'⟩

theorem failUnstartedTasks_changes (db : Db) (pid : ProviderId) :
    Changes (FailsAmong db (unstartedTasks db pid)) db (failUnstartedTasks db pid reason) := by
  refine foldl_failUnstartedTask db ?_ (fun _ _ => rfl) fun tid htid => ?_
  · exact db.tasks.nodup.sublist (List.filter_sublist.map Prod.fst)
  · obtain ⟨⟨tid', t⟩, hrow, rfl⟩ := List.mem_map.mp htid
    obtain ⟨hmem, hp⟩ := List.mem_filter.mp hrow
    simp only [Bool.and_eq_true, decide_eq_true_eq] at hp
    exact ⟨t, Table.get?_eq_some_iff.mpr hmem, hp.2⟩

variable {db' : Db} {owner : UserId} {pid : ProviderId}

/-- Writing the provider row touches no task. -/
theorem setProvider_failUnstartedTasks (row : UserProvider) :
    Changes (FailsAmong db (unstartedTasks db pid)) db
      (failUnstartedTasks { db with providers := db.providers.set pid row } pid reason) := by
  have hstill : Change (FailsAmong db (unstartedTasks db pid)) db
      { db with providers := db.providers.set pid row } := .still rfl rfl le_rfl le_rfl
  exact Relation.ReflTransGen.head hstill
    (failUnstartedTasks_changes { db with providers := db.providers.set pid row } pid)

theorem rotateProviderKey_changes (h : rotateProviderKey db owner pid = .ok db') :
    Changes (FailsAmong db (unstartedTasks db pid)) db db' := by
  obtain ⟨row, -, h⟩ := bind_eq_ok.mp h
  cases h
  exact setProvider_failUnstartedTasks _

theorem revokeProvider_changes (h : revokeProvider db owner pid = .ok db') :
    Changes (FailsAmong db (unstartedTasks db pid)) db db' := by
  obtain ⟨row, -, h⟩ := bind_eq_ok.mp h
  cases h
  exact setProvider_failUnstartedTasks _

theorem createProvider_still {modelId : String} {isDefault : Bool}
    (h : createProvider db owner modelId isDefault = .ok db') :
    db'.tasks = db.tasks ∧ db'.accounts = db.accounts ∧ db'.now = db.now ∧
      db.nextId ≤ db'.nextId := by
  unfold createProvider at h
  simp only at h
  split at h
  · cases h
  · cases h
    exact ⟨rfl, rfl, rfl, Nat.le_succ _⟩

end Providers

/-! ## The steps of the system -/

/-- What the scan of a candidate promises about its task, for as long as the candidate is in flight. -/
def Job.Valid (db : Db) : Job → Prop
  | .cleanup c => c.task < db.nextId ∧ ∀ t, db.tasks.get? c.task = some t →
      ∃ q, t.control.phase? = some q ∧ q.isTerminal = true
  | .reconcile c => c.task < db.nextId ∧ ∀ t, db.tasks.get? c.task = some t →
      ∃ q, t.control.phase? = some q ∧ q.isStopped = true
  | _ => True

/-- Every task row is in some phase, under an identifier already issued. -/
structure Db.Coherent (db : Db) : Prop where
  issued : ∀ tid t, db.tasks.get? tid = some t → tid < db.nextId
  phases : ∀ tid t, db.tasks.get? tid = some t → ∃ q, t.control.phase? = some q

/-- The tasks that the provider service fails for a request. -/
def Request.unstarted (db : Db) : Request → List TaskId
  | .rotateKey _ pid | .revokeProvider _ pid => unstartedTasks db pid
  | _ => []

/-- Only the provider service fails tasks in this way, only the retention sweep cleans them up, only
the dispatcher claims rounds, only their executors renew leases, and only settlement and reclaim give a
round back. -/
def Action.Expects (db : Db) : Action → Tasking.Expects
  | .request r, .fail, tid, t => FailsAmong db (r.unstarted db) .fail tid t
  | _, .fail, _, _ => False
  | .perform (.cleanup c) _, .cleanup, tid, _ => tid = c.task
  | _, .cleanup, _, _ => False
  | .perform (.dispatch _ c) _, .claim, tid, _ => tid = c.task
  | _, .claim, _, _ => False
  | .write (.renew c), .renew, tid, t => tid = c.task ∧ t.rounds.countP c.fences ≠ 0
  | _, .renew, _, _ => False
  | .write (.settle ..), .close true, _, _ => True
  | .perform (.reclaimExpired _) _, .close true, _, _ => True
  | _, .close true, _, _ => False
  | _, _, _, _ => True

section Steps

variable {cfg : Settings} {nfc : String → String} {db db' : Db}

theorem Request.exec_changes {r : Request} (h : r.exec cfg nfc db = .ok db') :
    Changes ((Action.request r).Expects db) db db' := by
  cases r with
  | createTask owner revision provider message mcpRefs =>
    obtain ⟨⟨db₁, reply⟩, hrun, rfl⟩ := map_eq_ok.mp h
    obtain ⟨tid, t, -, hb⟩ := createTask_born hrun
    exact Relation.ReflTransGen.single (.born tid t hb)
  | commitInput owner tid manifest =>
    obtain ⟨⟨db₁, reply⟩, hrun, rfl⟩ := map_eq_ok.mp h
    obtain ⟨t, t', hm⟩ := commitInput_moved hrun
    exact hm.changes trivial
  | uploadFiles owner tid uploads =>
    obtain ⟨⟨db₁, reply⟩, hrun, rfl⟩ := map_eq_ok.mp h
    obtain ⟨t, t', hm⟩ := uploadFiles_moved hrun
    exact hm.changes trivial
  | deleteFile owner tid fid =>
    obtain ⟨⟨db₁, reply⟩, hrun, rfl⟩ := map_eq_ok.mp h
    obtain ⟨t, t', hm⟩ := deleteFile_moved hrun
    exact hm.changes trivial
  | abort owner tid =>
    obtain ⟨⟨db₁, reply⟩, hrun, rfl⟩ := map_eq_ok.mp h
    obtain ⟨k, t, t', hk, hm⟩ := endTask_moved (by simp) hrun
    rcases hk with rfl | rfl <;> exact hm.changes trivial
  | complete owner tid =>
    obtain ⟨⟨db₁, reply⟩, hrun, rfl⟩ := map_eq_ok.mp h
    obtain ⟨k, t, t', hk, hm⟩ := endTask_moved (by simp) hrun
    rcases hk with rfl | rfl <;> exact hm.changes trivial
  | delete owner tid =>
    obtain ⟨⟨db₁, reply⟩, hrun, rfl⟩ := map_eq_ok.mp h
    obtain ⟨t, t', hm⟩ := deleteTask_moved hrun
    exact hm.changes trivial
  | sendMessage owner tid content =>
    obtain ⟨⟨db₁, reply⟩, hrun, rfl⟩ := map_eq_ok.mp h
    obtain ⟨t, t', hm⟩ := sendMessage_moved hrun
    exact hm.changes trivial
  | createProvider owner modelId isDefault =>
    obtain ⟨htasks, hacc, hnow, hid⟩ := createProvider_still h
    exact Relation.ReflTransGen.single (.still htasks hacc hnow.ge hid)
  | rotateKey owner pid =>
    refine (rotateProviderKey_changes h).mono fun k tid t hexp => ?_
    obtain rfl := hexp.1
    exact hexp
  | revokeProvider owner pid =>
    refine (revokeProvider_changes h).mono fun k tid t hexp => ?_
    obtain rfl := hexp.1
    exact hexp

theorem Write.exec_changes {x : Write} (hco : db.Coherent) (h : x.exec cfg nfc db = .ok db') :
    Changes ((Action.write x).Expects db) db db' := by
  cases x with
  | fact c author content =>
    obtain ⟨t, t', -, hm⟩ := persistFact_moved h
    exact hm.changes trivial
  | settle c pending finishReason usage =>
    obtain ⟨t, t', -, -, hm⟩ := settle_moved (hco.phases c.task) h
    exact hm.changes trivial
  | deadline c =>
    obtain ⟨t, t', -, hm⟩ := failAtDeadline_moved (hco.phases c.task) h
    exact hm.changes trivial
  | renew c =>
    obtain ⟨t, t', hr, hm⟩ := renewLease_moved h
    exact hm.changes ⟨rfl, hr⟩
  | output c fileName content =>
    obtain ⟨⟨db₁, reply⟩, hrun, rfl⟩ := map_eq_ok.mp h
    obtain ⟨t, t', -, hm⟩ := registerOutput_moved hrun
    exact hm.changes trivial

theorem Job.exec_changes {locked : List ℕ} {j : Job} (hv : j.Valid db)
    (hj : ∀ u ids, j ≠ .terminateUser u ids) (h : j.exec cfg locked db = .ok db') :
    Changes ((Action.perform j locked).Expects db) db db' := by
  cases j with
  | dispatch iid c =>
    obtain ⟨t, t', -, -, hm⟩ := claimRound_moved h
    exact hm.changes rfl
  | reclaimExpired c =>
    obtain ⟨t, t', r, -, -, -, hm⟩ := reclaimExpired_moved h
    exact hm.changes trivial
  | cancelCancelling c =>
    obtain ⟨t, t', hm⟩ := cancelCancellingRound_moved h
    exact hm.changes trivial
  | expireUpload c =>
    obtain ⟨t, t', hm⟩ := expireUpload_moved h
    exact hm.changes trivial
  | cleanup c =>
    have hterm : ∀ t, db.visibleTask c.owner c.task = some t → t.status.isTerminal = true := by
      intro t ht
      obtain ⟨q, hq, hqt⟩ := hv.2 t (Db.visibleTask_eq_some.mp ht).1
      exact Control.status_isTerminal hq hqt
    rcases cleanupTask_moved hterm h with rfl | ⟨t, t', hm⟩
    · exact .refl
    · exact hm.changes rfl
  | reconcile c =>
    have hstop : ∀ t, db.visibleTask c.owner c.task = some t → t.status = .running →
        t.pendingTerminal = some c.terminal → t.control.activeStates = [] := by
      intro t ht hst _
      obtain ⟨q, hq, hqs⟩ := hv.2 t (Db.visibleTask_eq_some.mp ht).1
      exact Control.activeStates_of_isStopped hq hqs
    obtain ⟨t, t', hm⟩ := reconcile_moved hstop h
    exact hm.changes trivial
  | terminate reason c =>
    obtain ⟨t, t', hm⟩ := terminate_moved h
    exact hm.changes trivial
  | terminateUser u ids => exact absurd rfl (hj u ids)

/-- Every committed step is a sequence of changes, unless it is the account hook. -/
theorem step_changes {w w' : World} {a : Action} (hco : w.db.Coherent)
    (hjobs : ∀ j ∈ w.jobs, j.Valid w.db) (h : step cfg nfc w a = .ok w') :
    Changes (a.Expects w.db) w.db w'.db ∨
      ∃ u ids locked, a = .perform (.terminateUser u ids) locked ∧ .terminateUser u ids ∈ w.jobs ∧
        w'.db = terminateTasksHook w.db u ids := by
  cases a with
  | tick seconds =>
    cases h
    exact .inl (Relation.ReflTransGen.single (.still rfl rfl (Nat.le_add_right _ _) le_rfl))
  | setQuota u quota =>
    obtain ⟨db', hdb, h⟩ := bind_eq_ok.mp h
    obtain ⟨-, hdb⟩ := ite_ok_else_error.mp hdb
    cases hdb
    cases h
    exact .inl (Relation.ReflTransGen.single (.still rfl rfl le_rfl le_rfl))
  | setCatalog catalog =>
    cases h
    exact .inl (Relation.ReflTransGen.single (.still rfl rfl le_rfl le_rfl))
  | request r =>
    obtain ⟨db', hdb, h⟩ := bind_eq_ok.mp h
    cases h
    exact .inl (Request.exec_changes hdb)
  | write x =>
    obtain ⟨db', hdb, h⟩ := bind_eq_ok.mp h
    cases h
    exact .inl (Write.exec_changes hco hdb)
  | scan s =>
    cases h
    exact .inl .refl
  | perform j locked =>
    obtain ⟨hmem, h⟩ := ite_ok_else_error.mp h
    obtain ⟨db', hdb, h⟩ := bind_eq_ok.mp h
    cases h
    by_cases hj : ∀ u ids, j ≠ .terminateUser u ids
    · exact .inl (Job.exec_changes (hjobs j hmem) hj hdb)
    · push Not at hj
      obtain ⟨u, ids, rfl⟩ := hj
      exact .inr ⟨u, ids, locked, rfl, hmem, (Except.ok.inj hdb).symm⟩
  | abandon j =>
    cases h
    exact .inl .refl
  | toolCheck c =>
    obtain ⟨-, h⟩ := ite_ok_else_error.mp h
    cases h
    exact .inl .refl
  | toolAnswer c =>
    obtain ⟨-, h⟩ := ite_ok_else_error.mp h
    cases h
    exact .inl .refl

end Steps

end AgentCraft.Tasking
