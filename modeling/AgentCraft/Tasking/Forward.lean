import AgentCraft.Tasking.Coupling

/-!
# What moves a task forward

Who owns a task, what it runs and under which provider key is written when the task is created and never
again. Its status stays or ends, except in the five transactions of `Lifts`. Providers change by requests
of their own only.
-/

namespace AgentCraft.Tasking

open AgentCraft.Relational AgentCraft.Transition

/-- The columns of a task that only `create_task` writes. -/
structure Frozen where
  ownerId : UserId
  expertRevisionId : RevisionId
  providerId : ProviderId
  providerModelId : String
  providerKeyVersion : ℕ
  mcpServers : List McpDescriptor
  createdAt : Time
deriving DecidableEq, Repr

def Task.frozen (t : Task) : Frozen :=
  ⟨t.ownerId, t.expertRevisionId, t.providerId, t.providerModelId, t.providerKeyVersion, t.mcpServers,
    t.createdAt⟩

/-- The status changes that are not an end, with the transactions that make them. -/
inductive Lifts : Action → TaskId → TaskStatus → TaskStatus → Prop
  | commit (owner : UserId) (tid : TaskId) (manifest : String) :
      Lifts (.request (.commitInput owner tid manifest)) tid .uploading .queued
  | send (owner : UserId) (tid : TaskId) (content : String) :
      Lifts (.request (.sendMessage owner tid content)) tid .ready .queued
  | claim (iid : InstanceId) (c : RoundCandidate) (locked : List ℕ) :
      Lifts (.perform (.dispatch iid c) locked) c.task .queued .running
  | settle (c : RoundContext) (pending : Option String) (finishReason usage : String) :
      Lifts (.write (.settle c pending finishReason usage)) c.task .running .ready
  | requeue (c : ExpiredCandidate) (locked : List ℕ) :
      Lifts (.perform (.reclaimExpired c) locked) c.task .running .queued

/-- What a row may become: nothing frozen changes, and the status stays, ends, or changes as `E` says. -/
structure Task.Follows (E : TaskStatus → TaskStatus → Prop) (t t' : Task) : Prop where
  frozen : t'.frozen = t.frozen
  status : t'.status = t.status ∨ t'.status.isTerminal = true ∨ E t.status t'.status

/-- No status changes but to end. -/
def NoLift : TaskId → TaskStatus → TaskStatus → Prop := fun _ _ _ => False

/-- Every row follows from a row before. -/
def Db.RowsFollow (E : TaskId → TaskStatus → TaskStatus → Prop) (db db' : Db) : Prop :=
  ∀ tid t', db'.tasks.get? tid = some t' → ∃ t, db.tasks.get? tid = some t ∧ t.Follows (E tid) t'

/-- The same, and the providers are left alone. -/
structure Db.Follows (E : TaskId → TaskStatus → TaskStatus → Prop) (db db' : Db) : Prop where
  rows : db.RowsFollow E db'
  providers : db'.providers = db.providers

/-! ## Task rows -/

namespace Task

variable {t t' : Task} {E : TaskStatus → TaskStatus → Prop}

theorem Follows.same (hf : t'.frozen = t.frozen) (hs : t'.status = t.status) : t.Follows E t' :=
  ⟨hf, .inl hs⟩

theorem Follows.ended (hf : t'.frozen = t.frozen) (hs : t'.status.isTerminal = true) :
    t.Follows E t' :=
  ⟨hf, .inr (.inl hs)⟩

theorem Follows.lifted (hf : t'.frozen = t.frozen) (hs : E t.status t'.status) : t.Follows E t' :=
  ⟨hf, .inr (.inr hs)⟩

@[simp] theorem appendEvents_frozen (t : Task) (es : List (EventBody × Option RoundId)) :
    (t.appendEvents es).frozen = t.frozen := by
  rw [appendEvents_eq]
  rfl

@[simp] theorem saveMessage_frozen (t : Task) (mid author content rid) :
    (t.saveMessage mid author content rid).frozen = t.frozen := rfl

@[simp] theorem updateRounds_frozen (t : Task) (p f) : (t.updateRounds p f).frozen = t.frozen := rfl

@[simp] theorem updateRounds_status (t : Task) (p f) : (t.updateRounds p f).status = t.status := rfl

theorem follows_commitInput {manifest : String} {now : Time} {rid : RoundId}
    (h : t.commitInput manifest now rid = .ok t')
    (hE : E .uploading .queued) : t.Follows E t' := by
  obtain ⟨hst, -, -, -, ⟨mid, hc⟩, -⟩ := eq_of_commitInput h
  have hst' : t'.status = .queued := congrArg Control.status hc
  refine .lifted ?_ (by rw [hst, hst']; exact hE)
  unfold Task.commitInput at h
  obtain ⟨t₁, ht₁, h⟩ := bind_eq_ok.mp h
  obtain rfl := eq_of_insertReservation ht₁
  simp only at h
  split at h
  · cases h
  · obtain ⟨t₂, ht₂, h⟩ := bind_eq_ok.mp h
    obtain ⟨-, rfl⟩ := eq_of_insertRound ht₂
    obtain ⟨⟨⟩, -, h⟩ := bind_eq_ok.mp h
    obtain ⟨-, h⟩ := ite_ok_else_error.mp h
    cases h
    rw [appendEvents_frozen]
    rfl

theorem follows_sendMessage {mid : MessageId} {rid : RoundId} {content : String}
    (hst : t.status = .ready) (h : t.sendMessage mid rid content = .ok t') (hE : E .ready .queued) :
    t.Follows E t' := by
  unfold Task.sendMessage at h
  obtain ⟨⟨⟩, -, h⟩ := bind_eq_ok.mp h
  obtain ⟨t₁, ht₁, h⟩ := bind_eq_ok.mp h
  obtain ⟨-, rfl⟩ := eq_of_insertRound (mapError_eq_ok.mp ht₁)
  cases h
  exact .lifted rfl (by rw [hst]; exact hE)

theorem follows_claimRound {rid : RoundId} {iid : InstanceId} {e : Time}
    (h : t.claimRound rid iid e = .ok t') (hE : E .queued .running) : t.Follows E t' := by
  obtain ⟨hst, -, -, -, hc, -⟩ := eq_of_claimRound h
  have hst' : t'.status = .running := congrArg Control.status hc
  refine .lifted ?_ (by rw [hst, hst']; exact hE)
  unfold Task.claimRound at h
  split at h
  · cases h
  · obtain ⟨-, h⟩ := ite_error_eq_ok.mp h
    obtain ⟨t₁, ht₁, h⟩ := bind_eq_ok.mp h
    obtain rfl := eq_of_insertReservation ht₁
    cases h
    rw [appendEvents_frozen]
    rfl

theorem follows_reclaimExpired {c : ExpiredCandidate} (h : t.reclaimExpired c = .ok t')
    (hE : E .running .queued) : t.Follows E t' := by
  unfold Task.reclaimExpired at h
  split at h
  · cases h
  · obtain ⟨hst, h⟩ := ite_error_eq_ok.mp h
    simp only at h
    split at h
    · cases h
      exact .ended (appendEvents_frozen _ _) (by rw [appendEvents_status]; rfl)
    · cases h
      refine .lifted (appendEvents_frozen _ _) ?_
      rw [appendEvents_status, not_not.mp hst]
      exact hE

/-- A settled round leaves the task `ready`, unless its provider was found revoked. -/
theorem follows_settle {c : RoundContext} {mid : MessageId} {pending : Option String}
    {finishReason usage : String} {revoked : Bool}
    (h : t.settle c mid pending finishReason usage revoked = .ok t')
    (hE : revoked = false → E .running .ready) : t.Follows E t' := by
  unfold Task.settle at h
  split at h
  · cases h
  · cases h
    have hfinish {t₁ : Task} (hf : t₁.frozen = t.frozen) (hs : t₁.status = t.status) :
        t.Follows E (t₁.settleStatus revoked) := by
      unfold Task.settleStatus
      split
      · exact .same hf hs
      · next hrun =>
        cases revoked with
        | true =>
          exact .ended ((appendEvents_frozen _ _).trans hf) (by simp [TaskStatus.isTerminal])
        | false =>
          refine .lifted ((appendEvents_frozen _ _).trans hf) ?_
          rw [← hs, not_not.mp hrun]
          simpa using hE rfl
    cases pending <;> exact hfinish (by simp) (by simp)

theorem follows_cancelCancellingRound {rid : RoundId} (h : t.cancelCancellingRound rid = .ok t') :
    t.Follows E t' := by
  obtain ⟨-, h⟩ := ite_error_eq_ok.mp h
  cases h
  exact .same (by simp) (by simp)

theorem follows_expireUpload (h : t.expireUpload = .ok t') : t.Follows E t' := by
  obtain ⟨-, h⟩ := ite_error_eq_ok.mp h
  cases h
  exact .ended (appendEvents_frozen _ _) (by rw [appendEvents_status]; rfl)

theorem follows_reconcile {pt : PendingTerminal} (h : t.reconcile pt = .ok t') : t.Follows E t' := by
  obtain ⟨-, h⟩ := ite_ok_else_error.mp h
  cases h
  exact .ended (appendEvents_frozen _ _) (by rw [appendEvents_status]; cases pt <;> rfl)

theorem follows_terminate {reason : AbortReason} (h : t.terminate reason = .ok t') :
    t.Follows E t' := by
  obtain ⟨-, h⟩ := ite_ok_else_error.mp h
  cases h
  exact .ended (appendEvents_frozen _ _) (by rw [appendEvents_status]; rfl)

theorem follows_delete (h : t.delete = .ok t') : t.Follows E t' := by
  obtain ⟨⟨⟩, -, h⟩ := bind_eq_ok.mp h
  cases h
  refine .ended ?_ (by rw [appendEvents_status]; rfl)
  rw [appendEvents_frozen]
  unfold Task.deleteRounds
  split <;> rfl

theorem follows_registerOutput {nfc : String → String} {fid : FileId} {fileName : String}
    {content : FileContent} {rid : RoundId} {epoch refunded : ℕ}
    (h : t.registerOutput nfc fid fileName content rid epoch = .ok (t', refunded)) :
    t.Follows E t' := by
  have hinsert {t₁ t₂ : Task} (h : t₁.insertRegisteredRow fid fileName content rid = .ok t₂) :
      t₂.frozen = t₁.frozen ∧ t₂.status = t₁.status := by
    obtain rfl := eq_of_insertReservation h
    exact ⟨rfl, rfl⟩
  unfold Task.registerOutput at h
  obtain ⟨⟨⟩, -, h⟩ := bind_eq_ok.mp h
  obtain ⟨⟨⟩, -, h⟩ := bind_eq_ok.mp h
  simp only at h
  split at h
  · obtain ⟨⟨⟩, -, h⟩ := bind_eq_ok.mp h
    obtain ⟨t₁, ht₁, h⟩ := bind_eq_ok.mp h
    obtain ⟨rfl, -⟩ := Prod.mk.inj (Except.ok.inj h)
    exact .same (hinsert ht₁).1 (hinsert ht₁).2
  · obtain ⟨⟨⟩, -, h⟩ := bind_eq_ok.mp h
    obtain ⟨⟨t₁, n⟩, ht₁, h⟩ := bind_eq_ok.mp h
    obtain ⟨t₂, ht₂, h⟩ := bind_eq_ok.mp h
    obtain ⟨rfl, -⟩ := Prod.mk.inj (Except.ok.inj h)
    obtain ⟨-, ht₁⟩ := ite_error_eq_ok.mp ht₁
    obtain ⟨rfl, -⟩ := Prod.mk.inj (Except.ok.inj ht₁)
    exact .same (hinsert ht₂).1 (hinsert ht₂).2

end Task

/-! ## Tables -/

section Tables

variable {E : TaskId → TaskStatus → TaskStatus → Prop} {db db' db'' : Db} {u : UserId} {tid : TaskId}
  {t t' : Task}

theorem Db.Follows.of_tasks (h : db'.tasks = db.tasks) (hp : db'.providers = db.providers) :
    db.Follows E db' := by
  refine ⟨fun tid t' ht' => ?_, hp⟩
  rw [h] at ht'
  exact ⟨t', ht', .same rfl rfl⟩

theorem Db.Follows.mono {E' : TaskId → TaskStatus → TaskStatus → Prop} (h : db.Follows E db')
    (hE : ∀ tid s s', E tid s s' → E' tid s s') : db.Follows E' db' := by
  refine ⟨fun tid t' ht' => ?_, h.providers⟩
  obtain ⟨t, ht, hf⟩ := h.rows tid t' ht'
  exact ⟨t, ht, hf.frozen, hf.status.imp_right (·.imp_right (hE tid _ _))⟩

/-- What ends or stays afterwards was lifted before, if at all. -/
theorem Db.Follows.trans (h : db.Follows E db') (h' : db'.Follows NoLift db'') :
    db.Follows E db'' := by
  refine ⟨fun tid t'' ht'' => ?_, h'.providers.trans h.providers⟩
  obtain ⟨t', ht', hf'⟩ := h'.rows tid t'' ht''
  obtain ⟨t, ht, hf⟩ := h.rows tid t' ht'
  refine ⟨t, ht, hf'.frozen.trans hf.frozen, ?_⟩
  rcases hf'.status with heq | hterm | hno
  · rw [heq]
    exact hf.status
  · exact .inr (.inl hterm)
  · exact hno.elim

theorem Db.Follows.of_set (htasks : db'.tasks = db.tasks.set tid t')
    (hp : db'.providers = db.providers) (hfound : db.tasks.get? tid = some t)
    (ht : t.Follows (E tid) t') : db.Follows E db' := by
  refine ⟨fun tid' x hx => ?_, hp⟩
  rw [htasks, Table.get?_set] at hx
  split at hx
  · next heq =>
    subst heq
    rw [hfound] at hx
    cases hx
    exact ⟨t, hfound, ht⟩
  · exact ⟨x, hx, .same rfl rfl⟩

theorem Db.Follows.setTask (hfound : db.tasks.get? tid = some t) (ht : t.Follows (E tid) t') :
    db.Follows E (db.setTask tid t') :=
  .of_set rfl rfl hfound ht

theorem applyReleaseAccounting_providers (db : Db) (tid : TaskId) (u : UserId) (released : Released)
    (b : Bool) : (db.applyReleaseAccounting tid u released b).providers = db.providers := by
  unfold Db.applyReleaseAccounting Db.releaseActive Db.releaseRunning Db.refundStorage
    Db.addPlatformStorage
  simp only
  split_ifs <;> rfl

theorem Db.Follows.releaseTaskHoldings (tid : TaskId) (u : UserId) :
    db.Follows E (db.releaseTaskHoldings tid u) := by
  cases hvis : db.visibleTask u tid with
  | none =>
    rw [Db.releaseTaskHoldings_of_none hvis]
    exact .of_tasks rfl rfl
  | some t =>
    refine .of_set (Db.releaseTaskHoldings_tasks hvis) ?_ (Db.visibleTask_eq_some.mp hvis).1
      (.same rfl rfl)
    rw [Db.releaseTaskHoldings, hvis]
    exact applyReleaseAccounting_providers _ _ _ _ _

theorem Db.Follows.writeAndRelease (hfound : db.tasks.get? tid = some t)
    (ht : t.Follows (E tid) t') :
    db.Follows E ((db.setTask tid t').releaseTaskHoldings tid u) :=
  (Db.Follows.setTask hfound ht).trans (.releaseTaskHoldings tid u)

/-- A background transaction that moves the row that it sees and releases its holdings. -/
theorem Db.Follows.of_visible {e : Failure} {f : Task → Except Failure Task}
    (hf : ∀ t t', db.tasks.get? tid = some t → f t = .ok t' → t.Follows (E tid) t')
    (h : (match db.visibleTask u tid with
      | none => Except.error e
      | some t => do
        let t' ← f t
        return (db.setTask tid t').releaseTaskHoldings tid u) = .ok db') : db.Follows E db' := by
  split at h
  · cases h
  · next t hvis =>
    obtain ⟨t', ht', h⟩ := bind_eq_ok.mp h
    cases h
    have hfound := (Db.visibleTask_eq_some.mp hvis).1
    exact .writeAndRelease hfound (hf t t' hfound ht')

theorem Db.Follows.failUnstarted (reason : AbortReason) (tids : List TaskId) :
    db.Follows E (tids.foldl (failUnstartedTask reason) db) := by
  have hone (db : Db) (tid : TaskId) : db.Follows NoLift (failUnstartedTask reason db tid) := by
    unfold failUnstartedTask
    split
    · exact .of_tasks rfl rfl
    · next t hfound =>
      have hrow : t.Follows (NoLift tid) (t.failUnstarted reason) := by
        refine .ended (Task.appendEvents_frozen _ _) ?_
        unfold Task.failUnstarted
        simp only [Task.appendEvents_status]
        rfl
      refine .trans (.setTask hfound hrow) ?_
      unfold Db.releaseUnstartedAccounting
      split <;> exact .of_tasks rfl rfl
  have hall : db.Follows NoLift (tids.foldl (failUnstartedTask reason) db) := by
    induction tids generalizing db with
    | nil => exact .of_tasks rfl rfl
    | cons tid tids ih => exact (hone db tid).trans ih
  exact hall.mono fun _ _ _ h => h.elim

theorem Db.Follows.terminateTasksHook (u : UserId) (ids : List TaskId) :
    db.Follows E (terminateTasksHook db u ids) := by
  have hfold (db : Db) :
      db.Follows NoLift (ids.foldl (fun db tid => db.releaseTaskHoldings tid u) db) := by
    induction ids generalizing db with
    | nil => exact .of_tasks rfl rfl
    | cons tid ids ih => exact (Db.Follows.releaseTaskHoldings tid u).trans (ih _)
  unfold Tasking.terminateTasksHook
  split
  · exact .of_tasks rfl rfl
  · have hmark : db.Follows E (db.markUserTasks u) := by
      refine ⟨fun tid x hx => ?_, rfl⟩
      rw [Db.markUserTasks, Table.get?_map] at hx
      obtain ⟨t, ht, rfl⟩ := Option.map_eq_some_iff.mp hx
      refine ⟨t, ht, ?_⟩
      split
      · refine .ended ?_ ?_ <;> unfold Task.markDeleted <;> simp only
        · split <;> rfl
        · split
          · next hdel => rw [hdel]; rfl
          · rfl
      · exact .same rfl rfl
    refine (hmark.trans (hfold _)).trans ⟨fun tid x hx => ?_, rfl⟩
    rw [Db.deleteUserTasks, Table.get?_filter] at hx
    exact ⟨x, (Option.filter_eq_some_iff.mp hx).1, .same rfl rfl⟩

end Tables

/-! ## Steps -/

section Steps

variable {cfg : Settings} {nfc : String → String} {db db' : Db} {w w' : World} {a : Action}

/-- A new row: the only one, in the first of the statuses. -/
structure Db.Creates (db db' : Db) (tid : TaskId) (t : Task) : Prop where
  fresh : db.tasks.get? tid = none
  written : db'.tasks = db.tasks.insert tid t
  status : t.status = .uploading
  providers : db'.providers = db.providers

theorem Db.Creates.row {tid tid' : TaskId} {t x : Task} (h : db.Creates db' tid t)
    (hx : db'.tasks.get? tid' = some x) : db.tasks.get? tid' = some x ∨ tid' = tid ∧ x = t := by
  rw [h.written, Table.get?_insert h.fresh] at hx
  split at hx
  · next heq =>
    cases hx
    exact .inr ⟨heq, rfl⟩
  · exact .inl hx

theorem chargeStorage_providers {charged : Db} {u : UserId} {n : ℕ} {e e' : Failure}
    (h : db.chargeStorage u n e e' = .ok charged) : charged.providers = db.providers := by
  obtain ⟨user, huser, h⟩ := bind_eq_ok.mp h
  obtain ⟨-, huser⟩ := ite_ok_else_error.mp huser
  cases huser
  obtain ⟨-, h⟩ := ite_ok_else_error.mp h
  cases h
  rfl

theorem chargeCreationQuota_providers {charged : Db} {u : UserId}
    (h : db.chargeCreationQuota u = .ok charged) : charged.providers = db.providers := by
  obtain ⟨daily, hdaily, h⟩ := bind_eq_ok.mp h
  obtain ⟨-, h⟩ := ite_ok_else_error.mp h
  cases h
  unfold Db.chargeDaily at hdaily
  obtain ⟨-, hdaily⟩ := ite_error_eq_ok.mp hdaily
  split at hdaily
  · cases hdaily
    rfl
  · obtain ⟨-, hdaily⟩ := ite_ok_else_error.mp hdaily
    cases hdaily
    rfl

theorem endTask_follows {E : TaskId → TaskStatus → TaskStatus → Prop} {owner : UserId} {tid : TaskId}
    {terminal : PendingTerminal} {reason : Option AbortReason} {reply : TaskReply}
    (h : endTask db owner tid terminal reason = .ok (db', reply)) : db.Follows E db' := by
  have hterm : terminal.status.isTerminal = true := by cases terminal <;> rfl
  unfold endTask at h
  obtain ⟨t, ht, h⟩ := bind_eq_ok.mp h
  have hfound := (Db.visibleTask_eq_some.mp (lockTask_eq_ok ht).1).1
  split at h
  · obtain ⟨rfl, -⟩ := Prod.mk.inj (Except.ok.inj h)
    refine .setTask hfound ?_
    unfold Task.requestTerminalWhileRunning
    split <;> exact .same rfl rfl
  · obtain ⟨t', ht', h⟩ := bind_eq_ok.mp h
    obtain ⟨rfl, -⟩ := Prod.mk.inj (Except.ok.inj h)
    refine .writeAndRelease hfound ?_
    obtain ⟨⟨⟩, -, ht'⟩ := bind_eq_ok.mp ht'
    cases ht'
    exact .ended (Task.appendEvents_frozen _ _) (by rw [Task.appendEvents_status]; exact hterm)
  · obtain ⟨t', ht', h⟩ := bind_eq_ok.mp h
    obtain ⟨rfl, -⟩ := Prod.mk.inj (Except.ok.inj h)
    refine .writeAndRelease hfound ?_
    obtain ⟨⟨⟩, -, ht'⟩ := bind_eq_ok.mp ht'
    cases ht'
    exact .ended (Task.appendEvents_frozen _ _) (by rw [Task.appendEvents_status]; exact hterm)

/-- The requests about providers. -/
def Request.changesProviders : Request → Bool
  | .createProvider .. | .rotateKey .. | .revokeProvider .. => true
  | _ => false

/-- The request that creates a task. -/
def Request.createsTask : Request → Bool
  | .createTask .. => true
  | _ => false

theorem createTask_creates {owner : UserId} {revision : RevisionId} {provider : Option ProviderId}
    {message : String} {mcpRefs : List ServerId} {reply : TaskReply}
    (h : createTask cfg db owner revision provider message mcpRefs = .ok (db', reply)) :
    ∃ tid t, db.Creates db' tid t := by
  obtain ⟨tid, t, -, hb⟩ := createTask_born h
  refine ⟨tid, t, hb.fresh, hb.written, congrArg Control.status hb.control, ?_⟩
  unfold createTask at h
  obtain ⟨resolved, -, h⟩ := bind_eq_ok.mp h
  obtain ⟨⟨⟩, -, h⟩ := bind_eq_ok.mp h
  obtain ⟨rev, -, h⟩ := bind_eq_ok.mp h
  obtain ⟨mcpServers, -, h⟩ := bind_eq_ok.mp h
  obtain ⟨charged, hcharged, h⟩ := bind_eq_ok.mp h
  obtain ⟨⟨⟩, -, h⟩ := bind_eq_ok.mp h
  simp only at h
  split at h
  · cases h
  · obtain ⟨rfl, -⟩ := Prod.mk.inj (Except.ok.inj h)
    show charged.providers = db.providers
    exact chargeCreationQuota_providers hcharged

/-- The tasks that a change of providers fails. -/
theorem failUnstartedTasks_rowsFollow {E : TaskId → TaskStatus → TaskStatus → Prop}
    (providers : Table ProviderId UserProvider) (pid : ProviderId) :
    db.RowsFollow E (failUnstartedTasks { db with providers := providers } pid) := by
  have h : ({ db with providers := providers } : Db).Follows E
      (failUnstartedTasks { db with providers := providers } pid) := .failUnstarted _ _
  exact h.rows

/-- A request moves rows on, creates one, or is about providers. -/
theorem Request.exec_follows {r : Request} (h : r.exec cfg nfc db = .ok db') :
    db.Follows (Lifts (.request r)) db' ∨ (r.createsTask = true ∧ ∃ tid t, db.Creates db' tid t) ∨
      r.changesProviders = true ∧ db.RowsFollow (Lifts (.request r)) db' := by
  cases r with
  | createTask owner revision provider message mcpRefs =>
    obtain ⟨⟨db₁, reply⟩, hrun, rfl⟩ := map_eq_ok.mp h
    exact .inr (.inl ⟨rfl, createTask_creates hrun⟩)
  | commitInput owner tid manifest =>
    obtain ⟨⟨db₁, reply⟩, hrun, rfl⟩ := map_eq_ok.mp h
    obtain ⟨t, ht, hrun⟩ := bind_eq_ok.mp hrun
    obtain ⟨⟨⟩, -, hrun⟩ := bind_eq_ok.mp hrun
    obtain ⟨t', ht', hrun⟩ := bind_eq_ok.mp hrun
    obtain ⟨charged, hcharged, hrun⟩ := bind_eq_ok.mp hrun
    obtain ⟨rfl, -⟩ := Prod.mk.inj (Except.ok.inj hrun)
    have hfound := (Db.visibleTask_eq_some.mp (lockTask_eq_ok ht).1).1
    have htasks := (Db.chargeStorage_frame hcharged).1
    refine .inl (.of_set ?_ ?_ hfound (Task.follows_commitInput ht' (.commit owner tid manifest)))
    · show charged.tasks.set tid t' = db.tasks.set tid t'
      rw [htasks]
    · show charged.providers = db.providers
      exact chargeStorage_providers hcharged
  | uploadFiles owner tid uploads =>
    obtain ⟨⟨db₁, reply⟩, hrun, rfl⟩ := map_eq_ok.mp h
    obtain ⟨t, ht, hrun⟩ := bind_eq_ok.mp hrun
    obtain ⟨⟨⟩, -, hrun⟩ := bind_eq_ok.mp hrun
    obtain ⟨⟨⟩, -, hrun⟩ := bind_eq_ok.mp hrun
    obtain ⟨⟨⟩, -, hrun⟩ := bind_eq_ok.mp hrun
    obtain ⟨rfl, -⟩ := Prod.mk.inj (Except.ok.inj hrun)
    have hfound := (Db.visibleTask_eq_some.mp (lockUploadingTask_eq_ok ht)).1
    exact .inl (.of_set rfl rfl hfound (.same rfl rfl))
  | deleteFile owner tid fid =>
    obtain ⟨⟨db₁, reply⟩, hrun, rfl⟩ := map_eq_ok.mp h
    obtain ⟨t, ht, hrun⟩ := bind_eq_ok.mp hrun
    obtain ⟨-, hrun⟩ := ite_error_eq_ok.mp hrun
    obtain ⟨rfl, -⟩ := Prod.mk.inj (Except.ok.inj hrun)
    exact .inl (.setTask (Db.visibleTask_eq_some.mp (lockUploadingTask_eq_ok ht)).1 (.same rfl rfl))
  | abort owner tid =>
    obtain ⟨⟨db₁, reply⟩, hrun, rfl⟩ := map_eq_ok.mp h
    exact .inl (endTask_follows hrun)
  | complete owner tid =>
    obtain ⟨⟨db₁, reply⟩, hrun, rfl⟩ := map_eq_ok.mp h
    exact .inl (endTask_follows hrun)
  | delete owner tid =>
    obtain ⟨⟨db₁, reply⟩, hrun, rfl⟩ := map_eq_ok.mp h
    obtain ⟨t, ht, hrun⟩ := bind_eq_ok.mp hrun
    obtain ⟨t', ht', hrun⟩ := bind_eq_ok.mp hrun
    obtain ⟨rfl, -⟩ := Prod.mk.inj (Except.ok.inj hrun)
    have hfound := (Db.visibleTask_eq_some.mp (lockTask_eq_ok ht).1).1
    exact .inl (.writeAndRelease hfound (Task.follows_delete ht'))
  | sendMessage owner tid content =>
    obtain ⟨⟨db₁, reply⟩, hrun, rfl⟩ := map_eq_ok.mp h
    obtain ⟨t, ht, hrun⟩ := bind_eq_ok.mp hrun
    obtain ⟨⟨⟩, hready, hrun⟩ := bind_eq_ok.mp hrun
    obtain ⟨⟨⟩, -, hrun⟩ := bind_eq_ok.mp hrun
    obtain ⟨t', ht', hrun⟩ := bind_eq_ok.mp hrun
    obtain ⟨rfl, -⟩ := Prod.mk.inj (Except.ok.inj hrun)
    have hfound := (Db.visibleTask_eq_some.mp (lockTask_eq_ok ht).1).1
    obtain ⟨-, hready⟩ := ite_error_eq_ok.mp hready
    have hst := not_not.mp (ite_error_eq_ok.mp hready).1
    exact .inl (.of_set rfl rfl hfound (Task.follows_sendMessage hst ht' (.send owner tid content)))
  | createProvider owner modelId isDefault =>
    refine .inr (.inr ⟨rfl, fun tid t ht => ⟨t, ?_, .same rfl rfl⟩⟩)
    rwa [(createProvider_still h).1] at ht
  | rotateKey owner pid =>
    obtain ⟨row, -, h⟩ := bind_eq_ok.mp h
    cases h
    exact .inr (.inr ⟨rfl, failUnstartedTasks_rowsFollow _ pid⟩)
  | revokeProvider owner pid =>
    obtain ⟨row, -, h⟩ := bind_eq_ok.mp h
    cases h
    exact .inr (.inr ⟨rfl, failUnstartedTasks_rowsFollow _ pid⟩)

/-- `settle`, with the verdict on the provider given. -/
theorem settleWith_follows {E : TaskId → TaskStatus → TaskStatus → Prop} {c : RoundContext}
    {t t' : Task} {mid : MessageId} {pending : Option String} {finishReason usage : String}
    {revoked : Bool} (hfound : db.tasks.get? c.task = some t)
    (h : t.settle c mid pending finishReason usage revoked = .ok t')
    (hE : revoked = false → E c.task .running .ready) :
    db.Follows E ((db.setTask c.task t').releaseTaskHoldings c.task c.owner) :=
  .writeAndRelease hfound (Task.follows_settle h hE)

theorem Write.exec_follows {x : Write} (h : x.exec cfg nfc db = .ok db') :
    db.Follows (Lifts (.write x)) db' := by
  cases x with
  | fact c author content =>
    change persistFact db c author content = .ok db' at h
    unfold persistFact at h
    split at h
    · cases h
    · next t hvis =>
      obtain ⟨-, h⟩ := ite_error_eq_ok.mp h
      cases h
      exact .of_set rfl rfl (Db.visibleTask_eq_some.mp hvis).1 (.same rfl rfl)
  | settle c pending finishReason usage =>
    change Tasking.settle db c pending finishReason usage = .ok db' at h
    unfold Tasking.settle at h
    split at h
    · cases h
    · next t hvis =>
      obtain ⟨t', ht', h⟩ := bind_eq_ok.mp h
      cases h
      exact .trans (settleWith_follows (Db.visibleTask_eq_some.mp hvis).1 ht' fun _ =>
        .settle c pending finishReason usage) (.of_tasks rfl rfl)
  | deadline c =>
    change failAtDeadline db c = .ok db' at h
    unfold failAtDeadline at h
    split at h
    · cases h
    · next t hvis =>
      have hfound := (Db.visibleTask_eq_some.mp hvis).1
      split at h
      · cases h
      · split at h
        · cases h
          exact .setTask hfound (.same rfl rfl)
        · cases h
          exact .writeAndRelease hfound (.ended (Task.appendEvents_frozen _ _) (by
            rw [Task.appendEvents_status]
            rfl))
  | renew c =>
    change renewLease cfg db c = .ok db' at h
    unfold renewLease at h
    split at h
    · cases h
    · next t hvis =>
      obtain ⟨-, h⟩ := ite_error_eq_ok.mp h
      cases h
      exact .of_set rfl rfl (Db.visibleTask_eq_some.mp hvis).1 (.same rfl rfl)
  | output c fileName content =>
    obtain ⟨⟨db₁, fid⟩, hrun, rfl⟩ := map_eq_ok.mp h
    obtain ⟨t, ht, hrun⟩ := bind_eq_ok.mp hrun
    obtain ⟨⟨t', refunded⟩, ht', hrun⟩ := bind_eq_ok.mp hrun
    obtain ⟨charged, hcharged, hrun⟩ := bind_eq_ok.mp hrun
    obtain ⟨rfl, -⟩ := Prod.mk.inj (Except.ok.inj hrun)
    have hfound := (Db.visibleTask_eq_some.mp (lockTask_eq_ok ht).1).1
    refine .of_set ?_ ?_ hfound (Task.follows_registerOutput ht')
    · show charged.tasks.set c.task t' = db.tasks.set c.task t'
      rw [(Db.chargeStorage_frame hcharged).1]
      split
      · rfl
      · simp [Db.refundStorage]
    · refine (chargeStorage_providers hcharged).trans ?_
      split
      · rfl
      · unfold Db.refundStorage Db.addPlatformStorage
        split <;> rfl

theorem Job.exec_follows {locked : List ℕ} {j : Job} (h : j.exec cfg locked db = .ok db') :
    db.Follows (Lifts (.perform j locked)) db' := by
  cases j with
  | dispatch iid c =>
    change claimRound cfg db locked c iid = .ok db' at h
    unfold claimRound at h
    split at h
    · cases h
    · next t hvis =>
      obtain ⟨t', ht', h⟩ := bind_eq_ok.mp h
      obtain ⟨charged, hcharged, h⟩ := bind_eq_ok.mp h
      have hfound := (Db.visibleTask_eq_some.mp hvis).1
      refine .of_set ?_ ?_ hfound (Task.follows_claimRound ht' (.claim iid c locked))
      all_goals
        unfold Db.leaseSlot at h
        obtain ⟨-, hcharged⟩ := ite_ok_else_error.mp hcharged
        cases hcharged
        split at h
        · cases h
        · cases h
          rfl
  | reclaimExpired c =>
    exact .of_visible (fun t t' _ ht' => Task.follows_reclaimExpired ht' (.requeue c locked)) h
  | cancelCancelling c =>
    exact .of_visible (fun t t' _ ht' => Task.follows_cancelCancellingRound ht') h
  | expireUpload c => exact .of_visible (fun t t' _ ht' => Task.follows_expireUpload ht') h
  | cleanup c =>
    change cleanupTask db c = .ok db' at h
    unfold cleanupTask at h
    split at h
    · cases h
      exact .of_tasks rfl rfl
    · next t hvis =>
      cases h
      have hrow : t.Follows (Lifts (.perform (.cleanup c) locked) c.task) t.cleanup := .same rfl rfl
      refine .of_set ?_ (applyReleaseAccounting_providers _ _ _ _ _)
        (Db.visibleTask_eq_some.mp hvis).1 hrow
      rw [Db.applyReleaseAccounting_tasks]
      rfl
  | reconcile c => exact .of_visible (fun t t' _ ht' => Task.follows_reconcile ht') h
  | terminate reason c => exact .of_visible (fun t t' _ ht' => Task.follows_terminate ht') h
  | terminateUser u ids =>
    cases h
    exact .terminateTasksHook u ids

/-- A step leaves what is frozen and ends statuses or lifts them; else it is a request that creates a
task or is about providers. -/
theorem step_follows (h : step cfg nfc w a = .ok w') :
    w.db.Follows (Lifts a) w'.db ∨ ∃ r, a = .request r ∧
      (r.createsTask = true ∧ (∃ tid t, w.db.Creates w'.db tid t) ∨
        r.changesProviders = true ∧ w.db.RowsFollow (Lifts a) w'.db) := by
  cases a with
  | setQuota u quota =>
    obtain ⟨db', hdb, h⟩ := bind_eq_ok.mp h
    obtain ⟨-, hdb⟩ := ite_ok_else_error.mp hdb
    cases hdb
    cases h
    exact .inl (.of_tasks rfl rfl)
  | request r =>
    obtain ⟨db', hdb, h⟩ := bind_eq_ok.mp h
    cases h
    exact (Request.exec_follows hdb).imp_right fun hr => ⟨r, rfl, hr⟩
  | write x =>
    obtain ⟨db', hdb, h⟩ := bind_eq_ok.mp h
    cases h
    exact .inl (Write.exec_follows hdb)
  | perform j locked =>
    obtain ⟨-, h⟩ := ite_ok_else_error.mp h
    obtain ⟨db', hdb, h⟩ := bind_eq_ok.mp h
    cases h
    exact .inl (Job.exec_follows hdb)
  | toolCheck c =>
    obtain ⟨-, h⟩ := ite_ok_else_error.mp h
    cases h
    exact .inl (.of_tasks rfl rfl)
  | toolAnswer c =>
    obtain ⟨-, h⟩ := ite_ok_else_error.mp h
    cases h
    exact .inl (.of_tasks rfl rfl)
  | _ =>
    cases h
    exact .inl (.of_tasks rfl rfl)

end Steps

end AgentCraft.Tasking
