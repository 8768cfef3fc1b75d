import AgentCraft.Relational.Lineage
import AgentCraft.Tasking.Forward

/-!
# What changes the files of a task

Five transactions write file rows: an upload and a deletion while the input is open, the commit, the
registration of an output, and the retention sweep, which clears a reference. `FileChange` lists them
with the checks that they have passed, and every other step leaves the files of every task alone.
-/

namespace AgentCraft.Tasking

open AgentCraft.Relational AgentCraft.Transition

/-- The staged input that `delete_file` looks for. -/
def TaskFile.isStaged (fid : FileId) (f : TaskFile) : Bool :=
  f.id = fid && f.direction = .input && f.state = .staged

/-- What an action makes of the files of a task, given the row that it finds. The identifiers that it
issues are those from `next` to `next'`. -/
inductive FileChange (nfc : String → String) (next next' : Uuid) :
    Action → TaskId → Task → List TaskFile → Prop
  | keep (a : Action) (tid : TaskId) (t : Task) : FileChange nfc next next' a tid t t.files
  | upload (owner : UserId) (tid : TaskId) (uploads : List (String × FileContent)) (t : Task)
      (uploading : t.status = .uploading)
      (names : assertNameUniqueness nfc t.liveFiles uploads = .ok ())
      (limits : assertUploadLimits t.liveFiles uploads = .ok ())
      (issued : next' = next + uploads.length) :
      FileChange nfc next next' (.request (.uploadFiles owner tid uploads)) tid t
        (t.files ++ stagedRows next uploads)
  | delete (owner : UserId) (tid : TaskId) (fid : FileId) (t : Task)
      (uploading : t.status = .uploading) :
      FileChange nfc next next' (.request (.deleteFile owner tid fid)) tid t
        (updateWhere (·.isStaged fid) (fun f => { f with state := .deleted }) t.files)
  | commit (owner : UserId) (tid : TaskId) (manifest : String) (t : Task)
      (uploading : t.status = .uploading) :
      FileChange nfc next next' (.request (.commitInput owner tid manifest)) tid t t.commitFiles.files
  | output (c : RoundContext) (fileName : String) (content : FileContent) (t t' : Task)
      (refunded : ℕ)
      (registered : t.registerOutput nfc next fileName content c.round c.epoch = .ok (t', refunded))
      (issued : next' = next + 1) :
      FileChange nfc next next' (.write (.output c fileName content)) c.task t t'.files
  | cleanup (c : TaskCandidate) (locked : List ℕ) (t : Task) :
      FileChange nfc next next' (.perform (.cleanup c) locked) c.task t
        (t.files.map fun f => { f with producedInRoundId := none })

/-- Every row after the action has files that the action made of those of the row before. -/
def Db.FilesFollow (nfc : String → String) (a : Action) (db db' : Db) : Prop :=
  db.tasks.Descends (fun tid t t' => FileChange nfc db.nextId db'.nextId a tid t t'.files) db'.tasks

/-- A row keeps its files. -/
def SameFiles (_ : TaskId) (t t' : Task) : Prop := t'.files = t.files

/-- The files of no row change. -/
def Db.FilesKept (db db' : Db) : Prop := db.tasks.Descends SameFiles db'.tasks

/-! ## Task rows -/

section Rows

variable {t t' : Task}

theorem Task.assertUploading_eq_ok : t.assertUploading = .ok () ↔ t.status = .uploading := by
  constructor
  · intro h
    unfold Task.assertUploading at h
    split at h
    · assumption
    · split at h
      · cases h
      · have hmem := assertTransition_eq_ok.mp h
        cases hst : t.status <;> simp_all [validTransitions]
  · intro h
    rw [Task.assertUploading, if_pos h]

/-- The gate of uploads and deletions. -/
theorem lockUploadingTask_uploading {db : Db} {owner : UserId} {tid : TaskId}
    (h : lockUploadingTask db owner tid = .ok t) :
    db.visibleTask owner tid = some t ∧ t.status = .uploading := by
  refine ⟨lockUploadingTask_eq_ok h, ?_⟩
  obtain ⟨t₁, ht₁, h⟩ := bind_eq_ok.mp h
  obtain ⟨⟨⟩, hup, h⟩ := bind_eq_ok.mp h
  obtain ⟨-, h⟩ := ite_error_eq_ok.mp h
  cases h
  exact Task.assertUploading_eq_ok.mp hup

theorem Task.commitInput_files {manifest : String} {now : Time} {rid : RoundId}
    (h : t.commitInput manifest now rid = .ok t') : t'.files = t.commitFiles.files := by
  unfold Task.commitInput at h
  obtain ⟨t₁, ht₁, h⟩ := bind_eq_ok.mp h
  obtain rfl := Task.eq_of_insertReservation ht₁
  simp only at h
  split at h
  · cases h
  · obtain ⟨t₂, ht₂, h⟩ := bind_eq_ok.mp h
    obtain ⟨-, rfl⟩ := Task.eq_of_insertRound ht₂
    obtain ⟨⟨⟩, -, h⟩ := bind_eq_ok.mp h
    obtain ⟨-, h⟩ := ite_ok_else_error.mp h
    cases h
    exact Task.appendEvents_files _ _

theorem Task.sendMessage_files {mid : MessageId} {rid : RoundId} {content : String}
    (h : t.sendMessage mid rid content = .ok t') : t'.files = t.files := by
  unfold Task.sendMessage at h
  obtain ⟨⟨⟩, -, h⟩ := bind_eq_ok.mp h
  obtain ⟨t₁, ht₁, h⟩ := bind_eq_ok.mp h
  obtain ⟨-, rfl⟩ := Task.eq_of_insertRound (mapError_eq_ok.mp ht₁)
  cases h
  rfl

theorem Task.claimRound_files {rid : RoundId} {iid : InstanceId} {e : Time}
    (h : t.claimRound rid iid e = .ok t') : t'.files = t.files := by
  unfold Task.claimRound at h
  split at h
  · cases h
  · obtain ⟨-, h⟩ := ite_error_eq_ok.mp h
    obtain ⟨t₁, ht₁, h⟩ := bind_eq_ok.mp h
    obtain rfl := Task.eq_of_insertReservation ht₁
    cases h
    exact Task.appendEvents_files _ _

theorem Task.reclaimExpired_files {c : ExpiredCandidate} (h : t.reclaimExpired c = .ok t') :
    t'.files = t.files := by
  unfold Task.reclaimExpired at h
  split at h
  · cases h
  · obtain ⟨-, h⟩ := ite_error_eq_ok.mp h
    simp only at h
    split at h
    all_goals
      cases h
      exact Task.appendEvents_files _ _

theorem Task.settle_files {c : RoundContext} {mid : MessageId} {pending : Option String}
    {finishReason usage : String} {revoked : Bool}
    (h : t.settle c mid pending finishReason usage revoked = .ok t') : t'.files = t.files := by
  have hfinish {t₁ : Task} (hf : t₁.files = t.files) : (t₁.settleStatus revoked).files = t.files := by
    unfold Task.settleStatus
    split
    · exact hf
    · exact (Task.appendEvents_files _ _).trans hf
  unfold Task.settle at h
  split at h
  · cases h
  · cases h
    apply hfinish
    rw [Task.appendEvents_files]
    cases pending <;> rfl

theorem Task.cancelCancellingRound_files {rid : RoundId}
    (h : t.cancelCancellingRound rid = .ok t') : t'.files = t.files := by
  obtain ⟨-, h⟩ := ite_error_eq_ok.mp h
  cases h
  exact Task.appendEvents_files _ _

theorem Task.expireUpload_files (h : t.expireUpload = .ok t') : t'.files = t.files := by
  obtain ⟨-, h⟩ := ite_error_eq_ok.mp h
  cases h
  exact Task.appendEvents_files _ _

theorem Task.reconcile_files {pt : PendingTerminal} (h : t.reconcile pt = .ok t') :
    t'.files = t.files := by
  obtain ⟨-, h⟩ := ite_ok_else_error.mp h
  cases h
  exact Task.appendEvents_files _ _

theorem Task.terminate_files {reason : AbortReason} (h : t.terminate reason = .ok t') :
    t'.files = t.files := by
  obtain ⟨-, h⟩ := ite_ok_else_error.mp h
  cases h
  exact Task.appendEvents_files _ _

theorem Task.terminalizeQueued_files {terminal : TaskStatus} {reason : Option AbortReason}
    (h : t.terminalizeQueued terminal reason = .ok t') : t'.files = t.files := by
  obtain ⟨⟨⟩, -, h⟩ := bind_eq_ok.mp h
  cases h
  exact Task.appendEvents_files _ _

theorem Task.finalizeTerminal_files {terminal : TaskStatus} {reason : Option AbortReason}
    (h : t.finalizeTerminal terminal reason = .ok t') : t'.files = t.files := by
  obtain ⟨⟨⟩, -, h⟩ := bind_eq_ok.mp h
  cases h
  exact Task.appendEvents_files _ _

theorem Task.requestTerminalWhileRunning_files (t : Task) (pt : PendingTerminal) :
    (t.requestTerminalWhileRunning pt).1.files = t.files := by
  unfold Task.requestTerminalWhileRunning
  split <;> rfl

theorem Task.delete_files (h : t.delete = .ok t') : t'.files = t.files := by
  obtain ⟨⟨⟩, -, h⟩ := bind_eq_ok.mp h
  cases h
  rw [Task.appendEvents_files]
  unfold Task.deleteRounds
  split <;> rfl

theorem Task.markDeleted_files (t : Task) : t.markDeleted.files = t.files := by
  unfold Task.markDeleted
  simp only
  split <;> rfl

theorem Task.failUnstarted_files (t : Task) (reason : AbortReason) :
    (t.failUnstarted reason).files = t.files := by
  unfold Task.failUnstarted
  simp only [Task.appendEvents_files]
  rfl

end Rows

/-! ## Tables -/

section Tables

variable {nfc : String → String} {a : Action} {db db' db'' : Db} {tid : TaskId} {u : UserId}
  {t t' : Task}

theorem SameFiles.refl (tid : TaskId) (t : Task) : SameFiles tid t t := rfl

theorem SameFiles.trans {x y z : Task} (h : SameFiles tid x y) (h' : SameFiles tid y z) :
    SameFiles tid x z :=
  Eq.trans h' h

theorem Db.FilesKept.of_tasks (h : db'.tasks = db.tasks) : db.FilesKept db' := by
  rw [FilesKept, h]
  exact .refl SameFiles.refl _

theorem Db.FilesKept.of_set {s : Task} (htasks : db'.tasks = db.tasks.set tid s)
    (hfound : db.tasks.get? tid = some t) (ht : s.files = t.files) : db.FilesKept db' := by
  rw [FilesKept, htasks]
  exact .set SameFiles.refl hfound ht

theorem Db.FilesKept.trans (h : db.FilesKept db') (h' : db'.FilesKept db'') : db.FilesKept db'' :=
  Table.Descends.trans h h' fun _ _ _ _ => SameFiles.trans

theorem Db.FilesKept.follow (h : db.FilesKept db') : db.FilesFollow nfc a db' :=
  Table.Descends.mono h fun tid t t' (hf : t'.files = t.files) => by
    rw [hf]
    exact .keep a tid t

theorem Db.FilesFollow.of_set {s : Task} (htasks : db'.tasks = db.tasks.set tid s)
    (hfound : db.tasks.get? tid = some t)
    (ht : FileChange nfc db.nextId db'.nextId a tid t s.files) : db.FilesFollow nfc a db' := by
  rw [FilesFollow, htasks]
  exact .set (fun tid t => FileChange.keep a tid t) hfound ht

theorem Db.FilesKept.releaseTaskHoldings (db : Db) (tid : TaskId) (u : UserId) :
    db.FilesKept (db.releaseTaskHoldings tid u) := by
  cases hvis : db.visibleTask u tid with
  | none =>
    rw [Db.releaseTaskHoldings_of_none hvis]
    exact .of_tasks rfl
  | some t =>
    exact .of_set (Db.releaseTaskHoldings_tasks hvis) (Db.visibleTask_eq_some.mp hvis).1 rfl

/-- A row is written without touching its files, then its holdings are released. -/
theorem Db.FilesKept.writeAndRelease (hfound : db.tasks.get? tid = some t)
    (ht : t'.files = t.files) : db.FilesKept ((db.setTask tid t').releaseTaskHoldings tid u) :=
  (Db.FilesKept.of_set rfl hfound ht).trans (.releaseTaskHoldings _ tid u)

/-- The shape of a background transaction on the row that it sees. -/
theorem Db.FilesKept.of_visible {e : Failure} {f : Task → Except Failure Task}
    (hf : ∀ t t', f t = .ok t' → t'.files = t.files)
    (h : (match db.visibleTask u tid with
      | none => Except.error e
      | some t => do
        let t' ← f t
        return (db.setTask tid t').releaseTaskHoldings tid u) = .ok db') : db.FilesKept db' := by
  split at h
  · cases h
  · next t hvis =>
    obtain ⟨t', ht', h⟩ := bind_eq_ok.mp h
    cases h
    exact .writeAndRelease (Db.visibleTask_eq_some.mp hvis).1 (hf t t' ht')

theorem Db.FilesKept.failUnstarted (reason : AbortReason) (db : Db) (tids : List TaskId) :
    db.FilesKept (tids.foldl (failUnstartedTask reason) db) := by
  refine Table.Descends.foldl (fun db : Db => db.tasks) SameFiles.refl
    (fun _ _ _ _ => SameFiles.trans) (fun db tid => ?_) db tids
  unfold failUnstartedTask
  split
  · exact .refl SameFiles.refl _
  · next t hfound =>
    rw [(Db.releaseUnstartedAccounting_frame _ _ _).1]
    exact .set SameFiles.refl hfound (Task.failUnstarted_files t reason)

theorem Db.FilesKept.terminateTasksHook (db : Db) (u : UserId) (ids : List TaskId) :
    db.FilesKept (terminateTasksHook db u ids) := by
  unfold Tasking.terminateTasksHook
  split
  · exact .of_tasks rfl
  · have hmark : db.FilesKept (db.markUserTasks u) := by
      refine Table.Descends.map _ (fun _ t => ?_) _
      split
      · exact Task.markDeleted_files t
      · rfl
    have hrelease (db : Db) :
        db.FilesKept (ids.foldl (fun db tid => db.releaseTaskHoldings tid u) db) :=
      Table.Descends.foldl (f := fun db tid => db.releaseTaskHoldings tid u)
        (fun db : Db => db.tasks) SameFiles.refl (fun _ _ _ _ => SameFiles.trans)
        (fun db tid => Db.FilesKept.releaseTaskHoldings db tid u) db ids
    have hdelete (db : Db) : db.FilesKept (db.deleteUserTasks u) :=
      Table.Descends.filter SameFiles.refl (fun _ t => t.ownerId ≠ u) db.tasks
    exact (hmark.trans (hrelease _)).trans (hdelete _)

end Tables

/-! ## Steps -/

section Steps

variable {cfg : Settings} {nfc : String → String} {db db' : Db} {w w' : World} {a : Action}

/-- A new row without files. -/
structure Db.CreatesEmpty (db db' : Db) (tid : TaskId) (t : Task) : Prop where
  fresh : db.tasks.get? tid = none
  issued : db.nextId ≤ tid
  written : db'.tasks = db.tasks.insert tid t
  files : t.files = []

theorem createTask_createsEmpty {owner : UserId} {revision : RevisionId}
    {provider : Option ProviderId} {message : String} {mcpRefs : List ServerId} {reply : TaskReply}
    (h : createTask cfg db owner revision provider message mcpRefs = .ok (db', reply)) :
    ∃ tid t, db.CreatesEmpty db' tid t := by
  unfold createTask at h
  obtain ⟨resolved, -, h⟩ := bind_eq_ok.mp h
  obtain ⟨-, -, h⟩ := bind_eq_ok.mp h
  obtain ⟨rev, -, h⟩ := bind_eq_ok.mp h
  obtain ⟨mcpServers, -, h⟩ := bind_eq_ok.mp h
  obtain ⟨charged, hcharged, h⟩ := bind_eq_ok.mp h
  obtain ⟨-, -, h⟩ := bind_eq_ok.mp h
  obtain ⟨htasks, -, -⟩ := Db.chargeCreationQuota_frame hcharged
  simp only at h
  split at h
  · cases h
  · next hnone =>
    obtain ⟨rfl, -⟩ := Prod.mk.inj (Except.ok.inj h)
    rw [htasks] at hnone
    refine ⟨db.nextId, Task.create owner revision resolved mcpServers db.now (db.nextId + 1) message,
      hnone, le_rfl, ?_, rfl⟩
    change charged.tasks.insert _ _ = _
    rw [htasks]

theorem endTask_filesKept {owner : UserId} {tid : TaskId} {terminal : PendingTerminal}
    {reason : Option AbortReason} {reply : TaskReply}
    (h : endTask db owner tid terminal reason = .ok (db', reply)) : db.FilesKept db' := by
  unfold endTask at h
  obtain ⟨t, ht, h⟩ := bind_eq_ok.mp h
  have hfound := (Db.visibleTask_eq_some.mp (lockTask_eq_ok ht).1).1
  split at h
  · obtain ⟨rfl, -⟩ := Prod.mk.inj (Except.ok.inj h)
    exact .of_set rfl hfound (t.requestTerminalWhileRunning_files terminal)
  · obtain ⟨t', ht', h⟩ := bind_eq_ok.mp h
    obtain ⟨rfl, -⟩ := Prod.mk.inj (Except.ok.inj h)
    exact .writeAndRelease hfound (Task.terminalizeQueued_files ht')
  · obtain ⟨t', ht', h⟩ := bind_eq_ok.mp h
    obtain ⟨rfl, -⟩ := Prod.mk.inj (Except.ok.inj h)
    exact .writeAndRelease hfound (Task.finalizeTerminal_files ht')

theorem failUnstartedTasks_filesKept (providers : Table ProviderId UserProvider) (pid : ProviderId) :
    db.FilesKept (failUnstartedTasks { db with providers := providers } pid) :=
  Db.FilesKept.failUnstarted .providerKeyRevoked { db with providers := providers } _

/-- A request changes files as listed, or creates a task without any. -/
theorem Request.exec_files {r : Request} (h : r.exec cfg nfc db = .ok db') :
    db.FilesFollow nfc (.request r) db' ∨ ∃ tid t, db.CreatesEmpty db' tid t := by
  cases r with
  | createTask owner revision provider message mcpRefs =>
    obtain ⟨⟨db₁, reply⟩, hrun, rfl⟩ := map_eq_ok.mp h
    exact .inr (createTask_createsEmpty hrun)
  | commitInput owner tid manifest =>
    obtain ⟨⟨db₁, reply⟩, hrun, rfl⟩ := map_eq_ok.mp h
    obtain ⟨t, ht, hrun⟩ := bind_eq_ok.mp hrun
    obtain ⟨⟨⟩, -, hrun⟩ := bind_eq_ok.mp hrun
    obtain ⟨t', ht', hrun⟩ := bind_eq_ok.mp hrun
    obtain ⟨charged, hcharged, hrun⟩ := bind_eq_ok.mp hrun
    obtain ⟨rfl, -⟩ := Prod.mk.inj (Except.ok.inj hrun)
    have hfound := (Db.visibleTask_eq_some.mp (lockTask_eq_ok ht).1).1
    refine .inl (.of_set (s := t') ?_ hfound ?_)
    · change charged.tasks.set tid t' = db.tasks.set tid t'
      rw [(Db.chargeStorage_frame hcharged).1]
    · rw [Task.commitInput_files ht']
      exact .commit owner tid manifest t (Task.eq_of_commitInput ht').1
  | uploadFiles owner tid uploads =>
    obtain ⟨⟨db₁, rows⟩, hrun, rfl⟩ := map_eq_ok.mp h
    obtain ⟨t, ht, hrun⟩ := bind_eq_ok.mp hrun
    obtain ⟨⟨⟩, -, hrun⟩ := bind_eq_ok.mp hrun
    obtain ⟨⟨⟩, hnames, hrun⟩ := bind_eq_ok.mp hrun
    obtain ⟨⟨⟩, hlimits, hrun⟩ := bind_eq_ok.mp hrun
    obtain ⟨rfl, -⟩ := Prod.mk.inj (Except.ok.inj hrun)
    obtain ⟨hvis, hst⟩ := lockUploadingTask_uploading ht
    have hfound := (Db.visibleTask_eq_some.mp hvis).1
    exact .inl (.of_set rfl hfound (.upload owner tid uploads t hst hnames hlimits rfl))
  | deleteFile owner tid fid =>
    obtain ⟨⟨db₁, fid'⟩, hrun, rfl⟩ := map_eq_ok.mp h
    obtain ⟨t, ht, hrun⟩ := bind_eq_ok.mp hrun
    obtain ⟨-, hrun⟩ := ite_error_eq_ok.mp hrun
    obtain ⟨rfl, -⟩ := Prod.mk.inj (Except.ok.inj hrun)
    obtain ⟨hvis, hst⟩ := lockUploadingTask_uploading ht
    have hfound := (Db.visibleTask_eq_some.mp hvis).1
    exact .inl (.of_set rfl hfound (.delete owner tid fid t hst))
  | abort owner tid =>
    obtain ⟨⟨db₁, reply⟩, hrun, rfl⟩ := map_eq_ok.mp h
    exact .inl (endTask_filesKept hrun).follow
  | complete owner tid =>
    obtain ⟨⟨db₁, reply⟩, hrun, rfl⟩ := map_eq_ok.mp h
    exact .inl (endTask_filesKept hrun).follow
  | delete owner tid =>
    obtain ⟨⟨db₁, reply⟩, hrun, rfl⟩ := map_eq_ok.mp h
    obtain ⟨t, ht, hrun⟩ := bind_eq_ok.mp hrun
    obtain ⟨t', ht', hrun⟩ := bind_eq_ok.mp hrun
    obtain ⟨rfl, -⟩ := Prod.mk.inj (Except.ok.inj hrun)
    have hfound := (Db.visibleTask_eq_some.mp (lockTask_eq_ok ht).1).1
    exact .inl (Db.FilesKept.writeAndRelease hfound (Task.delete_files ht')).follow
  | sendMessage owner tid content =>
    obtain ⟨⟨db₁, reply⟩, hrun, rfl⟩ := map_eq_ok.mp h
    obtain ⟨t, ht, hrun⟩ := bind_eq_ok.mp hrun
    obtain ⟨⟨⟩, -, hrun⟩ := bind_eq_ok.mp hrun
    obtain ⟨⟨⟩, -, hrun⟩ := bind_eq_ok.mp hrun
    obtain ⟨t', ht', hrun⟩ := bind_eq_ok.mp hrun
    obtain ⟨rfl, -⟩ := Prod.mk.inj (Except.ok.inj hrun)
    have hfound := (Db.visibleTask_eq_some.mp (lockTask_eq_ok ht).1).1
    exact .inl (Db.FilesKept.of_set (s := t') rfl hfound (Task.sendMessage_files ht')).follow
  | createProvider owner modelId isDefault =>
    exact .inl (Db.FilesKept.of_tasks (createProvider_still h).1).follow
  | rotateKey owner pid =>
    obtain ⟨row, -, h⟩ := bind_eq_ok.mp h
    cases h
    exact .inl (failUnstartedTasks_filesKept _ pid).follow
  | revokeProvider owner pid =>
    obtain ⟨row, -, h⟩ := bind_eq_ok.mp h
    cases h
    exact .inl (failUnstartedTasks_filesKept _ pid).follow

theorem failAtDeadline_filesKept {c : RoundContext} (h : failAtDeadline db c = .ok db') :
    db.FilesKept db' := by
  unfold failAtDeadline at h
  split at h
  · cases h
  · next t hvis =>
    have hfound := (Db.visibleTask_eq_some.mp hvis).1
    split at h
    · cases h
    · split at h
      · cases h
        exact .of_set rfl hfound rfl
      · cases h
        exact .writeAndRelease hfound (Task.appendEvents_files _ _)

theorem Write.exec_files {x : Write} (h : x.exec cfg nfc db = .ok db') :
    db.FilesFollow nfc (.write x) db' := by
  cases x with
  | fact c author content =>
    change persistFact db c author content = .ok db' at h
    unfold persistFact at h
    split at h
    · cases h
    · next t hvis =>
      obtain ⟨-, h⟩ := ite_error_eq_ok.mp h
      cases h
      have hfound := (Db.visibleTask_eq_some.mp hvis).1
      exact (Db.FilesKept.of_set (s := t.saveMessage db.nextId author content (some c.round)) rfl
        hfound rfl).follow
  | settle c pending finishReason usage =>
    change Tasking.settle db c pending finishReason usage = .ok db' at h
    unfold Tasking.settle at h
    split at h
    · cases h
    · next t hvis =>
      obtain ⟨t', ht', h⟩ := bind_eq_ok.mp h
      cases h
      have hkept := Db.FilesKept.writeAndRelease (u := c.owner) (Db.visibleTask_eq_some.mp hvis).1
        (Task.settle_files ht')
      apply Db.FilesKept.follow
      exact hkept.trans (.of_tasks rfl)
  | deadline c => exact (failAtDeadline_filesKept h).follow
  | renew c =>
    change renewLease cfg db c = .ok db' at h
    unfold renewLease at h
    split at h
    · cases h
    · next t hvis =>
      obtain ⟨-, h⟩ := ite_error_eq_ok.mp h
      cases h
      have hfound := (Db.visibleTask_eq_some.mp hvis).1
      exact (Db.FilesKept.of_set (s := t.updateRounds c.fences
        (·.renew (db.now + cfg.leaseTtlSeconds))) rfl hfound rfl).follow
  | output c fileName content =>
    obtain ⟨⟨db₁, fid⟩, hrun, rfl⟩ := map_eq_ok.mp h
    obtain ⟨t, ht, hrun⟩ := bind_eq_ok.mp hrun
    obtain ⟨⟨t', refunded⟩, ht', hrun⟩ := bind_eq_ok.mp hrun
    obtain ⟨charged, hcharged, hrun⟩ := bind_eq_ok.mp hrun
    obtain ⟨rfl, -⟩ := Prod.mk.inj (Except.ok.inj hrun)
    have hfound := (Db.visibleTask_eq_some.mp (lockTask_eq_ok ht).1).1
    refine .of_set ?_ hfound (.output c fileName content t t' refunded ht' rfl)
    change charged.tasks.set c.task t' = db.tasks.set c.task t'
    rw [(Db.chargeStorage_frame hcharged).1]
    split
    · rfl
    · simp [Db.refundStorage]

theorem Job.exec_files {locked : List ℕ} {j : Job} (h : j.exec cfg locked db = .ok db') :
    db.FilesFollow nfc (.perform j locked) db' := by
  cases j with
  | dispatch iid c =>
    change claimRound cfg db locked c iid = .ok db' at h
    unfold claimRound at h
    split at h
    · cases h
    · next t hvis =>
      obtain ⟨t', ht', h⟩ := bind_eq_ok.mp h
      obtain ⟨charged, hcharged, h⟩ := bind_eq_ok.mp h
      obtain ⟨-, hcharged⟩ := ite_ok_else_error.mp hcharged
      cases hcharged
      refine (Db.FilesKept.of_set (s := t') ?_ (Db.visibleTask_eq_some.mp hvis).1
        (Task.claimRound_files ht')).follow
      unfold Db.leaseSlot at h
      split at h
      · cases h
      · cases h
        rfl
  | reclaimExpired c =>
    exact (Db.FilesKept.of_visible (fun _ _ => Task.reclaimExpired_files) h).follow
  | cancelCancelling c =>
    exact (Db.FilesKept.of_visible (fun _ _ => Task.cancelCancellingRound_files) h).follow
  | expireUpload c => exact (Db.FilesKept.of_visible (fun _ _ => Task.expireUpload_files) h).follow
  | cleanup c =>
    change cleanupTask db c = .ok db' at h
    unfold cleanupTask at h
    split at h
    · cases h
      exact (Db.FilesKept.of_tasks rfl).follow
    · next t hvis =>
      cases h
      refine .of_set (s := t.cleanup) ?_ (Db.visibleTask_eq_some.mp hvis).1
        (.cleanup c locked t)
      rw [Db.applyReleaseAccounting_tasks]
      rfl
  | reconcile c => exact (Db.FilesKept.of_visible (fun _ _ => Task.reconcile_files) h).follow
  | terminate reason c => exact (Db.FilesKept.of_visible (fun _ _ => Task.terminate_files) h).follow
  | terminateUser u ids =>
    cases h
    exact (Db.FilesKept.terminateTasksHook db u ids).follow

/-- What a step does to files: as listed, or it creates a task without any. -/
theorem step_files (h : step cfg nfc w a = .ok w') :
    w.db.FilesFollow nfc a w'.db ∨ ∃ tid t, w.db.CreatesEmpty w'.db tid t := by
  cases a with
  | setQuota u quota =>
    obtain ⟨db', hdb, h⟩ := bind_eq_ok.mp h
    obtain ⟨-, hdb⟩ := ite_ok_else_error.mp hdb
    cases hdb
    cases h
    exact .inl (Db.FilesKept.of_tasks rfl).follow
  | request r =>
    obtain ⟨db', hdb, h⟩ := bind_eq_ok.mp h
    cases h
    exact Request.exec_files hdb
  | write x =>
    obtain ⟨db', hdb, h⟩ := bind_eq_ok.mp h
    cases h
    exact .inl (Write.exec_files hdb)
  | perform j locked =>
    obtain ⟨-, h⟩ := ite_ok_else_error.mp h
    obtain ⟨db', hdb, h⟩ := bind_eq_ok.mp h
    cases h
    exact .inl (Job.exec_files hdb)
  | toolCheck c =>
    obtain ⟨-, h⟩ := ite_ok_else_error.mp h
    cases h
    exact .inl (Db.FilesKept.of_tasks rfl).follow
  | toolAnswer c =>
    obtain ⟨-, h⟩ := ite_ok_else_error.mp h
    cases h
    exact .inl (Db.FilesKept.of_tasks rfl).follow
  | _ =>
    cases h
    exact .inl (Db.FilesKept.of_tasks rfl).follow

/-- A row after a step has files that the step made of those of the row before, or it is new. -/
theorem step_files_row {tid : TaskId} {t' : Task} (h : step cfg nfc w a = .ok w')
    (hrow : w'.db.tasks.get? tid = some t') :
    (∃ t, w.db.tasks.get? tid = some t ∧
      FileChange nfc w.db.nextId w'.db.nextId a tid t t'.files) ∨
      w.db.nextId ≤ tid ∧ t'.files = [] := by
  rcases step_files h with hfollow | ⟨tid₀, t₀, hnew⟩
  · exact .inl (hfollow tid t' hrow)
  · rw [hnew.written, Table.get?_insert hnew.fresh] at hrow
    split at hrow
    · next heq =>
      cases hrow
      exact .inr ⟨heq ▸ hnew.issued, hnew.files⟩
    · exact .inl ⟨t', hrow, .keep a tid t'⟩

end Steps

end AgentCraft.Tasking
