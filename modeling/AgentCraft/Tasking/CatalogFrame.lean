import AgentCraft.Tasking.Terminators

/-!
# The catalogue is read only

No transaction of the task domain writes the revisions, the flags of the tools or the rows of the servers:
they change under the label of the catalogue alone.
-/

namespace AgentCraft.Tasking

open AgentCraft.Relational AgentCraft.Transition

/-! ## Statements -/

@[simp] theorem Db.setTask_catalog (db : Db) (tid : TaskId) (t : Task) :
    (db.setTask tid t).catalog = db.catalog := rfl
@[simp] theorem Db.updateUsage_catalog (db : Db) (u p f) :
    (db.updateUsage u p f).catalog = db.catalog := rfl
@[simp] theorem Db.addPlatformStorage_catalog (db : Db) (p n) :
    (db.addPlatformStorage p n).catalog = db.catalog := by
  unfold Db.addPlatformStorage
  split <;> rfl
@[simp] theorem Db.refundStorage_catalog (db : Db) (u n) :
    (db.refundStorage u n).catalog = db.catalog := by
  unfold Db.refundStorage
  simp
@[simp] theorem Db.applyReleaseAccounting_catalog (db : Db) (tid u released b) :
    (db.applyReleaseAccounting tid u released b).catalog = db.catalog := by
  unfold Db.applyReleaseAccounting Db.releaseActive Db.releaseRunning
  simp only
  split_ifs <;> simp [Db.freeSlots]
@[simp] theorem Db.releaseTaskHoldings_catalog (db : Db) (tid u) :
    (db.releaseTaskHoldings tid u).catalog = db.catalog := by
  unfold Db.releaseTaskHoldings
  split <;> simp

section Transactions

variable {cfg : Settings} {nfc : String → String} {db db' : Db}

theorem chargeUsage_catalog {u : UserId} {p f} {e : Failure} (h : db.chargeUsage u p f e = .ok db') :
    db'.catalog = db.catalog := by
  obtain ⟨-, h⟩ := ite_ok_else_error.mp h
  cases h
  rfl

theorem chargeStorage_catalog {u : UserId} {n : ℕ} {e e' : Failure}
    (h : db.chargeStorage u n e e' = .ok db') : db'.catalog = db.catalog := by
  obtain ⟨db₁, h₁, h⟩ := bind_eq_ok.mp h
  obtain ⟨-, h⟩ := ite_ok_else_error.mp h
  cases h
  rw [Db.addPlatformStorage_catalog]
  exact chargeUsage_catalog h₁

theorem chargeCreationQuota_catalog {u : UserId} (h : db.chargeCreationQuota u = .ok db') :
    db'.catalog = db.catalog := by
  obtain ⟨daily, hdaily, h⟩ := bind_eq_ok.mp h
  refine (chargeUsage_catalog h).trans ?_
  unfold Db.chargeDaily at hdaily
  obtain ⟨-, hdaily⟩ := ite_error_eq_ok.mp hdaily
  split at hdaily
  · cases hdaily
    rfl
  · obtain ⟨-, hdaily⟩ := ite_ok_else_error.mp hdaily
    cases hdaily
    rfl

/-- A background transaction that moves the row that it sees and releases its holdings. -/
theorem catalog_of_visible {u : UserId} {tid : TaskId} {e : Failure} {f : Task → Except Failure Task}
    (h : (match db.visibleTask u tid with
      | none => Except.error e
      | some t => do
        let t' ← f t
        return (db.setTask tid t').releaseTaskHoldings tid u) = .ok db') :
    db'.catalog = db.catalog := by
  split at h
  · cases h
  · obtain ⟨t', -, h⟩ := bind_eq_ok.mp h
    cases h
    simp

theorem failUnstartedTasks_catalog (db : Db) (pid : ProviderId) (reason : AbortReason) :
    (failUnstartedTasks db pid reason).catalog = db.catalog := by
  unfold failUnstartedTasks
  generalize unstartedTasks db pid = tids
  induction tids generalizing db with
  | nil => rfl
  | cons tid tids ih =>
    rw [List.foldl_cons, ih]
    unfold failUnstartedTask
    split
    · rfl
    · unfold Db.releaseUnstartedAccounting
      split <;> rfl

theorem terminateTasksHook_catalog (db : Db) (u : UserId) (ids : List TaskId) :
    (terminateTasksHook db u ids).catalog = db.catalog := by
  have hfold (db : Db) : (ids.foldl (fun db tid => db.releaseTaskHoldings tid u) db).catalog =
      db.catalog := by
    induction ids generalizing db with
    | nil => rfl
    | cons tid ids ih => rw [List.foldl_cons, ih, Db.releaseTaskHoldings_catalog]
  unfold terminateTasksHook
  split
  · rfl
  · exact hfold _

theorem endTask_catalog {owner : UserId} {tid : TaskId} {terminal : PendingTerminal}
    {reason : Option AbortReason} {reply : TaskReply}
    (h : endTask db owner tid terminal reason = .ok (db', reply)) : db'.catalog = db.catalog := by
  obtain ⟨t, -, h⟩ := bind_eq_ok.mp h
  split at h
  · cases h
    rfl
  · obtain ⟨t', -, h⟩ := bind_eq_ok.mp h
    cases h
    simp
  · obtain ⟨t', -, h⟩ := bind_eq_ok.mp h
    cases h
    simp

theorem Request.exec_catalog {r : Request} (h : r.exec cfg nfc db = .ok db') :
    db'.catalog = db.catalog := by
  cases r with
  | createTask owner revision provider message mcpRefs =>
    obtain ⟨⟨db₁, reply⟩, hrun, rfl⟩ := map_eq_ok.mp h
    obtain ⟨resolved, -, hrun⟩ := bind_eq_ok.mp hrun
    obtain ⟨⟨⟩, -, hrun⟩ := bind_eq_ok.mp hrun
    obtain ⟨rev, -, hrun⟩ := bind_eq_ok.mp hrun
    obtain ⟨servers, -, hrun⟩ := bind_eq_ok.mp hrun
    obtain ⟨charged, hcharged, hrun⟩ := bind_eq_ok.mp hrun
    obtain ⟨⟨⟩, -, hrun⟩ := bind_eq_ok.mp hrun
    simp only at hrun
    split at hrun
    · cases hrun
    · obtain ⟨rfl, -⟩ := Prod.mk.inj (Except.ok.inj hrun)
      show charged.catalog = db.catalog
      exact chargeCreationQuota_catalog hcharged
  | commitInput owner tid manifest =>
    obtain ⟨⟨db₁, reply⟩, hrun, rfl⟩ := map_eq_ok.mp h
    obtain ⟨t, -, hrun⟩ := bind_eq_ok.mp hrun
    obtain ⟨⟨⟩, -, hrun⟩ := bind_eq_ok.mp hrun
    obtain ⟨t', -, hrun⟩ := bind_eq_ok.mp hrun
    obtain ⟨charged, hcharged, hrun⟩ := bind_eq_ok.mp hrun
    obtain ⟨rfl, -⟩ := Prod.mk.inj (Except.ok.inj hrun)
    show charged.catalog = db.catalog
    exact chargeStorage_catalog hcharged
  | uploadFiles owner tid uploads =>
    obtain ⟨⟨db₁, reply⟩, hrun, rfl⟩ := map_eq_ok.mp h
    obtain ⟨t, -, hrun⟩ := bind_eq_ok.mp hrun
    obtain ⟨⟨⟩, -, hrun⟩ := bind_eq_ok.mp hrun
    obtain ⟨⟨⟩, -, hrun⟩ := bind_eq_ok.mp hrun
    obtain ⟨⟨⟩, -, hrun⟩ := bind_eq_ok.mp hrun
    obtain ⟨rfl, -⟩ := Prod.mk.inj (Except.ok.inj hrun)
    rfl
  | deleteFile owner tid fid =>
    obtain ⟨⟨db₁, reply⟩, hrun, rfl⟩ := map_eq_ok.mp h
    obtain ⟨t, -, hrun⟩ := bind_eq_ok.mp hrun
    obtain ⟨-, hrun⟩ := ite_error_eq_ok.mp hrun
    obtain ⟨rfl, -⟩ := Prod.mk.inj (Except.ok.inj hrun)
    rfl
  | abort owner tid =>
    obtain ⟨⟨db₁, reply⟩, hrun, rfl⟩ := map_eq_ok.mp h
    exact endTask_catalog hrun
  | complete owner tid =>
    obtain ⟨⟨db₁, reply⟩, hrun, rfl⟩ := map_eq_ok.mp h
    exact endTask_catalog hrun
  | delete owner tid =>
    obtain ⟨⟨db₁, reply⟩, hrun, rfl⟩ := map_eq_ok.mp h
    obtain ⟨t, -, hrun⟩ := bind_eq_ok.mp hrun
    obtain ⟨t', -, hrun⟩ := bind_eq_ok.mp hrun
    obtain ⟨rfl, -⟩ := Prod.mk.inj (Except.ok.inj hrun)
    simp
  | sendMessage owner tid content =>
    obtain ⟨⟨db₁, reply⟩, hrun, rfl⟩ := map_eq_ok.mp h
    obtain ⟨t, -, hrun⟩ := bind_eq_ok.mp hrun
    obtain ⟨⟨⟩, -, hrun⟩ := bind_eq_ok.mp hrun
    obtain ⟨⟨⟩, -, hrun⟩ := bind_eq_ok.mp hrun
    obtain ⟨t', -, hrun⟩ := bind_eq_ok.mp hrun
    obtain ⟨rfl, -⟩ := Prod.mk.inj (Except.ok.inj hrun)
    rfl
  | createProvider owner modelId isDefault =>
    change Tasking.createProvider db owner modelId isDefault = .ok db' at h
    unfold Tasking.createProvider at h
    simp only at h
    split at h
    · cases h
    · cases h
      rfl
  | rotateKey owner pid =>
    obtain ⟨row, -, h⟩ := bind_eq_ok.mp h
    cases h
    exact failUnstartedTasks_catalog _ _ _
  | revokeProvider owner pid =>
    obtain ⟨row, -, h⟩ := bind_eq_ok.mp h
    cases h
    exact failUnstartedTasks_catalog _ _ _

theorem Write.exec_catalog {x : Write} (h : x.exec cfg nfc db = .ok db') : db'.catalog = db.catalog := by
  cases x with
  | fact c author content =>
    change persistFact db c author content = .ok db' at h
    unfold persistFact at h
    split at h
    · cases h
    · obtain ⟨-, h⟩ := ite_error_eq_ok.mp h
      cases h
      rfl
  | settle c pending finishReason usage =>
    change Tasking.settle db c pending finishReason usage = .ok db' at h
    unfold Tasking.settle at h
    split at h
    · cases h
    · obtain ⟨t', -, h⟩ := bind_eq_ok.mp h
      cases h
      exact Db.releaseTaskHoldings_catalog _ _ _
  | deadline c =>
    change failAtDeadline db c = .ok db' at h
    unfold failAtDeadline at h
    split at h
    · cases h
    · split at h
      · cases h
      · split at h
        · cases h
          rfl
        · cases h
          exact Db.releaseTaskHoldings_catalog _ _ _
  | renew c =>
    change renewLease cfg db c = .ok db' at h
    unfold renewLease at h
    split at h
    · cases h
    · obtain ⟨-, h⟩ := ite_error_eq_ok.mp h
      cases h
      rfl
  | output c fileName content =>
    obtain ⟨⟨db₁, fid⟩, hrun, rfl⟩ := map_eq_ok.mp h
    obtain ⟨t, -, hrun⟩ := bind_eq_ok.mp hrun
    obtain ⟨⟨t', refunded⟩, -, hrun⟩ := bind_eq_ok.mp hrun
    obtain ⟨charged, hcharged, hrun⟩ := bind_eq_ok.mp hrun
    obtain ⟨rfl, -⟩ := Prod.mk.inj (Except.ok.inj hrun)
    refine (chargeStorage_catalog hcharged).trans ?_
    split
    · rfl
    · exact Db.refundStorage_catalog _ _ _

theorem Job.exec_catalog {locked : List ℕ} {j : Job} (h : j.exec cfg locked db = .ok db') :
    db'.catalog = db.catalog := by
  cases j with
  | dispatch iid c =>
    change claimRound cfg db locked c iid = .ok db' at h
    unfold claimRound at h
    split at h
    · cases h
    · obtain ⟨t', -, h⟩ := bind_eq_ok.mp h
      obtain ⟨charged, hcharged, h⟩ := bind_eq_ok.mp h
      obtain ⟨-, hcharged⟩ := ite_ok_else_error.mp hcharged
      cases hcharged
      unfold Db.leaseSlot at h
      split at h
      · cases h
      · cases h
        rfl
  | cleanup c =>
    change cleanupTask db c = .ok db' at h
    unfold cleanupTask at h
    split at h
    · cases h
      rfl
    · cases h
      simp
  | terminateUser u ids =>
    cases h
    exact terminateTasksHook_catalog db u ids
  | _ => exact catalog_of_visible h

/-- The catalogue changes only when it is set. -/
theorem step_catalog {w w' : World} {a : Action} (ha : ∀ c, a ≠ .setCatalog c)
    (h : step cfg nfc w a = .ok w') : w'.db.catalog = w.db.catalog := by
  cases a with
  | setQuota u quota =>
    obtain ⟨db', hdb, h⟩ := bind_eq_ok.mp h
    obtain ⟨-, hdb⟩ := ite_ok_else_error.mp hdb
    cases hdb
    cases h
    rfl
  | setCatalog c => exact absurd rfl (ha c)
  | request r =>
    obtain ⟨db', hdb, h⟩ := bind_eq_ok.mp h
    cases h
    exact Request.exec_catalog hdb
  | write x =>
    obtain ⟨db', hdb, h⟩ := bind_eq_ok.mp h
    cases h
    exact Write.exec_catalog hdb
  | perform j locked =>
    obtain ⟨-, h⟩ := ite_ok_else_error.mp h
    obtain ⟨db', hdb, h⟩ := bind_eq_ok.mp h
    cases h
    exact Job.exec_catalog hdb
  | toolCheck c =>
    obtain ⟨-, h⟩ := ite_ok_else_error.mp h
    cases h
    rfl
  | toolAnswer c =>
    obtain ⟨-, h⟩ := ite_ok_else_error.mp h
    cases h
    rfl
  | _ =>
    cases h
    rfl

/-- So does the transaction of a terminator. -/
theorem terminateOne_catalog (reason : AbortReason) (db : Db) (c : TaskCandidate) :
    (terminateOne reason db c).catalog = db.catalog := by
  unfold terminateOne
  split
  · next h => exact catalog_of_visible h
  · rfl

end Transactions

end AgentCraft.Tasking
