import AgentCraft.Tasking.CountLedger

/-!
# Quota caps

Every increment of a counter is a conditional update under its maximum, and everything else only gives
back. So, whatever is created, committed, claimed and registered side by side, no counter exceeds its
maximum as long as no maximum is lowered, and a transaction that finds no room fails as a whole.
-/

namespace AgentCraft.Tasking

open AgentCraft.Relational AgentCraft.Transition

/-- The maximum of a counter. -/
def Column.cap : Column → UserQuota → ℤ
  | .active, q => q.maxActiveTasks
  | .running, q => q.maxRunningTasks
  | .storage, q => q.maxRetainedStorageBytes

/-- No counter exceeds its maximum. A user without a quota row has used nothing. -/
structure Db.Capped (db : Db) : Prop where
  usage : ∀ c u q, db.quotas.get? u = some q → db.reads c u ≤ c.cap q
  unmetered : ∀ c u, db.quotas.get? u = none → db.reads c u ≤ 0
  daily : ∀ u day n, db.usageDaily.get? (u, day) = some n →
    ∃ q, db.quotas.get? u = some q ∧ n ≤ q.maxDailyTasks
  platform : db.storage.retainedStorageBytes ≤ db.storage.maxRetainedStorageBytes

/-- The slots of the platform. -/
def Db.slotNumbers (db : Db) : List ℕ := db.slots.rows.map Prod.fst

/-- The slots that are leased. -/
def Db.leasedSlots (db : Db) : ℕ := db.slots.rows.countP fun s => s.2.state = .leased

/-- A transaction that charges nothing: counters may only go down. -/
structure Db.Lowers (db db' : Db) : Prop where
  quotas : db'.quotas = db.quotas
  usageDaily : db'.usageDaily = db.usageDaily
  reads : ∀ c u, db'.reads c u ≤ db.reads c u
  platform : db'.storage.retainedStorageBytes ≤ db.storage.retainedStorageBytes
  maximum : db'.storage.maxRetainedStorageBytes = db.storage.maxRetainedStorageBytes
  slots : db'.slotNumbers = db.slotNumbers

section Lowers

variable {db db' db'' : Db} {u : UserId} {tid : TaskId} {c : Column}

theorem Db.Lowers.capped (h : db.Lowers db') (hc : db.Capped) : db'.Capped where
  usage c u q hq := (h.reads c u).trans (hc.usage c u q (by rw [← h.quotas, hq]))
  unmetered c u hq := (h.reads c u).trans (hc.unmetered c u (by rw [← h.quotas, hq]))
  daily u day n hn := by
    rw [h.quotas]
    exact hc.daily u day n (by rw [← h.usageDaily, hn])
  platform := by
    rw [h.maximum]
    exact h.platform.trans hc.platform

theorem Db.Lowers.trans (h : db.Lowers db') (h' : db'.Lowers db'') : db.Lowers db'' where
  quotas := h'.quotas.trans h.quotas
  usageDaily := h'.usageDaily.trans h.usageDaily
  reads c u := (h'.reads c u).trans (h.reads c u)
  platform := h'.platform.trans h.platform
  maximum := h'.maximum.trans h.maximum
  slots := h'.slots.trans h.slots

/-- What touches no counter. -/
theorem Db.Lowers.of_eq (husage : db'.usage = db.usage) (hquotas : db'.quotas = db.quotas)
    (hdaily : db'.usageDaily = db.usageDaily) (hstorage : db'.storage = db.storage)
    (hslots : db'.slotNumbers = db.slotNumbers) : db.Lowers db' where
  quotas := hquotas
  usageDaily := hdaily
  reads c u := by rw [Db.reads, Db.reads, husage]
  platform := by rw [hstorage]
  maximum := by rw [hstorage]
  slots := hslots

theorem Db.Lowers.refl (db : Db) : db.Lowers db := .of_eq rfl rfl rfl rfl rfl

/-- A counter after an update: as before, or that of the row that was hit. -/
theorem reads_updateUsage_cases (db : Db) (u : UserId) (p : UserQuotaUsage → Bool) (f : UserQuotaUsage → UserQuotaUsage)
    (c : Column) (u' : UserId) : (db.updateUsage u p f).reads c u' = db.reads c u' ∨
      ∃ row, u' = u ∧ p row = true ∧ db.reads c u' = c.read row ∧
        (db.updateUsage u p f).reads c u' = c.read (f row) := by
  rw [Db.reads, Db.reads, usage_updateUsage]
  cases db.usage.get? u' with
  | none => exact .inl rfl
  | some row =>
    by_cases hhit : u' = u ∧ p row = true
    · exact .inr ⟨row, hhit.1, hhit.2, rfl, by simp [hhit.1, hhit.2]⟩
    · exact .inl (by simp [hhit])

/-- An update that lowers the rows it hits. -/
theorem Db.Lowers.updateUsage (p : UserQuotaUsage → Bool) {f : UserQuotaUsage → UserQuotaUsage}
    (hf : ∀ (c : Column) row, c.read (f row) ≤ c.read row) : db.Lowers (db.updateUsage u p f) where
  quotas := rfl
  usageDaily := rfl
  reads c u' := by
    rcases reads_updateUsage_cases db u p f c u' with h | ⟨row, -, -, h, h'⟩
    · exact h.le
    · rw [h', h]
      exact hf c row
  platform := le_rfl
  maximum := rfl
  slots := rfl

theorem Db.Lowers.addPlatformStorage (p : PlatformStorage → Bool) (n : ℕ) :
    db.Lowers (db.addPlatformStorage p (-n)) := by
  unfold Db.addPlatformStorage
  split
  · refine ⟨rfl, rfl, fun _ _ => le_rfl, ?_, rfl, rfl⟩
    show db.storage.retainedStorageBytes + -n ≤ db.storage.retainedStorageBytes
    omega
  · exact .refl db

/-- Rewriting slots keeps their numbers. -/
theorem Db.Lowers.mapSlots (f : ℕ → PlatformSlot → PlatformSlot) :
    db.Lowers { db with slots := db.slots.map f } :=
  .of_eq rfl rfl rfl rfl (by simp [Db.slotNumbers, Table.map])

theorem Db.Lowers.refundStorage (n : ℕ) : db.Lowers (db.refundStorage u n) := by
  refine (Db.Lowers.updateUsage _ fun c row => ?_).trans (.addPlatformStorage _ n)
  cases c <;> simp [Column.read]

theorem Db.Lowers.applyReleaseAccounting (released : Released) (b : Bool) :
    db.Lowers (db.applyReleaseAccounting tid u released b) := by
  have hrunning (db : Db) (n : ℕ) : db.Lowers (db.releaseRunning tid u n) := by
    unfold Db.releaseRunning
    split
    · exact .refl db
    · refine (Db.Lowers.mapSlots _).trans (.updateUsage _ fun c row => ?_)
      cases c <;> simp [Column.read]
  have hactive (db : Db) (n : ℕ) : db.Lowers (db.releaseActive u n) := by
    unfold Db.releaseActive
    split
    · exact .refl db
    · refine .updateUsage _ fun c row => ?_
      cases c <;> simp [Column.read]
  unfold Db.applyReleaseAccounting
  simp only
  split
  · exact ((hrunning db _).trans (hactive _ _)).trans (.refundStorage _)
  · exact (hrunning db _).trans (hactive _ _)

theorem Db.Lowers.setTask (t : Task) : db.Lowers (db.setTask tid t) := .of_eq rfl rfl rfl rfl rfl

theorem Db.Lowers.releaseTaskHoldings (tid : TaskId) (u : UserId) :
    db.Lowers (db.releaseTaskHoldings tid u) := by
  unfold Db.releaseTaskHoldings
  split
  · exact .refl db
  · exact (Db.Lowers.setTask _).trans (.applyReleaseAccounting _ _)

/-- The usual end of a transaction: the row is written and its holdings are released. -/
theorem Db.Lowers.writeAndRelease (t : Task) (u : UserId) :
    db.Lowers ((db.setTask tid t).releaseTaskHoldings tid u) :=
  (Db.Lowers.setTask t).trans (.releaseTaskHoldings tid u)

/-- A background transaction that moves the row that it sees and releases its holdings. -/
theorem Db.Lowers.of_visible {e : Failure} {f : Task → Except Failure Task}
    (h : (match db.visibleTask u tid with
      | none => Except.error e
      | some t => do
        let t' ← f t
        return (db.setTask tid t').releaseTaskHoldings tid u) = .ok db') : db.Lowers db' := by
  split at h
  · cases h
  · obtain ⟨t', -, h⟩ := bind_eq_ok.mp h
    cases h
    exact .writeAndRelease t' u

theorem Db.Lowers.failUnstartedTasks (pid : ProviderId) (reason : AbortReason) :
    db.Lowers (failUnstartedTasks db pid reason) := by
  have hone (db : Db) (tid : TaskId) : db.Lowers (failUnstartedTask reason db tid) := by
    unfold failUnstartedTask
    split
    · exact .refl db
    · next t _ =>
      have hset : db.Lowers (db.setTask tid (t.failUnstarted reason)) := .setTask _
      refine hset.trans ?_
      unfold Db.releaseUnstartedAccounting
      split
      · exact .refl _
      · refine .updateUsage _ fun c row => ?_
        cases c <;> simp [Column.read]
  unfold Tasking.failUnstartedTasks
  generalize unstartedTasks db pid = tids
  induction tids generalizing db with
  | nil => exact .refl db
  | cons tid tids ih => exact (hone db tid).trans ih

theorem Db.Lowers.terminateTasksHook (u : UserId) (ids : List TaskId) :
    db.Lowers (terminateTasksHook db u ids) := by
  have hfold (db : Db) : db.Lowers (ids.foldl (fun db tid => db.releaseTaskHoldings tid u) db) := by
    induction ids generalizing db with
    | nil => exact .refl db
    | cons tid ids ih => exact (Db.Lowers.releaseTaskHoldings tid u).trans (ih _)
  unfold Tasking.terminateTasksHook
  split
  · exact .refl db
  · have hmark : db.Lowers (db.markUserTasks u) := .of_eq rfl rfl rfl rfl rfl
    refine (hmark.trans (hfold _)).trans (.of_eq rfl rfl rfl rfl ?_)
    simp [Db.slotNumbers, Db.deleteUserTasks, Table.map]

end Lowers

/-! ## Charges -/

/-- A transaction that keeps the counters under their maxima. -/
structure Db.Meters (db db' : Db) : Prop where
  capped : db.Capped → db'.Capped
  slots : db'.slotNumbers = db.slotNumbers

theorem Db.Lowers.meters {db db' : Db} (h : db.Lowers db') : db.Meters db' := ⟨h.capped, h.slots⟩

section Charges

variable {db db' db'' charged : Db} {u : UserId} {tid : TaskId} {n : ℕ} {e e' : Failure}

theorem Db.Meters.trans (h : db.Meters db') (h' : db'.Meters db'') : db.Meters db'' :=
  ⟨fun hc => h'.capped (h.capped hc), h'.slots.trans h.slots⟩

theorem Db.Meters.of_eq (husage : db'.usage = db.usage) (hquotas : db'.quotas = db.quotas)
    (hdaily : db'.usageDaily = db.usageDaily) (hstorage : db'.storage = db.storage)
    (hslots : db'.slotNumbers = db.slotNumbers) : db.Meters db' :=
  (Db.Lowers.of_eq husage hquotas hdaily hstorage hslots).meters

theorem Db.underQuota_eq_true {p : UserQuota → Bool} :
    db.underQuota u p = true ↔ ∃ q, db.quotas.get? u = some q ∧ p q = true := by
  unfold Db.underQuota
  split <;> simp_all

/-- An update of the usage row under its quota: what it raises stays below the maximum. -/
theorem Db.Meters.chargeUsage {p : UserQuotaUsage → Bool} {f : UserQuotaUsage → UserQuotaUsage}
    (hp : ∀ row, p row = true → ∃ q, db.quotas.get? u = some q ∧
      ∀ c : Column, c.read (f row) ≤ c.read row ∨ c.read (f row) ≤ c.cap q)
    (h : db.chargeUsage u p f e = .ok charged) : db.Meters charged := by
  obtain ⟨-, h⟩ := ite_ok_else_error.mp h
  cases h
  have hrow (c : Column) (u' : UserId) : (db.updateUsage u p f).reads c u' ≤ db.reads c u' ∨
      ∃ q, db.quotas.get? u' = some q ∧ (db.updateUsage u p f).reads c u' ≤ c.cap q := by
    rcases reads_updateUsage_cases db u p f c u' with h | ⟨row, rfl, hhit, h, h'⟩
    · exact .inl h.le
    · obtain ⟨q, hq, hle⟩ := hp row hhit
      rw [h, h']
      exact (hle c).imp_right fun hle => ⟨q, hq, hle⟩
  refine ⟨fun hc => ⟨fun c u' q hq => ?_, fun c u' hq => ?_, hc.daily, hc.platform⟩, rfl⟩
  · rcases hrow c u' with hle | ⟨q', hq', hle⟩
    · exact hle.trans (hc.usage c u' q hq)
    · obtain rfl : q' = q := Option.some.inj (hq'.symm.trans hq)
      exact hle
  · rcases hrow c u' with hle | ⟨q', hq', -⟩
    · exact hle.trans (hc.unmetered c u' hq)
    · exact absurd (hq'.symm.trans hq) (by simp)

/-- The two storage charges. -/
theorem Db.Meters.chargeStorage (h : db.chargeStorage u n e e' = .ok charged) :
    db.Meters charged := by
  obtain ⟨user, huser, h⟩ := bind_eq_ok.mp h
  obtain ⟨hroom, h⟩ := ite_ok_else_error.mp h
  cases h
  refine (Db.Meters.chargeUsage (fun row hrow => ?_) huser).trans ⟨fun hc => ?_, ?_⟩
  · obtain ⟨q, hq, hle⟩ := Db.underQuota_eq_true.mp hrow
    refine ⟨q, hq, fun c => ?_⟩
    cases c with
    | storage => exact .inr (of_decide_eq_true hle)
    | active => exact .inl le_rfl
    | running => exact .inl le_rfl
  · exact ⟨hc.usage, hc.unmetered, hc.daily, hroom⟩
  · rfl

/-- Without rows, the defaults count, and nothing has been used. -/
theorem Db.Meters.ensureQuotaRows : db.Meters (db.ensureQuotaRows u) := by
  have hreads (c : Column) (u' : UserId) : (db.ensureQuotaRows u).reads c u' = db.reads c u' := by
    rw [Db.reads, Db.reads, Db.ensureQuotaRows]
    cases hrow : db.usage.get? u with
    | some row => rw [Table.insert_of_some hrow]
    | none =>
      rw [Table.get?_insert hrow]
      split
      · next heq => rw [heq, hrow]; rfl
      · rfl
  have hquotas (u' : UserId) (q : UserQuota) (hq : db.quotas.get? u' = some q) :
      (db.ensureQuotaRows u).quotas.get? u' = some q := by
    rw [Db.ensureQuotaRows]
    cases hrow : db.quotas.get? u with
    | some row => rwa [Table.insert_of_some hrow]
    | none =>
      rw [Table.get?_insert hrow, if_neg, hq]
      rintro rfl
      rw [hrow] at hq
      cases hq
  refine ⟨fun hc => ⟨fun c u' q hq => ?_, fun c u' hq => ?_, fun u' day n hn => ?_, hc.platform⟩, rfl⟩
  · rw [hreads]
    cases hold : db.quotas.get? u' with
    | some q₀ =>
      obtain rfl : q₀ = q := Option.some.inj ((hquotas u' q₀ hold).symm.trans hq)
      exact hc.usage c u' q₀ hold
    | none =>
      -- the row is the one just made, with the column defaults
      refine (hc.unmetered c u' hold).trans ?_
      rw [Db.ensureQuotaRows] at hq
      cases hrow : db.quotas.get? u with
      | some row =>
        rw [Table.insert_of_some hrow, hold] at hq
        cases hq
      | none =>
        rw [Table.get?_insert hrow, hold] at hq
        split at hq
        · cases hq
          cases c <;> decide
        · cases hq
  · rw [hreads]
    refine hc.unmetered c u' ?_
    cases hold : db.quotas.get? u' with
    | none => rfl
    | some q₀ =>
      rw [hquotas u' q₀ hold] at hq
      cases hq
  · obtain ⟨q, hq, hle⟩ := hc.daily u' day n hn
    exact ⟨q, hquotas u' q hq, hle⟩

theorem Db.Meters.chargeDaily (h : db.chargeDaily u = .ok charged) : db.Meters charged := by
  unfold Db.chargeDaily at h
  obtain ⟨hpos, h⟩ := ite_error_eq_ok.mp h
  obtain ⟨q, hq, hpos⟩ := Db.underQuota_eq_true.mp (by simpa using hpos)
  have hpos : 0 < q.maxDailyTasks := of_decide_eq_true hpos
  split at h
  · next hnone =>
    cases h
    refine ⟨fun hc => ⟨hc.usage, hc.unmetered, fun u' day n hn => ?_, hc.platform⟩, rfl⟩
    rw [Table.get?_insert hnone] at hn
    split at hn
    · next heq =>
      cases heq
      cases hn
      exact ⟨q, hq, hpos⟩
    · exact hc.daily u' day n hn
  · next n₀ hsome =>
    obtain ⟨hroom, h⟩ := ite_ok_else_error.mp h
    obtain ⟨q', hq', hroom⟩ := Db.underQuota_eq_true.mp hroom
    have hroom : n₀ < q'.maxDailyTasks := of_decide_eq_true hroom
    cases h
    refine ⟨fun hc => ⟨hc.usage, hc.unmetered, fun u' day n hn => ?_, hc.platform⟩, rfl⟩
    rw [Table.get?_set] at hn
    split at hn
    · next heq =>
      cases heq
      rw [hsome] at hn
      cases hn
      exact ⟨q', hq', hroom⟩
    · exact hc.daily u' day n hn

theorem Db.Meters.chargeCreationQuota (h : db.chargeCreationQuota u = .ok charged) :
    db.Meters charged := by
  obtain ⟨daily, hdaily, h⟩ := bind_eq_ok.mp h
  refine (Db.Meters.ensureQuotaRows.trans (.chargeDaily hdaily)).trans
    (.chargeUsage (fun row hrow => ?_) h)
  obtain ⟨q, hq, hlt⟩ := Db.underQuota_eq_true.mp hrow
  refine ⟨q, hq, fun c => ?_⟩
  cases c with
  | active => exact .inr (of_decide_eq_true hlt)
  | running => exact .inl le_rfl
  | storage => exact .inl le_rfl

theorem Db.Lowers.leaseSlot {locked : List ℕ} {until_ : Time}
    (h : db.leaseSlot locked tid until_ = .ok charged) : db.Lowers charged := by
  unfold Db.leaseSlot at h
  split at h
  · cases h
  · cases h
    exact .mapSlots _

end Charges

/-! ## Transactions -/

section Transactions

variable {cfg : Settings} {nfc : String → String} {db db' : Db}

theorem createTask_meters {owner : UserId} {revision : RevisionId} {provider : Option ProviderId}
    {message : String} {mcpRefs : List ServerId} {reply : TaskReply}
    (h : createTask cfg db owner revision provider message mcpRefs = .ok (db', reply)) :
    ∃ charged, db.chargeCreationQuota owner = .ok charged ∧ db.Meters db' := by
  unfold createTask at h
  obtain ⟨resolved, -, h⟩ := bind_eq_ok.mp h
  obtain ⟨⟨⟩, -, h⟩ := bind_eq_ok.mp h
  obtain ⟨rev, -, h⟩ := bind_eq_ok.mp h
  obtain ⟨mcpServers, -, h⟩ := bind_eq_ok.mp h
  obtain ⟨charged, hcharged, h⟩ := bind_eq_ok.mp h
  obtain ⟨⟨⟩, -, h⟩ := bind_eq_ok.mp h
  simp only at h
  split at h
  · cases h
  · obtain ⟨rfl, -⟩ := Prod.mk.inj (Except.ok.inj h)
    exact ⟨charged, hcharged, (Db.Meters.chargeCreationQuota hcharged).trans
      (.of_eq rfl rfl rfl rfl rfl)⟩

theorem commitInput_meters {owner : UserId} {tid : TaskId} {manifest : String} {reply : TaskReply}
    (h : commitInput db owner tid manifest = .ok (db', reply)) :
    ∃ t charged e e', db.visibleTask owner tid = some t ∧
      db.chargeStorage owner t.commitFiles.committedInputBytes e e' = .ok charged ∧
      db.Meters db' := by
  unfold commitInput at h
  obtain ⟨t, ht, h⟩ := bind_eq_ok.mp h
  obtain ⟨⟨⟩, -, h⟩ := bind_eq_ok.mp h
  obtain ⟨t', -, h⟩ := bind_eq_ok.mp h
  obtain ⟨charged, hcharged, h⟩ := bind_eq_ok.mp h
  obtain ⟨rfl, -⟩ := Prod.mk.inj (Except.ok.inj h)
  exact ⟨t, charged, _, _, (lockTask_eq_ok ht).1, hcharged,
    (Db.Meters.chargeStorage hcharged).trans (.of_eq rfl rfl rfl rfl rfl)⟩

theorem claimRound_meters {locked : List ℕ} {c : RoundCandidate} {iid : InstanceId}
    (h : claimRound cfg db locked c iid = .ok db') : db.Meters db' := by
  unfold claimRound at h
  split at h
  · cases h
  · obtain ⟨t', -, h⟩ := bind_eq_ok.mp h
    obtain ⟨charged, hcharged, h⟩ := bind_eq_ok.mp h
    have hcharge : db.Meters charged := by
      refine .chargeUsage (fun row hrow => ?_) hcharged
      obtain ⟨q, hq, hlt⟩ := Db.underQuota_eq_true.mp hrow
      refine ⟨q, hq, fun c => ?_⟩
      cases c with
      | running => exact .inr (of_decide_eq_true hlt)
      | active => exact .inl le_rfl
      | storage => exact .inl le_rfl
    exact (hcharge.trans (Db.Lowers.setTask t').meters).trans (Db.Lowers.leaseSlot h).meters

theorem endTask_lowers {owner : UserId} {tid : TaskId} {terminal : PendingTerminal}
    {reason : Option AbortReason} {reply : TaskReply}
    (h : endTask db owner tid terminal reason = .ok (db', reply)) : db.Lowers db' := by
  unfold endTask at h
  obtain ⟨t, -, h⟩ := bind_eq_ok.mp h
  split at h
  · obtain ⟨rfl, -⟩ := Prod.mk.inj (Except.ok.inj h)
    exact .setTask _
  · obtain ⟨t', -, h⟩ := bind_eq_ok.mp h
    obtain ⟨rfl, -⟩ := Prod.mk.inj (Except.ok.inj h)
    exact .writeAndRelease t' owner
  · obtain ⟨t', -, h⟩ := bind_eq_ok.mp h
    obtain ⟨rfl, -⟩ := Prod.mk.inj (Except.ok.inj h)
    exact .writeAndRelease t' owner

theorem failAtDeadline_lowers {c : RoundContext} (h : failAtDeadline db c = .ok db') :
    db.Lowers db' := by
  unfold failAtDeadline at h
  split at h
  · cases h
  · split at h
    · cases h
    · split at h
      · cases h
        exact .setTask _
      · cases h
        exact .writeAndRelease _ c.owner

theorem persistFact_meters {c : RoundContext} {author : MessageAuthor} {content : String}
    (h : persistFact db c author content = .ok db') : db.Meters db' := by
  unfold persistFact at h
  split at h
  · cases h
  · obtain ⟨-, h⟩ := ite_error_eq_ok.mp h
    cases h
    exact .of_eq rfl rfl rfl rfl rfl

theorem settle_meters {c : RoundContext} {pending : Option String} {finishReason usage : String}
    (h : settle db c pending finishReason usage = .ok db') : db.Meters db' := by
  unfold settle at h
  split at h
  · cases h
  · obtain ⟨t', -, h⟩ := bind_eq_ok.mp h
    cases h
    exact (Db.Lowers.writeAndRelease t' c.owner).meters.trans (.of_eq rfl rfl rfl rfl rfl)

theorem renewLease_lowers {c : RoundContext} (h : renewLease cfg db c = .ok db') :
    db.Lowers db' := by
  unfold renewLease at h
  split at h
  · cases h
  · obtain ⟨-, h⟩ := ite_error_eq_ok.mp h
    cases h
    exact (Db.Lowers.setTask _).trans (.mapSlots _)

theorem cleanupTask_lowers {c : TaskCandidate} (h : cleanupTask db c = .ok db') :
    db.Lowers db' := by
  unfold cleanupTask at h
  split at h
  · cases h
    exact .refl db
  · cases h
    exact (Db.Lowers.setTask _).trans (.applyReleaseAccounting _ _)

theorem Db.Meters.setProvider_failUnstartedTasks (providers : Table ProviderId UserProvider)
    (pid : ProviderId) : db.Meters (failUnstartedTasks { db with providers := providers } pid) := by
  have h : db.Meters { db with providers := providers } := .of_eq rfl rfl rfl rfl rfl
  exact h.trans (Db.Lowers.failUnstartedTasks pid _).meters

theorem Request.exec_meters {r : Request} (h : r.exec cfg nfc db = .ok db') : db.Meters db' := by
  cases r with
  | createTask owner revision provider message mcpRefs =>
    obtain ⟨⟨db₁, reply⟩, hrun, rfl⟩ := map_eq_ok.mp h
    obtain ⟨-, -, hm⟩ := createTask_meters hrun
    exact hm
  | commitInput owner tid manifest =>
    obtain ⟨⟨db₁, reply⟩, hrun, rfl⟩ := map_eq_ok.mp h
    obtain ⟨-, -, -, -, -, -, hm⟩ := commitInput_meters hrun
    exact hm
  | uploadFiles owner tid uploads =>
    obtain ⟨⟨db₁, reply⟩, hrun, rfl⟩ := map_eq_ok.mp h
    obtain ⟨t, -, hrun⟩ := bind_eq_ok.mp hrun
    obtain ⟨⟨⟩, -, hrun⟩ := bind_eq_ok.mp hrun
    obtain ⟨⟨⟩, -, hrun⟩ := bind_eq_ok.mp hrun
    obtain ⟨⟨⟩, -, hrun⟩ := bind_eq_ok.mp hrun
    obtain ⟨rfl, -⟩ := Prod.mk.inj (Except.ok.inj hrun)
    exact .of_eq rfl rfl rfl rfl rfl
  | deleteFile owner tid fid =>
    obtain ⟨⟨db₁, reply⟩, hrun, rfl⟩ := map_eq_ok.mp h
    obtain ⟨t, -, hrun⟩ := bind_eq_ok.mp hrun
    obtain ⟨-, hrun⟩ := ite_error_eq_ok.mp hrun
    obtain ⟨rfl, -⟩ := Prod.mk.inj (Except.ok.inj hrun)
    exact (Db.Lowers.setTask _).meters
  | abort owner tid =>
    obtain ⟨⟨db₁, reply⟩, hrun, rfl⟩ := map_eq_ok.mp h
    exact (endTask_lowers hrun).meters
  | complete owner tid =>
    obtain ⟨⟨db₁, reply⟩, hrun, rfl⟩ := map_eq_ok.mp h
    exact (endTask_lowers hrun).meters
  | delete owner tid =>
    obtain ⟨⟨db₁, reply⟩, hrun, rfl⟩ := map_eq_ok.mp h
    obtain ⟨t, -, hrun⟩ := bind_eq_ok.mp hrun
    obtain ⟨t', -, hrun⟩ := bind_eq_ok.mp hrun
    obtain ⟨rfl, -⟩ := Prod.mk.inj (Except.ok.inj hrun)
    exact (Db.Lowers.writeAndRelease t' owner).meters
  | sendMessage owner tid content =>
    obtain ⟨⟨db₁, reply⟩, hrun, rfl⟩ := map_eq_ok.mp h
    obtain ⟨t, -, hrun⟩ := bind_eq_ok.mp hrun
    obtain ⟨⟨⟩, -, hrun⟩ := bind_eq_ok.mp hrun
    obtain ⟨⟨⟩, -, hrun⟩ := bind_eq_ok.mp hrun
    obtain ⟨t', -, hrun⟩ := bind_eq_ok.mp hrun
    obtain ⟨rfl, -⟩ := Prod.mk.inj (Except.ok.inj hrun)
    exact .of_eq rfl rfl rfl rfl rfl
  | createProvider owner modelId isDefault =>
    unfold Request.exec Tasking.createProvider at h
    simp only at h
    split at h
    · cases h
    · cases h
      exact .of_eq rfl rfl rfl rfl rfl
  | rotateKey owner pid =>
    obtain ⟨row, -, h⟩ := bind_eq_ok.mp h
    cases h
    exact .setProvider_failUnstartedTasks _ pid
  | revokeProvider owner pid =>
    obtain ⟨row, -, h⟩ := bind_eq_ok.mp h
    cases h
    exact .setProvider_failUnstartedTasks _ pid

theorem registerOutput_meters {owner : UserId} {tid : TaskId} {fileName : String}
    {content : FileContent} {rid : RoundId} {epoch : ℕ} {fid : FileId}
    (h : registerOutput nfc db owner tid fileName content rid epoch = .ok (db', fid)) :
    ∃ t t' refunded charged e e', db.visibleTask owner tid = some t ∧
      t.registerOutput nfc db.nextId fileName content rid epoch = .ok (t', refunded) ∧
      (db.refundStorage owner refunded).chargeStorage owner content.size e e' = .ok charged ∧
      db.Meters db' := by
  unfold registerOutput at h
  obtain ⟨t, ht, h⟩ := bind_eq_ok.mp h
  obtain ⟨⟨t', refunded⟩, ht', h⟩ := bind_eq_ok.mp h
  obtain ⟨charged, hcharged, h⟩ := bind_eq_ok.mp h
  obtain ⟨rfl, -⟩ := Prod.mk.inj (Except.ok.inj h)
  have hrefund : (if refunded = 0 then db else db.refundStorage owner refunded) =
      db.refundStorage owner refunded := by
    split
    · next h0 => rw [h0, Db.refundStorage_zero]
    · rfl
  rw [hrefund] at hcharged
  refine ⟨t, t', refunded, charged, _, _, (lockTask_eq_ok ht).1, ht', hcharged, ?_⟩
  exact ((Db.Lowers.refundStorage refunded).meters.trans (.chargeStorage hcharged)).trans
    (.of_eq rfl rfl rfl rfl rfl)

theorem Write.exec_meters {x : Write} (h : x.exec cfg nfc db = .ok db') : db.Meters db' := by
  cases x with
  | fact c author content => exact persistFact_meters h
  | settle c pending finishReason usage => exact settle_meters h
  | deadline c => exact (failAtDeadline_lowers h).meters
  | renew c => exact (renewLease_lowers h).meters
  | output c fileName content =>
    obtain ⟨⟨db₁, fid⟩, hrun, rfl⟩ := map_eq_ok.mp h
    obtain ⟨-, -, -, -, -, -, -, -, -, hm⟩ := registerOutput_meters hrun
    exact hm

theorem Job.exec_meters {locked : List ℕ} {j : Job} (h : j.exec cfg locked db = .ok db') :
    db.Meters db' := by
  cases j with
  | dispatch iid c => exact claimRound_meters h
  | reclaimExpired c => exact (Db.Lowers.of_visible h).meters
  | cancelCancelling c => exact (Db.Lowers.of_visible h).meters
  | expireUpload c => exact (Db.Lowers.of_visible h).meters
  | cleanup c => exact (cleanupTask_lowers h).meters
  | reconcile c => exact (Db.Lowers.of_visible h).meters
  | terminate reason c => exact (Db.Lowers.of_visible h).meters
  | terminateUser u ids =>
    cases h
    exact (Db.Lowers.terminateTasksHook u ids).meters

end Transactions

/-! ## Refusals -/

/-- The quota that counts for a user: without a row, the column defaults. -/
def Db.quotaOf (db : Db) (u : UserId) : UserQuota := (db.quotas.get? u).getD {}

/-- What the user has created today. -/
def Db.createdToday (db : Db) (u : UserId) : ℤ := (db.usageDaily.get? (u, db.today)).getD 0

/-- Another `n` bytes would exceed the storage of the user or of the platform. -/
def Db.StorageExceeded (db : Db) (u : UserId) (n : ℕ) : Prop :=
  (db.quotaOf u).maxRetainedStorageBytes < db.reads .storage u + n ∨
    db.storage.maxRetainedStorageBytes < db.storage.retainedStorageBytes + n

/-- The bytes that a new output of this name gives back: the copies of the file that it replaces. -/
def Task.replacedBytes (nfc : String → String) (t : Task) (fileName : String) : ℕ :=
  match t.findOldOutputRow nfc fileName with
  | none => 0
  | some old => copiedBytes t (·.copies old.id)

/-- The operation would exceed a maximum. -/
def World.Exceeds (nfc : String → String) (w : World) : Action → Prop
  | .request (.createTask owner _ _ _ _) =>
    (w.db.quotaOf owner).maxActiveTasks < w.db.reads .active owner + 1 ∨
      (w.db.quotaOf owner).maxDailyTasks < w.db.createdToday owner + 1
  | .request (.commitInput owner task _) => ∃ t, w.db.visibleTask owner task = some t ∧
    w.db.StorageExceeded owner t.commitFiles.committedInputBytes
  | .write (.output c fileName content) => ∃ t, w.db.visibleTask c.owner c.task = some t ∧
    (w.db.refundStorage c.owner (t.replacedBytes nfc fileName)).StorageExceeded c.owner content.size
  | .perform (.dispatch _ c) locked =>
    (w.db.quotaOf c.owner).maxRunningTasks < w.db.reads .running c.owner + 1 ∨
      ∀ n s, w.db.slots.get? n = some s → s.state = .free → n ∈ locked
  | _ => False

section Refusals

variable {cfg : Settings} {nfc : String → String} {db db' charged : Db} {u : UserId}

theorem Db.quotaOf_of_some {q : UserQuota} (h : db.quotas.get? u = some q) : db.quotaOf u = q := by
  rw [Db.quotaOf, h]
  rfl

/-- A charge that succeeded found the row of the user under its quota. -/
theorem Db.usageHit_underQuota {p : UserQuotaUsage → UserQuota → Bool}
    (h : db.usageHit u (fun row => db.underQuota u (p row)) = true) :
    ∃ row, db.usage.get? u = some row ∧ p row (db.quotaOf u) = true := by
  unfold Db.usageHit at h
  split at h
  · next row hrow =>
    obtain ⟨q, hq, hp⟩ := Db.underQuota_eq_true.mp h
    refine ⟨row, hrow, ?_⟩
    rw [Db.quotaOf_of_some hq, hp]
  · cases h

theorem not_storageExceeded {n : ℕ} {e e' : Failure}
    (h : db.chargeStorage u n e e' = .ok charged) : ¬ db.StorageExceeded u n := by
  obtain ⟨user, huser, h⟩ := bind_eq_ok.mp h
  obtain ⟨hit, huser⟩ := ite_ok_else_error.mp huser
  cases huser
  obtain ⟨hroom, -⟩ := ite_ok_else_error.mp h
  obtain ⟨row, hrow, hle⟩ := Db.usageHit_underQuota hit
  rintro (hlt | hlt)
  · rw [Db.reads, hrow] at hlt
    exact absurd hlt (not_lt.mpr (of_decide_eq_true hle))
  · exact absurd hlt (not_lt.mpr hroom)

theorem Db.underQuota_ensureQuotaRows {p : UserQuota → Bool}
    (h : (db.ensureQuotaRows u).underQuota u p = true) : p (db.quotaOf u) = true := by
  obtain ⟨q, hq, hp⟩ := Db.underQuota_eq_true.mp h
  rw [Db.ensureQuotaRows] at hq
  cases hrow : db.quotas.get? u with
  | some q₀ =>
    rw [Table.insert_of_some hrow, hrow] at hq
    cases hq
    rw [Db.quotaOf_of_some hrow, hp]
  | none =>
    rw [Table.get?_insert hrow, if_pos rfl] at hq
    cases hq
    rw [Db.quotaOf, hrow]
    exact hp

/-- A creation that was charged had room in both dimensions. -/
theorem room_of_chargeCreationQuota (h : db.chargeCreationQuota u = .ok charged) :
    db.reads .active u + 1 ≤ (db.quotaOf u).maxActiveTasks ∧
      db.createdToday u + 1 ≤ (db.quotaOf u).maxDailyTasks := by
  have hreads := (chargeCreationQuota_eq_ok h).1 .active u
  obtain ⟨daily, hdaily, h⟩ := bind_eq_ok.mp h
  obtain ⟨hit, h⟩ := ite_ok_else_error.mp h
  cases h
  have hquota : daily.quotas = (db.ensureQuotaRows u).quotas ∧
      db.createdToday u + 1 ≤ (db.quotaOf u).maxDailyTasks := by
    unfold Db.chargeDaily at hdaily
    obtain ⟨hpos, hdaily⟩ := ite_error_eq_ok.mp hdaily
    have hpos := Db.underQuota_ensureQuotaRows (by simpa using hpos)
    have hpos : 0 < (db.quotaOf u).maxDailyTasks := of_decide_eq_true hpos
    have htoday : (db.ensureQuotaRows u).usageDaily.get? (u, (db.ensureQuotaRows u).today) =
      db.usageDaily.get? (u, db.today) := rfl
    split at hdaily
    · next hnone =>
      cases hdaily
      rw [htoday] at hnone
      rw [Db.createdToday, hnone]
      exact ⟨rfl, hpos⟩
    · next n hsome =>
      obtain ⟨hroom, hdaily⟩ := ite_ok_else_error.mp hdaily
      cases hdaily
      have hroom := Db.underQuota_ensureQuotaRows hroom
      rw [htoday] at hsome
      rw [Db.createdToday, hsome]
      exact ⟨rfl, of_decide_eq_true hroom⟩
  refine ⟨?_, hquota.2⟩
  -- the row that was hit is the one that the counter is read from
  obtain ⟨row, hrow, hlt⟩ := Db.usageHit_underQuota hit
  have hactive : row.activeTasks < (daily.quotaOf u).maxActiveTasks := of_decide_eq_true hlt
  have hdef : (daily.quotaOf u).maxActiveTasks = (db.quotaOf u).maxActiveTasks := by
    rw [Db.quotaOf, hquota.1, Db.quotaOf, Db.ensureQuotaRows]
    cases hq : db.quotas.get? u with
    | some q => rw [Table.insert_of_some hq, hq]
    | none => rw [Table.get?_insert hq, if_pos rfl]; rfl
  have hrowReads : daily.reads .active u = row.activeTasks := by
    rw [Db.reads, hrow]
    rfl
  have hafter : db.reads .active u + 1 = daily.reads .active u + 1 := by
    rw [reads_updateUsage_of_hit (n := 1) (fun row => rfl) hit] at hreads
    simpa using hreads.symm
  omega

/-- A claim that took effect had room and found a slot. -/
theorem room_of_claimRound {locked : List ℕ} {c : RoundCandidate} {iid : InstanceId}
    (h : claimRound cfg db locked c iid = .ok db') :
    db.reads .running c.owner + 1 ≤ (db.quotaOf c.owner).maxRunningTasks ∧
      ∃ n s, db.slots.get? n = some s ∧ s.state = .free ∧ n ∉ locked := by
  unfold claimRound at h
  split at h
  · cases h
  · obtain ⟨t', -, h⟩ := bind_eq_ok.mp h
    obtain ⟨charged, hcharged, h⟩ := bind_eq_ok.mp h
    obtain ⟨hit, hcharged⟩ := ite_ok_else_error.mp hcharged
    cases hcharged
    constructor
    · obtain ⟨row, hrow, hlt⟩ := Db.usageHit_underQuota hit
      have hlt : row.runningTasks < (db.quotaOf c.owner).maxRunningTasks := of_decide_eq_true hlt
      rw [Db.reads, hrow]
      exact hlt
    · unfold Db.leaseSlot at h
      split at h
      · cases h
      · next s hfind =>
        have hs := List.find?_some hfind
        simp only [Bool.and_eq_true, decide_eq_true_eq] at hs
        exact ⟨s.1, s.2, Table.get?_eq_some_iff.mpr (List.mem_of_find?_eq_some hfind), hs⟩

theorem Task.replacedBytes_of_registerOutput {t t' : Task} {fid : FileId} {fileName : String}
    {content : FileContent} {rid : RoundId} {epoch refunded : ℕ}
    (h : t.registerOutput nfc fid fileName content rid epoch = .ok (t', refunded)) :
    refunded = t.replacedBytes nfc fileName := by
  unfold Task.registerOutput at h
  obtain ⟨⟨⟩, -, h⟩ := bind_eq_ok.mp h
  obtain ⟨⟨⟩, -, h⟩ := bind_eq_ok.mp h
  simp only at h
  split at h
  · next hold =>
    obtain ⟨⟨⟩, -, h⟩ := bind_eq_ok.mp h
    obtain ⟨t₁, -, h⟩ := bind_eq_ok.mp h
    rw [Task.replacedBytes, hold]
    exact (Prod.mk.inj (Except.ok.inj h)).2.symm
  · next old hold =>
    obtain ⟨⟨⟩, -, h⟩ := bind_eq_ok.mp h
    obtain ⟨⟨t₁, n⟩, ht₁, h⟩ := bind_eq_ok.mp h
    obtain ⟨t₂, -, h⟩ := bind_eq_ok.mp h
    obtain ⟨-, rfl⟩ := Prod.mk.inj (Except.ok.inj h)
    rw [Task.replacedBytes, hold]
    exact (Task.eq_of_retireOldRow ht₁).1

/-- An operation that would exceed a maximum fails. -/
theorem Exceeds.refused {w w' : World} {a : Action} (h : step cfg nfc w a = .ok w') :
    ¬ w.Exceeds nfc a := by
  intro hex
  unfold World.Exceeds at hex
  split at hex
  · obtain ⟨db', hdb, -⟩ := bind_eq_ok.mp h
    obtain ⟨⟨db₁, reply⟩, hrun, -⟩ := map_eq_ok.mp hdb
    obtain ⟨charged, hcharged, -⟩ := createTask_meters hrun
    obtain ⟨hactive, hdaily⟩ := room_of_chargeCreationQuota hcharged
    omega
  · obtain ⟨db', hdb, -⟩ := bind_eq_ok.mp h
    obtain ⟨⟨db₁, reply⟩, hrun, -⟩ := map_eq_ok.mp hdb
    obtain ⟨t, charged, e, e', hvis, hcharged, -⟩ := commitInput_meters hrun
    obtain ⟨t₁, hvis₁, hex⟩ := hex
    obtain rfl : t₁ = t := Option.some.inj (hvis₁.symm.trans hvis)
    exact not_storageExceeded hcharged hex
  · obtain ⟨db', hdb, -⟩ := bind_eq_ok.mp h
    obtain ⟨⟨db₁, fid⟩, hrun, -⟩ := map_eq_ok.mp hdb
    obtain ⟨t, t', refunded, charged, e, e', hvis, ht', hcharged, -⟩ := registerOutput_meters hrun
    obtain ⟨t₁, hvis₁, hex⟩ := hex
    obtain rfl : t₁ = t := Option.some.inj (hvis₁.symm.trans hvis)
    rw [Task.replacedBytes_of_registerOutput ht'] at hcharged
    exact not_storageExceeded hcharged hex
  · obtain ⟨-, h⟩ := ite_ok_else_error.mp h
    obtain ⟨db', hdb, -⟩ := bind_eq_ok.mp h
    obtain ⟨hroom, n, s, hs, hfree, hno⟩ := room_of_claimRound hdb
    rcases hex with hlt | hall
    · omega
    · exact hno (hall n s hs hfree)
  · exact hex

end Refusals

/-! ## Runs -/

/-- The running reservations that all tasks hold. -/
def Db.runningTotal (db : Db) : ℕ := db.tasks.sum fun _ t => t.runningHeld

section Slots

variable {db : Db}

/-- Each slot is leased to one of distinct tasks at most. -/
theorem sum_leases_le {ks : List TaskId} (hks : ks.Nodup) (slots : List (ℕ × PlatformSlot)) :
    (ks.map fun k => (slots.map fun s =>
      if s.2.state = .leased ∧ s.2.taskId = some k then 1 else 0).sum).sum ≤
      slots.countP fun s => s.2.state = .leased := by
  induction slots with
  | nil => simp
  | cons s slots ih =>
    have hone : (ks.map fun k => if s.2.state = .leased ∧ s.2.taskId = some k then 1 else 0).sum ≤
        if s.2.state = .leased then 1 else 0 := by
      clear ih
      induction ks with
      | nil => simp
      | cons k ks ih =>
        obtain ⟨hk, hks⟩ := List.nodup_cons.mp hks
        rw [List.map_cons, List.sum_cons]
        by_cases hs : s.2.state = .leased ∧ s.2.taskId = some k
        · have hzero : (ks.map fun k =>
              if s.2.state = .leased ∧ s.2.taskId = some k then 1 else 0).sum = 0 := by
            refine List.sum_eq_zero fun x hx => ?_
            obtain ⟨k', hk', rfl⟩ := List.mem_map.mp hx
            rw [if_neg]
            rintro ⟨-, h⟩
            rw [hs.2] at h
            exact hk (Option.some.inj h ▸ hk')
          rw [hzero, if_pos hs, if_pos hs.1]
        · rw [if_neg hs, Nat.zero_add]
          exact ih hks
    simp only [List.map_cons, List.sum_cons, List.countP_cons, decide_eq_true_eq]
    rw [List.sum_map_add]
    omega

theorem runningTotal_le_leasedSlots (hm : db.LeasesMatch) : db.runningTotal ≤ db.leasedSlots := by
  have hsum : db.runningTotal = db.tasks.sum fun tid _ => db.leases tid := by
    refine Table.sum_congr fun tid t ht => ?_
    rw [hm tid, Db.runs, ht, t.runningHeld_eq]
    rfl
  have hkeys := sum_leases_le db.tasks.nodup db.slots.rows
  rw [List.map_map] at hkeys
  rw [hsum]
  exact hkeys

end Slots

/-- The limits of `q` are within those of `q'`. -/
def UserQuota.isWithin (q q' : UserQuota) : Bool :=
  q.maxDailyTasks ≤ q'.maxDailyTasks && q.maxActiveTasks ≤ q'.maxActiveTasks &&
    q.maxRunningTasks ≤ q'.maxRunningTasks && q.maxRetainedStorageBytes ≤ q'.maxRetainedStorageBytes

/-- The administrator lowers no limit. -/
def LowersNoLimit (w : World) : Action → Prop
  | .setQuota u quota => ∀ q ∈ w.db.quotas.get? u, q.isWithin quota
  | _ => True

/-- A freshly migrated database with valid limits, and nothing in flight. -/
structure World.Fresh (w : World) : Prop where
  initial : w.Initial
  quotas : ∀ u q, w.db.quotas.get? u = some q → q.isValid
  usageDaily : w.db.usageDaily = .empty
  storage : 0 ≤ w.db.storage.maxRetainedStorageBytes

section Runs

variable {cfg : Settings} {nfc : String → String} {w w' w₀ : World} {a : Action} {as : List Action}

theorem UserQuota.cap_le {q q' : UserQuota} (h : q.isWithin q') :
    q.maxDailyTasks ≤ q'.maxDailyTasks ∧ ∀ c : Column, c.cap q ≤ c.cap q' := by
  simp only [UserQuota.isWithin, Bool.and_eq_true, decide_eq_true_eq] at h
  refine ⟨h.1.1.1, fun c => ?_⟩
  cases c with
  | active => exact h.1.1.2
  | running => exact h.1.2
  | storage => exact h.2

theorem UserQuota.cap_nonneg {q : UserQuota} (h : q.isValid) (c : Column) : 0 ≤ c.cap q := by
  simp only [UserQuota.isValid, Bool.and_eq_true, decide_eq_true_eq] at h
  cases c with
  | active => exact h.1.1.2
  | running => exact h.1.2
  | storage => exact h.2

theorem Db.Meters.updateQuotas {db db' : Db} {u : UserId} {quota : UserQuota}
    (hG : ∀ q ∈ db.quotas.get? u, q.isWithin quota) (h : updateQuotas db u quota = .ok db') :
    db.Meters db' := by
  obtain ⟨hvalid, h⟩ := ite_ok_else_error.mp h
  cases h
  -- the row afterwards, and what it was before
  have hget (u' : UserId) : ((db.quotas.insert u quota).set u quota).get? u' =
      if u' = u then some quota else db.quotas.get? u' := by
    rw [Table.get?_set]
    cases hrow : db.quotas.get? u with
    | some q =>
      rw [Table.insert_of_some hrow]
      split
      · next heq => rw [heq, hrow, Option.map_some]
      · rfl
    | none =>
      rw [Table.get?_insert hrow]
      split <;> rfl
  refine ⟨fun hc => ⟨fun c u' q hq => ?_, fun c u' hq => ?_, fun u' day n hn => ?_, hc.platform⟩, rfl⟩
  · rw [hget] at hq
    split at hq
    · next heq =>
      subst heq
      cases hq
      cases hrow : db.quotas.get? u' with
      | some q₀ => exact (hc.usage c u' q₀ hrow).trans ((UserQuota.cap_le (hG q₀ hrow)).2 c)
      | none => exact (hc.unmetered c u' hrow).trans (UserQuota.cap_nonneg hvalid c)
    · exact hc.usage c u' q hq
  · rw [hget] at hq
    split at hq
    · cases hq
    · exact hc.unmetered c u' hq
  · obtain ⟨q, hq, hle⟩ := hc.daily u' day n hn
    rw [hget]
    split
    · next heq =>
      subst heq
      exact ⟨quota, rfl, hle.trans (UserQuota.cap_le (hG q hq)).1⟩
    · exact ⟨q, hq, hle⟩

theorem step_meters (hG : LowersNoLimit w a) (h : step cfg nfc w a = .ok w') : w.db.Meters w'.db := by
  cases a with
  | setQuota u quota =>
    obtain ⟨db', hdb, h⟩ := bind_eq_ok.mp h
    cases h
    exact .updateQuotas hG hdb
  | request r =>
    obtain ⟨db', hdb, h⟩ := bind_eq_ok.mp h
    cases h
    exact Request.exec_meters hdb
  | write x =>
    obtain ⟨db', hdb, h⟩ := bind_eq_ok.mp h
    cases h
    exact Write.exec_meters hdb
  | perform j locked =>
    obtain ⟨-, h⟩ := ite_ok_else_error.mp h
    obtain ⟨db', hdb, h⟩ := bind_eq_ok.mp h
    cases h
    exact Job.exec_meters hdb
  | toolCheck c =>
    obtain ⟨-, h⟩ := ite_ok_else_error.mp h
    cases h
    exact (Db.Lowers.refl w.db).meters
  | toolAnswer c =>
    obtain ⟨-, h⟩ := ite_ok_else_error.mp h
    cases h
    exact (Db.Lowers.refl w.db).meters
  | _ =>
    cases h
    exact .of_eq rfl rfl rfl rfl rfl

/-- A task leases a slot for each of its running reservations, whatever the account hook deletes. -/
theorem step_leasesMatch (hco : w.Coherent) (hheld : w.db.Held) (hm : w.db.LeasesMatch)
    (h : step cfg nfc w a = .ok w') : w'.db.LeasesMatch := by
  rcases step_changes hco.db hco.jobs h with hc | ⟨u, ids, locked, -, -, hdb⟩
  · exact hc.leasesMatch hheld hm
  · rw [hdb]
    exact terminateTasksHook_leasesMatch hheld.wellHeld hm u ids

theorem World.Fresh.capped (h₀ : w.Fresh) : w.db.Capped := by
  have hzero (c : Column) (u : UserId) : w.db.reads c u = 0 := by
    rw [Db.reads]
    cases hrow : w.db.usage.get? u with
    | none => cases c <;> rfl
    | some row =>
      rw [Option.getD_some, h₀.initial.db.usage u row hrow]
      cases c <;> rfl
  refine ⟨fun c u q hq => ?_, fun c u _ => (hzero c u).le, fun u day n hn => ?_, ?_⟩
  · rw [hzero]
    exact UserQuota.cap_nonneg (h₀.quotas u q hq) c
  · rw [h₀.usageDaily] at hn
    cases hn
  · rw [h₀.initial.db.storage]
    exact h₀.storage

/-- In every run in which the administrator lowers no limit, no counter exceeds its maximum, no more
rounds run than there are slots, and an operation that would exceed a maximum changes nothing. -/
theorem quotaCaps_of_run (h₀ : w₀.Fresh) (hG : (system cfg nfc).Guarded LowersNoLimit w₀ as)
    (hw : (system cfg nfc).run w₀ as = w) :
    w.db.Capped ∧
      (w.db.runningTotal ≤ w.db.leasedSlots ∧ w.db.leasedSlots ≤ w₀.db.slots.rows.length) ∧
      ∀ a, w.Exceeds nfc a → (system cfg nfc).next w a = w := by
  have hinv := System.invariant_run_of_guarded (S := system cfg nfc) (G := LowersNoLimit)
    (I := fun w => w.Coherent ∧ w.db.Held ∧ w.db.LeasesMatch ∧ w₀.db.Meters w.db)
    (fun w a w' hw hG hs => ⟨hw.1.step hs, step_held hw.1 hw.2.1 hs,
      step_leasesMatch hw.1 hw.2.1 hw.2.2.1 hs, hw.2.2.2.trans (step_meters hG hs)⟩)
    ⟨h₀.initial.coherent, h₀.initial.held, h₀.initial.slotsMatch.leases, (Db.Lowers.refl _).meters⟩ hG
  rw [hw] at hinv
  obtain ⟨-, -, hleases, hmeters⟩ := hinv
  refine ⟨hmeters.capped h₀.capped, ⟨runningTotal_le_leasedSlots hleases, ?_⟩, fun a hex => ?_⟩
  · have hlength := congrArg List.length hmeters.slots
    rw [Db.slotNumbers, Db.slotNumbers, List.length_map, List.length_map] at hlength
    rw [← hlength]
    exact List.countP_le_length
  · rcases System.next_cases (S := system cfg nfc) w a with hc | hsame
    · exact absurd hex (Exceeds.refused hc)
    · exact hsame

theorem World.small_fresh : World.small.Fresh where
  initial := World.small_initial
  quotas u q h := by cases h
  usageDaily := rfl
  storage := by decide

/-- User 1 has one round running, and the administrator raises the maximum of running tasks to two. -/
theorem quotaCaps_of_run_raised :
    let w := (system {} id).run World.small (claimedRun ++ [.setQuota 1 { maxRunningTasks := 2 }])
    w.db.Capped ∧ (w.db.runningTotal ≤ w.db.leasedSlots ∧ w.db.leasedSlots ≤ 2) ∧
      ∀ a, w.Exceeds id a → (system {} id).next w a = w :=
  quotaCaps_of_run World.small_fresh (by
    refine ⟨trivial, trivial, trivial, trivial, ?_, trivial⟩
    show ∀ q ∈ _, _
    decide) rfl

end Runs

end AgentCraft.Tasking
