import AgentCraft.Tasking.Coupling

/-!
# What tasks hold and what the accounts say

The counters of `user_quota_usage` are `Column`s: each is meant to be the total, over the tasks of the
user, of what their held reservations weigh in that column. This file has the two sides of that
equation, `Task.holds` and `Db.reads`, and how the elementary statements move them.
-/

namespace AgentCraft.Tasking

open AgentCraft.Relational AgentCraft.Transition

/-- The counters of `user_quota_usage`. -/
inductive Column
  | active | running | storage
deriving DecidableEq, Repr

/-- The counter of a user's row. -/
def Column.read : Column → UserQuotaUsage → ℤ
  | .active, row => row.activeTasks
  | .running, row => row.runningTasks
  | .storage, row => row.retainedStorageBytes

/-- What a held reservation counts for. -/
def Column.amount : Column → TaskReservation → ℕ
  | .active, r => if r.kind = .active then 1 else 0
  | .running, r => if r.kind = .running then 1 else 0
  | .storage, r => if r.kind.isStorage then r.bytes else 0

/-- What a reservation weighs: its amount while it is held. -/
def Column.weight (c : Column) (r : TaskReservation) : ℕ :=
  if r.state = .held then c.amount r else 0

/-- What the reservations of a task weigh together. -/
def Task.holds (t : Task) (c : Column) : ℕ := (t.reservations.map c.weight).sum

/-- The reservations are the owner's, and only files and task roots have bytes. -/
def Task.WellHeld (t : Task) : Prop :=
  ∀ r ∈ t.reservations, r.userId = t.ownerId ∧ (r.kind.isStorage = false → r.bytes = 0)

/-! ## Releasing rows -/

theorem Column.weight_released (c : Column) (r : TaskReservation) :
    c.weight { r with state := .released } = 0 := rfl

/-- Releasing the rows that `p` selects takes their weight away. -/
theorem sum_weight_release (c : Column) (p : TaskReservation → Bool) (rows : List TaskReservation) :
    ((updateWhere p (fun r => { r with state := .released }) rows).map c.weight).sum +
      ((rows.filter p).map c.weight).sum = (rows.map c.weight).sum := by
  induction rows with
  | nil => rfl
  | cons r rows ih =>
    by_cases hp : p r = true
    · rw [updateWhere_cons, if_pos hp, List.filter_cons_of_pos hp]
      simp only [List.map_cons, List.sum_cons, c.weight_released]
      omega
    · rw [updateWhere_cons, if_neg hp, List.filter_cons_of_neg hp]
      simp only [List.map_cons, List.sum_cons]
      omega

/-- The columns that `release_task_holdings` settles for a status: `running` always, `active` when the
status is terminal, storage when the task is deleted. -/
def TaskStatus.releases (s : TaskStatus) : Column → Bool
  | .running => true
  | .active => s.isTerminal
  | .storage => s = .deleted

theorem TaskStatus.releases_deleted (c : Column) : TaskStatus.releases .deleted c = true := by
  cases c <;> rfl

/-- A row that a release selects has all its weight in the columns that the release settles, and a row
with weight in such a column is selected. -/
theorem weight_of_releasable (s : TaskStatus) (c : Column) (r : TaskReservation) :
    (if r.releasable s.releaseKinds then c.weight r else 0) =
      if s.releases c then c.weight r else 0 := by
  obtain ⟨u, kind, fid, n, st⟩ := r
  cases st with
  | held => cases c <;> cases s <;> cases kind <;> rfl
  | consumed | released =>
    have hw : ∀ st, st ≠ .held → c.weight ⟨u, kind, fid, n, st⟩ = 0 := fun _ h => if_neg h
    rw [hw _ (by simp)]
    simp

theorem sum_weight_filter_releasable (s : TaskStatus) (c : Column) (rows : List TaskReservation) :
    ((rows.filter (·.releasable s.releaseKinds)).map c.weight).sum =
      if s.releases c then (rows.map c.weight).sum else 0 := by
  induction rows with
  | nil => simp
  | cons r rows ih =>
    have hr := weight_of_releasable s c r
    by_cases hp : r.releasable s.releaseKinds = true
    · rw [if_pos hp] at hr
      rw [List.filter_cons_of_pos hp, List.map_cons, List.sum_cons, ih, List.map_cons, List.sum_cons]
      split at hr <;> simp_all
    · rw [if_neg hp] at hr
      rw [List.filter_cons_of_neg hp, ih, List.map_cons, List.sum_cons]
      split at hr <;> simp_all

/-- What a task holds after `release_task_holdings` for a status: nothing in the columns settled, the
same in the others. -/
theorem holds_releaseReservations {t t' : Task} (s : TaskStatus) (c : Column)
    (h : t'.reservations = (t.releaseReservations s.releaseKinds).1.reservations) :
    t'.holds c = if s.releases c then 0 else t.holds c := by
  have hsum := sum_weight_release c (·.releasable s.releaseKinds) t.reservations
  rw [sum_weight_filter_releasable] at hsum
  have heq : t'.holds c = ((updateWhere (·.releasable s.releaseKinds)
      (fun r => { r with state := .released }) t.reservations).map c.weight).sum := by
    rw [Task.holds, h]
    rfl
  rw [heq]
  have hholds : t.holds c = (t.reservations.map c.weight).sum := rfl
  split at hsum <;> simp_all

/-- What the accounting of a release takes from a column. -/
def Released.amount (released : Released) (refundStorage : Bool) : Column → ℕ
  | .active => released.count .active
  | .running => released.count .running
  | .storage => if refundStorage then released.bytes else 0

/-- The released rows, counted by the accounting, weigh what was held in the columns settled. -/
theorem amount_releaseReservations {t : Task} (hw : t.WellHeld) (s : TaskStatus) (c : Column) :
    (t.releaseReservations s.releaseKinds).2.amount (s = .deleted) c =
      if s.releases c then t.holds c else 0 := by
  have hsum := sum_weight_filter_releasable s c t.reservations
  rw [Task.holds, ← hsum]
  have hheld : ∀ r ∈ t.reservations.filter (·.releasable s.releaseKinds), r.state = .held := by
    intro r hr
    have hp := (List.mem_filter.mp hr).2
    simp only [TaskReservation.releasable, Bool.and_eq_true, decide_eq_true_eq] at hp
    exact hp.1
  have hweight : (t.reservations.filter (·.releasable s.releaseKinds)).map c.weight =
      (t.reservations.filter (·.releasable s.releaseKinds)).map c.amount :=
    List.map_congr_left fun r hr => if_pos (hheld r hr)
  rw [hweight]
  have hcount (kind : ReservationKind) (rows : List TaskReservation) :
      Released.count (rows.map fun r => (r.kind, r.bytes)) kind =
        (rows.map fun r => if r.kind = kind then 1 else 0).sum := by
    induction rows with
    | nil => rfl
    | cons r rows ih =>
      simp only [Released.count] at ih
      by_cases hk : r.kind = kind <;> simp [Released.count, hk, ih, Nat.add_comm]
  cases c with
  | active => exact hcount .active _
  | running => exact hcount .running _
  | storage =>
    by_cases hs : s = .deleted
    · simp only [Released.amount, hs, decide_true, if_true, Released.bytes, Task.releaseReservations,
        List.map_map, Function.comp_def]
      congr 1
      refine List.map_congr_left fun r hr => ?_
      have hbytes := (hw r (List.mem_of_mem_filter hr)).2
      cases hk : r.kind.isStorage <;> simp_all [Column.amount]
    · have hzero : ∀ r ∈ t.reservations.filter (·.releasable s.releaseKinds),
          Column.storage.amount r = 0 := by
        intro r hr
        have h := weight_of_releasable s .storage r
        rw [if_pos (List.mem_filter.mp hr).2, TaskStatus.releases, decide_eq_false hs] at h
        simpa [Column.weight, hheld r hr] using h
      rw [Released.amount, decide_eq_false hs, List.map_congr_left hzero]
      simp

/-! ## Accounts -/

/-- The counter of a user; a user without a row has zero. -/
def Db.reads (db : Db) (c : Column) (u : UserId) : ℤ := c.read ((db.usage.get? u).getD {})

/-- The platform's storage counter. -/
def Db.platform (db : Db) : ℤ := db.storage.retainedStorageBytes

/-- How many slots are leased to the task. -/
def Db.leases (db : Db) (tid : TaskId) : ℕ :=
  db.slots.sum fun _ s => if s.state = .leased ∧ s.taskId = some tid then 1 else 0

section Accounts

variable {db db' charged : Db} {c : Column} {u u' : UserId} {tid : TaskId}

theorem reads_of_accounts (h : db'.accounts = db.accounts) : db'.reads c u = db.reads c u := by
  rw [Db.reads, Db.reads, show db'.usage = db.usage from congrArg Accounts.usage h]

theorem platform_of_accounts (h : db'.accounts = db.accounts) : db'.platform = db.platform :=
  congrArg (·.retainedStorageBytes) (congrArg Accounts.storage h)

theorem slots_of_accounts (h : db'.accounts = db.accounts) : db'.slots = db.slots :=
  congrArg Accounts.slots h

theorem usage_updateUsage (p : UserQuotaUsage → Bool) (f : UserQuotaUsage → UserQuotaUsage) :
    (db.updateUsage u p f).usage.get? u' =
      (db.usage.get? u').map fun row => if u' = u && p row then f row else row := by
  rw [Db.updateUsage, Table.get?_map]

/-- A column that the update does not write. -/
theorem reads_updateUsage_of_eq {p : UserQuotaUsage → Bool} {f : UserQuotaUsage → UserQuotaUsage}
    (hf : ∀ row, c.read (f row) = c.read row) :
    (db.updateUsage u p f).reads c u' = db.reads c u' := by
  rw [Db.reads, usage_updateUsage, Db.reads]
  cases db.usage.get? u' with
  | none => rfl
  | some row =>
    simp only [Option.map_some, Option.getD_some]
    split
    · exact hf row
    · rfl

/-- A column that the update moves by `n`, when a row is hit. -/
theorem reads_updateUsage_of_hit {p : UserQuotaUsage → Bool} {f : UserQuotaUsage → UserQuotaUsage}
    {n : ℤ} (hf : ∀ row, c.read (f row) = c.read row + n) (hit : db.usageHit u p = true) :
    (db.updateUsage u p f).reads c u' = db.reads c u' + if u = u' then n else 0 := by
  rw [Db.reads, usage_updateUsage, Db.reads]
  unfold Db.usageHit at hit
  by_cases hu : u = u'
  · subst hu
    cases hrow : db.usage.get? u with
    | none => simp [hrow] at hit
    | some row =>
      rw [hrow] at hit
      simp [show p row = true from hit, hf row]
  · cases db.usage.get? u' <;> simp [hu, Ne.symm hu]

/-- A column that the update lowers by `n`, refusing to go below zero; it never has to. -/
theorem reads_lower {a : Column} {p : UserQuotaUsage → Bool} {f : UserQuotaUsage → UserQuotaUsage}
    {n : ℕ} (hf : ∀ c row, c.read (f row) = c.read row - if c = a then (n : ℤ) else 0)
    (hp : ∀ row, n ≤ a.read row → p row = true) (hle : c = a → n ≤ db.reads a u) :
    (db.updateUsage u p f).reads c u' =
      db.reads c u' - if c = a ∧ u = u' then (n : ℤ) else 0 := by
  by_cases hc : c = a
  · subst hc
    have hle := hle rfl
    have hadd : ∀ row, c.read (f row) = c.read row + -n := fun row => by rw [hf c row, if_pos rfl]; rfl
    cases hrow : db.usage.get? u with
    | none =>
      have hzero : db.reads c u = 0 := by
        rw [Db.reads, hrow]
        cases c <;> rfl
      have hn : n = 0 := by omega
      rw [reads_updateUsage_of_eq fun row => by rw [hf c row, hn]; simp]
      simp [hn]
    | some row =>
      have hreads : db.reads c u = c.read row := by
        rw [Db.reads, hrow]
        rfl
      have hit : db.usageHit u p = true := by
        rw [Db.usageHit, hrow]
        exact hp row (by omega)
      rw [reads_updateUsage_of_hit hadd hit]
      simp only [true_and]
      split <;> omega
  · rw [reads_updateUsage_of_eq fun row => by rw [hf c row, if_neg hc]; simp]
    simp [hc]

@[simp] theorem reads_freeSlots : (db.freeSlots tid).reads c u = db.reads c u := rfl

@[simp] theorem reads_addPlatformStorage (p : PlatformStorage → Bool) (n : ℤ) :
    (db.addPlatformStorage p n).reads c u = db.reads c u := by
  simp [Db.reads]

theorem reads_releaseRunning {n : ℕ} (hle : c = .running → n ≤ db.reads .running u) :
    (db.releaseRunning tid u n).reads c u' =
      db.reads c u' - if c = .running ∧ u = u' then (n : ℤ) else 0 := by
  unfold Db.releaseRunning
  split
  · next h0 => simp [h0]
  · refine reads_lower (fun c row => ?_) (fun row h => decide_eq_true h) hle
    cases c <;> simp [Column.read]

theorem reads_releaseActive {n : ℕ} (hle : c = .active → n ≤ db.reads .active u) :
    (db.releaseActive u n).reads c u' =
      db.reads c u' - if c = .active ∧ u = u' then (n : ℤ) else 0 := by
  unfold Db.releaseActive
  split
  · next h0 => simp [h0]
  · refine reads_lower (fun c row => ?_) (fun row h => decide_eq_true h) hle
    cases c <;> simp [Column.read]

theorem reads_refundStorage {n : ℕ} (hle : c = .storage → n ≤ db.reads .storage u) :
    (db.refundStorage u n).reads c u' =
      db.reads c u' - if c = .storage ∧ u = u' then (n : ℤ) else 0 := by
  unfold Db.refundStorage
  rw [reads_addPlatformStorage]
  refine reads_lower (fun c row => ?_) (fun row h => decide_eq_true h) hle
  cases c <;> simp [Column.read]

/-- The accounting of a release lowers each column by its amount. -/
theorem reads_applyReleaseAccounting {released : Released} {b : Bool}
    (hle : released.amount b c ≤ db.reads c u) :
    (db.applyReleaseAccounting tid u released b).reads c u' =
      db.reads c u' - if u = u' then (released.amount b c : ℤ) else 0 := by
  have hrun (u' : UserId) :
      (db.releaseRunning tid u (released.count .running)).reads c u' = db.reads c u' -
        if c = .running ∧ u = u' then (released.count .running : ℤ) else 0 :=
    reads_releaseRunning fun hc => by subst hc; exact hle
  have hcounts (u' : UserId) :
      ((db.releaseRunning tid u (released.count .running)).releaseActive u
        (released.count .active)).reads c u' =
        db.reads c u' - (if c = .running ∧ u = u' then (released.count .running : ℤ) else 0) -
          if c = .active ∧ u = u' then (released.count .active : ℤ) else 0 := by
    rw [reads_releaseActive, hrun]
    intro hc
    subst hc
    rw [hrun]
    simpa [Released.amount] using hle
  unfold Db.applyReleaseAccounting
  simp only
  split
  · next hb =>
    simp only [Bool.and_eq_true, decide_eq_true_eq] at hb
    rw [reads_refundStorage, hcounts]
    · cases c <;> simp [Released.amount, hb.1]
    · intro hc
      subst hc
      rw [hcounts]
      simpa [Released.amount, hb.1] using hle
  · next hb =>
    have hzero : released.amount b .storage = 0 := by
      simp only [Bool.and_eq_true, decide_eq_true_eq, not_and] at hb
      cases b with
      | false => rfl
      | true => exact Nat.eq_zero_of_not_pos (hb rfl)
    rw [hcounts]
    cases c with
    | storage => simp [hzero]
    | _ => simp [Released.amount]

/-- The accounting of the provider service lowers the active count only. -/
theorem reads_releaseUnstartedAccounting {released : Released}
    (hle : c = .active → released.count .active ≤ db.reads .active u) :
    (db.releaseUnstartedAccounting u released).reads c u' =
      db.reads c u' - if c = .active ∧ u = u' then (released.count .active : ℤ) else 0 := by
  unfold Db.releaseUnstartedAccounting
  split
  · next h0 => simp [h0]
  · refine reads_lower (fun c row => ?_) (fun _ _ => rfl) hle
    cases c <;> simp [Column.read]

theorem platform_addPlatformStorage {p : PlatformStorage → Bool} (n : ℤ)
    (hp : p db.storage = true) : (db.addPlatformStorage p n).platform = db.platform + n := by
  rw [Db.addPlatformStorage, if_pos hp]
  rfl

theorem platform_applyReleaseAccounting {released : Released} {b : Bool}
    (hle : released.amount b .storage ≤ db.platform) :
    (db.applyReleaseAccounting tid u released b).platform =
      db.platform - released.amount b .storage := by
  have hstorage : ((db.releaseRunning tid u (released.count .running)).releaseActive u
      (released.count .active)).storage = db.storage := by
    unfold Db.releaseRunning Db.releaseActive
    split <;> split <;> rfl
  unfold Db.applyReleaseAccounting
  simp only
  split
  · next hb =>
    simp only [Bool.and_eq_true, decide_eq_true_eq] at hb
    rw [Released.amount, if_pos hb.1] at hle ⊢
    rw [Db.refundStorage, platform_addPlatformStorage]
    · rw [Db.platform, Db.updateUsage_storage, hstorage]
      rfl
    · rw [Db.updateUsage_storage, hstorage]
      exact decide_eq_true hle
  · next hb =>
    have hzero : released.amount b .storage = 0 := by
      simp only [Bool.and_eq_true, decide_eq_true_eq, not_and] at hb
      cases b with
      | false => rfl
      | true => exact Nat.eq_zero_of_not_pos (hb rfl)
    rw [Db.platform, hstorage, hzero]
    exact (sub_zero _).symm

/-! ## Charges -/

theorem reads_chargeStorage {n : ℕ} {e e' : Failure} (h : db.chargeStorage u n e e' = .ok charged) :
    charged.reads c u' = db.reads c u' + if c = .storage ∧ u = u' then (n : ℤ) else 0 := by
  obtain ⟨user, huser, h⟩ := bind_eq_ok.mp h
  obtain ⟨hit, huser⟩ := ite_ok_else_error.mp huser
  cases huser
  obtain ⟨-, h⟩ := ite_ok_else_error.mp h
  cases h
  rw [reads_addPlatformStorage]
  by_cases hc : c = .storage
  · subst hc
    rw [reads_updateUsage_of_hit (n := n) (fun row => rfl) hit]
    simp
  · rw [reads_updateUsage_of_eq fun row => by cases c <;> first | rfl | exact absurd rfl hc]
    simp [hc]

theorem platform_chargeStorage {n : ℕ} {e e' : Failure}
    (h : db.chargeStorage u n e e' = .ok charged) : charged.platform = db.platform + n := by
  obtain ⟨user, huser, h⟩ := bind_eq_ok.mp h
  obtain ⟨-, huser⟩ := ite_ok_else_error.mp huser
  cases huser
  obtain ⟨-, h⟩ := ite_ok_else_error.mp h
  cases h
  exact platform_addPlatformStorage _ rfl

theorem slots_chargeStorage {n : ℕ} {e e' : Failure}
    (h : db.chargeStorage u n e e' = .ok charged) : charged.slots = db.slots := by
  obtain ⟨user, huser, h⟩ := bind_eq_ok.mp h
  obtain ⟨-, huser⟩ := ite_ok_else_error.mp huser
  cases huser
  obtain ⟨-, h⟩ := ite_ok_else_error.mp h
  cases h
  rw [Db.addPlatformStorage_slots]
  rfl

/-- What `_charge_creation_quota` does to the accounts: a row is made if there was none, and its active
count goes up. -/
theorem chargeCreationQuota_eq_ok (h : db.chargeCreationQuota u = .ok charged) :
    (∀ c u', charged.reads c u' = db.reads c u' + if c = .active ∧ u = u' then 1 else 0) ∧
      charged.slots = db.slots ∧ charged.storage = db.storage := by
  obtain ⟨daily, hdaily, h⟩ := bind_eq_ok.mp h
  obtain ⟨hit, h⟩ := ite_ok_else_error.mp h
  cases h
  have hd : daily.usage = (db.ensureQuotaRows u).usage ∧ daily.slots = db.slots ∧
      daily.storage = db.storage := by
    unfold Db.chargeDaily at hdaily
    obtain ⟨-, hdaily⟩ := ite_error_eq_ok.mp hdaily
    split at hdaily
    · cases hdaily
      exact ⟨rfl, rfl, rfl⟩
    · obtain ⟨-, hdaily⟩ := ite_ok_else_error.mp hdaily
      cases hdaily
      exact ⟨rfl, rfl, rfl⟩
  have hreads (c : Column) (u' : UserId) : daily.reads c u' = db.reads c u' := by
    rw [Db.reads, hd.1, Db.reads, Db.ensureQuotaRows]
    cases hrow : db.usage.get? u with
    | some row => rw [Table.insert_of_some hrow]
    | none =>
      rw [Table.get?_insert hrow]
      split
      · next heq => rw [heq, hrow]; rfl
      · rfl
  refine ⟨fun c u' => ?_, hd.2.1, hd.2.2⟩
  by_cases hc : c = .active
  · subst hc
    rw [reads_updateUsage_of_hit (n := 1) (fun row => rfl) hit, hreads]
    simp
  · rw [reads_updateUsage_of_eq fun row => by cases c <;> first | rfl | exact absurd rfl hc, hreads]
    simp [hc]

/-! ## Slots -/

/-- A slot that is leased names its task. -/
def Db.SlotsNamed (db : Db) : Prop :=
  ∀ n s, db.slots.get? n = some s → s.state = .leased → s.taskId ≠ none

theorem leases_freeSlots (tid' : TaskId) :
    (db.freeSlots tid).leases tid' = if tid' = tid then 0 else db.leases tid' := by
  have hmiss {s : PlatformSlot} {tid : TaskId} (hs : ¬ (s.state = .leased ∧ s.taskId = some tid)) :
      (decide (s.taskId = some tid) && decide (s.state = .leased)) = false := by
    rw [Bool.and_comm, ← Bool.decide_and]
    exact decide_eq_false hs
  rw [Db.leases, Db.freeSlots, Table.sum_map]
  split
  · next heq =>
    subst heq
    refine (Table.sum_congr (g := fun _ _ => 0) fun n s _ => ?_).trans (by simp [Table.sum])
    by_cases hs : s.state = .leased ∧ s.taskId = some tid'
    · simp [hs.1, hs.2]
    · simp only [hmiss hs, Bool.false_eq_true, if_false, if_neg hs]
  · next hne =>
    refine Table.sum_congr fun n s _ => ?_
    by_cases hs : s.state = .leased ∧ s.taskId = some tid
    · simp [hs.1, hs.2, Ne.symm hne]
    · simp only [hmiss hs, Bool.false_eq_true, if_false]

theorem slots_applyReleaseAccounting (released : Released) (b : Bool) :
    (db.applyReleaseAccounting tid u released b).slots =
      if released.count .running = 0 then db.slots else (db.freeSlots tid).slots := by
  unfold Db.applyReleaseAccounting Db.releaseRunning Db.releaseActive Db.refundStorage
  simp only
  split_ifs <;> simp [Db.addPlatformStorage_slots]

theorem leases_applyReleaseAccounting (released : Released) (b : Bool) (tid' : TaskId) :
    (db.applyReleaseAccounting tid u released b).leases tid' =
      if tid' = tid ∧ released.count .running ≠ 0 then 0 else db.leases tid' := by
  rw [Db.leases, slots_applyReleaseAccounting]
  by_cases h0 : released.count .running = 0
  · rw [if_pos h0, if_neg (fun h => h.2 h0), Db.leases]
  · have hfree : (db.freeSlots tid).leases tid' = _ := leases_freeSlots tid'
    rw [if_neg h0, ← Db.leases, hfree]
    simp [h0]

theorem Db.SlotsNamed.applyReleaseAccounting {released : Released} {b : Bool} (h : db.SlotsNamed) :
    (db.applyReleaseAccounting tid u released b).SlotsNamed := by
  intro n s hs hst
  rw [slots_applyReleaseAccounting] at hs
  split at hs
  · exact h n s hs hst
  · rw [Db.freeSlots, Table.get?_map] at hs
    obtain ⟨s₀, hs₀, rfl⟩ := Option.map_eq_some_iff.mp hs
    split at hst
    · cases hst
    · next hno =>
      rw [if_neg hno]
      exact h n s₀ hs₀ hst

end Accounts

end AgentCraft.Tasking
