import AgentCraft.Tasking.Holdings

/-!
# The ledger

What a task holds is a function of its phase (`Task.Held`), and each column of the accounts is the
total of what the tasks hold in it (`Db.Balanced`). Every change keeps the balance of every column,
except that the provider service forgets the storage of the tasks it fails; the account hook keeps it as
long as the tasks that its scan has not seen hold nothing.
-/

namespace AgentCraft.Tasking

open AgentCraft.Relational AgentCraft.Transition

/-- What the tasks of a user hold in a column. -/
def Db.holds (db : Db) (c : Column) (u : UserId) : ℤ :=
  db.tasks.sum fun _ t => if t.ownerId = u then (t.holds c : ℤ) else 0

/-- The column says what the tasks hold. -/
def Db.Balanced (db : Db) (c : Column) : Prop := ∀ u, db.reads c u = db.holds c u

/-- The platform's storage counter says what the tasks hold. -/
def Db.PlatformBalanced (db : Db) : Prop :=
  db.platform = db.tasks.sum fun _ t => (t.holds .storage : ℤ)

/-- A task holds an active reservation until it is terminal and a running one while it executes. -/
structure Task.Held (t : Task) : Prop where
  wellHeld : t.WellHeld
  phase : ∃ q, t.control.phase? = some q ∧ t.holds .active = (if q.isTerminal then 0 else 1) ∧
    t.holds .running = if q.isExecuting then 1 else 0

/-- Every task holds what its phase says. -/
def Db.Held (db : Db) : Prop := ∀ tid t, db.tasks.get? tid = some t → t.Held

/-! ## What a posting does to the task -/

section Postings

variable {db db' : Db} {k : MoveKind} {tid : TaskId} {t t' : Task} {c : Column} {u : UserId}

theorem holds_append {rows : List TaskReservation} {r : TaskReservation}
    (h : t'.reservations = rows ++ [r]) :
    t'.holds c = (rows.map c.weight).sum + c.weight r := by
  simp [Task.holds, h]

theorem holds_of_reservations (h : t'.reservations = t.reservations) : t'.holds c = t.holds c := by
  rw [Task.holds, h, Task.holds]

theorem Task.WellHeld.append {rows : List TaskReservation} {r : TaskReservation}
    (h : t'.reservations = rows ++ [r]) (hrows : ∀ x ∈ rows, x.userId = t'.ownerId ∧
      (x.kind.isStorage = false → x.bytes = 0)) (hr : r.userId = t'.ownerId ∧
      (r.kind.isStorage = false → r.bytes = 0)) : t'.WellHeld := by
  intro x hx
  rw [h] at hx
  rcases List.mem_append.mp hx with hx | hx
  · exact hrows x hx
  · rw [List.mem_singleton.mp hx]
    exact hr

/-- Releasing rows keeps owners and bytes. -/
theorem Task.WellHeld.release (hw : t.WellHeld) (p : TaskReservation → Bool) :
    ∀ x ∈ updateWhere p (fun r => { r with state := .released }) t.reservations,
      x.userId = t.ownerId ∧ (x.kind.isStorage = false → x.bytes = 0) :=
  forall_updateWhere hw fun _ _ _ h => h

theorem Posted.wellHeld (h : Posted db db' tid t t' k) (hown : t'.ownerId = t.ownerId)
    (hw : t.WellHeld) : t'.WellHeld := by
  have hkeep (hres : t'.reservations = t.reservations) : t'.WellHeld := by
    intro x hx
    rw [hres] at hx
    rw [hown]
    exact hw x hx
  have hrelease {ks : ReleaseKinds}
      (hres : t'.reservations = (t.releaseReservations ks).1.reservations) : t'.WellHeld := by
    intro x hx
    rw [hres] at hx
    rw [hown]
    exact hw.release _ x hx
  cases h with
  | quiet hres => exact hkeep hres
  | renew hres => exact hkeep hres
  | output p fid n charged e e' hp hres =>
    exact .append hres (by rw [hown]; exact hw.release p) ⟨hown.symm, by simp [ReservationKind.isStorage]⟩
  | commit n charged e e' hres =>
    exact .append hres (by rw [hown]; exact hw) ⟨hown.symm, by simp [ReservationKind.isStorage]⟩
  | claim p n e s hres =>
    exact .append hres (by rw [hown]; exact hw) ⟨hown.symm, fun _ => rfl⟩
  | close back hres => exact hrelease hres
  | fail hres => exact hrelease hres
  | cleanup hres => exact hrelease hres

/-- The weight of the copies that an output replaces. -/
theorem sum_weight_filter_copies {p : TaskReservation → Bool}
    (hp : ∀ r, p r = true → r.kind = .artifactCopy ∧ r.state = .held) (rows : List TaskReservation) :
    ((rows.filter p).map c.weight).sum =
      if c = .storage then ((rows.filter p).map (·.bytes)).sum else 0 := by
  have hweight : ∀ r ∈ rows.filter p, c.weight r = if c = .storage then r.bytes else 0 := by
    intro r hr
    obtain ⟨hkind, hstate⟩ := hp r (List.mem_filter.mp hr).2
    cases c <;> simp [Column.weight, Column.amount, hkind, hstate, ReservationKind.isStorage]
  rw [List.map_congr_left hweight]
  split <;> simp

theorem holds_output {p : TaskReservation → Bool} {fid : FileId} {n : ℕ}
    (hp : ∀ r, p r = true → r.kind = .artifactCopy ∧ r.state = .held)
    (hres : t'.reservations = updateWhere p (fun r => { r with state := .released }) t.reservations ++
      [⟨t.ownerId, .artifactCopy, some fid, n, .held⟩]) :
    t'.holds c + (if c = .storage then copiedBytes t p else 0) =
      t.holds c + if c = .storage then n else 0 := by
  have hsum := sum_weight_release c p t.reservations
  rw [sum_weight_filter_copies hp] at hsum
  rw [holds_append hres]
  have hnew : c.weight ⟨t.ownerId, .artifactCopy, some fid, n, .held⟩ =
      if c = .storage then n else 0 := by
    cases c <;> rfl
  rw [hnew, Task.holds, copiedBytes]
  omega

/-- What the postings release and charge, by column: nothing, or what the rows weigh. -/
theorem Posted.holds_of_ne_close (h : Posted db db' tid t t' k) (hc : c ≠ .storage)
    (hk : k = .quiet ∨ k = .renew ∨ k = .commit) : t'.holds c = t.holds c := by
  cases h with
  | quiet hres => exact holds_of_reservations hres
  | renew hres => exact holds_of_reservations hres
  | output p fid n charged e e' hp hres =>
    have h := holds_output (c := c) hp hres
    simpa [hc] using h
  | commit n charged e e' hres =>
    rw [holds_append hres]
    cases c <;> first | rfl | exact absurd rfl hc
  | _ => simp at hk

theorem Posted.holds_claim (h : Posted db db' tid t t' .claim) :
    t'.holds c = t.holds c + if c = .running then 1 else 0 := by
  cases h with
  | claim p n e s hres =>
    rw [holds_append hres]
    cases c <;> rfl

theorem Posted.holds_close {back : Bool} (h : Posted db db' tid t t' (.close back)) :
    t'.holds c = if t'.status.releases c then 0 else t.holds c := by
  cases h with
  | close back hres => exact holds_releaseReservations _ c hres

theorem Posted.holds_all (h : Posted db db' tid t t' k) (hk : k = .fail ∨ k = .cleanup) :
    t'.holds c = 0 := by
  have hall {t' : Task} (hres : t'.reservations = (t.releaseReservations none).1.reservations) :
      t'.holds c = 0 := by
    rw [holds_releaseReservations .deleted c hres, TaskStatus.releases_deleted, if_pos rfl]
  cases h with
  | fail hres => exact hall hres
  | cleanup hres => exact hall hres
  | _ => simp at hk

/-- A move keeps the match between holdings and phase. -/
theorem Moved.held (h : Moved db db' k tid t t') (ht : t.Held) : t'.Held := by
  obtain ⟨q, hq, hactive, hrunning⟩ := ht.phase
  obtain ⟨q', hq', hstep⟩ := h.control.simulates hq
  refine ⟨h.posted.wellHeld h.owner ht.wellHeld, q', hq', ?_⟩
  cases k with
  | quiet =>
    obtain ⟨hex, hterm⟩ := hstep.quiet_congr
    rw [h.posted.holds_of_ne_close (by simp) (.inl rfl),
      h.posted.holds_of_ne_close (by simp) (.inl rfl), hex, hterm]
    exact ⟨hactive, hrunning⟩
  | renew =>
    obtain rfl := hstep.renew_congr
    rw [h.posted.holds_of_ne_close (by simp) (.inr (.inl rfl)),
      h.posted.holds_of_ne_close (by simp) (.inr (.inl rfl))]
    exact ⟨hactive, hrunning⟩
  | commit =>
    rw [h.posted.holds_of_ne_close (by simp) (.inr (.inr rfl)),
      h.posted.holds_of_ne_close (by simp) (.inr (.inr rfl)), hactive, hrunning]
    cases hstep
    exact ⟨rfl, rfl⟩
  | claim =>
    rw [h.posted.holds_claim, h.posted.holds_claim, hactive, hrunning]
    cases hstep
    exact ⟨rfl, rfl⟩
  | close back =>
    have hterm : t'.status.isTerminal = q'.isTerminal := by
      cases hs : t'.status.isTerminal with
      | true => exact (Control.isTerminal_of_status hq' hs).1.symm
      | false =>
        cases hqt : q'.isTerminal with
        | false => rfl
        | true =>
          have hst : t'.status.isTerminal = true := Control.status_isTerminal hq' hqt
          rw [hs] at hst
          cases hst
    rw [h.posted.holds_close, h.posted.holds_close, TaskStatus.releases, TaskStatus.releases, hterm,
      hstep.not_isExecuting, hactive]
    refine ⟨?_, rfl⟩
    cases hqt : q'.isTerminal with
    | true => rfl
    | false =>
      cases hqt₀ : q.isTerminal with
      | false => rfl
      | true =>
        rw [hstep.isTerminal hqt₀] at hqt
        cases hqt
  | fail =>
    rw [h.posted.holds_all (.inl rfl), h.posted.holds_all (.inl rfl)]
    cases hstep <;> exact ⟨rfl, rfl⟩
  | cleanup =>
    rw [h.posted.holds_all (.inr rfl), h.posted.holds_all (.inr rfl)]
    cases hstep <;> exact ⟨rfl, rfl⟩

theorem Born.held (h : Born db db' tid t) : t.Held := by
  have hres := h.reservations
  refine ⟨?_, .uploading, h.phase?, ?_, ?_⟩
  · intro r hr
    rw [hres, List.mem_singleton] at hr
    rw [hr]
    exact ⟨rfl, fun _ => rfl⟩
  · rw [Task.holds, hres]
    rfl
  · rw [Task.holds, hres]
    rfl

theorem Change.held {expects : Expects} (hc : Change expects db db') (hheld : db.Held) :
    db'.Held := by
  intro tid x hx
  rcases hc.row hx with h | h | ⟨k, t, h, -⟩
  · exact hheld tid x h
  · exact h.held
  · exact h.held (hheld tid t h.found)

/-! ## What a posting does to the accounts -/

/-- A posting moves each column of the owner by what it does to the holdings of the task. A failure
by the provider service does so for the active column only. -/
theorem Posted.reads (h : Posted db db' tid t t' k) (hw : t.WellHeld)
    (hfail : k = .fail → c ≠ .active → t.holds c = 0) (hle : t.holds c ≤ db.reads c t.ownerId) :
    db'.reads c u = db.reads c u + if t.ownerId = u then (t'.holds c : ℤ) - t.holds c else 0 := by
  cases h with
  | quiet hres hacc =>
    rw [reads_of_accounts hacc, holds_of_reservations hres]
    simp
  | renew hres e hacc =>
    rw [reads_of_accounts hacc, holds_of_reservations hres]
    simp [Db.reads, Db.renewSlots]
  | output p fid n charged e e' hp hres hcharge hacc =>
    have hholds := holds_output (c := c) hp hres
    have hcopied : c = .storage → copiedBytes t p ≤ t.holds c := by
      intro hc
      have hsum := sum_weight_release c p t.reservations
      rw [sum_weight_filter_copies hp, if_pos hc] at hsum
      rw [Task.holds, copiedBytes]
      omega
    rw [reads_of_accounts hacc, reads_chargeStorage hcharge, reads_refundStorage]
    · by_cases hu : t.ownerId = u <;> by_cases hc : c = .storage <;> simp_all
      omega
    · intro hc
      have := hcopied hc
      subst hc
      omega
  | commit n charged e e' hres hcharge hacc =>
    rw [reads_of_accounts hacc, reads_chargeStorage hcharge, holds_append hres]
    have hnew : c.weight ⟨t.ownerId, .taskRoot, none, n, .held⟩ = if c = .storage then n else 0 := by
      cases c <;> rfl
    rw [hnew, Task.holds]
    by_cases hu : t.ownerId = u <;> by_cases hc : c = .storage <;> simp [hu, hc]
  | claim p n e s hres hhit hslot hfree hacc =>
    have hacc' : db'.accounts.usage = (db.updateUsage t.ownerId p fun row =>
        { row with runningTasks := row.runningTasks + 1 }).usage := congrArg Accounts.usage hacc
    have hreads : db'.reads c u = (db.updateUsage t.ownerId p fun row =>
        { row with runningTasks := row.runningTasks + 1 }).reads c u := by
      rw [Db.reads, Db.reads, ← hacc']
      rfl
    rw [hreads, holds_append hres]
    have hnew : c.weight ⟨t.ownerId, .running, none, 0, .held⟩ = if c = .running then 1 else 0 := by
      cases c <;> rfl
    rw [hnew, Task.holds]
    by_cases hc : c = .running
    · subst hc
      rw [reads_updateUsage_of_hit (n := 1) (fun row => rfl) hhit]
      by_cases hu : t.ownerId = u <;> simp [hu]
    · rw [reads_updateUsage_of_eq fun row => by cases c <;> first | rfl | exact absurd rfl hc]
      simp [hc]
  | close back hres hacc =>
    have hamount := amount_releaseReservations hw t'.status c
    rw [reads_of_accounts hacc, reads_applyReleaseAccounting, hamount,
      holds_releaseReservations _ c hres]
    · by_cases hu : t.ownerId = u <;> by_cases hr : t'.status.releases c = true <;> simp [hu, hr]
      omega
    · rw [hamount]
      split <;> omega
  | fail hres hacc =>
    have hzero : t'.holds c = 0 := by
      rw [holds_releaseReservations .deleted c hres, TaskStatus.releases_deleted, if_pos rfl]
    have hamount : (t.releaseReservations none).2.amount true c = _ :=
      amount_releaseReservations hw .deleted c
    rw [TaskStatus.releases_deleted, if_pos rfl] at hamount
    rw [reads_of_accounts hacc, reads_releaseUnstartedAccounting, hzero]
    · by_cases hc : c = .active
      · subst hc
        rw [← hamount]
        by_cases hu : t.ownerId = u <;> simp [hu, Released.amount]
        omega
      · rw [hfail rfl hc]
        simp [hc]
    · intro hc
      subst hc
      rw [← hamount] at hle
      exact hle
  | cleanup hres hacc =>
    have hzero : t'.holds c = 0 := by
      rw [holds_releaseReservations .deleted c hres, TaskStatus.releases_deleted, if_pos rfl]
    have hamount : (t.releaseReservations none).2.amount true c = _ :=
      amount_releaseReservations hw .deleted c
    rw [TaskStatus.releases_deleted, if_pos rfl] at hamount
    rw [reads_of_accounts hacc, reads_applyReleaseAccounting (by rw [hamount]; exact hle), hamount,
      hzero]
    by_cases hu : t.ownerId = u <;> simp [hu]
    omega

/-- The platform's counter moves with the storage that the task holds, unless the provider service
fails a task that holds some. -/
theorem Posted.platform (h : Posted db db' tid t t' k) (hw : t.WellHeld)
    (hfail : k = .fail → t.holds .storage = 0) (hle : t.holds .storage ≤ db.platform) :
    db'.platform = db.platform + ((t'.holds .storage : ℤ) - t.holds .storage) := by
  have hall := h.holds_all (c := .storage)
  have hclaim (hk : k = .claim) : t'.holds .storage = t.holds .storage := by
    subst hk
    exact h.holds_claim
  cases h with
  | quiet hres hacc =>
    rw [platform_of_accounts hacc, holds_of_reservations hres]
    omega
  | renew hres e hacc =>
    rw [platform_of_accounts hacc, holds_of_reservations hres, sub_self, add_zero]
    rfl
  | output p fid n charged e e' hp hres hcharge hacc =>
    have hholds := holds_output (c := .storage) hp hres
    have hsum := sum_weight_release .storage p t.reservations
    rw [sum_weight_filter_copies hp, if_pos rfl, ← Task.holds, ← copiedBytes] at hsum
    rw [if_pos rfl, if_pos rfl] at hholds
    rw [platform_of_accounts hacc, platform_chargeStorage hcharge, Db.refundStorage,
      platform_addPlatformStorage]
    · rw [Db.platform, Db.updateUsage_storage, ← Db.platform]
      omega
    · rw [Db.updateUsage_storage]
      refine decide_eq_true ?_
      rw [← Db.platform]
      omega
  | commit n charged e e' hres hcharge hacc =>
    rw [platform_of_accounts hacc, platform_chargeStorage hcharge, holds_append hres, ← Task.holds]
    simp [Column.weight, Column.amount, ReservationKind.isStorage]
  | claim p n e s hres hhit hslot hfree hacc =>
    have hstorage : db'.storage = db.storage := congrArg Accounts.storage hacc
    rw [hclaim rfl, Db.platform, hstorage, ← Db.platform]
    omega
  | close back hres hacc =>
    have hamount := amount_releaseReservations hw t'.status .storage
    rw [platform_of_accounts hacc, platform_applyReleaseAccounting, hamount,
      holds_releaseReservations _ .storage hres]
    · split <;> omega
    · rw [hamount]
      split <;> omega
  | fail hres hacc =>
    have hstorage : (db.releaseUnstartedAccounting t.ownerId (t.releaseReservations none).2).storage
        = db.storage := by
      unfold Db.releaseUnstartedAccounting
      split <;> rfl
    rw [platform_of_accounts hacc, Db.platform, hstorage, ← Db.platform, hall (.inl rfl), hfail rfl]
    omega
  | cleanup hres hacc =>
    have hamount : (t.releaseReservations none).2.amount true .storage = _ :=
      amount_releaseReservations hw .deleted .storage
    rw [TaskStatus.releases_deleted, if_pos rfl] at hamount
    rw [platform_of_accounts hacc, platform_applyReleaseAccounting (by rw [hamount]; exact hle),
      hamount, hall (.inr rfl)]
    omega

/-- The slots leased to the task follow its running reservation, those of other tasks stay. -/
theorem Posted.leases (h : Posted db db' tid t t' k) (hw : t.WellHeld)
    (hfail : k = .fail → t.holds .running = 0) (hmatch : db.leases tid = t.holds .running)
    (tid' : TaskId) :
    db'.leases tid' = if tid' = tid then t'.holds .running else db.leases tid' := by
  have hsame (hslots : db'.slots = db.slots) (hrun : t'.holds .running = t.holds .running) :
      db'.leases tid' = if tid' = tid then t'.holds .running else db.leases tid' := by
    rw [Db.leases, hslots, ← Db.leases, hrun]
    split
    · next heq => rw [heq, hmatch]
    · rfl
  have hall := h.holds_all (c := .running)
  have hrelease {s : TaskStatus} {b : Bool}
      (hacc : db'.accounts = (db.applyReleaseAccounting tid t.ownerId
        (t.releaseReservations s.releaseKinds).2 b).accounts) (hzero : t'.holds .running = 0) :
      db'.leases tid' = if tid' = tid then t'.holds .running else db.leases tid' := by
    have hcount : (t.releaseReservations s.releaseKinds).2.count .running = t.holds .running :=
      amount_releaseReservations hw s .running
    rw [Db.leases, slots_of_accounts hacc, ← Db.leases, leases_applyReleaseAccounting, hcount, hzero]
    by_cases heq : tid' = tid
    · subst heq
      by_cases h0 : t.holds .running = 0 <;> simp [h0, hmatch]
    · simp [heq]
  cases h with
  | quiet hres hacc => exact hsame (slots_of_accounts hacc) (holds_of_reservations hres)
  | renew hres e hacc =>
    have hslots : db'.leases tid' = db.leases tid' := by
      rw [Db.leases, slots_of_accounts hacc, Db.renewSlots, Db.leases, Table.sum_map]
      refine Table.sum_congr fun n s _ => ?_
      split <;> rfl
    rw [hslots, holds_of_reservations hres]
    split
    · next heq => rw [heq, hmatch]
    · rfl
  | output p fid n charged e e' hp hres hcharge hacc =>
    have hholds := holds_output (c := .running) hp hres
    refine hsame ?_ hholds
    rw [slots_of_accounts hacc, slots_chargeStorage hcharge]
    simp [Db.refundStorage]
  | commit n charged e e' hres hcharge hacc =>
    refine hsame ((slots_of_accounts hacc).trans (slots_chargeStorage hcharge)) ?_
    rw [holds_append hres]
    rfl
  | claim p n e s hres hhit hslot hfree hacc =>
    have hslots : db'.slots = db.slots.set n ⟨some tid, .leased, some e⟩ :=
      congrArg Accounts.slots hacc
    have hset := Table.sum_set hslot ⟨some tid, .leased, some e⟩
      fun _ s => if s.state = .leased ∧ s.taskId = some tid' then 1 else 0
    have hrun : t'.holds .running = t.holds .running + 1 := by
      rw [holds_append hres]
      rfl
    rw [Db.leases, hslots]
    rw [Db.leases] at hmatch
    simp only [hfree, reduceCtorEq, false_and, if_false, add_zero, true_and, Option.some.injEq] at hset
    rw [hset]
    by_cases heq : tid' = tid
    · subst heq
      simp [hmatch, hrun]
    · simp [heq, Ne.symm heq, Db.leases]
  | close back hres hacc =>
    refine hrelease hacc ?_
    rw [holds_releaseReservations _ .running hres]
    rfl
  | fail hres hacc =>
    refine hsame ?_ ((hall (.inl rfl)).trans (hfail rfl).symm)
    rw [slots_of_accounts hacc]
    unfold Db.releaseUnstartedAccounting
    split <;> rfl
  | cleanup hres hacc => exact hrelease (s := .deleted) hacc (hall (.inr rfl))

/-- Closing a round that was being executed frees the slots of its task. -/
theorem Posted.leases_close {back : Bool} (h : Posted db db' tid t t' (.close back)) (hw : t.WellHeld)
    (hrun : t.holds .running ≠ 0) : db'.leases tid = 0 := by
  cases h with
  | close _ hres hacc =>
    have hcount : (t.releaseReservations t'.status.releaseKinds).2.count .running = t.holds .running :=
      amount_releaseReservations hw t'.status .running
    rw [Db.leases, slots_of_accounts hacc, ← Db.leases, leases_applyReleaseAccounting, hcount]
    exact if_pos ⟨rfl, hrun⟩

end Postings

/-! ## Balance -/

section Balance

variable {expects : Expects} {db db' : Db} {k : MoveKind} {tid : TaskId} {t t' : Task} {c : Column}
  {u : UserId}

theorem Db.Balanced.holds_le (hb : db.Balanced c) (hfound : db.tasks.get? tid = some t) :
    t.holds c ≤ db.reads c t.ownerId := by
  have hle := Table.le_sum (t := db.tasks)
    (f := fun _ x => if x.ownerId = t.ownerId then (x.holds c : ℤ) else 0)
    (fun _ x _ => by split <;> omega) hfound
  rw [hb t.ownerId, Db.holds]
  simpa using hle

/-- Replacing one row moves the totals by the difference of that row. -/
theorem holds_set (hfound : db.tasks.get? tid = some t) (hwritten : db'.tasks = db.tasks.set tid t')
    (hown : t'.ownerId = t.ownerId) :
    db'.holds c u = db.holds c u + if t.ownerId = u then (t'.holds c : ℤ) - t.holds c else 0 := by
  have hset := Table.sum_set hfound t' fun _ x => if x.ownerId = u then (x.holds c : ℤ) else 0
  rw [hown] at hset
  rw [Db.holds, hwritten, Db.holds]
  by_cases hu : t.ownerId = u
  · rw [if_pos hu, if_pos hu] at hset
    rw [if_pos hu]
    omega
  · rw [if_neg hu, if_neg hu] at hset
    rw [if_neg hu]
    omega

theorem Db.Balanced.posted (hb : db.Balanced c) (hfound : db.tasks.get? tid = some t)
    (hwritten : db'.tasks = db.tasks.set tid t') (hown : t'.ownerId = t.ownerId) (hw : t.WellHeld)
    (hp : Posted db db' tid t t' k) (hfail : k = .fail → c ≠ .active → t.holds c = 0) :
    db'.Balanced c := by
  intro u
  rw [hp.reads hw hfail (hb.holds_le hfound), hb u, holds_set hfound hwritten hown]

theorem Db.PlatformBalanced.posted (hb : db.PlatformBalanced) (hfound : db.tasks.get? tid = some t)
    (hwritten : db'.tasks = db.tasks.set tid t') (hw : t.WellHeld) (hp : Posted db db' tid t t' k)
    (hfail : k = .fail → t.holds .storage = 0) : db'.PlatformBalanced := by
  have hle : (t.holds .storage : ℤ) ≤ db.platform := by
    rw [hb]
    exact Table.le_sum (f := fun _ x => (x.holds .storage : ℤ)) (fun _ _ _ => by omega) hfound
  have hset := Table.sum_set hfound t' fun _ x => (x.holds .storage : ℤ)
  rw [Db.PlatformBalanced, hp.platform hw hfail hle, hwritten, hb]
  omega

/-- The provider service fails tasks that do not execute. -/
theorem Moved.holds_running_of_fail (h : Moved db db' .fail tid t t') (ht : t.Held) :
    t.holds .running = 0 := by
  obtain ⟨q, hq, -, hrunning⟩ := ht.phase
  obtain ⟨q', -, hstep⟩ := h.control.simulates hq
  rw [hrunning]
  cases hstep <;> rfl

/-- Every change keeps the balance of a column; for storage, the provider service must fail no task
that holds any. -/
theorem Change.balanced (hc : Change expects db db') (hheld : db.Held)
    (hfail : ∀ tid t, expects .fail tid t → c = .storage → t.holds .storage = 0)
    (hb : db.Balanced c) : db'.Balanced c := by
  cases hc with
  | still htasks hacc =>
    intro u
    rw [reads_of_accounts hacc, hb u, Db.holds, Db.holds, htasks]
  | born tid t h =>
    intro u
    obtain ⟨charged, hcharged, hacc⟩ := h.charged
    have hholds : (t.holds c : ℤ) = if c = .active then 1 else 0 := by
      rw [Task.holds, h.reservations]
      cases c <;> rfl
    rw [reads_of_accounts hacc, (chargeCreationQuota_eq_ok hcharged).1, hb u, Db.holds, Db.holds,
      h.written, Table.sum_insert h.fresh, hholds]
    by_cases hu : t.ownerId = u <;> simp [hu]
  | moved k tid t t' h hexp =>
    refine hb.posted h.found h.written h.owner (hheld tid t h.found).wellHeld h.posted ?_
    rintro rfl hne
    cases c with
    | active => exact absurd rfl hne
    | running => exact h.holds_running_of_fail (hheld tid t h.found)
    | storage => exact hfail tid t hexp rfl

theorem Changes.balanced (hc : Changes expects db db') (hheld : db.Held)
    (hfail : ∀ tid t, expects .fail tid t → c = .storage → t.holds .storage = 0)
    (hb : db.Balanced c) : db'.Held ∧ db'.Balanced c := by
  induction hc with
  | refl => exact ⟨hheld, hb⟩
  | tail _ h ih => exact ⟨h.held ih.1, h.balanced ih.1 hfail ih.2⟩

theorem Changes.held (hc : Changes expects db db') (hheld : db.Held) : db'.Held := by
  induction hc with
  | refl => exact hheld
  | tail _ h ih => exact h.held ih

theorem Change.platformBalanced (hc : Change expects db db') (hheld : db.Held)
    (hfail : ∀ tid t, expects .fail tid t → t.holds .storage = 0)
    (hb : db.PlatformBalanced) : db'.PlatformBalanced := by
  cases hc with
  | still htasks hacc => rw [Db.PlatformBalanced, platform_of_accounts hacc, hb, htasks]
  | born tid t h =>
    obtain ⟨charged, hcharged, hacc⟩ := h.charged
    have hholds : (t.holds .storage : ℤ) = 0 := by
      rw [Task.holds, h.reservations]
      rfl
    have hplatform : charged.platform = db.platform := by
      rw [Db.platform, (chargeCreationQuota_eq_ok hcharged).2.2, ← Db.platform]
    rw [Db.PlatformBalanced, platform_of_accounts hacc, hplatform, hb, h.written,
      Table.sum_insert h.fresh, hholds, add_zero]
  | moved k tid t t' h hexp =>
    refine hb.posted h.found h.written (hheld tid t h.found).wellHeld h.posted ?_
    rintro rfl
    exact hfail tid t hexp

theorem Changes.platformBalanced (hc : Changes expects db db') (hheld : db.Held)
    (hfail : ∀ tid t, expects .fail tid t → t.holds .storage = 0)
    (hb : db.PlatformBalanced) : db'.PlatformBalanced := by
  have hboth : db'.Held ∧ db'.PlatformBalanced := by
    induction hc with
    | refl => exact ⟨hheld, hb⟩
    | tail _ h ih => exact ⟨h.held ih.1, h.platformBalanced ih.1 hfail ih.2⟩
  exact hboth.2

end Balance

/-! ## Slots -/

section Slots

variable {expects : Expects} {db db' : Db} {k : MoveKind} {tid : TaskId} {t t' : Task}

/-- The running reservation that the task, if there is one, holds. -/
def Db.runs (db : Db) (tid : TaskId) : ℕ := ((db.tasks.get? tid).map (·.holds .running)).getD 0

/-- A task leases a slot for each running reservation that it holds. -/
def Db.LeasesMatch (db : Db) : Prop := ∀ tid, db.leases tid = db.runs tid

/-- Each running reservation has its slot, and each leased slot its running reservation. -/
structure Db.SlotsMatch (db : Db) : Prop where
  leases : ∀ tid, db.leases tid = db.runs tid
  named : db.SlotsNamed

theorem runs_set (hfound : db.tasks.get? tid = some t) (hwritten : db'.tasks = db.tasks.set tid t')
    (tid' : TaskId) : db'.runs tid' = if tid' = tid then t'.holds .running else db.runs tid' := by
  rw [Db.runs, hwritten, Table.get?_set]
  split
  · next heq =>
    subst heq
    rw [hfound]
    rfl
  · rfl

theorem Db.SlotsNamed.of_slots (h : db.SlotsNamed) (hslots : db'.slots = db.slots) :
    db'.SlotsNamed := by
  intro n s hs
  rw [hslots] at hs
  exact h n s hs

theorem Db.SlotsNamed.posted (h : db.SlotsNamed) (hp : Posted db db' tid t t' k) :
    db'.SlotsNamed := by
  cases hp with
  | quiet hres hacc => exact h.of_slots (slots_of_accounts hacc)
  | renew hres e hacc =>
    intro n s hs hst
    rw [slots_of_accounts hacc, Db.renewSlots, Table.get?_map] at hs
    obtain ⟨s₀, hs₀, rfl⟩ := Option.map_eq_some_iff.mp hs
    split at hst <;> split <;> exact h n s₀ hs₀ hst
  | output p fid n charged e e' hp hres hcharge hacc =>
    refine h.of_slots ?_
    rw [slots_of_accounts hacc, slots_chargeStorage hcharge]
    simp [Db.refundStorage]
  | commit n charged e e' hres hcharge hacc =>
    exact h.of_slots ((slots_of_accounts hacc).trans (slots_chargeStorage hcharge))
  | claim p n e s hres hhit hslot hfree hacc =>
    intro n' s' hs hst
    have hslots : db'.slots = db.slots.set n ⟨some tid, .leased, some e⟩ :=
      congrArg Accounts.slots hacc
    rw [hslots, Table.get?_set] at hs
    split at hs
    · obtain ⟨s₀, -, rfl⟩ := Option.map_eq_some_iff.mp hs
      exact Option.some_ne_none tid
    · exact h n' s' hs hst
  | close back hres hacc =>
    exact Db.SlotsNamed.of_slots h.applyReleaseAccounting (slots_of_accounts hacc)
  | fail hres hacc =>
    refine h.of_slots ?_
    rw [slots_of_accounts hacc]
    unfold Db.releaseUnstartedAccounting
    split <;> rfl
  | cleanup hres hacc =>
    exact Db.SlotsNamed.of_slots h.applyReleaseAccounting (slots_of_accounts hacc)

theorem Db.LeasesMatch.posted (hm : db.LeasesMatch) (hfound : db.tasks.get? tid = some t)
    (hwritten : db'.tasks = db.tasks.set tid t') (hw : t.WellHeld) (hp : Posted db db' tid t t' k)
    (hfail : k = .fail → t.holds .running = 0) : db'.LeasesMatch := by
  intro tid'
  have hmatch : db.leases tid = t.holds .running := by
    rw [hm tid, Db.runs, hfound]
    rfl
  rw [hp.leases hw hfail hmatch, runs_set hfound hwritten, hm tid']

theorem Db.SlotsMatch.posted (hm : db.SlotsMatch) (hfound : db.tasks.get? tid = some t)
    (hwritten : db'.tasks = db.tasks.set tid t') (hw : t.WellHeld) (hp : Posted db db' tid t t' k)
    (hfail : k = .fail → t.holds .running = 0) : db'.SlotsMatch :=
  ⟨Db.LeasesMatch.posted hm.leases hfound hwritten hw hp hfail, hm.named.posted hp⟩

theorem Change.leasesMatch (hc : Change expects db db') (hheld : db.Held) (hm : db.LeasesMatch) :
    db'.LeasesMatch := by
  cases hc with
  | still htasks hacc =>
    intro tid
    rw [Db.leases, slots_of_accounts hacc, ← Db.leases, hm tid, Db.runs, Db.runs, htasks]
  | born tid t h =>
    obtain ⟨charged, hcharged, hacc⟩ := h.charged
    have hslots : db'.slots = db.slots :=
      (slots_of_accounts hacc).trans (chargeCreationQuota_eq_ok hcharged).2.1
    have hholds : t.holds .running = 0 := by
      rw [Task.holds, h.reservations]
      rfl
    intro tid'
    rw [Db.leases, hslots, ← Db.leases, hm tid', Db.runs, Db.runs, h.get?]
    split
    · next heq =>
      rw [heq, h.fresh]
      exact hholds.symm
    · rfl
  | moved k tid t t' h hexp =>
    have ht := hheld tid t h.found
    refine hm.posted h.found h.written ht.wellHeld h.posted ?_
    rintro rfl
    exact h.holds_running_of_fail ht

theorem Change.slotsNamed (hc : Change expects db db') (hn : db.SlotsNamed) : db'.SlotsNamed := by
  cases hc with
  | still htasks hacc => exact hn.of_slots (slots_of_accounts hacc)
  | born tid t h =>
    obtain ⟨charged, hcharged, hacc⟩ := h.charged
    exact hn.of_slots ((slots_of_accounts hacc).trans (chargeCreationQuota_eq_ok hcharged).2.1)
  | moved k tid t t' h hexp => exact hn.posted h.posted

theorem Change.slotsMatch (hc : Change expects db db') (hheld : db.Held) (hm : db.SlotsMatch) :
    db'.SlotsMatch :=
  ⟨hc.leasesMatch hheld hm.leases, hc.slotsNamed hm.named⟩

theorem Changes.leasesMatch (hc : Changes expects db db') (hheld : db.Held) (hm : db.LeasesMatch) :
    db'.LeasesMatch := by
  have hboth : db'.Held ∧ db'.LeasesMatch := by
    induction hc with
    | refl => exact ⟨hheld, hm⟩
    | tail _ h ih => exact ⟨h.held ih.1, h.leasesMatch ih.1 ih.2⟩
  exact hboth.2

theorem Changes.slotsMatch (hc : Changes expects db db') (hheld : db.Held) (hm : db.SlotsMatch) :
    db'.SlotsMatch := by
  have hboth : db'.Held ∧ db'.SlotsMatch := by
    induction hc with
    | refl => exact ⟨hheld, hm⟩
    | tail _ h ih => exact ⟨h.held ih.1, h.slotsMatch ih.1 ih.2⟩
  exact hboth.2

end Slots

end AgentCraft.Tasking
