import AgentCraft.Tasking.StorageLedger

/-!
# The count and slot ledger

The active and running counters, the reservations behind them and the platform slots say the same. They
do so in every run in which the account hook deletes, beyond the tasks that its scan has seen, terminal
ones only: a task that the user creates between the scan and the deletion goes without its active
reservation being given back, and its slot, if it has one, stays leased without a task.
-/

namespace AgentCraft.Tasking

open AgentCraft.Relational AgentCraft.Transition

/-- The held reservations of one kind of a user. -/
def Db.heldCount (db : Db) (kind : ReservationKind) (u : UserId) : ℤ :=
  db.tasks.sum fun _ t => ((t.reservations.countP fun r =>
    r.userId = u && r.kind = kind && r.state = .held : ℕ) : ℤ)

/-- The tasks of a user that are not terminal. -/
def Db.openTasks (db : Db) (u : UserId) : ℤ :=
  db.tasks.sum fun _ t => if t.ownerId = u ∧ t.status.isTerminal = false then 1 else 0

/-- The slot is leased to the task. -/
def Db.LeasedTo (db : Db) (n : ℕ) (tid : TaskId) : Prop :=
  ∃ s, db.slots.get? n = some s ∧ s.state = .leased ∧ s.taskId = some tid

/-- The running reservations that a task holds. -/
def Task.runningHeld (t : Task) : ℕ :=
  t.reservations.countP fun r => r.kind = .running && r.state = .held

/-- Counters, reservations and slots agree. -/
structure World.CountsConserved (w : World) : Prop where
  active : ∀ u, w.db.reads .active u = w.db.heldCount .active u
  openTasks : ∀ u, w.db.reads .active u = w.db.openTasks u
  running : ∀ u, w.db.reads .running u = w.db.heldCount .running u
  /-- A held running reservation is the only one of its task, and has exactly one slot. -/
  slot : ∀ tid t, w.db.tasks.get? tid = some t → t.runningHeld ≠ 0 →
    t.runningHeld = 1 ∧ ∃! n, w.db.LeasedTo n tid
  /-- A leased slot is leased to exactly one task, which holds a running reservation. -/
  task : ∀ n s, w.db.slots.get? n = some s → s.state = .leased →
    ∃! tid, w.db.LeasedTo n tid ∧ ∃ t, w.db.tasks.get? tid = some t ∧ t.runningHeld = 1

/-! ## Counting reservations -/

section Counts

variable {db : Db} {t : Task} {u : UserId}

theorem countP_held {kind : ReservationKind} {c : Column} (hw : t.WellHeld)
    (hc : ∀ r, c.amount r = if r.kind = kind then 1 else 0) (u : UserId) :
    (t.reservations.countP fun r => r.userId = u && r.kind = kind && r.state = .held) =
      if t.ownerId = u then t.holds c else 0 := by
  have hcount (rows : List TaskReservation) (hrows : ∀ r ∈ rows, r.userId = t.ownerId) :
      (rows.countP fun r => r.userId = u && r.kind = kind && r.state = .held) =
        if t.ownerId = u then (rows.map c.weight).sum else 0 := by
    induction rows with
    | nil => simp
    | cons r rows ih =>
      rw [List.countP_cons, ih fun x hx => hrows x (List.mem_cons_of_mem _ hx), List.map_cons,
        List.sum_cons, Column.weight, hc, hrows r List.mem_cons_self]
      by_cases hu : t.ownerId = u <;> by_cases hk : r.kind = kind <;>
        by_cases hs : r.state = .held <;> simp [hu, hk, hs, Nat.add_comm]
  exact hcount t.reservations fun r hr => (hw r hr).1

theorem Task.runningHeld_eq (t : Task) : t.runningHeld = t.holds .running := by
  rw [Task.runningHeld, Task.holds]
  induction t.reservations with
  | nil => rfl
  | cons r rows ih =>
    rw [List.countP_cons, ih, List.map_cons, List.sum_cons, Column.weight, Column.amount]
    by_cases hk : r.kind = .running <;> by_cases hs : r.state = .held <;>
      simp [hk, hs, Nat.add_comm]

theorem Db.Held.heldCount {kind : ReservationKind} {c : Column} (hheld : db.Held)
    (hc : ∀ r, c.amount r = if r.kind = kind then 1 else 0) (u : UserId) :
    db.heldCount kind u = db.holds c u := by
  refine Table.sum_congr fun tid t ht => ?_
  rw [countP_held (hheld tid t ht).wellHeld hc]
  split <;> rfl

/-- The active reservations are those of the tasks that are not terminal. -/
theorem Db.Held.openTasks (hheld : db.Held) (u : UserId) : db.openTasks u = db.holds .active u := by
  refine Table.sum_congr fun tid t ht => ?_
  obtain ⟨q, hq, hactive, -⟩ := (hheld tid t ht).phase
  have hterm : q.isTerminal = t.status.isTerminal := by
    cases hs : t.status.isTerminal with
    | true => exact (Control.isTerminal_of_status hq hs).1
    | false =>
      refine Bool.eq_false_iff.mpr fun hqt => ?_
      have hst : t.status.isTerminal = true := Control.status_isTerminal hq hqt
      rw [hs] at hst
      cases hst
  rw [hactive, hterm]
  by_cases hu : t.ownerId = u <;> cases t.status.isTerminal <;> simp [hu]

theorem existsUnique_leasedTo {tid : TaskId} (h : db.leases tid = 1) : ∃! n, db.LeasedTo n tid :=
  Table.existsUnique_of_sum_eq_one (t := db.slots)
    (p := fun _ (s : PlatformSlot) => s.state = .leased ∧ s.taskId = some tid) h

theorem leases_ne_zero {n : ℕ} {s : PlatformSlot} {tid : TaskId} (hs : db.slots.get? n = some s)
    (hst : s.state = .leased) (htid : s.taskId = some tid) : db.leases tid ≠ 0 := by
  intro h0
  have hone := List.sum_eq_zero_iff.mp h0 1 (List.mem_map.mpr
    ⟨(n, s), Table.get?_eq_some_iff.mp hs, by simp [hst, htid]⟩)
  cases hone

theorem Task.Held.runningHeld_le (h : t.Held) : t.runningHeld ≤ 1 := by
  obtain ⟨q, -, -, hrunning⟩ := h.phase
  rw [t.runningHeld_eq, hrunning]
  split <;> omega

/-- Balanced accounts and matching slots are conserved counts. -/
theorem countsConserved_of_balanced {w : World} (hheld : w.db.Held) (ha : w.db.Balanced .active)
    (hr : w.db.Balanced .running) (hm : w.db.SlotsMatch) : w.CountsConserved := by
  refine ⟨fun u => ?_, fun u => ?_, fun u => ?_, fun tid t ht h0 => ?_, fun n s hs hst => ?_⟩
  · rw [ha u, hheld.heldCount (c := .active) fun _ => rfl]
  · rw [ha u, hheld.openTasks]
  · rw [hr u, hheld.heldCount (c := .running) fun _ => rfl]
  · have hle := (hheld tid t ht).runningHeld_le
    have hone : t.runningHeld = 1 := by omega
    refine ⟨hone, existsUnique_leasedTo ?_⟩
    rw [hm.leases tid, Db.runs, ht, Option.map_some, Option.getD_some, ← t.runningHeld_eq, hone]
  · obtain ⟨tid, htid⟩ := Option.ne_none_iff_exists'.mp (hm.named n s hs hst)
    have hne := leases_ne_zero hs hst htid
    rw [hm.leases tid, Db.runs] at hne
    obtain ⟨t, ht⟩ : ∃ t, w.db.tasks.get? tid = some t := by
      cases hfound : w.db.tasks.get? tid with
      | none => simp [hfound] at hne
      | some t => exact ⟨t, rfl⟩
    rw [ht, Option.map_some, Option.getD_some, ← t.runningHeld_eq] at hne
    have hle := (hheld tid t ht).runningHeld_le
    refine ⟨tid, ⟨⟨s, hs, hst, htid⟩, t, ht, by omega⟩, ?_⟩
    rintro tid' ⟨⟨s', hs', -, htid'⟩, -⟩
    rw [hs] at hs'
    cases hs'
    rw [htid] at htid'
    exact (Option.some.inj htid').symm

end Counts

/-! ## Runs -/

/-- Of the tasks that its scan has not seen, the account hook deletes terminal ones only. -/
def DeletesTerminalOnly (w : World) : Action → Prop
  | .perform (.terminateUser u ids) _ => .terminateUser u ids ∈ w.jobs → ids ≠ [] →
    ∀ tid t, w.db.tasks.get? tid = some t → t.ownerId = u → tid ∉ ids → t.status.isTerminal = true
  | _ => True

section Runs

variable {cfg : Settings} {nfc : String → String} {w w' w₀ : World} {a : Action} {as : List Action}

/-- A terminal task holds neither an active nor a running reservation. -/
theorem Task.Held.holds_of_isTerminal {t : Task} (h : t.Held) (hs : t.status.isTerminal = true) :
    t.holds .active = 0 ∧ t.holds .running = 0 := by
  obtain ⟨q, hq, hactive, hrunning⟩ := h.phase
  have hqt := (Control.isTerminal_of_status hq hs).1
  rw [hactive, hrunning]
  cases q <;> first | exact ⟨rfl, rfl⟩ | cases hqt

theorem step_counts (hco : w.Coherent) (hheld : w.db.Held) (ha : w.db.Balanced .active)
    (hr : w.db.Balanced .running) (hm : w.db.SlotsMatch) (hG : DeletesTerminalOnly w a)
    (h : step cfg nfc w a = .ok w') :
    w'.db.Balanced .active ∧ w'.db.Balanced .running ∧ w'.db.SlotsMatch := by
  rcases step_changes hco.db hco.jobs h with hc | ⟨u, ids, locked, rfl, hmem, hdb⟩
  · exact ⟨(hc.balanced hheld (by simp) ha).2, (hc.balanced hheld (by simp) hr).2,
      hc.slotsMatch hheld hm⟩
  · have hrest (hids : ids ≠ []) (tid : TaskId) (t : Task) (ht : w.db.tasks.get? tid = some t)
        (hu : t.ownerId = u) (hno : tid ∉ ids) : t.holds .active = 0 ∧ t.holds .running = 0 :=
      (hheld tid t ht).holds_of_isTerminal (hG hmem hids tid t ht hu hno)
    rw [hdb]
    exact ⟨terminateTasksHook_balanced hheld.wellHeld ha fun hids tid t ht hu hno =>
        (hrest hids tid t ht hu hno).1,
      terminateTasksHook_balanced hheld.wellHeld hr fun hids tid t ht hu hno =>
        (hrest hids tid t ht hu hno).2,
      terminateTasksHook_slotsMatch hheld.wellHeld hm fun hids tid t ht hu hno =>
        (hrest hids tid t ht hu hno).2⟩

theorem World.Initial.slotsMatch (h₀ : w.Initial) : w.db.SlotsMatch := by
  have hfree (n : ℕ) (s : PlatformSlot) (hs : w.db.slots.get? n = some s) : s.state ≠ .leased := by
    rw [(h₀.db.slots n s hs).1]
    simp
  refine ⟨fun tid => ?_, fun n s hs hst => absurd hst (hfree n s hs)⟩
  have hzero : w.db.leases tid = w.db.slots.sum fun _ _ => 0 :=
    Table.sum_congr fun n s hs => if_neg fun h => hfree n s hs h.1
  rw [hzero, Db.runs, h₀.db.tasks]
  simp [Table.sum]

/-- The counts are conserved in every run in which the account hook deletes, beyond the tasks it has
scanned, terminal ones only. -/
theorem countsConserved_of_run (h₀ : w₀.Initial)
    (hG : (system cfg nfc).Guarded DeletesTerminalOnly w₀ as) :
    ((system cfg nfc).run w₀ as).CountsConserved := by
  have hinv := System.invariant_run_of_guarded (S := system cfg nfc) (G := DeletesTerminalOnly)
    (I := fun w => w.Coherent ∧ w.db.Held ∧ w.db.Balanced .active ∧ w.db.Balanced .running ∧
      w.db.SlotsMatch)
    (fun w a w' hw hG hs => ⟨hw.1.step hs, step_held hw.1 hw.2.1 hs,
      step_counts hw.1 hw.2.1 hw.2.2.1 hw.2.2.2.1 hw.2.2.2.2 hG hs⟩)
    ⟨h₀.coherent, h₀.held, h₀.balanced .active, h₀.balanced .running, h₀.slotsMatch⟩ hG
  exact countsConserved_of_balanced hinv.2.1 hinv.2.2.1 hinv.2.2.2.1 hinv.2.2.2.2

/-- A claimed task whose provider key is rotated, terminated by the kill switch of its user. -/
theorem countsConserved_of_run_suspend :
    ((system {} id).run World.small (claimedRun ++
      [.request (.rotateKey 1 3), .scan (.suspend 1),
        .perform (.terminate .adminSuspended ⟨10, 1⟩) []])).CountsConserved :=
  countsConserved_of_run World.small_initial (by
    simp [claimedRun, System.Guarded, DeletesTerminalOnly])

/-- User 1 deletes the account; between the scan and the deletion, task 12 is created. -/
def lateTaskRun : List Action :=
  [.request (.createTask 1 5 none "hi" []), .scan (.accountHook 1),
    .request (.createTask 1 5 none "late" []), .perform (.terminateUser 1 [10]) []]

/-- The active reservation of the late task is never given back. -/
theorem not_countsConserved_of_lateTask :
    ¬ ((system {} id).run World.small lateTaskRun).CountsConserved := by
  intro h
  have hread : ((system {} id).run World.small lateTaskRun).db.reads .active 1 = 1 := by decide
  have hheld : ((system {} id).run World.small lateTaskRun).db.heldCount .active 1 = 0 := by decide
  rw [h.active 1, hheld] at hread
  cases hread

end Runs

end AgentCraft.Tasking
