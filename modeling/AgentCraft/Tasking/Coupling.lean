import AgentCraft.Tasking.Transactions

/-!
# Every task is in a phase

The lifecycle holds on every run: each task row is in some phase (`Db.Coherent`), and what a scan has
promised about the task of a candidate stays true while the candidate is in flight (`Job.Valid`). The
couplings between a task and its rounds that the services rely on are read off the phase.
-/

namespace AgentCraft.Tasking

open AgentCraft.Relational AgentCraft.Transition

/-! ## Rows after a change -/

section Rows

variable {expects : Expects} {db db' : Db} {k : MoveKind} {tid tid' : TaskId} {t t' x : Task}

theorem Moved.get?_self (h : Moved db db' k tid t t') : db'.tasks.get? tid = some t' := by
  rw [h.written]
  exact Table.get?_set_self h.found t'

theorem Moved.get?_ne (h : Moved db db' k tid t t') (hne : tid' ≠ tid) :
    db'.tasks.get? tid' = db.tasks.get? tid' := by
  rw [h.written, Table.get?_set_ne _ hne]

theorem Born.get? (h : Born db db' tid t) (tid' : TaskId) :
    db'.tasks.get? tid' = if tid' = tid then some t else db.tasks.get? tid' := by
  rw [h.written, Table.get?_insert h.fresh]

/-- Where a row of the new database comes from. -/
theorem Change.row (hc : Change expects db db') (hx : db'.tasks.get? tid = some x) :
    db.tasks.get? tid = some x ∨ Born db db' tid x ∨
      ∃ k t, Moved db db' k tid t x ∧ expects k tid t := by
  cases hc with
  | still htasks =>
    rw [htasks] at hx
    exact .inl hx
  | born tid₀ t h =>
    rw [h.get?] at hx
    split at hx
    · next heq =>
      cases hx
      exact .inr (.inl (heq ▸ h))
    · exact .inl hx
  | moved k tid₀ t t' h hexp =>
    by_cases heq : tid = tid₀
    · subst heq
      rw [h.get?_self] at hx
      cases hx
      exact .inr (.inr ⟨k, t, h, hexp⟩)
    · rw [h.get?_ne heq] at hx
      exact .inl hx

theorem Change.nextId_le (hc : Change expects db db') : db.nextId ≤ db'.nextId := by
  cases hc with
  | still _ _ _ hid => exact hid
  | born _ _ h => exact h.nextId.1.trans h.nextId.2.le
  | moved _ _ _ _ h => exact h.nextId

theorem Change.now_le (hc : Change expects db db') : db.now ≤ db'.now := by
  cases hc with
  | still _ _ hnow _ => exact hnow
  | born _ _ h => exact h.now.ge
  | moved _ _ _ _ h => exact h.now.ge

theorem Born.phase? (h : Born db db' tid t) : t.control.phase? = some .uploading := by
  rw [h.control]
  rfl

/-- A moved row takes a step of the lifecycle. -/
theorem Moved.phase_step (h : Moved db db' k tid t t') (hco : db.Coherent) :
    ∃ q q', t.control.phase? = some q ∧ t'.control.phase? = some q' ∧ Phase.Step k q q' := by
  obtain ⟨q, hq⟩ := hco.phases tid t h.found
  obtain ⟨q', hq', hstep⟩ := h.control.simulates hq
  exact ⟨q, q', hq, hq', hstep⟩

/-- Changes keep every row in some phase. -/
theorem Change.coherent (hc : Change expects db db') (hco : db.Coherent) : db'.Coherent := by
  refine ⟨fun tid x hx => ?_, fun tid x hx => ?_⟩
  · rcases hc.row hx with h | h | ⟨k, t, h, -⟩
    · exact (hco.issued tid x h).trans_le hc.nextId_le
    · exact h.nextId.2
    · exact (hco.issued tid t h.found).trans_le h.nextId
  · rcases hc.row hx with h | h | ⟨k, t, h, -⟩
    · exact hco.phases tid x h
    · exact ⟨.uploading, h.phase?⟩
    · obtain ⟨q, q', -, hq', -⟩ := h.phase_step hco
      exact ⟨q', hq'⟩

theorem Changes.coherent (hc : Changes expects db db') (hco : db.Coherent) : db'.Coherent := by
  induction hc with
  | refl => exact hco
  | tail _ h ih => exact h.coherent ih

end Rows

/-! ## Candidates in flight -/

section Jobs

variable {expects : Expects} {db db' : Db} {tid : TaskId}

/-- The task, if it still exists, is in a phase that satisfies `P`; its identifier has been issued. -/
def Db.StaysIn (P : Phase → Bool) (db : Db) (tid : TaskId) : Prop :=
  tid < db.nextId ∧ ∀ t, db.tasks.get? tid = some t → ∃ q, t.control.phase? = some q ∧ P q = true

/-- Phases that are closed under steps are never left. -/
theorem Db.StaysIn.change {P : Phase → Bool}
    (hP : ∀ k q q', Phase.Step k q q' → P q = true → P q' = true) (hs : db.StaysIn P tid)
    (hc : Change expects db db') : db'.StaysIn P tid := by
  refine ⟨hs.1.trans_le hc.nextId_le, fun x hx => ?_⟩
  rcases hc.row hx with h | h | ⟨k, t, h, -⟩
  · exact hs.2 x h
  · exact absurd hs.1 (Nat.not_lt.mpr h.nextId.1)
  · obtain ⟨q, hq, hPq⟩ := hs.2 t h.found
    obtain ⟨q', hq', hstep⟩ := h.control.simulates hq
    exact ⟨q', hq', hP k q q' hstep hPq⟩

theorem Job.Valid.change {j : Job} (hv : j.Valid db) (hc : Change expects db db') : j.Valid db' := by
  cases j with
  | cleanup c => exact Db.StaysIn.change (P := Phase.isTerminal) (fun _ _ _ h => h.isTerminal) hv hc
  | reconcile c => exact Db.StaysIn.change (P := Phase.isStopped) (fun _ _ _ h => h.isStopped) hv hc
  | _ => trivial

theorem Job.Valid.changes {j : Job} (hv : j.Valid db) (hc : Changes expects db db') : j.Valid db' := by
  induction hc with
  | refl => exact hv
  | tail _ h ih => exact ih.change h

/-- A promise about the rows that there are survives when rows only vanish. -/
theorem Job.Valid.of_rows {j : Job} (hv : j.Valid db) (hid : db'.nextId = db.nextId)
    (hrows : ∀ tid t, db'.tasks.get? tid = some t → db.tasks.get? tid = some t) : j.Valid db' := by
  cases j with
  | cleanup c | reconcile c =>
    exact ⟨by rw [hid]; exact hv.1, fun t ht => hv.2 t (hrows c.task t ht)⟩
  | _ => trivial

theorem Db.Coherent.of_rows (hco : db.Coherent) (hid : db'.nextId = db.nextId)
    (hrows : ∀ tid t, db'.tasks.get? tid = some t → db.tasks.get? tid = some t) :
    db'.Coherent :=
  ⟨fun tid t ht => by rw [hid]; exact hco.issued tid t (hrows tid t ht),
    fun tid t ht => hco.phases tid t (hrows tid t ht)⟩

end Jobs

/-! ## The account hook -/

section Hook

variable {db : Db} {u : UserId}

/-- Releasing the holdings of a user touches that user's rows only. -/
theorem releaseTaskHoldings_row {tid tid' : TaskId} {t : Task} (hown : t.ownerId ≠ u) :
    (db.releaseTaskHoldings tid u).tasks.get? tid' = some t ↔ db.tasks.get? tid' = some t := by
  cases hvis : db.visibleTask u tid with
  | none => rw [Db.releaseTaskHoldings_of_none hvis]
  | some t₀ =>
    obtain ⟨hfound, hu⟩ := Db.visibleTask_eq_some.mp hvis
    rw [Db.releaseTaskHoldings_tasks hvis, Table.get?_set]
    split
    · next heq =>
      subst heq
      rw [hfound]
      have hne {t₁ : Task} (h₁ : t₁.ownerId = u) : some t₁ ≠ some t :=
        fun h => hown ((Option.some.inj h) ▸ h₁)
      exact iff_of_false (hne hu) (hne hu)
    · rfl

theorem foldl_releaseTaskHoldings_row {ids : List TaskId} {tid : TaskId} {t : Task}
    (hown : t.ownerId ≠ u) :
    (ids.foldl (fun db tid => db.releaseTaskHoldings tid u) db).tasks.get? tid = some t ↔
      db.tasks.get? tid = some t := by
  induction ids generalizing db with
  | nil => rfl
  | cons id ids ih => rw [List.foldl_cons, ih, releaseTaskHoldings_row hown]

@[simp] theorem Task.markDeleted_ownerId (t : Task) : t.markDeleted.ownerId = t.ownerId := by
  unfold Task.markDeleted
  simp only
  split <;> rfl

theorem markUserTasks_row {tid : TaskId} {t : Task} (hown : t.ownerId ≠ u) :
    (db.markUserTasks u).tasks.get? tid = some t ↔ db.tasks.get? tid = some t := by
  simp only [Db.markUserTasks, Table.get?_map, Option.map_eq_some_iff]
  constructor
  · rintro ⟨t₀, h₀, heq⟩
    split at heq
    · next hu =>
      rw [← heq, Task.markDeleted_ownerId] at hown
      exact absurd hu hown
    · rw [← heq]
      exact h₀
  · intro h
    exact ⟨t, h, if_neg hown⟩

/-- The hook leaves exactly the rows of the other users. -/
theorem terminateTasksHook_row {ids : List TaskId} (hids : ids ≠ []) {tid : TaskId} {t : Task} :
    (terminateTasksHook db u ids).tasks.get? tid = some t ↔
      db.tasks.get? tid = some t ∧ t.ownerId ≠ u := by
  rw [terminateTasksHook, if_neg hids]
  simp only [Db.deleteUserTasks, Table.get?_filter, Option.filter_eq_some_iff, decide_eq_true_eq]
  constructor
  · rintro ⟨h, hown⟩
    exact ⟨(markUserTasks_row hown).mp ((foldl_releaseTaskHoldings_row hown).mp h), hown⟩
  · rintro ⟨h, hown⟩
    exact ⟨(foldl_releaseTaskHoldings_row hown).mpr ((markUserTasks_row hown).mpr h), hown⟩

theorem terminateTasksHook_row_of (u : UserId) (ids : List TaskId) {tid : TaskId} {t : Task}
    (h : (terminateTasksHook db u ids).tasks.get? tid = some t) : db.tasks.get? tid = some t := by
  by_cases hids : ids = []
  · simpa [terminateTasksHook, hids] using h
  · exact ((terminateTasksHook_row hids).mp h).1

theorem terminateTasksHook_frame (db : Db) (u : UserId) (ids : List TaskId) :
    (terminateTasksHook db u ids).now = db.now ∧
      (terminateTasksHook db u ids).nextId = db.nextId := by
  have hfold (db : Db) : (ids.foldl (fun db tid => db.releaseTaskHoldings tid u) db).now = db.now ∧
      (ids.foldl (fun db tid => db.releaseTaskHoldings tid u) db).nextId = db.nextId := by
    induction ids generalizing db with
    | nil => exact ⟨rfl, rfl⟩
    | cons id ids ih => simpa using ih (db.releaseTaskHoldings id u)
  unfold terminateTasksHook
  split
  · exact ⟨rfl, rfl⟩
  · exact hfold (db.markUserTasks u)

end Hook

/-! ## The invariant of the system -/

/-- Every task is in a phase, and every candidate in flight is what its scan promised. -/
structure World.Coherent (w : World) : Prop where
  db : w.db.Coherent
  jobs : ∀ j ∈ w.jobs, j.Valid w.db

section Invariant

variable {cfg : Settings} {nfc : String → String} {w w' : World} {a : Action}

theorem mem_scanTasks {db : Db} {p : Task → Bool} {c : TaskCandidate} (h : c ∈ scanTasks db p) :
    ∃ t, db.visibleTask c.owner c.task = some t ∧ p t = true := by
  obtain ⟨⟨tid, t⟩, hrow, rfl⟩ := List.mem_map.mp h
  obtain ⟨hmem, hp⟩ := List.mem_filter.mp hrow
  exact ⟨t, Db.visibleTask_eq_some.mpr ⟨Table.get?_eq_some_iff.mpr hmem, rfl⟩, hp⟩

/-- The retention sweep scans tasks in terminal phases. -/
theorem valid_of_terminalCandidate {db : Db} (hco : db.Coherent) {c : TaskCandidate}
    (h : c ∈ terminalCandidates cfg db) : (Job.cleanup c).Valid db := by
  obtain ⟨t, hvis, hp⟩ := mem_scanTasks h
  have hfound := (Db.visibleTask_eq_some.mp hvis).1
  refine ⟨hco.issued _ t hfound, fun t' ht' => ?_⟩
  rw [hfound] at ht'
  cases ht'
  obtain ⟨q, hq⟩ := hco.phases _ t hfound
  simp only [Bool.and_eq_true] at hp
  exact ⟨q, hq, (Control.isTerminal_of_status hq hp.1).1⟩

/-- The reconciliation scans tasks in stopped phases. -/
theorem valid_of_reconcileCandidate {db : Db} (hco : db.Coherent) {c : ReconcileCandidate}
    (h : c ∈ reconcileCandidates db) : (Job.reconcile c).Valid db := by
  obtain ⟨⟨tid, t⟩, hrow, hc⟩ := List.mem_flatMap.mp h
  have hfound := Table.get?_eq_some_iff.mpr hrow
  simp only at hc
  split at hc
  · next hst =>
    obtain ⟨pt, -, rfl⟩ := List.mem_map.mp hc
    refine ⟨hco.issued _ t hfound, fun t' ht' => ?_⟩
    rw [hfound] at ht'
    cases ht'
    obtain ⟨q, hq⟩ := hco.phases _ t hfound
    have hnil := Control.activeStates_eq_nil_of_activeRounds hst.2
    rcases Control.eq_running hq hst.1 with ⟨-, -, ha⟩ | ⟨i, -, -, ha⟩ | ⟨i, rfl, -, -⟩
    · rw [hnil] at ha
      cases ha
    · rw [hnil] at ha
      cases ha
    · exact ⟨_, hq, rfl⟩
  · cases hc

theorem Scan.jobs_valid {db : Db} (hco : db.Coherent) (s : Scan) {j : Job}
    (hj : j ∈ s.jobs cfg db) : j.Valid db := by
  cases s with
  | terminals =>
    obtain ⟨c, hc, rfl⟩ := List.mem_map.mp hj
    exact valid_of_terminalCandidate hco hc
  | reconcile =>
    obtain ⟨c, hc, rfl⟩ := List.mem_map.mp hj
    exact valid_of_reconcileCandidate hco hc
  | reclaim =>
    rcases List.mem_append.mp hj with hj | hj <;> obtain ⟨c, -, rfl⟩ := List.mem_map.mp hj <;> trivial
  | accountHook u =>
    obtain rfl := List.mem_singleton.mp hj
    trivial
  | _ =>
    obtain ⟨c, -, rfl⟩ := List.mem_map.mp hj
    trivial

/-- A step adds the candidates of its scan and nothing else. -/
theorem step_jobs (h : step cfg nfc w a = .ok w') {j : Job} (hj : j ∈ w'.jobs) :
    j ∈ w.jobs ∨ ∃ s, a = .scan s ∧ w'.db = w.db ∧ j ∈ s.jobs cfg w.db := by
  cases a with
  | setQuota | request | write =>
    obtain ⟨db', -, h⟩ := bind_eq_ok.mp h
    cases h
    exact .inl hj
  | scan s =>
    cases h
    rcases List.mem_append.mp hj with hj | hj
    · exact .inl hj
    · exact .inr ⟨s, rfl, rfl, hj⟩
  | perform j' locked =>
    obtain ⟨-, h⟩ := ite_ok_else_error.mp h
    obtain ⟨db', -, h⟩ := bind_eq_ok.mp h
    cases h
    exact .inl (List.mem_of_mem_erase hj)
  | abandon j' =>
    cases h
    exact .inl (List.mem_of_mem_erase hj)
  | toolCheck | toolAnswer =>
    obtain ⟨-, h⟩ := ite_ok_else_error.mp h
    cases h
    exact .inl hj
  | _ =>
    cases h
    exact .inl hj

theorem World.Coherent.step (hco : w.Coherent) (h : step cfg nfc w a = .ok w') : w'.Coherent := by
  rcases step_changes hco.db hco.jobs h with hc | ⟨u, ids, locked, rfl, -, hdb⟩
  · refine ⟨hc.coherent hco.db, fun j hj => ?_⟩
    rcases step_jobs h hj with hj | ⟨s, -, hdb, hj⟩
    · exact (hco.jobs j hj).changes hc
    · rw [hdb]
      exact s.jobs_valid hco.db hj
  · have hid : w'.db.nextId = w.db.nextId := by rw [hdb, (terminateTasksHook_frame _ _ _).2]
    have hrows : ∀ tid t, w'.db.tasks.get? tid = some t → w.db.tasks.get? tid = some t := by
      rw [hdb]
      exact fun _ _ => terminateTasksHook_row_of u ids
    refine ⟨hco.db.of_rows hid hrows, fun j hj => ?_⟩
    rcases step_jobs h hj with hj | ⟨s, hs, -⟩
    · exact (hco.jobs j hj).of_rows hid hrows
    · cases hs

theorem World.Initial.coherent (hw : w.Initial) : w.Coherent := by
  refine ⟨⟨?_, ?_⟩, by simp [hw.jobs]⟩ <;> simp [hw.db.tasks]

theorem World.Coherent.run (hco : w.Coherent) (as : List Action) :
    ((system cfg nfc).run w as).Coherent :=
  System.invariant_run (I := World.Coherent) (fun _ _ _ h hs => h.step hs) as hco

end Invariant

/-! ## Couplings -/

/-- How the status of a task and the states of its rounds go together. -/
structure Task.Coupled (t : Task) : Prop where
  oneActive : t.activeRounds.length ≤ 1
  pending : ∀ r ∈ t.rounds, r.state = .pending → t.status = .queued
  running : ∀ r ∈ t.rounds, r.state = .running → t.status = .running ∧ t.pendingTerminal = none
  cancelling : ∀ r ∈ t.rounds, r.state = .cancelling →
    (t.status = .running ∧ t.pendingTerminal ≠ none) ∨ t.status = .deleted
  queued : t.status = .queued → t.rounds.countP (·.state = .pending) = 1
  active : t.status = .running → t.activeRounds ≠ [] ∨ t.pendingTerminal ≠ none
  terminal : t.status.isTerminal = true →
    ∀ r ∈ t.rounds, r.state ≠ .pending ∧ r.state ≠ .running

/-- Every task is coupled with its rounds. -/
def World.Coupled (w : World) : Prop := ∀ tid t, w.db.tasks.get? tid = some t → t.Coupled

theorem Task.countP_pending (t : Task) :
    t.rounds.countP (·.state = .pending) = t.control.activeStates.count .pending := by
  rw [Control.activeStates, List.count_filter rfl, List.count, List.countP_map]
  congr 1

/-- A task in a phase is coupled. -/
theorem Task.coupled_of_phase {t : Task} {q : Phase} (hq : t.control.phase? = some q) : t.Coupled := by
  have hmem {r : TaskRound} (hr : r ∈ t.rounds) (ha : r.state.isActive = true) :
      t.control.activeStates = [r.state] :=
    Control.activeStates_eq_of_mem hq (List.mem_filter.mpr ⟨List.mem_map.mpr ⟨r, hr, rfl⟩, ha⟩)
  have hlen : t.activeRounds.length = t.control.activeStates.length := by
    rw [Control.activeStates_eq_map, List.length_map]
    rfl
  refine ⟨?_, fun r hr hs => ?_, fun r hr hs => ?_, fun r hr hs => ?_, fun hs => ?_, fun hs => ?_,
    fun hterm r hr => ?_⟩
  · rw [hlen]
    cases hst : t.control.activeStates with
    | nil => exact Nat.zero_le 1
    | cons s rest =>
      have hone := Control.activeStates_eq_of_mem hq (s := s) (by rw [hst]; exact List.mem_cons_self)
      rw [hst] at hone
      rw [hone]
      exact le_rfl
  · have ha := hmem hr (by rw [hs]; rfl)
    rw [hs] at ha
    exact (Control.eq_pending hq ha).2
  · have ha := hmem hr (by rw [hs]; rfl)
    rw [hs] at ha
    exact (Control.eq_executing hq ha).2
  · have ha := hmem hr (by rw [hs]; rfl)
    rw [hs] at ha
    rcases Control.eq_cancelling hq ha with ⟨i, -, hst, hp⟩ | ⟨-, hst⟩
    · exact .inl ⟨hst, fun hnone => by rw [show t.pendingTerminal = some i from hp] at hnone; cases hnone⟩
    · exact .inr hst
  · rw [t.countP_pending, (Control.eq_queued hq hs).2.2]
    rfl
  · rcases Control.eq_running hq hs with ⟨-, -, ha⟩ | ⟨i, -, hp, -⟩ | ⟨i, -, hp, -⟩
    · refine .inl fun hnil => ?_
      rw [Control.activeStates_eq_nil_of_activeRounds hnil] at ha
      cases ha
    · exact .inr (by rw [show t.pendingTerminal = some i from hp]; exact Option.some_ne_none i)
    · exact .inr (by rw [show t.pendingTerminal = some i from hp]; exact Option.some_ne_none i)
  · have hno {s : RoundState} (ha : t.control.activeStates = [s]) (hs : s ≠ .cancelling) : False := by
      rcases (Control.isTerminal_of_status hq hterm).2 with h | h
      · rw [ha] at h
        cases h
      · rw [ha, List.singleton_inj] at h
        exact hs h
    refine ⟨fun hs => ?_, fun hs => ?_⟩ <;>
    · have ha := hmem hr (by rw [hs]; rfl)
      exact hno ha (by rw [hs]; simp)

/-- In every reachable state, tasks and rounds are coupled. -/
theorem coupled_of_reachable {cfg : Settings} {nfc : String → String} {w : World}
    (h : (system cfg nfc).Reachable World.Initial w) : w.Coupled := by
  obtain ⟨w₀, as, h₀, rfl⟩ := h
  intro tid t ht
  obtain ⟨q, hq⟩ := (h₀.coherent.run as).db.phases tid t ht
  exact Task.coupled_of_phase hq

/-- A run in which the task is claimed, aborted while it executes, cancelled and reconciled. -/
theorem coupled_of_reachable_abort :
    ((system {} id).run World.small (claimedRun ++
      [.request (.abort 1 10), .scan .reclaim, .perform (.cancelCancelling ⟨12, 10, 1⟩) [],
        .scan .reconcile, .perform (.reconcile ⟨10, 1, .aborted⟩) []])).Coupled :=
  coupled_of_reachable ⟨World.small, _, World.small_initial, rfl⟩

end AgentCraft.Tasking
