import AgentCraft.Tasking.InputFreeze
import AgentCraft.Tasking.Terminators

/-!
# How long an ended task is kept

`sweep_terminal_cleanup` erases tasks that have ended, and the retention period is meant to run from
their end. The scan compares `created_at` with the clock, and the moment of the end is not recorded
anywhere: `retained_iff` says that the period is kept for the tasks that end as soon as they are
created, and for no other.
-/

namespace AgentCraft.Tasking

open AgentCraft.Relational AgentCraft.Transition

/-- `terminal_retention_days` in seconds. -/
def Settings.retention (cfg : Settings) : ℕ := cfg.terminalRetentionDays * 86400

/-- A task that has ended at `e` is kept: whatever happens from `w` on, no sweep erases it before the
retention period is over. -/
def World.Retains (cfg : Settings) (nfc : String → String) (w : World) (tid : TaskId) (e : Time) :
    Prop :=
  ∀ as c locked, c.task = tid →
    (system cfg nfc).Commits ((system cfg nfc).run w as) (.perform (.cleanup c) locked) →
    e + cfg.retention ≤ ((system cfg nfc).run w as).db.now

/-- The candidates for erasing a task are as old as the scan requires. -/
structure World.SweptAfter (cfg : Settings) (created : Time) (tid : TaskId) (w : World) : Prop where
  coherent : w.Coherent
  issued : tid < w.db.nextId
  row : ∀ t, w.db.tasks.get? tid = some t → t.createdAt = created
  jobs : ∀ c, Job.cleanup c ∈ w.jobs → c.task = tid → created + cfg.retention < w.db.now

section Steps

variable {cfg : Settings} {nfc : String → String} {w w' : World} {a : Action} {tid : TaskId}
  {created : Time} {c : TaskCandidate} {t t' : Task}

/-- The row of an issued identifier has its frozen columns from the row before. -/
theorem step_frozen_of_issued (h : step cfg nfc w a = .ok w') (hid : tid < w.db.nextId)
    (ht' : w'.db.tasks.get? tid = some t') :
    ∃ t, w.db.tasks.get? tid = some t ∧ t'.frozen = t.frozen := by
  rcases step_follows h with hf | ⟨r, -, ⟨-, tid₀, t₀, hnew⟩ | ⟨-, hrows⟩⟩
  · obtain ⟨t, ht, hft⟩ := hf.rows tid t' ht'
    exact ⟨t, ht, hft.frozen⟩
  · rcases hnew.row ht' with ht | ⟨rfl, -⟩
    · exact ⟨t', ht, rfl⟩
    · -- the identifiers of new tasks have not been issued yet
      rcases step_files_row h ht' with ⟨t, ht, -⟩ | ⟨hissued, -⟩
      · rw [hnew.fresh] at ht
        cases ht
      · exact absurd hid (Nat.not_lt.mpr hissued)
  · obtain ⟨t, ht, hft⟩ := hrows tid t' ht'
    exact ⟨t, ht, hft.frozen⟩

/-- The clock does not run backwards. -/
theorem step_now_le (hco : w.Coherent) (h : step cfg nfc w a = .ok w') : w.db.now ≤ w'.db.now := by
  have hchanges {expects : Expects} {db db' : Db} (hc : Changes expects db db') :
      db.now ≤ db'.now := by
    induction hc with
    | refl => exact le_rfl
    | tail _ hc ih => exact ih.trans hc.now_le
  rcases step_changes hco.db hco.jobs h with hc | ⟨u, ids, locked, -, -, hdb⟩
  · exact hchanges hc
  · rw [hdb, (terminateTasksHook_frame _ _ _).1]

/-- In a run neither. -/
theorem run_now_le (hco : w.Coherent) (as : List Action) :
    w.db.now ≤ ((system cfg nfc).run w as).db.now :=
  (System.invariant_run (S := system cfg nfc) (I := fun v => v.Coherent ∧ w.db.now ≤ v.db.now)
    (fun _ _ _ h hs => ⟨h.1.step hs, h.2.trans (step_now_le h.1 hs)⟩) as ⟨hco, le_rfl⟩).2

/-- A candidate of the retention sweep has ended and is older than the retention period. -/
theorem createdAt_of_terminalCandidate {db : Db} (h : c ∈ terminalCandidates cfg db) :
    ∃ t, db.tasks.get? c.task = some t ∧ t.createdAt + cfg.retention < db.now := by
  obtain ⟨t, hvis, hp⟩ := mem_scanTasks h
  simp only [Bool.and_eq_true, decide_eq_true_eq] at hp
  exact ⟨t, (Db.visibleTask_eq_some.mp hvis).1, hp.2⟩

/-- Only the scan of ended tasks returns candidates for erasing. -/
theorem mem_terminalCandidates_of_jobs {db : Db} {s : Scan} (h : Job.cleanup c ∈ s.jobs cfg db) :
    c ∈ terminalCandidates cfg db := by
  cases s with
  | terminals =>
    obtain ⟨c', hc, heq⟩ := List.mem_map.mp h
    cases heq
    exact hc
  | reclaim =>
    rcases List.mem_append.mp h with h | h
    all_goals
      obtain ⟨c', -, heq⟩ := List.mem_map.mp h
      cases heq
  | accountHook u => cases List.mem_singleton.mp h
  | _ =>
    obtain ⟨c', -, heq⟩ := List.mem_map.mp h
    cases heq

theorem World.SweptAfter.step (hw : w.SweptAfter cfg created tid)
    (h : Tasking.step cfg nfc w a = .ok w') : w'.SweptAfter cfg created tid := by
  refine ⟨hw.coherent.step h, hw.issued.trans_le (step_nextId_le hw.coherent h), ?_, ?_⟩
  · intro t' ht'
    obtain ⟨t, ht, hf⟩ := step_frozen_of_issued h hw.issued ht'
    exact (congrArg Frozen.createdAt hf).trans (hw.row t ht)
  · intro c hc htask
    have hnow := step_now_le hw.coherent h
    rcases step_jobs h hc with hold | ⟨s, -, -, hnew⟩
    · exact (hw.jobs c hold htask).trans_le hnow
    · obtain ⟨t, ht, hlt⟩ := createdAt_of_terminalCandidate (mem_terminalCandidates_of_jobs hnew)
      rw [htask] at ht
      rw [hw.row t ht] at hlt
      exact hlt.trans_le hnow

theorem World.SweptAfter.run (hw : w.SweptAfter cfg created tid) (as : List Action) :
    ((system cfg nfc).run w as).SweptAfter cfg created tid :=
  System.invariant_run (I := World.SweptAfter cfg created tid) (fun _ _ _ h hs => h.step hs) as hw

/-- The sweep's transaction on a candidate always commits. -/
theorem commits_cleanup_iff {locked : List ℕ} :
    (system cfg nfc).Commits w (.perform (.cleanup c) locked) ↔ .cleanup c ∈ w.jobs := by
  constructor
  · rintro ⟨w', h⟩
    obtain ⟨hmem, -⟩ := ite_ok_else_error.mp h
    exact hmem
  · intro hmem
    have hexec : ∃ db', cleanupTask w.db c = .ok db' := by
      unfold cleanupTask
      split <;> exact ⟨_, rfl⟩
    obtain ⟨db', hdb⟩ := hexec
    refine ⟨{ w with db := db', jobs := w.jobs.erase (.cleanup c) }, ?_⟩
    change (if _ then _ else _) = _
    rw [if_pos hmem]
    change (cleanupTask w.db c >>= _) = _
    rw [hdb]
    rfl

/-- A task that has just ended is no candidate yet. -/
theorem sweptAfter_of_ended (hco : w.Coherent) (h : Tasking.step cfg nfc w a = .ok w')
    (ht : w.db.tasks.get? tid = some t) (hlive : t.status.isTerminal = false)
    (ht' : w'.db.tasks.get? tid = some t') (hended : t'.status.isTerminal = true) :
    w'.SweptAfter cfg t'.createdAt tid := by
  have hid := hco.db.issued tid t ht
  refine ⟨hco.step h, hid.trans_le (step_nextId_le hco h), ?_, ?_⟩
  · intro x hx
    rw [ht'] at hx
    cases hx
    rfl
  · intro c hc htask
    rcases step_jobs h hc with hold | ⟨s, -, hdb, -⟩
    · -- its scan promised that the task had ended before
      obtain ⟨q, hq, hterm⟩ := (hco.jobs _ hold).2 t (htask ▸ ht)
      exact absurd (Control.status_isTerminal hq hterm) (Bool.eq_false_iff.mp hlive)
    · rw [hdb, ht] at ht'
      cases ht'
      rw [hended] at hlive
      cases hlive

/-- An end that the clock separates from the creation is too late for a period that runs from the
creation. -/
theorem add_retention_le_max_iff (cfg : Settings) (created ended : ℕ) :
    ended + cfg.retention ≤ max ended (created + cfg.retention + 1) ↔
      cfg.terminalRetentionDays = 0 ∨ ended ≤ created + 1 := by
  unfold Settings.retention
  omega

/-- The first sweep that may erase an ended task: as soon as the scan returns it. -/
def firstSweep (cfg : Settings) (w : World) (t : Task) : List Action :=
  [.tick (t.createdAt + cfg.retention + 1 - w.db.now), .scan .terminals]

theorem run_firstSweep_now (w : World) (t : Task) :
    ((system cfg nfc).run w (firstSweep cfg w t)).db.now =
      max w.db.now (t.createdAt + cfg.retention + 1) := by
  exact add_tsub_eq_max

/-- The scan misses no ended task that is old enough. -/
theorem commits_run_firstSweep (ht : w.db.tasks.get? tid = some t)
    (hended : t.status.isTerminal = true) (locked : List ℕ) :
    (system cfg nfc).Commits ((system cfg nfc).run w (firstSweep cfg w t))
      (.perform (.cleanup ⟨tid, t.ownerId⟩) locked) := by
  refine commits_cleanup_iff.mpr (List.mem_append_right _ (List.mem_map_of_mem ?_))
  refine mem_scanTasks_of_row ht ?_
  have hage : t.createdAt + cfg.retention + 1 ≤
      w.db.now + (t.createdAt + cfg.retention + 1 - w.db.now) := le_add_tsub
  rw [hended, Bool.true_and]
  exact decide_eq_true (Nat.lt_of_succ_le hage)

/-- The retention period is kept for a task if there is none, or if the task has ended as soon as it
was created: between its creation and its end there is no instant of the clock. -/
theorem retained_iff {w₀ : World} (hw₀ : w₀.Initial) (as : List Action)
    (h : Tasking.step cfg nfc ((system cfg nfc).run w₀ as) a = .ok w')
    (ht : ((system cfg nfc).run w₀ as).db.tasks.get? tid = some t)
    (hlive : t.status.isTerminal = false)
    (ht' : w'.db.tasks.get? tid = some t') (hended : t'.status.isTerminal = true) :
    w'.Retains cfg nfc tid w'.db.now ↔
      cfg.terminalRetentionDays = 0 ∨ w'.db.now ≤ t'.createdAt + 1 := by
  have hswept := sweptAfter_of_ended (hw₀.coherent.run as) h ht hlive ht' hended
  constructor
  · intro hkept
    have hnow := hkept (firstSweep cfg w' t') ⟨tid, t'.ownerId⟩ [] rfl
      (commits_run_firstSweep ht' hended [])
    rw [run_firstSweep_now] at hnow
    exact (add_retention_le_max_iff _ _ _).mp hnow
  · intro hcond bs c locked htask hcommits
    have hrun := @World.SweptAfter.run cfg nfc _ _ _ hswept bs
    have hold := hrun.jobs c (commits_cleanup_iff.mp hcommits) htask
    have hclock := @run_now_le cfg nfc _ hswept.coherent bs
    rcases hcond with hzero | hsoon
    · rwa [Settings.retention, hzero, Nat.zero_mul, Nat.add_zero]
    · exact (Nat.add_le_add_right hsoon _).trans (by rw [Nat.add_right_comm]; exact hold)

end Steps

section Late

/-- User 1 creates and commits task 10, and comes back after `days` days. -/
def lateRun (days : ℕ) : List Action :=
  [.request (.createTask 1 5 none "hi" []), .request (.commitInput 1 10 "manifest"),
    .tick (days * 86400)]

/-- The task before the end and after it. -/
def lateTask (days : ℕ) : Option Task := ((system {} id).run .small (lateRun days)).db.tasks.get? 10

def endedWorld (days : ℕ) : World :=
  (system {} id).run .small (lateRun days ++ [.request (.abort 1 10)])

/-- A task that is aborted at once is kept for seven days. -/
theorem retained_of_abortAtOnce : (endedWorld 0).Retains {} id 10 (endedWorld 0).db.now := by
  have hstep : step {} id ((system {} id).run .small (lateRun 0)) (.request (.abort 1 10)) =
      .ok (endedWorld 0) := by
    rcases System.next_cases (S := system {} id) ((system {} id).run .small (lateRun 0))
      (.request (.abort 1 10)) with h | h
    · exact h
    · have hsame : (((endedWorld 0).db.tasks.get? 10).map (·.status)) =
          (lateTask 0).map (·.status) := congrArg (fun w => (w.db.tasks.get? 10).map (·.status)) h
      exact absurd hsame (by decide +kernel)
  have hbefore : (lateTask 0).map (·.status) = some .queued := by decide +kernel
  have hafter : ((endedWorld 0).db.tasks.get? 10).map (fun t => (t.status, t.createdAt)) =
      some (.aborted, 0) := by decide +kernel
  have hnow : (endedWorld 0).db.now = 0 := by decide +kernel
  obtain ⟨t, ht, hst⟩ := Option.map_eq_some_iff.mp hbefore
  obtain ⟨t', ht', hst'⟩ := Option.map_eq_some_iff.mp hafter
  obtain ⟨hst', hcreated⟩ := Prod.mk.inj hst'
  refine (retained_iff World.small_initial (lateRun 0) hstep ht (by rw [hst]; rfl) ht'
    (by rw [hst']; rfl)).mpr (.inr ?_)
  rw [hnow]
  exact Nat.zero_le _

/-- A task that is aborted eight days after its creation may be erased at that moment. -/
theorem erased_of_lateAbort :
    ((endedWorld 8).db.tasks.get? 10).map (fun t => (t.status, t.messages.length)) =
        some (.aborted, 1) ∧
      ((((system {} id).run (endedWorld 8)
          [.scan .terminals, .perform (.cleanup ⟨10, 1⟩) []]).db.tasks.get? 10).map
        fun t => (t.status, t.messages.length)) = some (.aborted, 0) ∧
      ¬ (endedWorld 8).Retains {} id 10 (endedWorld 8).db.now := by
  refine ⟨by decide +kernel, by decide +kernel, fun hkept => ?_⟩
  have hmem : Job.cleanup ⟨10, 1⟩ ∈ ((system {} id).run (endedWorld 8) [.scan .terminals]).jobs := by
    decide +kernel
  have hnow := hkept [.scan .terminals] ⟨10, 1⟩ [] rfl (commits_cleanup_iff.mpr hmem)
  exact absurd hnow (by decide +kernel)

end Late

end AgentCraft.Tasking
