import AgentCraft.Tasking.Execution

/-!
# The deadline watchdog

`_renew_loop` renews the lease of a round and watches its deadline. A beat that is fenced out ends it,
and with it the watch over the deadline: after an abort nothing stops a container that does not settle.
An enforcement that comes while the container is being started stops nothing either. As long as neither
happens every executing round is watched, and the deadline ends it and frees its slot.
-/

namespace AgentCraft.Tasking

open AgentCraft.Relational AgentCraft.Transition

/-- The renewal loop is running, or a task that stops the engine is scheduled, or the engine has been
stopped. -/
def RoundRun.Watched (p : Process) (run : RoundRun) : Prop :=
  run.renewing = true ∨ run.ctx ∈ p.enforcing ∨ run.stopped = true

/-- What the process executes, from the recheck on, is watched. -/
def Process.Watched (p : Process) : Prop :=
  ∀ run ∈ p.current, run.phase ≠ .registered → run.Watched p

instance (p : Process) : Decidable p.Watched := by
  unfold Process.Watched RoundRun.Watched
  infer_instance

/-- Before the deadline the beats of a process find their fence; the deadline finds the container
started. -/
def ExecutorStep.InTime (cfg : Settings) (db : Db) (p : Process) : ExecutorStep → Prop
  | .run .beat => ∀ run ∈ p.current, run.renewing = true → run.isOverdue cfg db.now = false →
      recheckRound db run.ctx = true
  | .enforceStop c => ∀ run ∈ p.current, run.ctx = c → run.phase.isLaunched = true
  | _ => True

/-- The steps of the executors come in time. -/
def BeatsInTime (cfg : Settings) (w : Runtime) : RuntimeAction → Prop
  | .executor iid x => ∀ p ∈ w.procs.get? iid, x.InTime cfg w.world.db p
  | _ => True

instance (cfg : Settings) (w : Runtime) (a : RuntimeAction) : Decidable (BeatsInTime cfg w a) := by
  unfold BeatsInTime ExecutorStep.InTime
  split
  · next iid x =>
    refine @Option.decidableForallMem _ _ (fun p => ?_) _
    split <;> infer_instance
  · infer_instance

/-- The steps that end a run at its deadline: the beat that finds it passed, the two parts of the
enforcement, and the end of `_run_round` that the stopped engine leads to. -/
def RoundRun.enforcement (iid : InstanceId) (run : RoundRun) : List RuntimeAction :=
  [.executor iid (.run .beat), .executor iid (.enforceStop run.ctx),
    .executor iid (.enforceFail run.ctx), .executor iid (.run (.release true))]

/-- A cycle of `reclaim_once` for a cancelling round. -/
def RoundContext.reclaimCycle (iid : InstanceId) (c : RoundContext) : List RuntimeAction :=
  [.background (.scan .reclaim), .probe iid ⟨c.round, c.task, c.owner⟩,
    .background (.perform (.cancelCancelling ⟨c.round, c.task, c.owner⟩) [])]

/-- The round is being cancelled while its task still runs. -/
def Db.Cancels (db : Db) (c : RoundContext) : Prop :=
  ∃ t r, db.visibleTask c.owner c.task = some t ∧ t.status = .running ∧ r ∈ t.rounds ∧
    r.id = c.round ∧ r.state = .cancelling

/-- A run whose container never settles is stopped at its deadline and the slot of its task is freed:
by the enforcement, or by the next reclaim if the round is being cancelled. -/
structure DeadlineKept (cfg : Settings) (nfc : String → String) (w : Runtime) (iid : InstanceId)
    (run : RoundRun) : Prop where
  stopped : ∃ p run', ((runtime cfg nfc).run w ((run.enforcement iid).take 2)).procs.get? iid = some p ∧
    p.current = some run' ∧ run'.ctx = run.ctx ∧ run'.stopped = true
  ended : ∃ p, ((runtime cfg nfc).run w (run.enforcement iid)).procs.get? iid = some p ∧ p.current = none
  removed : ∀ k ∈ ((runtime cfg nfc).run w (run.enforcement iid)).containers, k.ctx ≠ run.ctx
  failed : recheckRound w.world.db run.ctx = true →
    ((runtime cfg nfc).run w (run.enforcement iid)).world.db.leases run.ctx.task = 0
  cancelled : w.world.db.Cancels run.ctx →
    ((runtime cfg nfc).run w (run.enforcement iid ++ run.ctx.reclaimCycle iid)).world.db.leases
      run.ctx.task = 0

/-- Every executing round is watched, and every watched one is stopped at its deadline. -/
structure Runtime.Watched (cfg : Settings) (nfc : String → String) (w : Runtime) : Prop where
  watched : ∀ iid p, w.procs.get? iid = some p → p.Watched
  deadline : ∀ iid p run, w.procs.get? iid = some p → p.current = some run →
    run.renewing = true ∨ run.ctx ∈ p.enforcing → run.phase.isLaunched = true →
    run.isOverdue cfg w.world.db.now = true → DeadlineKept cfg nfc w iid run

/-! ## Steps -/

section Steps

variable {cfg : Settings} {nfc : String → String} {iid : InstanceId} {l l' : Local} {w w' : Runtime}
  {a : RuntimeAction} {p p' : Process} {run run' : RoundRun}

theorem renewLease_of_recheckRound (cfg : Settings) {db : Db} {c : RoundContext}
    (h : recheckRound db c = true) :
    ∃ db', renewLease cfg db c = .ok db' := by
  unfold recheckRound at h
  unfold renewLease
  split at h
  · cases h
  · next t hvis =>
    obtain ⟨r, hr, hp⟩ := List.any_eq_true.mp h
    have hne : t.rounds.countP c.fences ≠ 0 := (List.countP_pos_iff.mpr ⟨r, hr, hp⟩).ne'
    rw [if_neg hne]
    exact ⟨_, rfl⟩

/-- A run that keeps its lease, its loop and its engine stays watched. -/
theorem Process.Watched.of_same (hw : p.Watched) (hcur : p.current = some run)
    (hcur' : p'.current = some run') (hphase : run.phase ≠ .registered) (hctx : run'.ctx = run.ctx)
    (hrenew : run'.renewing = run.renewing) (hstop : run.stopped = true → run'.stopped = true)
    (hmem : run.ctx ∈ p.enforcing → run.ctx ∈ p'.enforcing) : p'.Watched := by
  intro run'' hrun'' _
  rw [hcur'] at hrun''
  cases hrun''
  rcases hw run hcur hphase with h | h | h
  · exact .inl (hrenew.trans h)
  · exact .inr (.inl (hctx.symm ▸ hmem h))
  · exact .inr (.inr (hstop h))

/-- `stop_round` touches the engine only. -/
theorem Process.stopRound_current {rid : RoundId} (h : (p.stopRound rid).current = some run') :
    ∃ run, p.current = some run ∧ run'.ctx = run.ctx ∧ run'.phase = run.phase ∧
      run'.renewing = run.renewing ∧ (run.stopped = true → run'.stopped = true) ∧
      (run.ctx.round = rid → run.phase.isLaunched = true → run'.stopped = true) := by
  obtain ⟨run, hrun, rfl⟩ := Option.map_eq_some_iff.mp h
  refine ⟨run, hrun, ?_⟩
  split
  · exact ⟨rfl, rfl, rfl, fun _ => rfl, fun _ _ => rfl⟩
  · next hno =>
    refine ⟨rfl, rfl, rfl, id, fun hrid hl => absurd ?_ hno⟩
    rw [hl, decide_eq_true hrid]
    rfl

theorem RunStep.exec_watched {x : RunStep} (hw : l.proc.Watched) (hcur : l.proc.current = some run)
    (hG : (ExecutorStep.run x).InTime cfg l.db l.proc) (h : x.exec cfg l run = .ok l') :
    l'.proc.Watched := by
  cases x with
  | recheck =>
    obtain ⟨-, h⟩ := ite_ok_else_error.mp h
    split at h <;> cases h
    · intro run' hrun' _
      cases hrun'
      exact .inl rfl
    · intro run' hrun'
      cases hrun'
  | fact author content =>
    obtain ⟨-, h⟩ := ite_ok_else_error.mp h
    cases h
    exact hw
  | beat =>
    obtain ⟨hrenew, h⟩ := ite_ok_else_error.mp h
    split at h
    · cases h
      intro run' hrun' _
      cases hrun'
      exact .inr (.inl List.mem_cons_self)
    · next hover =>
      obtain ⟨db', hdb⟩ := renewLease_of_recheckRound cfg
        (hG run hcur hrenew (Bool.eq_false_iff.mpr hover))
      rw [hdb] at h
      cases h
      exact hw
  | release removed =>
    cases h
    intro run' hrun'
    cases hrun'
  | createEngine | launch | done | settle =>
    obtain ⟨hphase, h⟩ := ite_ok_else_error.mp h
    cases h
    exact hw.of_same hcur rfl (by rw [hphase]; simp) rfl rfl id id
  | prompt =>
    obtain ⟨hphase, h⟩ := ite_ok_else_error.mp h
    cases h
    exact hw.of_same hcur rfl (by rw [hphase.1]; simp) rfl rfl id id
  | eof =>
    obtain ⟨hphase, h⟩ := ite_ok_else_error.mp h
    cases h
    refine hw.of_same hcur rfl (fun heq => ?_) rfl rfl id id
    rw [heq] at hphase
    cases hphase

/-- A step that comes in time leaves the process watched. -/
theorem ExecutorStep.exec_watched {x : ExecutorStep} (hw : l.proc.Watched)
    (hG : x.InTime cfg l.db l.proc) (h : x.exec cfg iid l = .ok l') : l'.proc.Watched := by
  cases x with
  | notify tid =>
    cases h
    exact hw
  | pick =>
    simp only [ExecutorStep.exec] at h
    split at h
    · cases h
    · obtain ⟨-, h⟩ := ite_ok_else_error.mp h
      cases h
      exact hw
  | register =>
    simp only [ExecutorStep.exec] at h
    split at h
    · cases h
    · obtain ⟨-, h⟩ := ite_ok_else_error.mp h
      cases h
      intro run hrun hphase
      cases hrun
      exact absurd rfl hphase
  | run x =>
    simp only [ExecutorStep.exec] at h
    split at h
    · cases h
    · next run hcur => exact x.exec_watched hw hcur hG h
  | stopRound rid =>
    cases h
    intro run' hrun' hphase
    obtain ⟨run, hcur, hctx, hph, hrenew, hstop, -⟩ := Process.stopRound_current hrun'
    rw [hph] at hphase
    exact hw.of_same hcur hrun' hphase hctx hrenew hstop id run' hrun' (by rw [hph]; exact hphase)
  | enforceStop c =>
    obtain ⟨-, h⟩ := ite_ok_else_error.mp h
    cases h
    intro run' hrun' hphase
    obtain ⟨run, hcur, hctx, hph, hrenew, hstop, hhit⟩ := Process.stopRound_current hrun'
    rw [hph] at hphase
    by_cases heq : run.ctx = c
    · exact .inr (.inr (hhit (congrArg RoundContext.round heq) (hG run hcur heq)))
    · rcases hw run hcur hphase with h | h | h
      · exact .inl (hrenew.trans h)
      · exact .inr (.inl (hctx.symm ▸ (List.mem_erase_of_ne heq).mpr h))
      · exact .inr (.inr (hstop h))
  | enforceFail c =>
    obtain ⟨-, h⟩ := ite_ok_else_error.mp h
    cases h
    exact hw

theorem step_watched (hw : ∀ iid p, w.procs.get? iid = some p → p.Watched) (hG : BeatsInTime cfg w a)
    (h : w.step cfg nfc a = .ok w') : ∀ iid p, w'.procs.get? iid = some p → p.Watched := by
  intro iid p' hp'
  rcases Runtime.step_proc h hp' with hp | ⟨x, p, l, rfl, hp, hl, rfl, -, -⟩
  · exact hw iid p' hp
  · exact ExecutorStep.exec_watched (l := ⟨p, w.world.db, w.containers⟩) (hw iid p hp) (hG p hp) hl

end Steps

/-! ## The deadline -/

section Deadline

variable {cfg : Settings} {nfc : String → String} {iid : InstanceId} {w : Runtime} {p : Process}
  {run : RoundRun} {db : Db} {c : RoundContext}

theorem next_executor (hp : w.procs.get? iid = some p) {x : ExecutorStep} {l : Local}
    (hx : x.exec cfg iid ⟨p, w.world.db, w.containers⟩ = .ok l) :
    (runtime cfg nfc).next w (.executor iid x) = { w with
      world := { w.world with db := l.db }
      procs := w.procs.set iid l.proc
      containers := l.containers } := by
  apply System.next_eq_of_step
  show w.step cfg nfc (.executor iid x) = _
  simp only [Runtime.step, hp, hx]
  rfl

theorem next_background {a : Action} {world : World} (hb : a.isBackground w = true)
    (hs : Tasking.step cfg nfc w.world a = .ok world) :
    (runtime cfg nfc).next w (.background a) =
      { w with world := world, confirmed := a.unconfirm w.confirmed } := by
  apply System.next_eq_of_step
  show w.step cfg nfc (.background a) = _
  simp only [Runtime.step, hb, hs]
  rfl

/-- The beat that finds the deadline passed leaves an enforcement behind, if there is not one yet. -/
theorem next_beat (nfc : String → String) (hp : w.procs.get? iid = some p)
    (hcur : p.current = some run) (hflag : run.renewing = true ∨ run.ctx ∈ p.enforcing)
    (hover : run.isOverdue cfg w.world.db.now = true) :
    ∃ p₁ run₁, (runtime cfg nfc).next w (.executor iid (.run .beat)) =
        { w with procs := w.procs.set iid p₁ } ∧
      p₁.current = some run₁ ∧ run₁.ctx = run.ctx ∧ run₁.phase = run.phase ∧
      run.ctx ∈ p₁.enforcing := by
  by_cases hrenew : run.renewing = true
  · have hx : (ExecutorStep.run .beat).exec cfg iid ⟨p, w.world.db, w.containers⟩ =
        .ok ⟨{ p with
          current := some { run with renewing := false }, enforcing := run.ctx :: p.enforcing },
          w.world.db, w.containers⟩ := by
      simp only [ExecutorStep.exec, hcur, RunStep.exec, hrenew, if_true, hover]
    exact ⟨_, _, next_executor hp hx, rfl, rfl, rfl, List.mem_cons_self⟩
  · -- the loop has ended already: the beat does nothing
    have hx : w.step cfg nfc (.executor iid (.run .beat)) = .error .notEnabled := by
      simp only [Runtime.step, hp, ExecutorStep.exec, hcur, RunStep.exec, hrenew]
      rfl
    refine ⟨p, run, ?_, hcur, rfl, rfl, hflag.resolve_left hrenew⟩
    rw [Table.set_self hp]
    exact System.next_eq_self_of_error hx

/-- The first two steps of the enforcement stop the engine and touch nothing else. -/
theorem run_enforcement_stop (nfc : String → String) (hp : w.procs.get? iid = some p)
    (hcur : p.current = some run) (hflag : run.renewing = true ∨ run.ctx ∈ p.enforcing)
    (hlaunched : run.phase.isLaunched = true) (hover : run.isOverdue cfg w.world.db.now = true) :
    ∃ p₂ run₂, (runtime cfg nfc).run w ((run.enforcement iid).take 2) =
        { w with procs := w.procs.set iid p₂ } ∧
      p₂.current = some run₂ ∧ run₂.ctx = run.ctx ∧ run₂.phase = run.phase ∧ run₂.stopped = true ∧
      run.ctx ∈ p₂.failing := by
  obtain ⟨p₁, run₁, hbeat, hcur₁, hctx₁, hphase₁, hmem⟩ := next_beat nfc hp hcur hflag hover
  have hp₁ : ({ w with procs := w.procs.set iid p₁ } : Runtime).procs.get? iid = some p₁ :=
    Table.get?_set_self hp p₁
  have hstop : (p₁.stopRound run.ctx.round).current = some { run₁ with stopped := true } := by
    rw [Process.stopRound, hcur₁, Option.map_some, hctx₁, hphase₁, hlaunched]
    simp
  have hx : (ExecutorStep.enforceStop run.ctx).exec cfg iid ⟨p₁, w.world.db, w.containers⟩ =
      .ok ⟨{ p₁.stopRound run.ctx.round with
        enforcing := p₁.enforcing.erase run.ctx, failing := run.ctx :: p₁.failing },
        w.world.db, w.containers⟩ := by
    simp only [ExecutorStep.exec, hmem, if_true]
  refine ⟨{ p₁.stopRound run.ctx.round with
    enforcing := p₁.enforcing.erase run.ctx, failing := run.ctx :: p₁.failing },
    { run₁ with stopped := true }, ?_, hstop, hctx₁, hphase₁, rfl, List.mem_cons_self⟩
  show (runtime cfg nfc).next ((runtime cfg nfc).next w _) _ = _
  rw [hbeat, next_executor hp₁ hx, Table.set_set]

/-- The enforcement ends the run, and fails its round if the fence still finds it. -/
theorem run_enforcement (nfc : String → String) (hp : w.procs.get? iid = some p)
    (hcur : p.current = some run) (hflag : run.renewing = true ∨ run.ctx ∈ p.enforcing)
    (hlaunched : run.phase.isLaunched = true) (hover : run.isOverdue cfg w.world.db.now = true) :
    ∃ p₄, (runtime cfg nfc).run w (run.enforcement iid) =
        { w with
          world := { w.world with db := w.world.db.attempt (failAtDeadline w.world.db run.ctx) }
          procs := w.procs.set iid p₄
          containers := w.containers.filter (·.ctx ≠ run.ctx) } ∧
      p₄.current = none := by
  obtain ⟨p₂, run₂, hstop, hcur₂, hctx₂, hphase₂, -, hmem⟩ :=
    run_enforcement_stop nfc hp hcur hflag hlaunched hover
  have hget {w : Runtime} (hp : w.procs.get? iid = some p) (p' : Process) :
      ({ w with procs := w.procs.set iid p' } : Runtime).procs.get? iid = some p' :=
    Table.get?_set_self hp p'
  have hfail : (ExecutorStep.enforceFail run.ctx).exec cfg iid ⟨p₂, w.world.db, w.containers⟩ =
      .ok ⟨{ p₂ with failing := p₂.failing.erase run.ctx },
        w.world.db.attempt (failAtDeadline w.world.db run.ctx), w.containers⟩ := by
    simp only [ExecutorStep.exec, hmem, if_true]
  have hengine : run₂.phase.hasEngine = true := by
    rw [hphase₂]
    cases hph : run.phase <;> simp_all [RunPhase.isLaunched, RunPhase.hasEngine]
  have hrelease (db : Db) : (ExecutorStep.run (.release true)).exec cfg iid
      ⟨{ p₂ with failing := p₂.failing.erase run.ctx }, db, w.containers⟩ =
      .ok ⟨{ p₂ with current := none, failing := p₂.failing.erase run.ctx }, db,
        w.containers.filter (·.ctx ≠ run.ctx)⟩ := by
    simp only [ExecutorStep.exec, hcur₂, RunStep.exec, hengine, hctx₂]
    rfl
  refine ⟨{ p₂ with current := none, failing := p₂.failing.erase run.ctx }, ?_, rfl⟩
  rw [← List.take_append_drop 2 (run.enforcement iid), System.run_append, hstop]
  show (runtime cfg nfc).next ((runtime cfg nfc).next _ (.executor iid (.enforceFail run.ctx)))
    (.executor iid (.run (.release true))) = _
  rw [next_executor (hget hp p₂) hfail]
  rw [next_executor (w := { w with
      world := { w.world with db := w.world.db.attempt (failAtDeadline w.world.db run.ctx) }
      procs := (w.procs.set iid p₂).set iid { p₂ with failing := p₂.failing.erase run.ctx } })
    (by rw [Table.set_set]; exact Table.get?_set_self hp _) (hrelease _)]
  simp only [Table.set_set]

/-- A task that executes, or whose execution is being cancelled, holds its running reservation. -/
theorem Task.Held.holds_running {t : Task} (h : t.Held) (hst : t.status = .running) {r : TaskRound}
    (hr : r ∈ t.rounds) (hact : r.state.isActive = true) : t.holds .running ≠ 0 := by
  obtain ⟨q, hq, -, hrun⟩ := h.phase
  have hmem : r.state ∈ t.control.activeStates :=
    List.mem_filter.mpr ⟨List.mem_map.mpr ⟨r, hr, rfl⟩, hact⟩
  rw [hrun]
  rcases Control.eq_running hq hst with ⟨rfl, -, -⟩ | ⟨i, rfl, -, -⟩ | ⟨i, rfl, -, ha⟩
  · simp [Phase.isExecuting]
  · simp [Phase.isExecuting]
  · rw [ha] at hmem
    cases hmem

/-- The deadline transaction goes through as long as its fence holds, and frees the slot. -/
theorem leases_failAtDeadline (hco : db.Coherent) (hheld : db.Held)
    (h : recheckRound db c = true) : (db.attempt (failAtDeadline db c)).leases c.task = 0 := by
  unfold recheckRound at h
  split at h
  · cases h
  · next t hvis =>
    obtain ⟨hfound, -⟩ := Db.visibleTask_eq_some.mp hvis
    obtain ⟨r, hr, hp⟩ := List.any_eq_true.mp h
    have hne : t.rounds.countP c.fences ≠ 0 := (List.countP_pos_iff.mpr ⟨r, hr, hp⟩).ne'
    obtain ⟨q, hq⟩ := hco.phases c.task t hfound
    have hst := status_of_fences hq hne
    obtain ⟨db', hdb⟩ : ∃ db', failAtDeadline db c = .ok db' := by
      obtain ⟨r', hfind⟩ := Option.isSome_iff_exists.mp
        (List.find?_isSome.mpr ⟨r, hr, hp⟩ : (t.rounds.find? c.fences).isSome = true)
      unfold failAtDeadline
      rw [hvis]
      simp only [hfind]
      rw [if_neg (not_not.mpr hst)]
      exact ⟨_, rfl⟩
    obtain ⟨t₀, t', -, hm⟩ := failAtDeadline_moved (hco.phases c.task) hdb
    have hsame : t₀ = t := Option.some.inj (hm.found.symm.trans hfound)
    subst hsame
    rw [hdb]
    refine hm.posted.leases_close (hheld c.task t₀ hfound).wellHeld ?_
    exact (hheld c.task t₀ hfound).holds_running hst hr (by rw [c.state_of_fences hp]; rfl)

/-- A cancelling round is not found by the fence of its executor. -/
theorem failAtDeadline_of_cancels (hco : db.Coherent) (h : db.Cancels c) :
    db.attempt (failAtDeadline db c) = db := by
  obtain ⟨t, r, hvis, hst, hr, -, hstate⟩ := h
  obtain ⟨q, hq⟩ := hco.phases c.task t (Db.visibleTask_eq_some.mp hvis).1
  have hone : t.control.activeStates = [r.state] :=
    Control.activeStates_eq_of_mem hq
      (List.mem_filter.mpr ⟨List.mem_map.mpr ⟨r, hr, rfl⟩, by rw [hstate]; rfl⟩)
  have hnone : t.rounds.find? c.fences = none := by
    refine List.find?_eq_none.mpr fun r' hr' hp => ?_
    have hmem : r'.state ∈ t.control.activeStates := List.mem_filter.mpr
      ⟨List.mem_map.mpr ⟨r', hr', rfl⟩, by rw [c.state_of_fences hp]; rfl⟩
    rw [hone, List.mem_singleton, hstate, c.state_of_fences hp] at hmem
    cases hmem
  unfold failAtDeadline
  rw [hvis]
  simp only [hnone]
  rfl

/-- A reclaim cycle closes a cancelling round whose container is not alive, and frees the slot. -/
theorem run_reclaimCycle (hs : w.Sound) (hp : w.procs.get? iid = some p) (hcur : p.current = none)
    (hc : w.world.db.Cancels c) :
    ((runtime cfg nfc).run w (c.reclaimCycle iid)).world.db.leases c.task = 0 := by
  obtain ⟨t, r, hvis, hst, hr, hid, hstate⟩ := hc
  obtain ⟨hfound, howner⟩ := Db.visibleTask_eq_some.mp hvis
  let cand : RoundCandidate := ⟨c.round, c.task, c.owner⟩
  -- the scan finds the round
  let jobs := w.world.jobs ++ Scan.jobs cfg w.world.db .reclaim
  have hjob : Job.cancelCancelling cand ∈ jobs := by
    refine List.mem_append_right _ (List.mem_append_left _ (List.mem_map.mpr ⟨cand, ?_, rfl⟩))
    refine List.mem_map.mpr ⟨(cand, r), List.mem_flatMap.mpr
      ⟨(c.task, t), Table.get?_eq_some_iff.mp hfound, List.mem_map.mpr ⟨r, ?_, ?_⟩⟩, rfl⟩
    · exact List.mem_filter.mpr ⟨hr, decide_eq_true hstate⟩
    · rw [hid, howner]
  let w₁ : Runtime := { w with world := { w.world with jobs := jobs } }
  have hscan : (runtime cfg nfc).next w (.background (.scan .reclaim)) = w₁ :=
    next_background rfl rfl
  -- no engine is registered any more, so the probe answers no
  let w₂ : Runtime := { w₁ with confirmed := cand :: w.confirmed }
  have hprobe : (runtime cfg nfc).next w₁ (.probe iid cand) = w₂ := by
    apply System.next_eq_of_step
    show w₁.step cfg nfc (.probe iid cand) = _
    have hno : p.containerAlive cand.task = false := by rw [Process.containerAlive, hcur]; rfl
    have hp₁ : w₁.procs.get? iid = some p := hp
    have hjob₁ : Job.cancelCancelling cand ∈ w₁.world.jobs := hjob
    simp only [Runtime.step, hp₁, if_pos hjob₁, hno]
    rfl
  obtain ⟨db', hdb⟩ : ∃ db', cancelCancellingRound w.world.db cand = .ok db' := by
    have hne : t.rounds.countP (fun r => r.id = cand.round && r.state = .cancelling) ≠ 0 :=
      (List.countP_pos_iff.mpr ⟨r, hr, by simp [cand, hid, hstate]⟩).ne'
    unfold cancelCancellingRound Task.cancelCancellingRound
    rw [show w.world.db.visibleTask cand.owner cand.task = some t from hvis]
    simp only [if_neg hne]
    exact ⟨_, rfl⟩
  have hback : Action.isBackground w₂ (.perform (.cancelCancelling cand) []) = true :=
    decide_eq_true List.mem_cons_self
  have hstep : Tasking.step cfg nfc w₂.world (.perform (.cancelCancelling cand) []) =
      .ok { w₂.world with db := db', jobs := w₂.world.jobs.erase (.cancelCancelling cand) } := by
    have hjob₂ : Job.cancelCancelling cand ∈ w₂.world.jobs := hjob
    show (if _ then _ else _) = _
    rw [if_pos hjob₂]
    show (cancelCancellingRound w.world.db cand >>= _) = _
    rw [hdb]
    rfl
  show ((runtime cfg nfc).next ((runtime cfg nfc).next ((runtime cfg nfc).next w _) _) _).world.db.leases
    c.task = 0
  rw [hscan, hprobe, next_background hback hstep]
  obtain ⟨t₀, t', hm⟩ := cancelCancellingRound_moved hdb
  have hsame : t₀ = t := Option.some.inj (hm.found.symm.trans hfound)
  subst hsame
  refine hm.posted.leases_close (hs.held c.task t₀ hfound).wellHeld ?_
  exact (hs.held c.task t₀ hfound).holds_running hst hr (by rw [hstate]; rfl)

/-- The deadline is kept. -/
theorem deadlineKept (hs : w.Sound) (hp : w.procs.get? iid = some p) (hcur : p.current = some run)
    (hflag : run.renewing = true ∨ run.ctx ∈ p.enforcing)
    (hlaunched : run.phase.isLaunched = true) (hover : run.isOverdue cfg w.world.db.now = true) : DeadlineKept cfg nfc w iid run := by
  obtain ⟨p₂, run₂, hstop, hcur₂, hctx₂, -, hstopped, -⟩ :=
    run_enforcement_stop nfc hp hcur hflag hlaunched hover
  obtain ⟨p₄, hrun, hnone⟩ := run_enforcement nfc hp hcur hflag hlaunched hover
  have hp₄ : (w.procs.set iid p₄).get? iid = some p₄ := Table.get?_set_self hp p₄
  refine ⟨⟨p₂, run₂, ?_, hcur₂, hctx₂, hstopped⟩, ⟨p₄, ?_, hnone⟩, fun k hk => ?_, fun hfence => ?_,
    fun hc => ?_⟩
  · rw [hstop]
    exact Table.get?_set_self hp p₂
  · rw [hrun]
    exact hp₄
  · rw [hrun] at hk
    exact of_decide_eq_true (List.mem_filter.mp hk).2
  · rw [hrun]
    exact leases_failAtDeadline hs.coherent.db hs.held hfence
  · have hdb := failAtDeadline_of_cancels hs.coherent.db hc
    rw [hdb] at hrun
    rw [System.run_append, hrun]
    exact run_reclaimCycle ⟨hs.coherent, hs.rounds, hs.held⟩ hp₄ hnone hc

end Deadline

/-! ## Runs -/

section Runs

variable {cfg : Settings} {nfc : String → String} {w₀ : Runtime} {as : List RuntimeAction}

/-- Every executing round is watched in every run whose beats and enforcements come in time. -/
theorem watched_of_run (h₀ : w₀.Initial) (hG : (runtime cfg nfc).Guarded (BeatsInTime cfg) w₀ as) :
    ((runtime cfg nfc).run w₀ as).Watched cfg nfc := by
  have hinv := System.invariant_run_of_guarded (S := runtime cfg nfc) (G := BeatsInTime cfg)
    (I := fun w => w.Sound ∧ ∀ iid p, w.procs.get? iid = some p → p.Watched)
    (fun w a w' hw hG hs => ⟨hw.1.step hs, step_watched hw.2 hG hs⟩)
    ⟨h₀.sound, fun iid p hp run hrun => ?_⟩ hG
  · exact ⟨hinv.2, fun _ _ _ hp hcur hflag hlaunched hover =>
      deadlineKept hinv.1 hp hcur hflag hlaunched hover⟩
  · rw [(h₀.idle hp).1] at hrun
    cases hrun

/-- A round that is renewed, and stopped at its deadline. -/
theorem watched_of_run_deadline : ((runtime {} id).run Runtime.small (promptedRun ++
    [.background (.tick 30), .executor 7 (.run .beat), .background (.tick 1200),
      .executor 7 (.run .beat), .executor 7 (.enforceStop ⟨12, 10, 1, 7, 1⟩)])).Watched {} id :=
  watched_of_run Runtime.small_initial (by decide)

/-- After an abort the next beat ends the watch; the container runs on. -/
theorem not_watched_of_abort : ¬ ((runtime {} id).run Runtime.small (promptedRun ++
    [.background (.request (.abort 1 10)), .background (.tick 30), .executor 7 (.run .beat)])).Watched
      {} id := by
  intro h
  have hproc := h.watched 7
    ⟨[], [], some ⟨⟨12, 10, 1, 7, 1⟩, .prompted, 0, false, false, false⟩, [], []⟩ (by decide)
  exact absurd hproc (by decide)

end Runs

end AgentCraft.Tasking
