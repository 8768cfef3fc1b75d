import AgentCraft.Tasking.Runtime
import AgentCraft.Tasking.Rounds
import AgentCraft.Tasking.StorageLedger

/-!
# The runtime over the task domain

Every step of the runtime is a step of the task domain or leaves the database alone, so what holds
along all runs of the domain holds along all runs of the runtime.
-/

namespace AgentCraft.Tasking

open AgentCraft.Relational AgentCraft.Transition

section Steps

variable {cfg : Settings} {nfc : String → String} {iid iid' : InstanceId} {l l' : Local}
  {w w' : Runtime} {a : RuntimeAction}

theorem Db.attempt_cases (db : Db) (tx : Except Failure Db) : db.attempt tx = db ∨ tx = .ok (db.attempt tx) := by
  cases tx with
  | ok db' => exact .inr rfl
  | error e => exact .inl rfl

/-- The write that a step of a process attempts. -/
theorem RunStep.exec_write {run : RoundRun} {x : RunStep} (nfc : String → String)
    (h : x.exec cfg l run = .ok l') :
    l'.db = l.db ∨ ∃ wr : Write, wr.exec cfg nfc l.db = .ok l'.db := by
  cases x with
  | recheck =>
    obtain ⟨-, h⟩ := ite_ok_else_error.mp h
    split at h <;> cases h <;> exact .inl rfl
  | fact author content =>
    obtain ⟨-, h⟩ := ite_ok_else_error.mp h
    cases h
    exact (l.db.attempt_cases _).imp id fun h => ⟨.fact run.ctx author content, h⟩
  | settle pending finishReason usage =>
    obtain ⟨-, h⟩ := ite_ok_else_error.mp h
    cases h
    exact (l.db.attempt_cases _).imp id fun h => ⟨.settle run.ctx pending finishReason usage, h⟩
  | beat =>
    obtain ⟨-, h⟩ := ite_ok_else_error.mp h
    split at h
    · cases h
      exact .inl rfl
    · split at h
      · next db hdb =>
        cases h
        exact .inr ⟨.renew run.ctx, hdb⟩
      · cases h
        exact .inl rfl
  | release removed =>
    cases h
    exact .inl rfl
  | _ =>
    obtain ⟨-, h⟩ := ite_ok_else_error.mp h
    cases h
    exact .inl rfl

theorem ExecutorStep.exec_write {x : ExecutorStep} (nfc : String → String)
    (h : x.exec cfg iid l = .ok l') :
    l'.db = l.db ∨ ∃ wr : Write, wr.exec cfg nfc l.db = .ok l'.db := by
  cases x with
  | notify | stopRound =>
    cases h
    exact .inl rfl
  | pick | register =>
    simp only [ExecutorStep.exec] at h
    split at h
    · cases h
    · obtain ⟨-, h⟩ := ite_ok_else_error.mp h
      cases h
      exact .inl rfl
  | run x =>
    simp only [ExecutorStep.exec] at h
    split at h
    · cases h
    · exact RunStep.exec_write nfc h
  | enforceStop c =>
    obtain ⟨-, h⟩ := ite_ok_else_error.mp h
    cases h
    exact .inl rfl
  | enforceFail c =>
    obtain ⟨-, h⟩ := ite_ok_else_error.mp h
    cases h
    exact (l.db.attempt_cases _).imp id fun h => ⟨.deadline c, h⟩

/-- What an action of the runtime is to the task domain. -/
theorem Runtime.step_world (h : w.step cfg nfc a = .ok w') :
    w'.world = w.world ∨ ∃ a', Tasking.step cfg nfc w.world a' = .ok w'.world := by
  cases a with
  | background a =>
    obtain ⟨-, h⟩ := ite_ok_else_error.mp h
    obtain ⟨world, hworld, h⟩ := bind_eq_ok.mp h
    cases h
    exact .inr ⟨a, hworld⟩
  | probe iid c =>
    simp only [Runtime.step] at h
    split at h
    · cases h
    · obtain ⟨-, h⟩ := ite_ok_else_error.mp h
      split at h <;> cases h
      · exact .inr ⟨.abandon (.cancelCancelling c), rfl⟩
      · exact .inl rfl
  | executor iid x =>
    simp only [Runtime.step] at h
    split at h
    · cases h
    · obtain ⟨l, hl, h⟩ := bind_eq_ok.mp h
      cases h
      rcases ExecutorStep.exec_write nfc hl with hdb | ⟨wr, hwr⟩
      · refine .inl ?_
        show { w.world with db := l.db } = w.world
        rw [hdb]
      · refine .inr ⟨.write wr, ?_⟩
        show (wr.exec cfg nfc w.world.db >>= fun db => pure { w.world with db := db }) = _
        rw [hwr]
        rfl
  | crash iid =>
    cases h
    exact .inl rfl
  | exit k =>
    obtain ⟨-, h⟩ := ite_ok_else_error.mp h
    cases h
    exact .inl rfl

/-- What is known of the database in every state. -/
structure Runtime.Sound (w : Runtime) : Prop where
  coherent : w.world.Coherent
  rounds : w.world.db.RoundsValid
  held : w.world.db.Held

theorem Runtime.Sound.step (hw : w.Sound) (h : w.step cfg nfc a = .ok w') : w'.Sound := by
  rcases Runtime.step_world h with heq | ⟨a', h⟩
  · exact ⟨heq ▸ hw.coherent, heq ▸ hw.rounds, heq ▸ hw.held⟩
  · exact ⟨hw.coherent.step h, step_roundsValid hw.coherent hw.rounds h,
      step_held hw.coherent hw.held h⟩

theorem Runtime.Initial.sound (h₀ : w.Initial) : w.Sound :=
  ⟨h₀.world.coherent, h₀.world.roundsValid, h₀.world.held⟩

theorem Runtime.Initial.idle (h₀ : w.Initial) {p : Process} (hp : w.procs.get? iid = some p) :
    p.current = none ∧ p.claimed = [] := by
  rw [h₀.procs iid p hp]
  exact ⟨rfl, rfl⟩

/-! ## The processes -/

/-- A process after a step: it has not moved, or it has taken the step. -/
theorem Runtime.step_proc (h : w.step cfg nfc a = .ok w') {p' : Process}
    (hp' : w'.procs.get? iid = some p') :
    w.procs.get? iid = some p' ∨ ∃ x p l, a = .executor iid x ∧ w.procs.get? iid = some p ∧
      x.exec cfg iid ⟨p, w.world.db, w.containers⟩ = .ok l ∧ p' = l.proc ∧
      w'.world = { w.world with db := l.db } ∧ w'.containers = l.containers := by
  cases a with
  | background a =>
    obtain ⟨-, h⟩ := ite_ok_else_error.mp h
    obtain ⟨world, hworld, h⟩ := bind_eq_ok.mp h
    cases h
    exact .inl hp'
  | probe iid' c =>
    simp only [Runtime.step] at h
    split at h
    · cases h
    · obtain ⟨-, h⟩ := ite_ok_else_error.mp h
      split at h <;> cases h <;> exact .inl hp'
  | executor iid' x =>
    simp only [Runtime.step] at h
    split at h
    · cases h
    · next p hp =>
      obtain ⟨l, hl, h⟩ := bind_eq_ok.mp h
      cases h
      rw [Table.get?_set] at hp'
      split at hp'
      · next heq =>
        subst heq
        rw [hp] at hp'
        cases hp'
        exact .inr ⟨x, p, l, rfl, hp, hl, rfl, rfl, rfl⟩
      · exact .inl hp'
  | crash iid' =>
    cases h
    rw [Table.get?_filter, Option.filter_eq_some_iff] at hp'
    exact .inl hp'.1
  | exit k =>
    obtain ⟨-, h⟩ := ite_ok_else_error.mp h
    cases h
    exact .inl hp'

theorem RunStep.exec_current {run run' : RoundRun} {x : RunStep} (hcur : l.proc.current = some run)
    (h : x.exec cfg l run = .ok l') (hcur' : l'.proc.current = some run') :
    run'.ctx = run.ctx ∧ (run'.phase = run.phase ∨ run.phase.next? = some run'.phase) ∧
      (run.phase = .registered → run'.phase ≠ .registered → recheckRound l.db run.ctx = true) := by
  -- a run that is not registered has passed its recheck
  have hpassed {P : Prop} (hne : run.phase ≠ .registered) : run.phase = .registered → P :=
    fun h => absurd h hne
  cases x with
  | recheck =>
    obtain ⟨hphase, h⟩ := ite_ok_else_error.mp h
    split at h <;> cases h
    · next hlive =>
      cases hcur'
      exact ⟨rfl, .inr (by rw [hphase]; rfl), fun _ _ => hlive⟩
    · cases hcur'
  | fact author content =>
    obtain ⟨hphase, h⟩ := ite_ok_else_error.mp h
    cases h
    rw [hcur] at hcur'
    cases hcur'
    exact ⟨rfl, .inl rfl, fun hr hne => absurd hr hne⟩
  | beat =>
    obtain ⟨-, h⟩ := ite_ok_else_error.mp h
    split at h
    · cases h
      cases hcur'
      exact ⟨rfl, .inl rfl, fun hr hne => absurd hr hne⟩
    · split at h <;> cases h
      · rw [hcur] at hcur'
        cases hcur'
        exact ⟨rfl, .inl rfl, fun hr hne => absurd hr hne⟩
      · cases hcur'
        exact ⟨rfl, .inl rfl, fun hr hne => absurd hr hne⟩
  | release removed =>
    cases h
    cases hcur'
  | createEngine | launch | done | settle =>
    obtain ⟨hphase, h⟩ := ite_ok_else_error.mp h
    cases h
    cases hcur'
    exact ⟨rfl, .inr (by rw [hphase]; rfl), hpassed (by rw [hphase]; simp)⟩
  | prompt =>
    obtain ⟨⟨hphase, -⟩, h⟩ := ite_ok_else_error.mp h
    cases h
    cases hcur'
    exact ⟨rfl, .inr (by rw [hphase]; rfl), hpassed (by rw [hphase]; simp)⟩
  | eof =>
    obtain ⟨-, h⟩ := ite_ok_else_error.mp h
    cases h
    cases hcur'
    exact ⟨rfl, .inl rfl, fun hr hne => absurd hr hne⟩

theorem Process.stopRound_ctx {p : Process} {rid : RoundId} {run' : RoundRun}
    (h : (p.stopRound rid).current = some run') :
    ∃ run, p.current = some run ∧ run'.ctx = run.ctx ∧ run'.phase = run.phase := by
  obtain ⟨run, hrun, rfl⟩ := Option.map_eq_some_iff.mp h
  refine ⟨run, hrun, ?_⟩
  split <;> exact ⟨rfl, rfl⟩

/-- Where the run of a process comes from: it has just been registered, or it has come at most one
phase further. -/
theorem ExecutorStep.exec_current {x : ExecutorStep} (h : x.exec cfg iid l = .ok l') {run' : RoundRun}
    (hcur' : l'.proc.current = some run') :
    (run'.phase = .registered ∧ run'.ctx ∈ l.proc.claimed) ∨ ∃ run, l.proc.current = some run ∧
      run'.ctx = run.ctx ∧ (run'.phase = run.phase ∨ run.phase.next? = some run'.phase) ∧
      (run.phase = .registered → run'.phase ≠ .registered → recheckRound l.db run.ctx = true) := by
  have hkept {run : RoundRun} (hcur : l.proc.current = some run) (hctx : run'.ctx = run.ctx)
      (hphase : run'.phase = run.phase) : ∃ run, l.proc.current = some run ∧
        run'.ctx = run.ctx ∧ (run'.phase = run.phase ∨ run.phase.next? = some run'.phase) ∧
        (run.phase = .registered → run'.phase ≠ .registered → recheckRound l.db run.ctx = true) :=
    ⟨run, hcur, hctx, .inl hphase, fun hr hne => absurd (hphase.trans hr) hne⟩
  cases x with
  | notify tid =>
    cases h
    exact .inr (hkept hcur' rfl rfl)
  | pick =>
    simp only [ExecutorStep.exec] at h
    split at h
    · cases h
    · obtain ⟨-, h⟩ := ite_ok_else_error.mp h
      cases h
      exact .inr (hkept hcur' rfl rfl)
  | register =>
    simp only [ExecutorStep.exec] at h
    split at h
    · cases h
    · next c rest hclaimed =>
      obtain ⟨-, h⟩ := ite_ok_else_error.mp h
      cases h
      cases hcur'
      exact .inl ⟨rfl, by rw [hclaimed]; exact List.mem_cons_self⟩
  | run x =>
    simp only [ExecutorStep.exec] at h
    split at h
    · cases h
    · next run hcur => exact .inr ⟨run, hcur, x.exec_current hcur h hcur'⟩
  | stopRound rid =>
    cases h
    obtain ⟨run, hcur, hctx, hphase⟩ := Process.stopRound_ctx hcur'
    exact .inr (hkept hcur hctx hphase)
  | enforceStop c =>
    obtain ⟨-, h⟩ := ite_ok_else_error.mp h
    cases h
    obtain ⟨run, hcur, hctx, hphase⟩ := Process.stopRound_ctx hcur'
    exact .inr (hkept hcur hctx hphase)
  | enforceFail c =>
    obtain ⟨-, h⟩ := ite_ok_else_error.mp h
    cases h
    exact .inr (hkept hcur' rfl rfl)

end Steps

end AgentCraft.Tasking
