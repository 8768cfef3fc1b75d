import AgentCraft.Tasking.Execution
import AgentCraft.Transition.Trace

/-!
# What follows a cancellation

`reclaim_once` closes a cancelling round once `container_alive` has answered that the engine of its task has no
reader. A round that is being assembled has none yet, so it may be closed and go on to start its container and to
prompt it. Where no process is assembling the round when the answer is given, nothing is started or prompted for it
after it has been closed (`quiet_run`).
-/

namespace AgentCraft.Tasking

open AgentCraft.Relational AgentCraft.Transition

/-! ## What is observed -/

/-- What happens to a round. -/
inductive RoundSign
  /-- `_cancel_cancelling_round` has committed. -/
  | cancelled (round : RoundId)
  /-- `transport.start` has returned. -/
  | started (round : RoundId)
  /-- `engine.send_prompt` has been called. -/
  | prompted (round : RoundId)
deriving DecidableEq, Repr

/-- What is observed of an action that takes effect. -/
def Runtime.observed (w : Runtime) : RuntimeAction → List RoundSign
  | .background (.perform (.cancelCancelling c) _) => [.cancelled c.round]
  | .executor iid (.run .launch) => (w.running iid).toList.map (.started ·.ctx.round)
  | .executor iid (.run .prompt) => (w.running iid).toList.map (.prompted ·.ctx.round)
  | _ => []

/-- A round that has been closed is neither started nor prompted. -/
def NothingAfter (pre : List RoundSign) : RoundSign → Prop
  | .cancelled _ => True
  | .started rid | .prompted rid => .cancelled rid ∉ pre

/-- The answer that a container is gone comes when no process assembles the round. -/
def Runtime.AsksInTime (w : Runtime) : RuntimeAction → Prop
  | .probe iid c => (∀ p ∈ w.procs.get? iid, p.containerAlive c.task = false) →
      ∀ row ∈ w.procs.rows, ∀ run ∈ row.2.current, run.ctx.round = c.round → run.phase.isAssembling = false
  | _ => True

instance : ∀ w : Runtime, DecidablePred w.AsksInTime := fun w a => by
  unfold Runtime.AsksInTime
  split <;> infer_instance

/-! ## Rounds that do not run again -/

section Ceased

variable {expects : Expects} {db db' : Db} {rid : RoundId} {k : MoveKind} {r r' : TaskRound}

/-- The round, if it is there, is being cancelled or closed. -/
structure Db.Ceased (db : Db) (rid : RoundId) : Prop where
  issued : rid < db.nextId
  state : ∀ tid r, db.HasRound tid r → r.id = rid → r.state ≠ .pending ∧ r.state ≠ .running

/-- Such a round never runs again. -/
theorem TaskRound.Step.ceased (h : TaskRound.Step k r r') (hr : r.state ≠ .pending ∧ r.state ≠ .running) :
    r'.state ≠ .pending ∧ r'.state ≠ .running := by
  cases h with
  | refl => exact hr
  | renew _ e hs => exact absurd hs hr.2
  | claim _ iid e hs => exact absurd hs hr.1
  | cancelling => exact ⟨by simp, by simp⟩
  | requeue _ _ hs => exact absurd hs hr.2
  | close _ _ s o e hs hc =>
    refine ⟨fun heq => ?_, fun heq => ?_⟩ <;>
    · rw [show s = _ from heq] at hc
      cases hc

theorem Db.Ceased.change (h : db.Ceased rid) (hco : db.Coherent) (hc : Change expects db db') :
    db'.Ceased rid := by
  refine ⟨h.issued.trans_le hc.nextId_le, fun tid r' hr' hid => ?_⟩
  rcases hc.round hco hr' with ⟨k, t, r, ht, hr, hstep, -⟩ | ⟨-, hnew, -⟩
  · exact hstep.ceased (h.state tid r ⟨t, ht, hr⟩ (hstep.id_eq.symm.trans hid))
  · exact absurd (hid ▸ hnew) (Nat.not_le.mpr h.issued)

theorem Db.Ceased.changes (h : db.Ceased rid) (hco : db.Coherent) (hc : Changes expects db db') :
    db'.Ceased rid := by
  have hboth : db'.Coherent ∧ db'.Ceased rid := by
    induction hc with
    | refl => exact ⟨hco, h⟩
    | tail _ hc ih => exact ⟨hc.coherent ih.1, ih.2.change ih.1 hc⟩
  exact hboth.2

/-- A round that does not run fails its recheck. -/
theorem Db.Ceased.recheckRound_eq_false {c : RoundContext} (h : db.Ceased c.round) :
    recheckRound db c = false := by
  cases hc : recheckRound db c with
  | false => rfl
  | true =>
    unfold recheckRound at hc
    split at hc
    · cases hc
    · next t hvis =>
      obtain ⟨r, hr, hfence⟩ := List.any_eq_true.mp hc
      have hid : r.id = c.round := by
        simp only [RoundContext.fences, Bool.and_eq_true, decide_eq_true_eq] at hfence
        exact hfence.1.1.1
      exact absurd (c.state_of_fences hfence)
        (h.state c.task r ⟨t, (Db.visibleTask_eq_some.mp hvis).1, hr⟩ hid).2

/-- A scan finds rounds that are being cancelled. -/
theorem ceased_of_cancellingCandidate (hv : db.RoundsValid) {c : RoundCandidate}
    (h : c ∈ cancellingCandidates db) : db.Ceased c.round := by
  obtain ⟨⟨c, r⟩, hmem, rfl⟩ := List.mem_map.mp h
  obtain ⟨⟨tid, t⟩, hrow, hmem⟩ := List.mem_flatMap.mp hmem
  obtain ⟨r', hr', heq⟩ := List.mem_map.mp hmem
  cases heq
  obtain ⟨hr', hst⟩ := List.mem_filter.mp hr'
  have hround : db.HasRound tid r := ⟨t, Table.get?_eq_some_iff.mpr hrow, hr'⟩
  refine ⟨hv.issued tid r hround, fun tid' r' hr' hid => ?_⟩
  rw [hv.eq_of_id_eq hr' hround hid, of_decide_eq_true hst]
  exact ⟨by simp, by simp⟩

end Ceased

/-! ## Steps -/

section Steps

variable {cfg : Settings} {nfc : String → String} {w w' : Runtime} {a : RuntimeAction} {rid : RoundId}

/-- The round does not run again, and no process is about to start or to prompt its container. -/
structure Runtime.Quiet (w : Runtime) (rid : RoundId) : Prop where
  ceased : w.world.db.Ceased rid
  idle : ∀ iid p, w.procs.get? iid = some p → ∀ run ∈ p.current, run.ctx.round = rid →
    run.phase.isAssembling = false

theorem ceased_step (hw : w.Sound) (h : w.step cfg nfc a = .ok w') (hrid : w.world.db.Ceased rid) :
    w'.world.db.Ceased rid := by
  rcases Runtime.step_world h with heq | ⟨a', h⟩
  · rw [heq]
    exact hrid
  · rcases step_changes hw.coherent.db hw.coherent.jobs h with hc | ⟨u, ids, locked, -, -, hdb⟩
    · exact hrid.changes hw.coherent.db hc
    · rw [hdb]
      refine ⟨?_, fun tid r hr hid => ?_⟩
      · rw [(terminateTasksHook_frame _ _ _).2]
        exact hrid.issued
      obtain ⟨t, ht, hmem⟩ := hr
      exact hrid.state tid r ⟨t, terminateTasksHook_row_of u ids ht, hmem⟩ hid

theorem RunPhase.isAssembling_of_next? {x y : RunPhase} (h : x.next? = some y) (hy : y.isAssembling = true) :
    x = .registered ∨ x.isAssembling = true := by
  cases x with
  | registered => exact .inl rfl
  | assembling | starting => exact .inr rfl
  | launched | prompted | settling =>
    cases h
    cases hy
  | closing => cases h

/-- Quiet is kept by every step. -/
theorem Runtime.Quiet.step (hq : w.Quiet rid) (hw : w.Sound) (h : w.step cfg nfc a = .ok w') : w'.Quiet rid := by
  refine ⟨ceased_step hw h hq.ceased, fun iid p' hp' run' hcur' hround => ?_⟩
  rcases Runtime.step_proc h hp' with hp | ⟨x, p, l, -, hp, hl, rfl, -, -⟩
  · exact hq.idle iid p' hp run' hcur' hround
  · rcases ExecutorStep.exec_current (l := ⟨p, w.world.db, w.containers⟩) hl hcur' with
      ⟨hphase, -⟩ | ⟨run, hcur, hctx, hphase, hcheck⟩
    · rw [hphase]
      rfl
    · have hidle := hq.idle iid p hp run hcur (hctx ▸ hround)
      rcases hphase with hphase | hphase
      · rw [hphase]
        exact hidle
      · by_contra hne
        rw [Bool.not_eq_false] at hne
        rcases RunPhase.isAssembling_of_next? hphase hne with hreg | hbusy
        · -- a closed round does not pass its recheck
          have hpassed := hcheck hreg fun heq => by
            rw [heq] at hne
            cases hne
          rw [Db.Ceased.recheckRound_eq_false (hctx ▸ hround ▸ hq.ceased)] at hpassed
          cases hpassed
        · rw [hidle] at hbusy
          cases hbusy

/-- Candidates come from scans of cancelling rounds. -/
theorem ceased_jobs (hw : w.Sound) (hjobs : ∀ c, .cancelCancelling c ∈ w.world.jobs → w.world.db.Ceased c.round)
    (h : w.step cfg nfc a = .ok w') : ∀ c, .cancelCancelling c ∈ w'.world.jobs → w'.world.db.Ceased c.round := by
  intro c hc
  rcases Runtime.step_world h with heq | ⟨a', ha'⟩
  · rw [heq] at hc ⊢
    exact hjobs c hc
  · rcases step_jobs ha' hc with hc | ⟨s, rfl, hdb, hc⟩
    · exact ceased_step hw h (hjobs c hc)
    · rw [hdb]
      cases s with
      | reclaim =>
        rcases List.mem_append.mp hc with hc | hc <;> obtain ⟨c', hc', heq⟩ := List.mem_map.mp hc <;> cases heq
        exact ceased_of_cancellingCandidate hw.rounds hc'
      | accountHook u => cases List.mem_singleton.mp hc
      | _ =>
        obtain ⟨c', -, heq⟩ := List.mem_map.mp hc
        cases heq

/-- What is known of the rounds that have been closed, and of those that are about to be. -/
structure Runtime.Settled (w : Runtime) (h : List RoundSign) : Prop where
  sound : w.Sound
  jobs : ∀ c, .cancelCancelling c ∈ w.world.jobs → w.world.db.Ceased c.round
  confirmed : ∀ c ∈ w.confirmed, w.Quiet c.round
  closed : ∀ rid, .cancelled rid ∈ h → w.Quiet rid
  orderly : Orderly NothingAfter h

theorem Runtime.Initial.settled (h₀ : w.Initial) : w.Settled [] where
  sound := h₀.sound
  jobs c hc := by
    rw [h₀.world.jobs] at hc
    cases hc
  confirmed c hc := by
    rw [h₀.confirmed] at hc
    cases hc
  closed rid h := by cases h
  orderly := orderly_nil

/-- What can be observed of a step is allowed. -/
theorem Runtime.Settled.observed {h : List RoundSign} (hw : w.Settled h) (hs : w.step cfg nfc a = .ok w') :
    w.observed a = [] ∨ ∃ m, w.observed a = [m] ∧ NothingAfter h m ∧ ∀ rid, m = .cancelled rid → w.Quiet rid := by
  have hrun {iid : InstanceId} {x : RunStep} (hstep : w.step cfg nfc (.executor iid (.run x)) = .ok w') :
      ∃ p run l, w.procs.get? iid = some p ∧ p.current = some run ∧ w.running iid = some run ∧
        x.exec cfg ⟨p, w.world.db, w.containers⟩ run = .ok l := by
    simp only [Runtime.step] at hstep
    split at hstep
    · cases hstep
    · next p hp =>
      obtain ⟨l, hl, -⟩ := bind_eq_ok.mp hstep
      simp only [ExecutorStep.exec] at hl
      split at hl
      · cases hl
      · next run hcur => exact ⟨p, run, l, hp, hcur, by rw [Runtime.running, hp]; exact hcur, hl⟩
  -- a run that starts or prompts a container is assembling its round
  have hbusy {iid : InstanceId} {p : Process} {run : RoundRun} (hp : w.procs.get? iid = some p)
      (hcur : p.current = some run) (hphase : run.phase.isAssembling = true) : .cancelled run.ctx.round ∉ h := by
    intro hmem
    rw [(hw.closed _ hmem).idle iid p hp run hcur rfl] at hphase
    cases hphase
  unfold Runtime.observed
  split
  · next c locked =>
    obtain ⟨hb, -⟩ := ite_ok_else_error.mp hs
    refine .inr ⟨_, rfl, trivial, ?_⟩
    rintro rid heq
    cases heq
    exact hw.confirmed c (of_decide_eq_true hb)
  · next iid =>
    obtain ⟨p, run, l, hp, hcur, hrunning, hl⟩ := hrun hs
    obtain ⟨hphase, -⟩ := ite_ok_else_error.mp hl
    rw [hrunning]
    exact .inr ⟨_, rfl, hbusy hp hcur (by rw [hphase]; rfl), fun rid heq => by cases heq⟩
  · next iid =>
    obtain ⟨p, run, l, hp, hcur, hrunning, hl⟩ := hrun hs
    obtain ⟨hphase, -⟩ := ite_ok_else_error.mp hl
    rw [hrunning]
    exact .inr ⟨_, rfl, hbusy hp hcur (by rw [hphase.1]; rfl), fun rid heq => by cases heq⟩
  · exact .inl rfl

/-- A candidate is confirmed by a probe that has found its container gone. -/
theorem confirmed_step (hs : w.step cfg nfc a = .ok w') {c : RoundCandidate} (hc : c ∈ w'.confirmed) :
    c ∈ w.confirmed ∨ ∃ iid p, a = .probe iid c ∧ w.procs.get? iid = some p ∧ p.containerAlive c.task = false ∧
      .cancelCancelling c ∈ w.world.jobs := by
  cases a with
  | background x =>
    obtain ⟨-, hs⟩ := ite_ok_else_error.mp hs
    obtain ⟨world, -, hs⟩ := bind_eq_ok.mp hs
    cases hs
    left
    change c ∈ x.unconfirm w.confirmed at hc
    unfold Action.unconfirm at hc
    split at hc
    · exact List.mem_of_mem_erase hc
    · exact hc
  | probe iid c' =>
    simp only [Runtime.step] at hs
    split at hs
    · cases hs
    · next p hp =>
      obtain ⟨hjob, hs⟩ := ite_ok_else_error.mp hs
      split at hs <;> cases hs
      · exact .inl hc
      · next hdead =>
        rcases List.mem_cons.mp hc with rfl | hc
        · exact .inr ⟨iid, p, rfl, hp, Bool.eq_false_iff.mpr hdead, hjob⟩
        · exact .inl hc
  | executor iid x =>
    simp only [Runtime.step] at hs
    split at hs
    · cases hs
    · obtain ⟨l, -, hs⟩ := bind_eq_ok.mp hs
      cases hs
      exact .inl hc
  | crash iid =>
    cases hs
    exact .inl hc
  | exit k =>
    obtain ⟨-, hs⟩ := ite_ok_else_error.mp hs
    cases hs
    exact .inl hc

theorem Runtime.Settled.step {h : List RoundSign} (hw : w.Settled h) (hG : w.AsksInTime a)
    (hs : w.step cfg nfc a = .ok w') : w'.Settled (h ++ w.observed a) := by
  have hconfirmed : ∀ c ∈ w'.confirmed, w'.Quiet c.round := by
    intro c hc
    rcases confirmed_step hs hc with hc | ⟨iid, p, rfl, hp, hdead, hjob⟩
    · exact (hw.confirmed c hc).step hw.sound hs
    · refine Runtime.Quiet.step ⟨hw.jobs c hjob, fun iid' p' hp' run hrun hround => ?_⟩ hw.sound hs
      refine hG (fun q hq => ?_) (iid', p') (Table.get?_eq_some_iff.mp hp') run hrun hround
      rw [hp] at hq
      cases hq
      exact hdead
  refine ⟨hw.sound.step hs, ceased_jobs hw.sound hw.jobs hs, hconfirmed, fun rid hrid => ?_, ?_⟩
  · rcases List.mem_append.mp hrid with hrid | hrid
    · exact (hw.closed rid hrid).step hw.sound hs
    · rcases hw.observed hs with hnil | ⟨m, hm, -, hquiet⟩
      · rw [hnil] at hrid
        cases hrid
      · rw [hm] at hrid
        exact (hquiet rid (List.mem_singleton.mp hrid).symm).step hw.sound hs
  · rcases hw.observed hs with hnil | ⟨m, hm, hallowed, -⟩
    · rw [hnil, List.append_nil]
      exact hw.orderly
    · rw [hm]
      exact hw.orderly.concat hallowed

end Steps

/-! ## Runs -/

section Runs

variable {cfg : Settings} {nfc : String → String} {w₀ : Runtime} {as : List RuntimeAction}

/-- In every run in which a container is found gone only when no process assembles its round, nothing is started or
prompted for a round that `reclaim_once` has closed. -/
theorem quiet_run (h₀ : w₀.Initial) (hG : (runtime cfg nfc).Guarded Runtime.AsksInTime w₀ as) :
    Orderly NothingAfter ((runtime cfg nfc).trace Runtime.observed w₀ as) :=
  (System.trace_invariant_of_guarded (S := runtime cfg nfc) (I := Runtime.Settled) (G := Runtime.AsksInTime)
    (fun _ _ _ _ hw hG hs => hw.step hG hs) h₀.settled hG).orderly

/-- The round is aborted, and closed by a cycle of its own process. -/
def abortAndReclaim : List RuntimeAction :=
  [.background (.request (.abort 1 10)), .background (.scan .reclaim), .probe 7 ⟨12, 10, 1⟩,
    .background (.perform (.cancelCancelling ⟨12, 10, 1⟩) [])]

/-- The container has died before the probe. -/
theorem quiet_run_eof : Orderly NothingAfter ((runtime {} id).trace Runtime.observed Runtime.small
    (promptedRun ++ [.executor 7 (.run .eof)] ++ abortAndReclaim)) :=
  quiet_run Runtime.small_initial (by decide +kernel)

/-- The probe comes while the round is being assembled. -/
theorem not_quiet_of_assembly : (runtime {} id).trace Runtime.observed Runtime.small
    (registeredRun ++ abortAndReclaim ++
      [.executor 7 (.run .createEngine), .executor 7 (.run .launch), .executor 7 (.run .prompt)]) =
    [.cancelled 12, .started 12, .prompted 12] := by
  decide +kernel

end Runs

end AgentCraft.Tasking
