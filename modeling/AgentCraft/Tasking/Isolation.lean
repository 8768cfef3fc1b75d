import AgentCraft.Tasking.Execution

/-!
# One container for each task

A run that has passed its recheck and a container whose agent has not settled act for a lease, whether the
lease is still held or not. The reclaim of an expired round asks nobody before it puts the round back, so that two
containers can work on one task. Where it waits until nobody acts for the task, and a process that gives up a round
takes its container along, all that acts for a task acts for the lease of its active round (`isolated_of_run`).
-/

namespace AgentCraft.Tasking

open AgentCraft.Relational AgentCraft.Transition

/-! ## Who acts -/

/-- The lease that the run of a process acts for. -/
def Process.acting? (p : Process) : Option RoundContext :=
  (p.current.filter (·.phase.isExecuting)).map (·.ctx)

/-- The containers whose agent has not settled. -/
def Runtime.working (w : Runtime) : List Container := w.containers.filter (!·.finished)

/-- The leases that somebody acts for. -/
def Runtime.acting (w : Runtime) : List RoundContext :=
  w.procs.rows.filterMap (·.2.acting?) ++ w.working.map (·.ctx)

/-- The transaction of the candidate would put its round back. -/
def Runtime.requeues (w : Runtime) (c : ExpiredCandidate) : Bool :=
  (w.world.db.tasks.get? c.task).any fun t => (t.rounds.find? c.fences).any (·.attempt < attemptLimit)

/-- An expired round is put back when nobody acts for its task, and a process that gives a round up leaves no
container at work. -/
def Runtime.Retires (w : Runtime) : RuntimeAction → Prop
  | .background (.perform (.reclaimExpired c) _) => w.requeues c = true → ∀ x ∈ w.acting, x.task ≠ c.task
  | .executor iid (.run (.release removed)) => removed = false →
      ∀ run ∈ w.running iid, ∀ k ∈ w.working, k.ctx ≠ run.ctx
  | _ => True

instance : ∀ w : Runtime, DecidablePred w.Retires := fun w a => by
  unfold Runtime.Retires
  split <;> infer_instance

/-- What acts for `c` may act: the task has ended, or runs, and a round of it that is active is the one of the
lease. -/
def Control.Holds (x : Control) (c : RoundContext) : Prop :=
  x.status.isTerminal = true ∨ x.status = .running ∧ ∀ r ∈ x.rounds, r.state.isActive = true →
    r.id = c.round ∧ r.leaseEpoch = c.epoch ∧ (r.state = .running → r.leaseOwner = some c.inst)

/-- The task of a lease, while it is there. -/
structure Db.Holds (db : Db) (c : RoundContext) : Prop where
  issued : c.task < db.nextId
  row : ∀ t, db.tasks.get? c.task = some t → t.ownerId = c.owner ∧ t.control.Holds c

/-- Whatever acts for a task acts for one lease, that of its active round, and at most one container works on the
task. -/
structure Runtime.Isolated (w : Runtime) : Prop where
  held : ∀ c ∈ w.acting, w.world.db.Holds c
  one : ∀ c ∈ w.acting, ∀ c' ∈ w.acting, c.task = c'.task → c = c'
  single : (w.working.map (·.ctx.task)).Nodup

/-! ## Leases under the transactions -/

section Rows

variable {n m : Uuid} {k : MoveKind} {x x' : Control} {q : Phase} {c : RoundContext} {db db' : Db}
  {expects : Expects} {tid : TaskId} {t t' : Task}

/-- A task that runs or has ended. -/
def Phase.isEngaged : Phase → Bool
  | .uploading | .queued | .ready => false
  | _ => true

theorem Phase.Step.isEngaged {p p' : Phase} (h : Phase.Step k p p') (hk : k ≠ .close true)
    (hp : p.isEngaged = true) : p'.isEngaged = true := by
  cases h with
  | settle | requeue => exact absurd rfl hk
  | reconcile pt => cases pt <;> rfl
  | _ => simp_all [Phase.isEngaged]

theorem Control.isEngaged_iff (hq : x.phase? = some q) :
    q.isEngaged = true ↔ x.status.isTerminal = true ∨ x.status = .running := by
  have hphase := Control.phase?_eq_some.mp hq
  cases q with
  | ended e => cases e <;> simp [Phase.isEngaged, hphase.1, Ending.status, TaskStatus.isTerminal]
  | _ => simp [Phase.isEngaged, hphase.1, TaskStatus.isTerminal]

/-- A lease is held until its round is given back. -/
theorem Control.Move.holds (h : Control.Move n m k x x') (hq : x.phase? = some q) (hk : k ≠ .close true)
    (hh : x.Holds c) : x'.Holds c := by
  obtain ⟨q', hq', hstep⟩ := h.simulates hq
  have hengaged : q.isEngaged = true := (Control.isEngaged_iff hq).mpr (hh.imp id And.left)
  rcases hh with hterm | ⟨-, hactive⟩
  · exact .inl (Control.status_isTerminal hq' (hstep.isTerminal (Control.isTerminal_of_status hq hterm).1))
  rcases (Control.isEngaged_iff hq').mp (hstep.isEngaged hk hengaged) with hterm | hrun
  · exact .inl hterm
  have hclaim : k ≠ .claim := by
    rintro rfl
    rw [(Phase.Step.claim_iff.mp hstep).1] at hengaged
    cases hengaged
  refine .inr ⟨hrun, fun r' hr' ha' => ?_⟩
  rcases h.rounds_step hq hr' with ⟨r, hr, hround⟩ | ⟨rid, mid, -, -, rfl⟩
  · obtain ⟨hid, hepoch, howner⟩ := hactive r hr (hround.isActive ha')
    refine ⟨hround.id_eq.trans hid, (hround.leaseEpoch_eq hclaim).trans hepoch, fun hst => ?_⟩
    cases hround with
    | refl => exact howner hst
    | renew _ e hs => exact howner hs
    | claim => exact absurd rfl hclaim
    | cancelling => cases hst
    | requeue _ _ hs ha =>
      rw [TaskRound.reclaim, reclaimOutcome, if_neg (Nat.not_le.mpr ha)] at hst
      cases hst
    | close _ _ s o e hs hc =>
      rw [show s = .running from hst] at hc
      cases hc
  · -- a task with a pending round is queued
    have hmem : RoundState.pending ∈ x'.activeStates :=
      List.mem_filter.mpr ⟨List.mem_map.mpr ⟨_, hr', rfl⟩, rfl⟩
    rw [(Control.eq_pending hq' (Control.activeStates_eq_of_mem hq' hmem)).2] at hrun
    cases hrun

theorem Db.Holds.moved (hh : db.Holds c) (hco : db.Coherent) (hm : Moved db db' k tid t t')
    (hk : tid = c.task → k ≠ .close true ∨ t'.control.Holds c) : db'.Holds c := by
  refine ⟨hh.issued.trans_le hm.nextId, fun x hx => ?_⟩
  by_cases heq : c.task = tid
  · subst heq
    rw [hm.get?_self] at hx
    cases hx
    obtain ⟨howner, hold⟩ := hh.row t hm.found
    obtain ⟨q, hq⟩ := hco.phases _ t hm.found
    refine ⟨hm.owner.trans howner, ?_⟩
    rcases hk rfl with hk | hheld
    · exact hm.control.holds hq hk hold
    · exact hheld
  · rw [hm.get?_ne heq] at hx
    exact hh.row x hx

theorem Db.Holds.change (hh : db.Holds c) (hco : db.Coherent) (hc : Change expects db db')
    (hback : ∀ tid t, ¬ expects (.close true) tid t) : db'.Holds c := by
  cases hc with
  | still htasks _ _ hid =>
    refine ⟨hh.issued.trans_le hid, fun x hx => hh.row x ?_⟩
    rw [← htasks]
    exact hx
  | born tid t hb =>
    refine ⟨hh.issued.trans_le (hb.nextId.1.trans hb.nextId.2.le), fun x hx => hh.row x ?_⟩
    rw [hb.get?, if_neg (hh.issued.trans_le hb.nextId.1).ne] at hx
    exact hx
  | moved k tid t t' hm hexp =>
    refine hh.moved hco hm fun _ => .inl ?_
    rintro rfl
    exact hback tid t hexp

theorem Db.Holds.changes (hh : db.Holds c) (hco : db.Coherent) (hc : Changes expects db db')
    (hback : ∀ tid t, ¬ expects (.close true) tid t) : db'.Holds c := by
  have hboth : db'.Coherent ∧ db'.Holds c := by
    induction hc with
    | refl => exact ⟨hco, hh⟩
    | tail _ hc ih => exact ⟨hc.coherent ih.1, ih.2.change ih.1 hc hback⟩
  exact hboth.2

theorem Db.Holds.of_rows (hh : db.Holds c) (hid : db'.nextId = db.nextId)
    (hrows : ∀ tid t, db'.tasks.get? tid = some t → db.tasks.get? tid = some t) : db'.Holds c :=
  ⟨hid ▸ hh.issued, fun t ht => hh.row t (hrows c.task t ht)⟩

/-- A round that the fence of a lease finds in a held task: the lease is the one. -/
theorem Db.Holds.eq_of_fences (hh : db.Holds c) (hco : db.Coherent) {y : RoundContext}
    (hvis : db.visibleTask y.owner y.task = some t) {r : TaskRound} (hr : r ∈ t.rounds)
    (hy : y.fences r = true) (htask : c.task = y.task) : c = y := by
  obtain ⟨hfound, howner⟩ := Db.visibleTask_eq_some.mp hvis
  obtain ⟨hown, hold⟩ := hh.row t (htask ▸ hfound)
  obtain ⟨q, hq⟩ := hco.phases _ t hfound
  simp only [RoundContext.fences, Bool.and_eq_true, decide_eq_true_eq] at hy
  obtain ⟨⟨⟨hid, hinst⟩, hepoch⟩, hst⟩ := hy
  have hrun := (Task.coupled_of_phase hq).running r hr hst
  rcases hold with hterm | ⟨-, hactive⟩
  · rw [show t.control.status = .running from hrun.1] at hterm
    cases hterm
  · obtain ⟨hid', hepoch', howner'⟩ := hactive r hr (by rw [hst]; rfl)
    have hinst' := Option.some.inj ((howner' hst).symm.trans hinst)
    cases c
    cases y
    simp only at *
    subst_vars
    rfl

/-- A lease that passes the recheck is held. -/
theorem holds_of_recheckRound (hco : db.Coherent) (h : recheckRound db c = true) : db.Holds c := by
  unfold recheckRound at h
  split at h
  · cases h
  · next t hvis =>
    obtain ⟨hfound, howner⟩ := Db.visibleTask_eq_some.mp hvis
    obtain ⟨r, hr, hc⟩ := List.any_eq_true.mp h
    obtain ⟨q, hq⟩ := hco.phases _ t hfound
    have hst := c.state_of_fences hc
    refine ⟨hco.issued _ t hfound, fun x hx => ?_⟩
    rw [hfound] at hx
    cases hx
    refine ⟨howner, .inr ⟨((Task.coupled_of_phase hq).running r hr hst).1, fun r' hr' ha' => ?_⟩⟩
    -- the only active round is the one that has been found
    have hmem {r : TaskRound} (hr : r ∈ t.rounds) (ha : r.state.isActive = true) :
        t.control.activeStates = [r.state] :=
      Control.activeStates_eq_of_mem hq (List.mem_filter.mpr ⟨List.mem_map.mpr ⟨r, hr, rfl⟩, ha⟩)
    have hsame := (hmem hr' ha').symm.trans (hmem hr (by rw [hst]; rfl))
    have hst' : r'.state = .running := (List.singleton_inj.mp hsame).trans hst
    have heq : r' = r := Control.Move.eq_of_fences (p := (·.state = .running)) (s := .running) hq (by simp) rfl
      hr' (by simpa using hst') hr (by simpa using hst)
    simp only [RoundContext.fences, Bool.and_eq_true, decide_eq_true_eq] at hc
    rw [heq]
    exact ⟨hc.1.1.1, hc.1.2, fun _ => hc.1.1.2⟩

theorem settle_fenced {pending : Option String} {finishReason usage : String}
    (h : settle db c pending finishReason usage = .ok db') :
    ∃ t r, db.visibleTask c.owner c.task = some t ∧ r ∈ t.rounds ∧ c.fences r = true := by
  unfold settle at h
  split at h
  · cases h
  · next t hvis =>
    obtain ⟨t', ht', -⟩ := bind_eq_ok.mp h
    unfold Task.settle at ht'
    split at ht'
    · cases ht'
    · next r hfind => exact ⟨t, r, hvis, List.mem_of_find?_eq_some hfind, List.find?_some hfind⟩

end Rows

/-! ## Who acts after a step -/

section Steps

variable {cfg : Settings} {nfc : String → String} {iid : InstanceId} {l l' : Local} {w w' : Runtime}
  {a : RuntimeAction} {c : RoundContext}

theorem Process.acting?_eq_some {p : Process} :
    p.acting? = some c ↔ ∃ run, p.current = some run ∧ run.phase.isExecuting = true ∧ run.ctx = c := by
  simp [Process.acting?, Option.map_eq_some_iff, Option.filter_eq_some_iff, and_assoc]

theorem Runtime.mem_working {k : Container} : k ∈ w.working ↔ k ∈ w.containers ∧ k.finished = false := by
  simp [Runtime.working]

theorem Runtime.mem_acting : c ∈ w.acting ↔
    (∃ iid p, w.procs.get? iid = some p ∧ p.acting? = some c) ∨ ∃ k ∈ w.working, k.ctx = c := by
  simp only [Runtime.acting, List.mem_append, List.mem_filterMap, List.mem_map, Table.get?_eq_some_iff,
    Prod.exists]

/-- The run of the process has started the container and waits for its agent. -/
def Process.Attends (p : Process) (k : Container) : Prop :=
  ∃ run, p.current = some run ∧ run.ctx = k.ctx ∧ (run.phase = .launched ∨ run.phase = .prompted)

/-- The agent of a lease settles. -/
theorem working_finish (ctx : RoundContext) (cs : List Container) :
    (cs.map fun k => if k.ctx = ctx then { k with finished := true } else k).filter (!·.finished) =
      (cs.filter (!·.finished)).filter (·.ctx ≠ ctx) := by
  induction cs with
  | nil => rfl
  | cons k cs ih =>
    rw [List.map_cons]
    by_cases hk : k.ctx = ctx
    · rw [if_pos hk, List.filter_cons_of_neg (by simp), ih]
      cases hf : k.finished
      · rw [List.filter_cons_of_pos (by simp [hf]), List.filter_cons_of_neg (by simp [hk])]
      · rw [List.filter_cons_of_neg (by simp [hf])]
    · rw [if_neg hk]
      cases hf : k.finished
      · rw [List.filter_cons_of_pos (by simp [hf]), List.filter_cons_of_pos (by simp [hf]),
          List.filter_cons_of_pos (by simp [hk]), ih]
      · rw [List.filter_cons_of_neg (by simp [hf]), List.filter_cons_of_neg (by simp [hf]), ih]

/-- What a step of a process does to the containers at work: only the start of one adds to them. -/
theorem ExecutorStep.exec_working {x : ExecutorStep} (h : x.exec cfg iid l = .ok l') :
    (l'.containers.filter (!·.finished)).Sublist (l.containers.filter (!·.finished)) ∨
      ∃ run, x = .run .launch ∧ l.proc.current = some run ∧ run.phase = .starting ∧
        l'.containers = ⟨run.ctx, false⟩ :: l.containers := by
  cases x with
  | run x =>
    simp only [ExecutorStep.exec] at h
    split at h
    · cases h
    · next run hcur =>
      cases x with
      | recheck =>
        obtain ⟨-, h⟩ := ite_ok_else_error.mp h
        split at h <;> cases h <;> exact .inl (List.Sublist.refl _)
      | launch =>
        obtain ⟨hphase, h⟩ := ite_ok_else_error.mp h
        cases h
        exact .inr ⟨run, rfl, hcur, hphase, rfl⟩
      | done =>
        obtain ⟨hphase, h⟩ := ite_ok_else_error.mp h
        cases h
        left
        dsimp only
        rw [working_finish]
        exact List.filter_sublist
      | beat =>
        obtain ⟨-, h⟩ := ite_ok_else_error.mp h
        split at h
        · cases h
          exact .inl (List.Sublist.refl _)
        · split at h <;> cases h <;> exact .inl (List.Sublist.refl _)
      | release removed =>
        cases h
        left
        dsimp only
        split
        · exact List.filter_sublist.filter _
        · exact List.Sublist.refl _
      | _ =>
        obtain ⟨-, h⟩ := ite_ok_else_error.mp h
        cases h
        exact .inl (List.Sublist.refl _)
  | notify | stopRound =>
    cases h
    exact .inl (List.Sublist.refl _)
  | pick | register =>
    simp only [ExecutorStep.exec] at h
    split at h
    · cases h
    · obtain ⟨-, h⟩ := ite_ok_else_error.mp h
      cases h
      exact .inl (List.Sublist.refl _)
  | enforceStop | enforceFail =>
    obtain ⟨-, h⟩ := ite_ok_else_error.mp h
    cases h
    exact .inl (List.Sublist.refl _)

/-- A process goes on attending to its container until the agent settles or the round is released. -/
theorem ExecutorStep.exec_attends {x : ExecutorStep} (h : x.exec cfg iid l = .ok l') {k : Container}
    (hk : k ∈ l'.containers.filter (!·.finished)) (hold : l.proc.Attends k)
    (hrelease : x = .run (.release false) → ∀ run ∈ l.proc.current, k.ctx ≠ run.ctx) : l'.proc.Attends k := by
  obtain ⟨run, hcur, hctx, hphase⟩ := hold
  have hkept {p : Process} (hp : p.current = l.proc.current) : p.Attends k :=
    ⟨run, hp.trans hcur, hctx, hphase⟩
  have hstop (rid : RoundId) : (l.proc.stopRound rid).Attends k := by
    refine ⟨if run.ctx.round = rid && run.phase.isLaunched then { run with stopped := true } else run, ?_, ?_, ?_⟩
    · rw [Process.stopRound, hcur]
      rfl
    · split <;> exact hctx
    · split <;> exact hphase
  cases x with
  | notify tid =>
    cases h
    exact hkept rfl
  | stopRound rid =>
    cases h
    exact hstop rid
  | pick =>
    simp only [ExecutorStep.exec] at h
    split at h
    · cases h
    · obtain ⟨-, h⟩ := ite_ok_else_error.mp h
      cases h
      exact hkept rfl
  | register =>
    simp only [ExecutorStep.exec] at h
    split at h
    · cases h
    · obtain ⟨hnone, h⟩ := ite_ok_else_error.mp h
      rw [hcur] at hnone
      cases hnone
  | enforceStop c =>
    obtain ⟨-, h⟩ := ite_ok_else_error.mp h
    cases h
    exact hstop c.round
  | enforceFail c =>
    obtain ⟨-, h⟩ := ite_ok_else_error.mp h
    cases h
    exact hkept rfl
  | run x =>
    simp only [ExecutorStep.exec, hcur] at h
    cases x with
    | fact author content =>
      obtain ⟨-, h⟩ := ite_ok_else_error.mp h
      cases h
      exact hkept rfl
    | prompt =>
      obtain ⟨-, h⟩ := ite_ok_else_error.mp h
      cases h
      exact ⟨_, rfl, hctx, .inr rfl⟩
    | eof =>
      obtain ⟨-, h⟩ := ite_ok_else_error.mp h
      cases h
      exact ⟨_, rfl, hctx, hphase⟩
    | done =>
      obtain ⟨-, h⟩ := ite_ok_else_error.mp h
      cases h
      dsimp only at hk
      rw [working_finish, List.mem_filter] at hk
      exact absurd hctx.symm (of_decide_eq_true hk.2)
    | beat =>
      obtain ⟨-, h⟩ := ite_ok_else_error.mp h
      split at h
      · cases h
        exact ⟨_, rfl, hctx, hphase⟩
      · split at h <;> cases h
        · exact hkept rfl
        · exact ⟨_, rfl, hctx, hphase⟩
    | release removed =>
      cases h
      cases removed with
      | false => exact absurd hctx.symm (hrelease rfl run hcur)
      | true =>
        have hengine : run.phase.hasEngine = true := by rcases hphase with h | h <;> rw [h] <;> rfl
        simp only [hengine, Bool.and_true, if_true, List.mem_filter] at hk
        exact absurd hctx.symm (of_decide_eq_true hk.1.2)
    | _ =>
      -- the run is past these steps
      obtain ⟨hother, h⟩ := ite_ok_else_error.mp h
      rw [hother] at hphase
      simp at hphase

/-- What is known of the processes besides: they work for leases of their own, and a container at work has a process
that attends to it, unless that process has crashed. -/
structure Runtime.Tended (w : Runtime) : Prop where
  sound : w.Sound
  isolated : w.Isolated
  inst : ∀ iid p, w.procs.get? iid = some p →
    (∀ run ∈ p.current, run.ctx.inst = iid) ∧ ∀ c ∈ p.claimed, c.inst = iid
  attended : ∀ k ∈ w.working, ∀ p ∈ w.procs.get? k.ctx.inst, p.Attends k

theorem Runtime.Initial.tended (h₀ : w.Initial) : w.Tended := by
  have hno : w.acting = [] := by
    refine List.eq_nil_iff_forall_not_mem.mpr fun c hc => ?_
    rcases Runtime.mem_acting.mp hc with ⟨iid, p, hp, hact⟩ | ⟨k, hk, -⟩
    · rw [h₀.procs iid p hp] at hact
      cases hact
    · rw [Runtime.mem_working, h₀.containers] at hk
      cases hk.1
  have hworking : w.working = [] := by rw [Runtime.working, h₀.containers]; rfl
  refine ⟨h₀.sound, ⟨?_, ?_, ?_⟩, fun iid p hp => ?_, ?_⟩
  · rw [hno]
    intro c hc
    cases hc
  · rw [hno]
    intro c hc
    cases hc
  · rw [hworking]
    exact List.nodup_nil
  · obtain ⟨hcur, hclaimed⟩ := h₀.idle hp
    rw [hcur, hclaimed]
    refine ⟨fun run hrun => ?_, fun c hc => ?_⟩
    · cases hrun
    · cases hc
  · rw [hworking]
    intro k hk
    cases hk

theorem RunPhase.isExecuting_of_next? {x y : RunPhase} (h : x.next? = some y) (hy : y.isExecuting = true)
    (hx : x ≠ .registered) : x.isExecuting = true := by
  cases x with
  | registered => exact absurd rfl hx
  | assembling | starting | launched | prompted => rfl
  | settling =>
    cases h
    cases hy
  | closing => cases h

/-- Containers go to work when a process starts them, in no other way. -/
theorem working_step (h : w.step cfg nfc a = .ok w') : w'.working.Sublist w.working ∨
    ∃ iid p run, a = .executor iid (.run .launch) ∧ w.procs.get? iid = some p ∧ p.current = some run ∧
      run.phase = .starting ∧ w'.working = ⟨run.ctx, false⟩ :: w.working := by
  cases a with
  | background a =>
    obtain ⟨-, h⟩ := ite_ok_else_error.mp h
    obtain ⟨world, -, h⟩ := bind_eq_ok.mp h
    cases h
    exact .inl (List.Sublist.refl _)
  | probe iid c =>
    simp only [Runtime.step] at h
    split at h
    · cases h
    · obtain ⟨-, h⟩ := ite_ok_else_error.mp h
      split at h <;> cases h <;> exact .inl (List.Sublist.refl _)
  | executor iid x =>
    simp only [Runtime.step] at h
    split at h
    · cases h
    · next p hp =>
      obtain ⟨l, hl, h⟩ := bind_eq_ok.mp h
      cases h
      rcases ExecutorStep.exec_working hl with hsub | ⟨run, rfl, hcur, hphase, hnew⟩
      · exact .inl hsub
      · refine .inr ⟨iid, p, run, rfl, hp, hcur, hphase, ?_⟩
        rw [Runtime.working, Runtime.working, hnew]
        rfl
  | crash iid =>
    cases h
    exact .inl (List.Sublist.refl _)
  | exit k =>
    obtain ⟨-, h⟩ := ite_ok_else_error.mp h
    cases h
    exact .inl (List.erase_sublist.filter _)

/-- The step by which a run passes its recheck writes nothing. -/
theorem ExecutorStep.exec_db_of_recheck {x : ExecutorStep} (h : x.exec cfg iid l = .ok l') {run run' : RoundRun}
    (hcur : l.proc.current = some run) (hreg : run.phase = .registered) (hcur' : l'.proc.current = some run')
    (hmoved : run'.phase ≠ .registered) : l'.db = l.db := by
  have hsame {p : Process} (hp : p.current = l.proc.current) (hp' : p.current = some run') : l'.db = l.db := by
    rw [hp, hcur] at hp'
    cases hp'
    exact absurd hreg hmoved
  cases x with
  | run x =>
    simp only [ExecutorStep.exec, hcur] at h
    cases x with
    | recheck =>
      obtain ⟨-, h⟩ := ite_ok_else_error.mp h
      split at h <;> cases h <;> rfl
    | release removed =>
      cases h
      rfl
    | beat =>
      obtain ⟨-, h⟩ := ite_ok_else_error.mp h
      split at h
      · cases h
        rfl
      · split at h <;> cases h
        · exact hsame rfl hcur'
        · rfl
    | prompt =>
      obtain ⟨-, h⟩ := ite_ok_else_error.mp h
      cases h
      rfl
    | eof =>
      obtain ⟨-, h⟩ := ite_ok_else_error.mp h
      cases h
      rfl
    | _ =>
      obtain ⟨hphase, -⟩ := ite_ok_else_error.mp h
      rw [hreg] at hphase
      cases hphase
  | enforceFail c =>
    obtain ⟨-, h⟩ := ite_ok_else_error.mp h
    cases h
    exact hsame rfl hcur'
  | notify | stopRound =>
    cases h
    rfl
  | pick | register =>
    simp only [ExecutorStep.exec] at h
    split at h
    · cases h
    · obtain ⟨-, h⟩ := ite_ok_else_error.mp h
      cases h
      rfl
  | enforceStop c =>
    obtain ⟨-, h⟩ := ite_ok_else_error.mp h
    cases h
    rfl

/-- Who acts for a lease after a step has acted for it before, or has just passed the recheck. -/
theorem acting_step (h : w.step cfg nfc a = .ok w') (hc : c ∈ w'.acting) :
    c ∈ w.acting ∨ recheckRound w.world.db c = true ∧ w'.world.db = w.world.db := by
  have hprocs {iid : InstanceId} {p' : Process} (hp' : w'.procs.get? iid = some p')
      (hact : p'.acting? = some c) :
      c ∈ w.acting ∨ recheckRound w.world.db c = true ∧ w'.world.db = w.world.db := by
    rcases Runtime.step_proc h hp' with hp | ⟨x, p, l, -, hp, hl, rfl, hworld, -⟩
    · exact .inl (Runtime.mem_acting.mpr (.inl ⟨iid, p', hp, hact⟩))
    · obtain ⟨run', hcur', hexec, rfl⟩ := Process.acting?_eq_some.mp hact
      rcases ExecutorStep.exec_current (l := ⟨p, w.world.db, w.containers⟩) hl hcur' with
        ⟨hphase, -⟩ | ⟨run, hcur, hctx, hphase, hcheck⟩
      · rw [hphase] at hexec
        cases hexec
      · by_cases hreg : run.phase = .registered
        · have hmoved : run'.phase ≠ .registered := fun heq => by
            rw [heq] at hexec
            cases hexec
          refine .inr ⟨hctx ▸ hcheck hreg hmoved, ?_⟩
          rw [hworld]
          exact ExecutorStep.exec_db_of_recheck (l := ⟨p, w.world.db, w.containers⟩) hl hcur hreg hcur' hmoved
        · refine .inl (Runtime.mem_acting.mpr (.inl ⟨iid, p, hp, Process.acting?_eq_some.mpr
            ⟨run, hcur, ?_, hctx.symm⟩⟩))
          rcases hphase with hphase | hphase
          · rw [← hphase]
            exact hexec
          · exact RunPhase.isExecuting_of_next? hphase hexec hreg
  rcases Runtime.mem_acting.mp hc with ⟨iid, p', hp', hact⟩ | ⟨k, hk, rfl⟩
  · exact hprocs hp' hact
  · rcases working_step h with hsub | ⟨iid, p, run, -, hp, hcur, hphase, hworking⟩
    · exact .inl (Runtime.mem_acting.mpr (.inr ⟨k, hsub.subset hk, rfl⟩))
    · rw [hworking] at hk
      rcases List.mem_cons.mp hk with rfl | hk
      · refine .inl (Runtime.mem_acting.mpr (.inl ⟨iid, p, hp, Process.acting?_eq_some.mpr ⟨run, hcur, ?_, rfl⟩⟩))
        rw [hphase]
        rfl
      · exact .inl (Runtime.mem_acting.mpr (.inr ⟨k, hk, rfl⟩))

/-- Settlement and reclaim give a round back. -/
def Action.givesBack : Action → Bool
  | .write (.settle ..) | .perform (.reclaimExpired _) _ => true
  | _ => false

theorem Action.not_expects_back {x : Action} {db : Db} (h : x.givesBack = false) (tid : TaskId) (t : Task) :
    ¬ x.Expects db (.close true) tid t := by
  intro hexp
  cases x with
  | write y =>
    cases y with
    | settle => cases h
    | _ => exact hexp
  | perform j locked =>
    cases j with
    | reclaimExpired => cases h
    | _ => exact hexp
  | _ => exact hexp

/-- The transactions that give no round back leave every lease held. -/
theorem Db.Holds.step {world world' : World} {x : Action} (hh : world.db.Holds c) (hco : world.Coherent)
    (hx : x.givesBack = false) (h : Tasking.step cfg nfc world x = .ok world') : world'.db.Holds c := by
  rcases step_changes hco.db hco.jobs h with hc | ⟨u, ids, locked, -, -, hdb⟩
  · exact hh.changes hco.db hc (Action.not_expects_back hx)
  · rw [hdb]
    exact hh.of_rows (terminateTasksHook_frame _ _ _).2 fun _ _ => terminateTasksHook_row_of u ids

/-- The write that a step of a process attempts: a settlement is that of its run. -/
theorem ExecutorStep.exec_settles {x : ExecutorStep} (nfc : String → String) (h : x.exec cfg iid l = .ok l') :
    l'.db = l.db ∨ (∃ y, (Action.write y).givesBack = false ∧ y.exec cfg nfc l.db = .ok l'.db) ∨
      ∃ run pending finishReason usage, l.proc.current = some run ∧ run.phase = .settling ∧
        Tasking.settle l.db run.ctx pending finishReason usage = .ok l'.db := by
  cases x with
  | run x =>
    simp only [ExecutorStep.exec] at h
    split at h
    · cases h
    · next run hcur =>
      cases x with
      | settle pending finishReason usage =>
        obtain ⟨hphase, h⟩ := ite_ok_else_error.mp h
        cases h
        exact (l.db.attempt_cases _).imp id fun h => .inr ⟨run, pending, finishReason, usage, hcur, hphase, h⟩
      | fact author content =>
        obtain ⟨-, h⟩ := ite_ok_else_error.mp h
        cases h
        exact (l.db.attempt_cases _).imp id fun h => .inl ⟨.fact run.ctx author content, rfl, h⟩
      | beat =>
        obtain ⟨-, h⟩ := ite_ok_else_error.mp h
        split at h
        · cases h
          exact .inl rfl
        · split at h
          · next db hdb =>
            cases h
            exact .inr (.inl ⟨.renew run.ctx, rfl, hdb⟩)
          · cases h
            exact .inl rfl
      | recheck =>
        obtain ⟨-, h⟩ := ite_ok_else_error.mp h
        split at h <;> cases h <;> exact .inl rfl
      | release removed =>
        cases h
        exact .inl rfl
      | _ =>
        obtain ⟨-, h⟩ := ite_ok_else_error.mp h
        cases h
        exact .inl rfl
  | enforceFail c =>
    obtain ⟨-, h⟩ := ite_ok_else_error.mp h
    cases h
    exact (l.db.attempt_cases _).imp id fun h => .inl ⟨.deadline c, rfl, h⟩
  | notify | stopRound =>
    cases h
    exact .inl rfl
  | pick | register =>
    simp only [ExecutorStep.exec] at h
    split at h
    · cases h
    · obtain ⟨-, h⟩ := ite_ok_else_error.mp h
      cases h
      exact .inl rfl
  | enforceStop c =>
    obtain ⟨-, h⟩ := ite_ok_else_error.mp h
    cases h
    exact .inl rfl

/-- A run that settles has nobody act for its lease any more. -/
theorem Runtime.Tended.not_acting (hw : w.Tended) {p : Process} {run : RoundRun}
    (hp : w.procs.get? iid = some p) (hcur : p.current = some run) (hphase : run.phase = .settling) :
    run.ctx ∉ w.acting := by
  intro hact
  have hinst := (hw.inst iid p hp).1 run hcur
  rcases Runtime.mem_acting.mp hact with ⟨iid', p', hp', hact'⟩ | ⟨k, hk, hctx⟩
  · obtain ⟨run', hcur', hexec, hctx⟩ := Process.acting?_eq_some.mp hact'
    have hsame : iid' = iid := by rw [← (hw.inst iid' p' hp').1 run' hcur', hctx, hinst]
    subst hsame
    rw [hp] at hp'
    cases hp'
    rw [hcur] at hcur'
    cases hcur'
    rw [hphase] at hexec
    cases hexec
  · obtain ⟨run', hcur', -, hphase'⟩ := hw.attended k hk p (by rw [hctx, hinst]; exact hp)
    rw [hcur] at hcur'
    cases hcur'
    rw [hphase] at hphase'
    simp at hphase'

/-- A lease that somebody acts for stays held. -/
theorem held_step (hw : w.Tended) (hR : w.Retires a) (h : w.step cfg nfc a = .ok w') (hc : c ∈ w.acting) :
    w'.world.db.Holds c := by
  have hh := hw.isolated.held c hc
  have hco := hw.sound.coherent
  cases a with
  | background x =>
    obtain ⟨hb, h⟩ := ite_ok_else_error.mp h
    obtain ⟨world, hworld, h⟩ := bind_eq_ok.mp h
    cases h
    by_cases hx : x.givesBack = false
    · exact hh.step hco hx hworld
    · obtain ⟨y, locked, rfl⟩ : ∃ y locked, x = .perform (.reclaimExpired y) locked := by
        cases x with
        | write y => cases y <;> first | exact absurd rfl hx | cases hb
        | perform j locked =>
          cases j with
          | reclaimExpired y => exact ⟨y, locked, rfl⟩
          | _ => exact absurd rfl hx
        | _ => exact absurd rfl hx
      obtain ⟨-, hworld⟩ := ite_ok_else_error.mp hworld
      obtain ⟨db', hdb, hworld⟩ := bind_eq_ok.mp hworld
      cases hworld
      obtain ⟨t, t', r, hfind, hst, -, hm⟩ := reclaimExpired_moved hdb
      refine hh.moved hco.db hm fun htask => .inr (.inl ?_)
      by_cases hlimit : r.attempt < attemptLimit
      · have hrequeues : w.requeues y = true := by
          simp only [Runtime.requeues, hm.found, hfind, Option.any_some, hlimit, decide_true]
        exact absurd htask.symm (hR hrequeues c hc)
      · show t'.status.isTerminal = true
        rw [hst, reclaimOutcome, if_pos (Nat.not_lt.mp hlimit)]
        rfl
  | probe iid y =>
    simp only [Runtime.step] at h
    split at h
    · cases h
    · obtain ⟨-, h⟩ := ite_ok_else_error.mp h
      split at h <;> cases h <;> exact hh
  | executor iid x =>
    simp only [Runtime.step] at h
    split at h
    · cases h
    · next p hp =>
      obtain ⟨l, hl, h⟩ := bind_eq_ok.mp h
      cases h
      rcases ExecutorStep.exec_settles nfc hl with hdb | ⟨y, hy, hdb⟩ | ⟨run, pending, finish, usage, hcur, hphase, hdb⟩
      · exact hdb ▸ hh
      · have hstep : Tasking.step cfg nfc w.world (.write y) = .ok { w.world with db := l.db } := by
          show (y.exec cfg nfc w.world.db >>= fun db => pure { w.world with db := db }) = _
          rw [hdb]
          rfl
        exact hh.step hco hy hstep
      · obtain ⟨t, t', -, -, hm⟩ := settle_moved (fun t ht => hco.db.phases _ t ht) hdb
        refine hh.moved hco.db hm fun htask => ?_
        obtain ⟨s, r, hvis, hr, hfence⟩ := settle_fenced hdb
        have heq := hh.eq_of_fences hco.db hvis hr hfence htask.symm
        exact absurd (heq ▸ hc) (hw.not_acting hp hcur hphase)
  | crash iid =>
    cases h
    exact hh
  | exit k =>
    obtain ⟨-, h⟩ := ite_ok_else_error.mp h
    cases h
    exact hh

theorem Db.Holds.eq_of_recheck {db : Db} (hh : db.Holds c) (hco : db.Coherent) {y : RoundContext}
    (hy : recheckRound db y = true) (htask : c.task = y.task) : c = y := by
  unfold recheckRound at hy
  split at hy
  · cases hy
  · next t hvis =>
    obtain ⟨r, hr, hfence⟩ := List.any_eq_true.mp hy
    exact hh.eq_of_fences hco hvis hr hfence htask

theorem ExecutorStep.exec_claimed {x : ExecutorStep} (h : x.exec cfg iid l = .ok l')
    (hold : ∀ c ∈ l.proc.claimed, c.inst = iid) : ∀ c ∈ l'.proc.claimed, c.inst = iid := by
  cases x with
  | pick =>
    simp only [ExecutorStep.exec] at h
    split at h
    · cases h
    · next tid rest hqueue =>
      obtain ⟨-, h⟩ := ite_ok_else_error.mp h
      cases h
      intro c hc
      change c ∈ scanClaimed l.db tid iid at hc
      unfold scanClaimed at hc
      split at hc
      · cases hc
      · obtain ⟨r, -, rfl⟩ := List.mem_map.mp hc
        rfl
  | register =>
    simp only [ExecutorStep.exec] at h
    split at h
    · cases h
    · next c rest hclaimed =>
      obtain ⟨-, h⟩ := ite_ok_else_error.mp h
      cases h
      exact fun c' hc' => hold c' (by rw [hclaimed]; exact List.mem_cons_of_mem _ hc')
  | run x =>
    have hproc : l'.proc.claimed = l.proc.claimed := by
      simp only [ExecutorStep.exec] at h
      split at h
      · cases h
      · next run hcur =>
        cases x with
        | recheck =>
          obtain ⟨-, h⟩ := ite_ok_else_error.mp h
          split at h <;> cases h <;> rfl
        | beat =>
          obtain ⟨-, h⟩ := ite_ok_else_error.mp h
          split at h
          · cases h
            rfl
          · split at h <;> cases h <;> rfl
        | release removed =>
          cases h
          rfl
        | _ =>
          obtain ⟨-, h⟩ := ite_ok_else_error.mp h
          cases h
          rfl
    rw [hproc]
    exact hold
  | notify | stopRound =>
    cases h
    exact hold
  | enforceStop | enforceFail =>
    obtain ⟨-, h⟩ := ite_ok_else_error.mp h
    cases h
    exact hold

/-- The process that starts a container attends to it. -/
theorem launch_attends {p p' : Process} {run : RoundRun} (h : w.step cfg nfc (.executor iid (.run .launch)) = .ok w')
    (hp : w.procs.get? iid = some p) (hcur : p.current = some run) (hphase : run.phase = .starting)
    (hp' : w'.procs.get? iid = some p') : p'.Attends ⟨run.ctx, false⟩ := by
  simp only [Runtime.step, hp] at h
  obtain ⟨l, hl, h⟩ := bind_eq_ok.mp h
  cases h
  simp only [ExecutorStep.exec, hcur, RunStep.exec, hphase, if_true] at hl
  cases hl
  rw [Table.get?_set_self hp] at hp'
  cases hp'
  exact ⟨_, rfl, rfl, .inl rfl⟩

theorem Runtime.Tended.step (hw : w.Tended) (hR : w.Retires a) (h : w.step cfg nfc a = .ok w') : w'.Tended := by
  have hco := hw.sound.coherent.db
  have hbefore {c : RoundContext} (hc : c ∈ w'.acting) : w.world.db.Holds c := by
    rcases acting_step h hc with hc | ⟨hcheck, -⟩
    · exact hw.isolated.held c hc
    · exact holds_of_recheckRound hco hcheck
  have hone : ∀ c ∈ w'.acting, ∀ c' ∈ w'.acting, c.task = c'.task → c = c' := by
    intro c hc c' hc' htask
    rcases acting_step h hc' with hold' | ⟨hcheck', -⟩
    · rcases acting_step h hc with hold | ⟨hcheck, -⟩
      · exact hw.isolated.one c hold c' hold' htask
      · exact ((hbefore hc').eq_of_recheck hco hcheck htask.symm).symm
    · exact (hbefore hc).eq_of_recheck hco hcheck' htask
  refine ⟨hw.sound.step h, ⟨fun c hc => ?_, hone, ?_⟩, fun iid p' hp' => ?_, fun k hk p' hp' => ?_⟩
  · rcases acting_step h hc with hold | ⟨hcheck, hdb⟩
    · exact held_step hw hR h hold
    · rw [hdb]
      exact holds_of_recheckRound hco hcheck
  · rcases working_step h with hsub | ⟨iid, p, run, -, hp, hcur, hphase, hworking⟩
    · exact hw.isolated.single.sublist (hsub.map _)
    · rw [hworking, List.map_cons, List.nodup_cons]
      refine ⟨fun hmem => ?_, hw.isolated.single⟩
      obtain ⟨k, hk, htask⟩ := List.mem_map.mp hmem
      have hrun : run.ctx ∈ w.acting := Runtime.mem_acting.mpr (.inl ⟨iid, p, hp,
        Process.acting?_eq_some.mpr ⟨run, hcur, by rw [hphase]; rfl, rfl⟩⟩)
      have hctx := hw.isolated.one k.ctx (Runtime.mem_acting.mpr (.inr ⟨k, hk, rfl⟩)) run.ctx hrun htask
      obtain ⟨run', hcur', -, hphase'⟩ := hw.attended k hk p (by
        rw [hctx, (hw.inst iid p hp).1 run hcur]
        exact hp)
      rw [hcur] at hcur'
      cases hcur'
      rw [hphase] at hphase'
      simp at hphase'
  · rcases Runtime.step_proc h hp' with hp | ⟨x, p, l, -, hp, hl, rfl, -, -⟩
    · exact hw.inst iid p' hp
    · obtain ⟨hrun, hclaimed⟩ := hw.inst iid p hp
      refine ⟨fun run' hcur' => ?_, ExecutorStep.exec_claimed (l := ⟨p, w.world.db, w.containers⟩) hl hclaimed⟩
      rcases ExecutorStep.exec_current (l := ⟨p, w.world.db, w.containers⟩) hl hcur' with
        ⟨-, hmem⟩ | ⟨run, hcur, hctx, -, -⟩
      · exact hclaimed _ hmem
      · rw [hctx]
        exact hrun run hcur
  · have hold (hbefore : k ∈ w.working) : p'.Attends k := by
      rcases Runtime.step_proc h hp' with hp | ⟨x, p, l, rfl, hp, hl, rfl, -, hcontainers⟩
      · exact hw.attended k hbefore p' hp
      · refine ExecutorStep.exec_attends (l := ⟨p, w.world.db, w.containers⟩) hl ?_ (hw.attended k hbefore p hp) ?_
        · rw [← hcontainers]
          exact hk
        · rintro rfl run hcur
          exact hR rfl run (by rw [Runtime.running, hp]; exact hcur) k hbefore
    rcases working_step h with hsub | ⟨iid, p, run, rfl, hp, hcur, hphase, hworking⟩
    · exact hold (hsub.subset hk)
    · rw [hworking] at hk
      rcases List.mem_cons.mp hk with rfl | hk
      · have hinst : run.ctx.inst = iid := (hw.inst iid p hp).1 run hcur
        rw [show (Container.mk run.ctx false).ctx.inst = iid from hinst] at hp'
        exact launch_attends h hp hcur hphase hp'
      · exact hold hk

end Steps

/-! ## Runs -/

section Runs

variable {cfg : Settings} {nfc : String → String} {w₀ : Runtime} {as : List RuntimeAction}

/-- In every run in which expired rounds are put back only when nobody acts for their task, and rounds are given up
together with their containers, whatever acts for a task acts for the lease of its active round, in one container at
most. -/
theorem isolated_of_run (h₀ : w₀.Initial) (hG : (runtime cfg nfc).Guarded Runtime.Retires w₀ as) :
    ((runtime cfg nfc).run w₀ as).Isolated :=
  (System.invariant_run_of_guarded (S := runtime cfg nfc) (I := Runtime.Tended) (G := Runtime.Retires)
    (fun _ _ _ hw hR h => hw.step hR h) h₀.tended hG).isolated

/-- The process crashes, its container exits, and the round is put back and run by the other process. -/
def retriedRun : List RuntimeAction :=
  promptedRun ++ [.crash 7, .exit ⟨⟨12, 10, 1, 7, 1⟩, false⟩, .background (.tick 1000), .background (.scan .reclaim),
    .background (.perform (.reclaimExpired ⟨12, 10, 1, some 7, 1⟩) []), .background (.scan (.dispatch 8)),
    .background (.perform (.dispatch 8 ⟨12, 10, 1⟩) []), .executor 8 (.notify 10), .executor 8 .pick,
    .executor 8 .register, .executor 8 (.run .recheck), .executor 8 (.run .createEngine), .executor 8 (.run .launch)]

theorem isolated_of_run_retried : ((runtime {} id).run Runtime.small retriedRun).Isolated :=
  isolated_of_run Runtime.small_initial (by decide +kernel)

/-- The same without the exit: the reclaim does not look for the container. -/
theorem not_isolated_of_crash : ¬ ((runtime {} id).run Runtime.small (retriedRun.eraseIdx 12)).Isolated := by
  intro h
  have hone := h.single
  revert hone
  decide +kernel

end Runs

end AgentCraft.Tasking
