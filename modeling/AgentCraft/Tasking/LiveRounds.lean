import AgentCraft.Tasking.Coupling

/-!
# What ends a running round

`_assert_round_live` asks whether a round runs at an epoch. Only the transactions of `Action.endsRound`
make the answer go from yes to no: every other one addresses another task, needs a status in which no
round runs, or leaves the rounds alone.
-/

namespace AgentCraft.Tasking

open AgentCraft.Relational AgentCraft.Transition

/-- The task runs the round of `c` at its epoch. -/
def Task.Runs (t : Task) (c : RoundContext) : Prop := ∃ r ∈ t.rounds, r.runsAt c.round c.epoch = true

/-- The transactions that end the running round of the task of `c`. -/
def Action.endsRound (c : RoundContext) : Action → Bool
  | .request (.abort _ tid) | .request (.complete _ tid) | .request (.delete _ tid) => tid = c.task
  | .write (.settle x ..) | .write (.deadline x) => x.task = c.task
  | .perform (.reclaimExpired x) _ => x.task = c.task
  | .perform (.terminate _ x) _ => x.task = c.task
  | .perform (.terminateUser u _) _ => u = c.owner
  | _ => false

theorem assertRoundLive_iff {db : Db} {c : RoundContext} :
    assertRoundLive db c = true ↔ ∃ t, db.visibleTask c.owner c.task = some t ∧ t.Runs c := by
  unfold assertRoundLive
  split
  · next hnone => simp [hnone]
  · next t ht =>
    rw [List.any_eq_true]
    constructor
    · intro hr
      exact ⟨t, ht, hr⟩
    · rintro ⟨t', ht', hr⟩
      rw [ht] at ht'
      cases ht'
      exact hr

section Rows

variable {db db' : Db} {c : RoundContext} {k : MoveKind} {tid : TaskId} {t t' : Task} {q : Phase}

/-- A task with a running round executes. -/
theorem Task.Runs.executing (hr : t.Runs c) (hq : t.control.phase? = some q) :
    q = .executing ∧ t.status = .running ∧ t.control.activeStates = [.running] := by
  obtain ⟨r, hr, hruns⟩ := hr
  simp only [TaskRound.runsAt, Bool.and_eq_true, decide_eq_true_eq] at hruns
  have hmem : RoundState.running ∈ t.control.activeStates :=
    List.mem_filter.mpr ⟨List.mem_map.mpr ⟨r, hr, hruns.2⟩, rfl⟩
  have hactive := Control.activeStates_eq_of_mem hq hmem
  obtain ⟨hphase, hst, -⟩ := Control.eq_executing hq hactive
  exact ⟨hphase, hst, hactive⟩

theorem live_of_tasks (h : db'.tasks = db.tasks) (hl : assertRoundLive db c = true) :
    assertRoundLive db' c = true := by
  obtain ⟨t, hvis, hr⟩ := assertRoundLive_iff.mp hl
  refine assertRoundLive_iff.mpr ⟨t, ?_, hr⟩
  rw [Db.visibleTask_eq_some] at hvis ⊢
  rw [h]
  exact hvis

/-- One row is written; if it is the row of `c`, it keeps running the round. -/
theorem live_of_set {s : Task} (htasks : db'.tasks = db.tasks.set tid s)
    (hfound : db.tasks.get? tid = some t) (howner : s.ownerId = t.ownerId)
    (hkeep : tid = c.task → t.Runs c → s.Runs c) (hl : assertRoundLive db c = true) :
    assertRoundLive db' c = true := by
  obtain ⟨x, hvis, hr⟩ := assertRoundLive_iff.mp hl
  obtain ⟨hx, hown⟩ := Db.visibleTask_eq_some.mp hvis
  by_cases heq : tid = c.task
  · subst heq
    rw [hfound] at hx
    cases hx
    refine assertRoundLive_iff.mpr ⟨s, Db.visibleTask_eq_some.mpr ⟨?_, howner.trans hown⟩,
      hkeep rfl hr⟩
    rw [htasks]
    exact Table.get?_set_self hfound s
  · refine assertRoundLive_iff.mpr ⟨x, Db.visibleTask_eq_some.mpr ⟨?_, hown⟩, hr⟩
    rw [htasks, Table.get?_set_ne _ (Ne.symm heq)]
    exact hx

theorem live_of_moved (hm : Moved db db' k tid t t') (hkeep : tid = c.task → t.Runs c → t'.Runs c)
    (hl : assertRoundLive db c = true) : assertRoundLive db' c = true :=
  live_of_set hm.written hm.found hm.owner hkeep hl

/-- A row whose rounds are rewritten by `f`, which keeps those that run. -/
theorem Task.Runs.of_rounds (f : TaskRound → TaskRound)
    (hf : ∀ r, r.runsAt c.round c.epoch = true → (f r).runsAt c.round c.epoch = true)
    (h : ∀ r ∈ t.rounds, f r ∈ t'.rounds) (hr : t.Runs c) : t'.Runs c := by
  obtain ⟨r, hr, hruns⟩ := hr
  exact ⟨f r, h r hr, hf r hruns⟩

theorem Task.Runs.of_eq (h : t'.rounds = t.rounds) (hr : t.Runs c) : t'.Runs c := by
  refine hr.of_rounds id (fun _ hruns => hruns) fun r hmem => ?_
  rw [h]
  exact hmem

/-- The moves that presuppose a status in which no round runs. -/
theorem Control.Move.not_running {n m : Uuid} {x x' : Control} (h : Control.Move n m k x x')
    (hk : k = .commit ∨ k = .claim ∨ k = .fail ∨ k = .cleanup) : x.status ≠ .running := by
  intro hst
  cases h with
  | commit _ _ _ _ hs | claim _ _ _ hs =>
    rw [hst] at hs
    cases hs
  | fail hs | cleanup hs =>
    rw [hst] at hs
    cases hs
  | _ => simp at hk

/-- Such a move ends no round. -/
theorem live_of_kind (hm : Moved db db' k tid t t') (hco : db.Coherent)
    (hk : k = .commit ∨ k = .claim ∨ k = .fail ∨ k = .cleanup) (hl : assertRoundLive db c = true) :
    assertRoundLive db' c = true := by
  refine live_of_moved hm (fun _ hr => ?_) hl
  obtain ⟨q, hq⟩ := hco.phases tid t hm.found
  exact absurd (hr.executing hq).2.1 (hm.control.not_running hk)

theorem live_of_born (hb : Born db db' tid t) (hl : assertRoundLive db c = true) :
    assertRoundLive db' c = true := by
  obtain ⟨x, hvis, hr⟩ := assertRoundLive_iff.mp hl
  obtain ⟨hx, hown⟩ := Db.visibleTask_eq_some.mp hvis
  refine assertRoundLive_iff.mpr ⟨x, Db.visibleTask_eq_some.mpr ⟨?_, hown⟩, hr⟩
  rw [hb.get?, if_neg]
  · exact hx
  · rintro rfl
    rw [hb.fresh] at hx
    cases hx

/-- Unstarted tasks run nothing, so that failing them ends no round. -/
theorem live_of_fails {ids : List TaskId} {db₀ : Db} (hc : Changes (FailsAmong db₀ ids) db db')
    (hco : db.Coherent) (hl : assertRoundLive db c = true) : assertRoundLive db' c = true := by
  have hboth : db'.Coherent ∧ assertRoundLive db' c = true := by
    induction hc with
    | refl => exact ⟨hco, hl⟩
    | tail _ hc ih =>
      refine ⟨hc.coherent ih.1, ?_⟩
      cases hc with
      | still htasks => exact live_of_tasks htasks ih.2
      | born tid t hb => exact live_of_born hb ih.2
      | moved k tid t t' hm hexp => exact live_of_kind hm ih.1 (.inr (.inr (.inl hexp.1))) ih.2
  exact hboth.2

end Rows

/-! ## Steps -/

section Steps

variable {cfg : Settings} {nfc : String → String} {db db' : Db} {w w' : World} {a : Action}
  {c : RoundContext}

theorem Request.exec_live {r : Request} (hco : db.Coherent)
    (hends : (Action.request r).endsRound c = false) (h : r.exec cfg nfc db = .ok db')
    (hl : assertRoundLive db c = true) : assertRoundLive db' c = true := by
  -- the requests that end a round are about other tasks here
  have hother {tid : TaskId} (hne : decide (tid = c.task) = false) {k : MoveKind} {t t' : Task}
      (hm : Moved db db' k tid t t') : assertRoundLive db' c = true :=
    live_of_moved hm (fun heq => absurd heq (of_decide_eq_false hne)) hl
  cases r with
  | createTask owner revision provider message mcpRefs =>
    obtain ⟨⟨db₁, reply⟩, hrun, rfl⟩ := map_eq_ok.mp h
    obtain ⟨tid, t, -, hb⟩ := createTask_born hrun
    exact live_of_born hb hl
  | commitInput owner tid manifest =>
    obtain ⟨⟨db₁, reply⟩, hrun, rfl⟩ := map_eq_ok.mp h
    obtain ⟨t, t', hm⟩ := commitInput_moved hrun
    exact live_of_kind hm hco (.inl rfl) hl
  | uploadFiles owner tid uploads =>
    obtain ⟨⟨db₁, rows⟩, hrun, rfl⟩ := map_eq_ok.mp h
    obtain ⟨t, ht, hrun⟩ := bind_eq_ok.mp hrun
    obtain ⟨⟨⟩, -, hrun⟩ := bind_eq_ok.mp hrun
    obtain ⟨⟨⟩, -, hrun⟩ := bind_eq_ok.mp hrun
    obtain ⟨⟨⟩, -, hrun⟩ := bind_eq_ok.mp hrun
    obtain ⟨rfl, -⟩ := Prod.mk.inj (Except.ok.inj hrun)
    have hfound := (Db.visibleTask_eq_some.mp (lockUploadingTask_eq_ok ht)).1
    exact live_of_set rfl hfound rfl (fun _ hr => hr.of_eq rfl) hl
  | deleteFile owner tid fid =>
    obtain ⟨⟨db₁, fid'⟩, hrun, rfl⟩ := map_eq_ok.mp h
    obtain ⟨t, ht, hrun⟩ := bind_eq_ok.mp hrun
    obtain ⟨-, hrun⟩ := ite_error_eq_ok.mp hrun
    obtain ⟨rfl, -⟩ := Prod.mk.inj (Except.ok.inj hrun)
    have hfound := (Db.visibleTask_eq_some.mp (lockUploadingTask_eq_ok ht)).1
    exact live_of_set rfl hfound rfl (fun _ hr => hr.of_eq rfl) hl
  | abort owner tid =>
    obtain ⟨⟨db₁, reply⟩, hrun, rfl⟩ := map_eq_ok.mp h
    obtain ⟨k, t, t', -, hm⟩ := endTask_moved (by simp) hrun
    exact hother hends hm
  | complete owner tid =>
    obtain ⟨⟨db₁, reply⟩, hrun, rfl⟩ := map_eq_ok.mp h
    obtain ⟨k, t, t', -, hm⟩ := endTask_moved (by simp) hrun
    exact hother hends hm
  | delete owner tid =>
    obtain ⟨⟨db₁, reply⟩, hrun, rfl⟩ := map_eq_ok.mp h
    obtain ⟨t, t', hm⟩ := deleteTask_moved hrun
    exact hother hends hm
  | sendMessage owner tid content =>
    obtain ⟨⟨db₁, reply⟩, hrun, rfl⟩ := map_eq_ok.mp h
    obtain ⟨t, ht, hrun⟩ := bind_eq_ok.mp hrun
    obtain ⟨⟨⟩, -, hrun⟩ := bind_eq_ok.mp hrun
    obtain ⟨⟨⟩, -, hrun⟩ := bind_eq_ok.mp hrun
    obtain ⟨t', ht', hrun⟩ := bind_eq_ok.mp hrun
    obtain ⟨rfl, -⟩ := Prod.mk.inj (Except.ok.inj hrun)
    have hfound := (Db.visibleTask_eq_some.mp (lockTask_eq_ok ht).1).1
    obtain ⟨-, howner, -, hcontrol, -⟩ := Task.eq_of_sendMessage ht'
    have hrounds : t'.rounds = t.rounds ++ _ := congrArg Control.rounds hcontrol
    refine live_of_set rfl hfound howner (fun _ hr => ?_) hl
    refine hr.of_rounds id (fun _ hruns => hruns) fun r hmem => ?_
    rw [hrounds]
    exact List.mem_append_left _ hmem
  | createProvider owner modelId isDefault =>
    exact live_of_tasks (createProvider_still h).1 hl
  | rotateKey owner pid => exact live_of_fails (rotateProviderKey_changes h) hco hl
  | revokeProvider owner pid => exact live_of_fails (revokeProvider_changes h) hco hl

theorem Write.exec_live {x : Write} (hco : db.Coherent)
    (hends : (Action.write x).endsRound c = false) (h : x.exec cfg nfc db = .ok db')
    (hl : assertRoundLive db c = true) : assertRoundLive db' c = true := by
  have hother {tid : TaskId} (hne : decide (tid = c.task) = false) {k : MoveKind} {t t' : Task}
      (hm : Moved db db' k tid t t') : assertRoundLive db' c = true :=
    live_of_moved hm (fun heq => absurd heq (of_decide_eq_false hne)) hl
  cases x with
  | fact x author content =>
    change persistFact db x author content = .ok db' at h
    unfold persistFact at h
    split at h
    · cases h
    · next t hvis =>
      obtain ⟨-, h⟩ := ite_error_eq_ok.mp h
      cases h
      have hfound := (Db.visibleTask_eq_some.mp hvis).1
      exact live_of_set (s := t.saveMessage db.nextId author content (some x.round)) rfl hfound rfl
        (fun _ hr => hr.of_eq rfl) hl
  | settle x pending finishReason usage =>
    obtain ⟨t, t', -, -, hm⟩ := settle_moved (fun t ht => hco.phases x.task t ht) h
    exact hother hends hm
  | deadline x =>
    obtain ⟨t, t', -, hm⟩ := failAtDeadline_moved (fun t ht => hco.phases x.task t ht) h
    exact hother hends hm
  | renew x =>
    change renewLease cfg db x = .ok db' at h
    unfold renewLease at h
    split at h
    · cases h
    · next t hvis =>
      obtain ⟨-, h⟩ := ite_error_eq_ok.mp h
      cases h
      have hfound := (Db.visibleTask_eq_some.mp hvis).1
      refine live_of_set (s := t.updateRounds x.fences (·.renew (db.now + cfg.leaseTtlSeconds))) rfl
        hfound rfl (fun _ hr => ?_) hl
      -- a renewal changes only when the lease expires
      refine hr.of_rounds (fun r => if x.fences r then r.renew (db.now + cfg.leaseTtlSeconds) else r)
        (fun r hruns => ?_) fun r hmem => mem_updateWhere.mpr ⟨r, hmem, rfl⟩
      split
      · exact hruns
      · exact hruns
  | output x fileName content =>
    obtain ⟨⟨db₁, fid⟩, hrun, rfl⟩ := map_eq_ok.mp h
    obtain ⟨t, ht, hrun⟩ := bind_eq_ok.mp hrun
    obtain ⟨⟨t', refunded⟩, ht', hrun⟩ := bind_eq_ok.mp hrun
    obtain ⟨charged, hcharged, hrun⟩ := bind_eq_ok.mp hrun
    obtain ⟨rfl, -⟩ := Prod.mk.inj (Except.ok.inj hrun)
    have hfound := (Db.visibleTask_eq_some.mp (lockTask_eq_ok ht).1).1
    obtain ⟨-, howner, hcontrol, -⟩ := Task.eq_of_registerOutput ht'
    refine live_of_set ?_ hfound howner (fun _ hr => hr.of_eq (congrArg Control.rounds hcontrol)) hl
    change charged.tasks.set x.task t' = db.tasks.set x.task t'
    rw [(Db.chargeStorage_frame hcharged).1]
    split
    · rfl
    · simp [Db.refundStorage]

theorem cancelCancellingRound_cancelling {x : RoundCandidate} {t : Task} {q : Phase}
    (ht : db.tasks.get? x.task = some t) (hq : t.control.phase? = some q)
    (h : cancelCancellingRound db x = .ok db') : t.control.activeStates = [.cancelling] := by
  unfold cancelCancellingRound at h
  split at h
  · cases h
  · next t₀ hvis =>
    rw [(Db.visibleTask_eq_some.mp hvis).1] at ht
    cases ht
    obtain ⟨t', ht', -⟩ := bind_eq_ok.mp h
    obtain ⟨hr, -⟩ := ite_error_eq_ok.mp ht'
    refine Control.activeStates_of_hit hq (fun r hp => ?_) rfl hr
    simp only [Bool.and_eq_true, decide_eq_true_eq] at hp
    exact hp.2

theorem expireUpload_uploading {x : TaskCandidate} {t : Task} (ht : db.tasks.get? x.task = some t)
    (h : expireUpload db x = .ok db') : t.status = .uploading := by
  unfold expireUpload at h
  split at h
  · cases h
  · next t₀ hvis =>
    rw [(Db.visibleTask_eq_some.mp hvis).1] at ht
    cases ht
    obtain ⟨t', ht', -⟩ := bind_eq_ok.mp h
    obtain ⟨hst, -⟩ := ite_error_eq_ok.mp ht'
    exact not_not.mp hst

theorem Job.exec_live {locked : List ℕ} {j : Job} (hco : db.Coherent) (hj : j.Valid db)
    (hends : (Action.perform j locked).endsRound c = false) (h : j.exec cfg locked db = .ok db')
    (hl : assertRoundLive db c = true) : assertRoundLive db' c = true := by
  have hother {tid : TaskId} (hne : decide (tid = c.task) = false) {k : MoveKind} {t t' : Task}
      (hm : Moved db db' k tid t t') : assertRoundLive db' c = true :=
    live_of_moved hm (fun heq => absurd heq (of_decide_eq_false hne)) hl
  cases j with
  | dispatch iid x =>
    obtain ⟨t, t', -, -, hm⟩ := claimRound_moved h
    exact live_of_kind hm hco (.inr (.inl rfl)) hl
  | reclaimExpired x =>
    obtain ⟨t, t', r, -, -, -, hm⟩ := reclaimExpired_moved h
    exact hother hends hm
  | cancelCancelling x =>
    obtain ⟨t, t', hm⟩ := cancelCancellingRound_moved h
    refine live_of_moved hm (fun _ hr => ?_) hl
    obtain ⟨q, hq⟩ := hco.phases _ t hm.found
    have hactive := cancelCancellingRound_cancelling hm.found hq h
    rw [(hr.executing hq).2.2] at hactive
    cases hactive
  | expireUpload x =>
    obtain ⟨t, t', hm⟩ := expireUpload_moved h
    refine live_of_moved hm (fun _ hr => ?_) hl
    obtain ⟨q, hq⟩ := hco.phases _ t hm.found
    have hst := expireUpload_uploading hm.found h
    rw [(hr.executing hq).2.1] at hst
    cases hst
  | cleanup x =>
    have hterm : ∀ t, db.visibleTask x.owner x.task = some t → t.status.isTerminal = true := by
      intro t hvis
      obtain ⟨q, hq, hqt⟩ := hj.2 t (Db.visibleTask_eq_some.mp hvis).1
      exact Control.status_isTerminal hq hqt
    rcases cleanupTask_moved hterm h with rfl | ⟨t, t', hm⟩
    · exact hl
    · exact live_of_kind hm hco (.inr (.inr (.inr rfl))) hl
  | reconcile x =>
    have hstop {t : Task} (ht : db.tasks.get? x.task = some t) : t.control.activeStates = [] := by
      obtain ⟨q, hq, hstopped⟩ := hj.2 t ht
      exact Control.activeStates_of_isStopped hq hstopped
    obtain ⟨t, t', hm⟩ :=
      reconcile_moved (fun t hvis _ _ => hstop (Db.visibleTask_eq_some.mp hvis).1) h
    refine live_of_moved hm (fun _ hr => ?_) hl
    obtain ⟨q, hq⟩ := hco.phases _ t hm.found
    have hactive := hstop hm.found
    rw [(hr.executing hq).2.2] at hactive
    cases hactive
  | terminate reason x =>
    obtain ⟨t, t', hm⟩ := terminate_moved h
    exact hother hends hm
  | terminateUser u ids =>
    cases h
    obtain ⟨x, hvis, hr⟩ := assertRoundLive_iff.mp hl
    obtain ⟨hx, hown⟩ := Db.visibleTask_eq_some.mp hvis
    have hne : x.ownerId ≠ u := by
      rw [hown]
      exact Ne.symm (of_decide_eq_false hends)
    by_cases hids : ids = []
    · rw [terminateTasksHook, if_pos hids]
      exact hl
    · exact assertRoundLive_iff.mpr ⟨x, Db.visibleTask_eq_some.mpr
        ⟨(terminateTasksHook_row hids).mpr ⟨hx, hne⟩, hown⟩, hr⟩

/-- Only the listed transactions end a running round. -/
theorem step_live (hco : w.Coherent) (hends : a.endsRound c = false)
    (h : step cfg nfc w a = .ok w') (hl : assertRoundLive w.db c = true) :
    assertRoundLive w'.db c = true := by
  cases a with
  | setQuota u quota =>
    obtain ⟨db', hdb, h⟩ := bind_eq_ok.mp h
    obtain ⟨-, hdb⟩ := ite_ok_else_error.mp hdb
    cases hdb
    cases h
    exact live_of_tasks rfl hl
  | request r =>
    obtain ⟨db', hdb, h⟩ := bind_eq_ok.mp h
    cases h
    exact Request.exec_live hco.db hends hdb hl
  | write x =>
    obtain ⟨db', hdb, h⟩ := bind_eq_ok.mp h
    cases h
    exact Write.exec_live hco.db hends hdb hl
  | perform j locked =>
    obtain ⟨hj, h⟩ := ite_ok_else_error.mp h
    obtain ⟨db', hdb, h⟩ := bind_eq_ok.mp h
    cases h
    exact Job.exec_live hco.db (hco.jobs j hj) hends hdb hl
  | toolCheck x =>
    obtain ⟨-, h⟩ := ite_ok_else_error.mp h
    cases h
    exact hl
  | toolAnswer x =>
    obtain ⟨-, h⟩ := ite_ok_else_error.mp h
    cases h
    exact hl
  | _ =>
    cases h
    exact live_of_tasks rfl hl

end Steps

end AgentCraft.Tasking
