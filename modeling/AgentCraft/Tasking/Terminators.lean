import AgentCraft.Tasking.Forward

/-!
# Terminating tasks one by one

The kill switches and the suspension of a user scan for queued and running tasks and visit each candidate
in a transaction of its own. A candidate that is queued or running is aborted, any other is left alone, and
no other task is touched.
-/

namespace AgentCraft.Tasking

open AgentCraft.Relational AgentCraft.Transition

/-- The transaction of one candidate: a task that is not queued or running any more is left alone. -/
def terminateOne (reason : AbortReason) (db : Db) (c : TaskCandidate) : Db :=
  match terminate db c reason with
  | .ok db' => db'
  | .error _ => db

/-- The candidates one after the other. -/
def terminateAll (reason : AbortReason) (db : Db) (cs : List TaskCandidate) : Db :=
  cs.foldl (terminateOne reason) db

section Terminators

variable {db db' : Db} {reason : AbortReason} {c : TaskCandidate} {tid : TaskId} {t t' : Task}

/-- A scan misses nothing. -/
theorem mem_scanTasks_of_row {p : Task → Bool} (ht : db.tasks.get? tid = some t) (hp : p t = true) :
    ⟨tid, t.ownerId⟩ ∈ scanTasks db p :=
  List.mem_map.mpr ⟨(tid, t), List.mem_filter.mpr ⟨Table.get?_eq_some_iff.mp ht, hp⟩, rfl⟩

theorem TaskStatus.not_terminable_of_terminal {s : TaskStatus} (h : s.isTerminal = true) :
    s.isTerminable = false := by
  cases s <;> first | rfl | cases h

/-- A task that is queued or running was so before, or has just been queued by its user. -/
theorem Task.Follows.terminable {E : TaskStatus → TaskStatus → Prop} (h : t.Follows E t')
    (ht' : t'.status.isTerminable = true) :
    t.ownerId = t'.ownerId ∧ (t.status.isTerminable = true ∨ E t.status t'.status) := by
  refine ⟨(congrArg Frozen.ownerId h.frozen).symm, ?_⟩
  rcases h.status with heq | hterm | hE
  · exact .inl (heq ▸ ht')
  · rw [TaskStatus.not_terminable_of_terminal hterm] at ht'
    cases ht'
  · exact .inr hE

theorem terminateOne_follows (reason : AbortReason) (db : Db) (c : TaskCandidate) :
    db.Follows NoLift (terminateOne reason db c) := by
  unfold terminateOne
  split
  · next db' h => exact .of_visible (fun t t' _ ht' => Task.follows_terminate ht') h
  · exact .of_tasks rfl rfl

theorem terminateOne_rowsFollow (reason : AbortReason) (db : Db) (c : TaskCandidate) :
    db.RowsFollow NoLift (terminateOne reason db c) :=
  (terminateOne_follows reason db c).rows

/-- The transaction aborts a candidate that is still queued or running. -/
theorem terminate_aborts {r : AbortReason} (hvis : db.visibleTask c.owner c.task = some t)
    (hst : t.status.isTerminable = true) :
    ∃ db' t', terminate db c r = .ok db' ∧ db'.tasks.get? c.task = some t' ∧
      t'.status = .aborted := by
  obtain ⟨t₁, ht₁, hst₁, howner₁⟩ : ∃ t₁, t.terminate r = .ok t₁ ∧ t₁.status = .aborted ∧
      t₁.ownerId = t.ownerId := by
    refine ⟨_, if_pos hst, by simp, ?_⟩
    rw [Task.appendEvents_eq]
    rfl
  obtain ⟨hfound, howner⟩ := Db.visibleTask_eq_some.mp hvis
  have hvis₁ : (db.setTask c.task t₁).visibleTask c.owner c.task = some t₁ :=
    Db.visibleTask_eq_some.mpr ⟨Table.get?_set_self hfound t₁, howner₁.trans howner⟩
  refine ⟨(db.setTask c.task t₁).releaseTaskHoldings c.task c.owner, t₁.releaseHoldings, ?_, ?_, hst₁⟩
  · rw [terminate, hvis]
    simp only [ht₁]
    rfl
  · rw [Db.releaseTaskHoldings_tasks hvis₁, Db.setTask_tasks, Table.set_set,
      Table.get?_set_self hfound]

/-- After its transaction the candidate is neither queued nor running. -/
theorem terminateOne_stops
    (ht' : (terminateOne reason db c).tasks.get? c.task = some t') (howner : t'.ownerId = c.owner) :
    t'.status.isTerminable = false := by
  obtain ⟨t, ht, hf⟩ := terminateOne_rowsFollow reason db c c.task t' ht'
  have hvis : db.visibleTask c.owner c.task = some t :=
    Db.visibleTask_eq_some.mpr ⟨ht, (congrArg Frozen.ownerId hf.frozen).symm.trans howner⟩
  by_contra hst'
  have hst : t.status.isTerminable = true :=
    (hf.terminable (Bool.eq_true_of_not_eq_false hst')).2.resolve_right id
  obtain ⟨db', t₁, hdb, ht₁, haborted⟩ := terminate_aborts (r := reason) hvis hst
  unfold terminateOne at ht'
  rw [hdb, ht₁] at ht'
  cases ht'
  exact hst' (by rw [haborted]; rfl)

theorem terminateOne_other (h : tid ≠ c.task) :
    (terminateOne reason db c).tasks.get? tid = db.tasks.get? tid := by
  unfold terminateOne
  split
  · next db' hdb =>
    unfold terminate at hdb
    split at hdb
    · cases hdb
    · next t hvis =>
      obtain ⟨t', ht', hdb⟩ := bind_eq_ok.mp hdb
      cases hdb
      cases hvis' : (db.setTask c.task t').visibleTask c.owner c.task with
      | none =>
        rw [Db.releaseTaskHoldings_of_none hvis', Db.setTask_tasks, Table.get?_set_ne _ h]
      | some t₁ =>
        rw [Db.releaseTaskHoldings_tasks hvis', Table.get?_set_ne _ h, Db.setTask_tasks,
          Table.get?_set_ne _ h]
  · rfl

/-! ## All candidates -/

theorem terminateAll_other {cs : List TaskCandidate} (h : ∀ c ∈ cs, tid ≠ c.task) :
    (terminateAll reason db cs).tasks.get? tid = db.tasks.get? tid := by
  induction cs generalizing db with
  | nil => rfl
  | cons c cs ih =>
    refine Eq.trans (ih fun c' hc' => h c' (List.mem_cons_of_mem c hc')) ?_
    exact terminateOne_other (h c List.mem_cons_self)

/-- A task that is not queued or running stays so. -/
theorem terminateAll_rows {cs : List TaskCandidate}
    (ht' : (terminateAll reason db cs).tasks.get? tid = some t') :
    ∃ t, db.tasks.get? tid = some t ∧ t'.frozen = t.frozen ∧
      (t'.status.isTerminable = true → t.status.isTerminable = true) := by
  induction cs generalizing db with
  | nil => exact ⟨t', ht', rfl, id⟩
  | cons c cs ih =>
    obtain ⟨t₁, ht₁, hf₁, hst₁⟩ := ih ht'
    obtain ⟨t, ht, hf⟩ := terminateOne_rowsFollow reason db c tid t₁ ht₁
    exact ⟨t, ht, hf₁.trans hf.frozen, fun hst => (hf.terminable (hst₁ hst)).2.resolve_right id⟩

/-- No candidate is queued or running when all have been visited. -/
theorem terminateAll_stops {cs : List TaskCandidate} (hc : c ∈ cs)
    (ht' : (terminateAll reason db cs).tasks.get? c.task = some t') (howner : t'.ownerId = c.owner) :
    t'.status.isTerminable = false := by
  induction cs generalizing db with
  | nil => cases hc
  | cons c' cs ih =>
    rcases List.mem_cons.mp hc with rfl | hc
    · change (terminateAll reason (terminateOne reason db c) cs).tasks.get? c.task = some t' at ht'
      obtain ⟨t, ht, hf, hst⟩ := terminateAll_rows ht'
      have hstopped := terminateOne_stops ht ((congrArg Frozen.ownerId hf).symm.trans howner)
      by_contra hno
      rw [hst (Bool.eq_true_of_not_eq_false hno)] at hstopped
      cases hstopped
    · exact ih hc ht'

end Terminators

/-! ## Queued and running tasks -/

/-- The user in whose name a request acts. -/
@[grind] def Request.owner : Request → UserId
  | .createTask owner .. | .commitInput owner .. | .uploadFiles owner .. | .deleteFile owner .. |
    .abort owner .. | .complete owner .. | .delete owner .. | .sendMessage owner .. |
    .createProvider owner .. | .rotateKey owner .. | .revokeProvider owner .. => owner

/-- The task that a request would queue. -/
def Request.queues (db : Db) : Request → Option TaskId
  | .commitInput owner tid _ =>
    if (db.visibleTask owner tid).any (·.status = .uploading) then some tid else none
  | .sendMessage owner tid _ =>
    if (db.visibleTask owner tid).any (·.status = .ready) then some tid else none
  | _ => none

section Queueing

variable {cfg : Settings} {nfc : String → String} {db db' : Db} {tid : TaskId} {t t' : Task}

/-- Commits and messages are the only requests that queue a task. -/
theorem Request.queues_of_lifts {r : Request} {s s' : TaskStatus} (h : r.exec cfg nfc db = .ok db')
    (hfound : db.tasks.get? tid = some t) (hs : t.status = s) (hl : Lifts (.request r) tid s s') :
    r.queues db = some tid ∧ r.owner = t.ownerId := by
  cases hl with
  | commit owner tid manifest =>
    obtain ⟨⟨db₁, reply⟩, hrun, -⟩ := map_eq_ok.mp h
    obtain ⟨t₁, ht₁, -⟩ := bind_eq_ok.mp hrun
    have hvis := (lockTask_eq_ok ht₁).1
    obtain ⟨hfound₁, howner⟩ := Db.visibleTask_eq_some.mp hvis
    rw [hfound] at hfound₁
    cases hfound₁
    refine ⟨?_, howner.symm⟩
    simp [Request.queues, hvis, hs]
  | send owner tid content =>
    obtain ⟨⟨db₁, reply⟩, hrun, -⟩ := map_eq_ok.mp h
    obtain ⟨t₁, ht₁, -⟩ := bind_eq_ok.mp hrun
    have hvis := (lockTask_eq_ok ht₁).1
    obtain ⟨hfound₁, howner⟩ := Db.visibleTask_eq_some.mp hvis
    rw [hfound] at hfound₁
    cases hfound₁
    refine ⟨?_, howner.symm⟩
    simp [Request.queues, hvis, hs]

/-- A step of the domain that is no request queues no task that was not queued or running before. -/
theorem Lifts.terminable {b : Action} {s s' : TaskStatus} (hl : Lifts b tid s s')
    (hs' : s'.isTerminable = true) : s.isTerminable = true ∨ ∃ r, b = .request r := by
  cases hl with
  | commit owner tid manifest => exact .inr ⟨_, rfl⟩
  | send owner tid content => exact .inr ⟨_, rfl⟩
  | claim iid c locked => exact .inl rfl
  | settle c pending finishReason usage => cases hs'
  | requeue c locked => exact .inl rfl

/-- Where the queued and running tasks after a step of the domain come from. -/
theorem step_terminable {v v' : World} {b : Action} (h : step cfg nfc v b = .ok v')
    (ht' : v'.db.tasks.get? tid = some t') (hst' : t'.status.isTerminable = true) :
    ∃ t, v.db.tasks.get? tid = some t ∧ t'.frozen = t.frozen ∧
      (t.status.isTerminable = true ∨
        ∃ r, b = .request r ∧ r.queues v.db = some tid ∧ r.owner = t'.ownerId) := by
  have hrow (hrows : v.db.RowsFollow (Lifts b) v'.db) :
      ∃ t, v.db.tasks.get? tid = some t ∧ t'.frozen = t.frozen ∧
        (t.status.isTerminable = true ∨
          ∃ r, b = .request r ∧ r.queues v.db = some tid ∧ r.owner = t'.ownerId) := by
    obtain ⟨t, ht, hf⟩ := hrows tid t' ht'
    obtain ⟨howner, hcase⟩ := hf.terminable hst'
    refine ⟨t, ht, hf.frozen, hcase.elim .inl fun hl => ?_⟩
    rcases hl.terminable hst' with hst | ⟨r, rfl⟩
    · exact .inl hst
    · obtain ⟨db', hdb, -⟩ := bind_eq_ok.mp h
      obtain ⟨hq, ho⟩ := Request.queues_of_lifts hdb ht rfl hl
      exact .inr ⟨r, rfl, hq, ho.trans howner⟩
  rcases step_follows h with hf | ⟨r, rfl, ⟨-, tid', t, hcreates⟩ | ⟨-, hrows⟩⟩
  · exact hrow hf.rows
  · rcases hcreates.row ht' with hold | ⟨-, rfl⟩
    · exact ⟨t', hold, rfl, .inl hst'⟩
    · rw [hcreates.status] at hst'
      cases hst'
  · exact hrow hrows

end Queueing

end AgentCraft.Tasking
