import AgentCraft.Tasking.KeyChanges

/-!
# Tasks under a changed key

A task that has not started is bound to an active provider under its current key version: a key change
fails those that its scan has locked, and a settlement looks at the provider again. Four transactions can
break this: a creation and a settlement that read the provider before a key change commits and commit
after it, a key change that misses a task which entered after its scan, and a reclaim, which puts a
running task back without looking at its provider at all.
-/

namespace AgentCraft.Tasking

open AgentCraft.Relational AgentCraft.Transition

/-- The provider is active and has this key version. -/
def Db.isCurrent (db : Db) (pid : ProviderId) (version : ℕ) : Bool :=
  match db.providers.get? pid with
  | some row => row.status = .active && row.keyVersion = version
  | none => false

/-- Every task that has not started is bound to an active provider under its current version. -/
def KeyWorld.TasksCurrent (w : KeyWorld) : Prop :=
  ∀ tid t, w.world.db.tasks.get? tid = some t → t.status.isUnstarted = true →
    w.world.db.isCurrent t.providerId t.providerKeyVersion = true

/-- The unstarted tasks of the provider are failed by the change. -/
def KeyChange.Fails (k : KeyChange) (db db' : Db) : Prop :=
  ∀ tid t, db.tasks.get? tid = some t → t.providerId = k.provider → t.status.isUnstarted = true →
    ∃ t', db'.tasks.get? tid = some t' ∧ t'.status = .failed ∧
      t'.abortReason = some .providerKeyRevoked

/-- The condition: what enters the unstarted statuses is bound to a current key when it does, and a key
change has locked every unstarted task of its provider when it commits. -/
def KeepsKeys (w : KeyWorld) : KeyAction → Prop
  | .insert c => c ∈ w.creations →
    w.world.db.isCurrent c.resolved.providerId c.resolved.keyVersion = true
  | .close s _ _ _ => s ∈ w.settlements → s.revoked = false →
    ∀ t ∈ w.world.db.tasks.get? s.context.task,
      w.world.db.isCurrent t.providerId t.providerKeyVersion = true
  | .other (.perform (.reclaimExpired c) _) => .reclaimExpired c ∈ w.world.jobs →
    ∀ t ∈ w.world.db.visibleTask c.owner c.task, ∀ r ∈ t.rounds.find? c.fences,
      r.attempt < attemptLimit → w.world.db.isCurrent t.providerId t.providerKeyVersion = true
  | .commitChange k => k ∈ w.changes → ∀ tids ∈ k.tasks, ∀ tid t,
    w.world.db.tasks.get? tid = some t → t.providerId = k.provider → t.status.isUnstarted = true →
      tid ∈ tids
  | _ => True

section Stale

variable {cfg : Settings} {nfc : String → String} {w w' w₀ : KeyWorld} {a : KeyAction}
  {as : List KeyAction} {k : KeyChange} {db db' : Db} {tid : TaskId} {t t' : Task}

/-! ## Failing the locked tasks -/

theorem Task.failUnstarted_failed (t : Task) (reason : AbortReason) :
    (t.failUnstarted reason).status = .failed ∧ (t.failUnstarted reason).abortReason = some reason := by
  unfold Task.failUnstarted
  simp only [Task.appendEvents_status, true_and]
  rw [Task.appendEvents_eq]

theorem failUnstartedTask_row (reason : AbortReason) (db : Db) (tid tid' : TaskId) :
    (failUnstartedTask reason db tid').tasks.get? tid =
      if tid = tid' then (db.tasks.get? tid).map (·.failUnstarted reason) else db.tasks.get? tid := by
  unfold failUnstartedTask
  split
  · next hnone =>
    split
    · next heq => rw [heq, hnone]; rfl
    · rfl
  · next t hfound =>
    have htasks : ((db.setTask tid' (t.failUnstarted reason)).releaseUnstartedAccounting t.ownerId
        (t.releaseReservations none).2).tasks = db.tasks.set tid' (t.failUnstarted reason) := by
      unfold Db.releaseUnstartedAccounting
      split <;> rfl
    rw [htasks, Table.get?_set]
    split
    · next heq => rw [heq, hfound]; rfl
    · rfl

/-- Every task of the list is failed, and stays so. -/
theorem foldl_failUnstartedTask_failed {reason : AbortReason} {tids : List TaskId}
    (hfound : db.tasks.get? tid = some t)
    (h : tid ∈ tids ∨ t.status = .failed ∧ t.abortReason = some reason) :
    ∃ t', (tids.foldl (failUnstartedTask reason) db).tasks.get? tid = some t' ∧ t'.status = .failed ∧
      t'.abortReason = some reason := by
  induction tids generalizing db t with
  | nil =>
    rcases h with h | h
    · cases h
    · exact ⟨t, hfound, h⟩
  | cons x tids ih =>
    have hrow := failUnstartedTask_row reason db tid x
    by_cases heq : tid = x
    · rw [if_pos heq, hfound] at hrow
      exact ih hrow (.inr (t.failUnstarted_failed reason))
    · rw [if_neg heq, hfound] at hrow
      refine ih hrow (h.imp_left fun hmem => ?_)
      exact (List.mem_cons.mp hmem).resolve_left heq

theorem KeyChange.apply_rows (k : KeyChange) (tids : List TaskId) (db : Db) :
    db.RowsFollow NoLift (k.apply tids db) := by
  have h : ({ db with providers := db.providers.map fun pid row =>
      if pid = k.provider then k.write row else row } : Db).Follows NoLift (k.apply tids db) :=
    .failUnstarted _ _
  exact h.rows

theorem KeyChange.fails_apply {tids : List TaskId}
    (hall : ∀ tid t, db.tasks.get? tid = some t → t.providerId = k.provider →
      t.status.isUnstarted = true → tid ∈ tids) : k.Fails db (k.apply tids db) :=
  fun tid t hfound hp hun => foldl_failUnstartedTask_failed (t := t) hfound (.inl (hall tid t hfound hp hun))

/-! ## Steps -/

theorem isCurrent_of_providers (h : db'.providers = db.providers) (pid : ProviderId) (v : ℕ) :
    db'.isCurrent pid v = db.isCurrent pid v := by
  rw [Db.isCurrent, h, Db.isCurrent]

theorem isCurrent_of_createProvider {owner : UserId} {modelId : String} {isDefault : Bool}
    (h : createProvider db owner modelId isDefault = .ok db') {pid : ProviderId} {v : ℕ}
    (hcur : db.isCurrent pid v = true) : db'.isCurrent pid v = true := by
  unfold createProvider at h
  simp only at h
  split at h
  · cases h
  · next hnone =>
    cases h
    unfold Db.isCurrent at hcur ⊢
    cases hrow : db.providers.get? pid with
    | none =>
      rw [hrow] at hcur
      cases hcur
    | some row =>
      rw [Table.get?_map] at hnone
      have hne : pid ≠ db.nextId := by
        rintro rfl
        rw [hrow] at hnone
        cases hnone
      rw [hrow] at hcur
      simp only
      rw [Table.get?_insert (by rw [Table.get?_map, Option.map_eq_none_iff.mp hnone]; rfl), if_neg hne,
        Table.get?_map, hrow]
      simp only [Option.map_some]
      split <;> exact hcur

/-- A reclaimed task that is queued again had attempts left. -/
theorem requeued_of_reclaimExpired {c : ExpiredCandidate} (h : reclaimExpired db c = .ok db')
    (ht' : db'.tasks.get? c.task = some t') (hst : t'.status = .queued) :
    ∃ t r, db.visibleTask c.owner c.task = some t ∧ t.rounds.find? c.fences = some r ∧
      r.attempt < attemptLimit := by
  unfold reclaimExpired at h
  split at h
  · cases h
  · next t hvis =>
    obtain ⟨t₁, ht₁, h⟩ := bind_eq_ok.mp h
    cases h
    obtain ⟨r, hr, -, hown, -, hc, -⟩ := Task.eq_of_reclaimExpired ht₁
    refine ⟨t, r, hvis, hr, ?_⟩
    obtain ⟨hfound, hu⟩ := Db.visibleTask_eq_some.mp hvis
    have hvis₁ : (db.setTask c.task t₁).visibleTask c.owner c.task = some t₁ :=
      Db.visibleTask_eq_some.mpr ⟨Table.get?_set_self hfound t₁, hown.trans hu⟩
    rw [Db.releaseTaskHoldings_tasks hvis₁, Db.setTask_tasks, Table.set_set,
      Table.get?_set_self hfound] at ht'
    cases ht'
    have hst₁ : t₁.status = (reclaimOutcome r.attempt).2 := congrArg Control.status hc
    have hst₂ : t₁.status = .queued := hst
    by_contra hlim
    rw [hst₁, reclaimOutcome, if_pos (Nat.not_lt.mp hlim)] at hst₂
    cases hst₂

/-- A task that has not started was there before, not started and bound to the same key, or is the one
that a lift has brought back. -/
theorem Task.Follows.unstarted {E : TaskStatus → TaskStatus → Prop} (h : t.Follows E t')
    (hun : t'.status.isUnstarted = true) :
    (t'.providerId = t.providerId ∧ t'.providerKeyVersion = t.providerKeyVersion) ∧
      (t.status.isUnstarted = true ∨ E t.status t'.status) := by
  refine ⟨⟨congrArg Frozen.providerId h.frozen, congrArg Frozen.providerKeyVersion h.frozen⟩, ?_⟩
  rcases h.status with heq | hterm | hE
  · exact .inl (heq ▸ hun)
  · cases hst : t'.status <;> simp_all [TaskStatus.isTerminal, TaskStatus.isUnstarted]
  · exact .inr hE

/-- What a lift brings back from `running` is bound to a current key. -/
theorem KeyLifts.isCurrent (hG : KeepsKeys w a) (h : w.step cfg nfc a = .ok w')
    (hfound : w.world.db.tasks.get? tid = some t) (ht' : w'.world.db.tasks.get? tid = some t')
    (hrun : t.status.isUnstarted = false) (hun : t'.status.isUnstarted = true)
    (hl : KeyLifts a tid t.status t'.status) :
    w.world.db.isCurrent t.providerId t.providerKeyVersion = true := by
  generalize hs : t.status = s at hl hrun
  generalize hs' : t'.status = s' at hl hun
  cases hl with
  | settle st pending finishReason usage hno =>
    obtain ⟨hmem, -⟩ := ite_ok_else_error.mp h
    exact hG hmem hno t hfound
  | other hl =>
    cases hl with
    | commit owner tid manifest => cases hrun
    | send owner tid content => cases hrun
    | claim iid c locked => cases hun
    | settle c pending finishReason usage => cases (KeyWorld.other_eq_ok h).1
    | requeue c locked =>
      obtain ⟨-, hworld, -⟩ := KeyWorld.other_eq_ok h
      obtain ⟨hmem, hworld⟩ := ite_ok_else_error.mp hworld
      obtain ⟨db', hdb, hworld⟩ := bind_eq_ok.mp hworld
      rw [← Except.ok.inj hworld] at ht'
      obtain ⟨t₀, r, hvis, hr, hlt⟩ := requeued_of_reclaimExpired hdb ht' hs'
      have heq := (Db.visibleTask_eq_some.mp hvis).1
      rw [hfound] at heq
      cases heq
      exact hG hmem t hvis r hr hlt

theorem KeyWorld.TasksCurrent.step (hw : w.TasksCurrent) (hG : KeepsKeys w a)
    (h : w.step cfg nfc a = .ok w') : w'.TasksCurrent := by
  intro tid t' ht' hun
  cases KeyWorld.step_move h with
  | moved hf hstored =>
    obtain ⟨t, ht, hrow⟩ := hf.rows tid t' ht'
    obtain ⟨⟨hp, hv⟩, hcase⟩ := hrow.unstarted hun
    rw [isCurrent_of_providers hf.providers, hp, hv]
    cases hst : t.status.isUnstarted with
    | true => exact hw tid t ht hst
    | false =>
      refine KeyLifts.isCurrent hG h ht ht' hst hun (hcase.resolve_left fun hst' => ?_)
      rw [hst] at hst'
      cases hst'
  | inserted c t ha hmem hi hstored =>
    subst ha
    rw [isCurrent_of_providers hi.creates.providers]
    rcases hi.creates.row ht' with hold | ⟨-, rfl⟩
    · exact hw tid t' hold hun
    · rw [hi.providerId, hi.providerKeyVersion]
      exact hG hmem
  | provided owner modelId isDefault key hdb hstored =>
    rw [(createProvider_still hdb).1] at ht'
    exact isCurrent_of_createProvider hdb (hw tid t' ht' hun)
  | committed k tids row ha hmem hrow htids hdb hstored =>
    subst ha
    rw [hdb] at ht' ⊢
    obtain ⟨t, ht, hfollows⟩ := k.apply_rows tids w.world.db tid t' ht'
    obtain ⟨⟨hp, hv⟩, hcase⟩ := hfollows.unstarted hun
    have hst : t.status.isUnstarted = true := hcase.resolve_right id
    by_cases hpk : t.providerId = k.provider
    · -- the change has locked the task, so it is failed now
      obtain ⟨t₁, ht₁, hfailed, -⟩ := KeyChange.fails_apply (hG hmem tids htids) tid t ht hpk hst
      rw [ht'] at ht₁
      cases ht₁
      rw [hfailed] at hun
      cases hun
    · have hcur := hw tid t ht hst
      rw [hp, hv]
      unfold Db.isCurrent at hcur ⊢
      rw [k.apply_providers]
      cases hrow : w.world.db.providers.get? t.providerId with
      | none =>
        rw [hrow] at hcur
        cases hcur
      | some row =>
        rw [hrow] at hcur
        simpa [hpk] using hcur

/-! ## Runs -/

theorem KeyWorld.Initial.tasksCurrent (h₀ : w.Initial) : w.TasksCurrent := by
  intro tid t ht
  rw [h₀.world.db.tasks] at ht
  cases ht

/-- In every run that meets the condition, unstarted tasks are bound to current keys, and each committed
key change fails the unstarted tasks of its provider. -/
theorem tasksCurrent_of_run (h₀ : w₀.Initial) (hG : (keySystem cfg nfc).Guarded KeepsKeys w₀ as) :
    ((keySystem cfg nfc).run w₀ as).TasksCurrent ∧
      ∀ pre k post, as = pre ++ .commitChange k :: post →
        ∀ w', (keySystem cfg nfc).step ((keySystem cfg nfc).run w₀ pre) (.commitChange k) = .ok w' →
          k.Fails ((keySystem cfg nfc).run w₀ pre).world.db w'.world.db := by
  refine ⟨System.invariant_run_of_guarded (S := keySystem cfg nfc)
    (fun _ _ _ hw hG hs => KeyWorld.TasksCurrent.step hw hG hs) h₀.tasksCurrent hG, ?_⟩
  rintro pre k post rfl w' hs
  have hk : KeepsKeys ((keySystem cfg nfc).run w₀ pre) (.commitChange k) :=
    (System.Guarded.append.mp hG).2.1
  have hs : ((keySystem cfg nfc).run w₀ pre).step cfg nfc (.commitChange k) = .ok w' := hs
  obtain ⟨tids, row, hmem, htids, -, hdb, -⟩ := KeyWorld.commitChange_eq_ok hs
  rw [hdb]
  exact KeyChange.fails_apply (hk hmem tids htids)

/-- User 1 creates task 10 under provider 3. -/
def createdRun : List KeyAction :=
  [.resolve 1 5 none "hi" [], .insert ⟨1, 5, ⟨3, "model", 1⟩, "hi", []⟩]

/-- A rotation of provider 3 that locks these tasks. -/
def rotationOf3 (tids : List TaskId) : List KeyAction :=
  [.readProvider 1 3 (some "new"), .lockTasks ⟨1, 3, ⟨1, "model", 1, .active, true⟩, some "new", none⟩,
    .commitChange ⟨1, 3, ⟨1, "model", 1, .active, true⟩, some "new", some tids⟩]

/-- The rotation fails the task that has been created. -/
theorem tasksCurrent_of_run_rotation :
    ((keySystem {} id).run KeyWorld.small (createdRun ++ rotationOf3 [10])).TasksCurrent ∧
      ∀ pre k post, createdRun ++ rotationOf3 [10] = pre ++ .commitChange k :: post →
        ∀ w', (keySystem {} id).step ((keySystem {} id).run KeyWorld.small pre) (.commitChange k) =
            .ok w' →
          k.Fails ((keySystem {} id).run KeyWorld.small pre).world.db w'.world.db :=
  tasksCurrent_of_run KeyWorld.small_initial (by
    refine ⟨trivial, ?_, trivial, trivial, ?_, trivial⟩
    · intro _
      decide
    · rintro - _ ⟨rfl⟩ tid t ht - -
      have hkeys : tid ∈ ((keySystem {} id).run KeyWorld.small
          (createdRun ++ (rotationOf3 [10]).take 2)).world.db.tasks.rows.map Prod.fst :=
        List.mem_map.mpr ⟨(tid, t), Table.get?_eq_some_iff.mp ht, rfl⟩
      have hrows : ((keySystem {} id).run KeyWorld.small
          (createdRun ++ (rotationOf3 [10]).take 2)).world.db.tasks.rows.map Prod.fst = [10] := by
        decide +kernel
      rwa [hrows] at hkeys)

/-- Executor 7 claims the round of task 10, the key is rotated, the lease expires and the round is
reclaimed. -/
def requeuedRun : List KeyAction :=
  createdRun ++ [.other (.request (.commitInput 1 10 "manifest")), .other (.scan (.dispatch 7)),
    .other (.perform (.dispatch 7 ⟨12, 10, 1⟩) [])] ++ rotationOf3 [] ++
    [.other (.tick 100), .other (.scan .reclaim),
      .other (.perform (.reclaimExpired ⟨12, 10, 1, some 7, 1⟩) [])]

/-- Task 10 is queued again, under the old version of the key. -/
theorem not_tasksCurrent_of_reclaim :
    ¬ ((keySystem {} id).run KeyWorld.small requeuedRun).TasksCurrent := by
  intro h
  have hrow : ((((keySystem {} id).run KeyWorld.small requeuedRun).world.db.tasks.get? 10).map
      fun t => (t.status, t.providerId, t.providerKeyVersion)) = some (.queued, 3, 1) := by
    decide +kernel
  have hstale : ((keySystem {} id).run KeyWorld.small requeuedRun).world.db.isCurrent 3 1 = false := by
    decide +kernel
  obtain ⟨t, ht, heq⟩ := Option.map_eq_some_iff.mp hrow
  obtain ⟨hst, hp, hv⟩ : t.status = .queued ∧ t.providerId = 3 ∧ t.providerKeyVersion = 1 := by
    simpa using heq
  have hcur := h 10 t ht (by rw [hst]; rfl)
  rw [hp, hv, hstale] at hcur
  cases hcur

end Stale

end AgentCraft.Tasking
