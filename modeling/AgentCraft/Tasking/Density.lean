import AgentCraft.Tasking.Coupling

/-!
# The event logs stay dense

Every transaction that appends to the log of a task does so in the elementary steps of `Log`, so the
log of a task is dense from its creation until the retention sweep empties it, in every interleaving.
-/

namespace AgentCraft.Tasking

open AgentCraft.Relational AgentCraft.Transition

/-- The retention sweep runs for the task. -/
def Action.CleansUp (tid : TaskId) : Action → Prop
  | .perform (.cleanup c) _ => c.task = tid
  | _ => False

/-- The log of the task, if there is one, is dense. -/
def Db.LogDense (db : Db) (tid : TaskId) : Prop :=
  ∀ t, db.tasks.get? tid = some t → t.log.Dense

section Steps

variable {db db' : Db} {tid : TaskId} {a : Action}

theorem Action.not_expects_cleanup {t : Task} (h : ¬ a.CleansUp tid) :
    ¬ a.Expects db .cleanup tid t := by
  intro hexp
  cases a with
  | perform j locked =>
    cases j with
    | cleanup c => exact h (Eq.symm hexp)
    | _ => exact hexp
  | _ => exact hexp

/-- A move other than the cleanup extends a dense log to a dense log. -/
theorem Change.logDense {expects : Expects} (hno : ∀ t, ¬ expects .cleanup tid t)
    (hc : Change expects db db') (hd : db.LogDense tid) : db'.LogDense tid := by
  intro x hx
  rcases hc.row hx with h | h | ⟨k, t, h, hexp⟩
  · exact hd x h
  · exact h.log.dense Log.dense_empty
  · have hk : k ≠ .cleanup := by
      rintro rfl
      exact hno t hexp
    exact (h.log hk).dense (hd t h.found)

theorem Changes.logDense {expects : Expects} (hno : ∀ t, ¬ expects .cleanup tid t)
    (hc : Changes expects db db') (hd : db.LogDense tid) : db'.LogDense tid := by
  induction hc with
  | refl => exact hd
  | tail _ h ih => exact h.logDense hno ih

end Steps

section Runs

variable {cfg : Settings} {nfc : String → String} {w w' : World} {tid : TaskId}

theorem step_logDense {a : Action} (hco : w.Coherent) (hd : w.db.LogDense tid)
    (hno : ¬ a.CleansUp tid) (h : step cfg nfc w a = .ok w') : w'.db.LogDense tid := by
  rcases step_changes hco.db hco.jobs h with hc | ⟨u, ids, locked, -, -, hdb⟩
  · exact hc.logDense (fun _ => Action.not_expects_cleanup hno) hd
  · intro t ht
    rw [hdb] at ht
    exact hd t (terminateTasksHook_row_of u ids ht)

/-- No committed step so far has cleaned the task up. -/
def NotCleanedUp (cfg : Settings) (nfc : String → String) (tid : TaskId) : World → List Action → Prop :=
  (system cfg nfc).Guarded fun w a => a.CleansUp tid → ¬ (system cfg nfc).Commits w a

/-- The log of the task is exact, and an action that is rolled back leaves the task as it is. -/
structure World.LogExact (cfg : Settings) (nfc : String → String) (tid : TaskId) (w : World) : Prop where
  log : ∀ t, w.db.tasks.get? tid = some t → t.log.Exact
  rolledBack : ∀ a, ¬ (system cfg nfc).Commits w a →
    ((system cfg nfc).next w a).db.tasks.get? tid = w.db.tasks.get? tid

/-- Until its cleanup, the log of a task is exact. -/
theorem logExact_of_run {w₀ : World} {as : List Action} (h₀ : w₀.Initial)
    (hclean : NotCleanedUp cfg nfc tid w₀ as) :
    ((system cfg nfc).run w₀ as).LogExact cfg nfc tid := by
  have hinv : ((system cfg nfc).run w₀ as).Coherent ∧
      ((system cfg nfc).run w₀ as).db.LogDense tid := by
    refine System.invariant_run_of_guarded (I := fun w => w.Coherent ∧ w.db.LogDense tid)
      (fun w a w' hw hG hs => ⟨hw.1.step hs, ?_⟩) ⟨h₀.coherent, ?_⟩ hclean
    · exact step_logDense hw.1 hw.2 (fun hcl => hG hcl ⟨w', hs⟩) hs
    · intro t ht
      simp [h₀.db.tasks] at ht
  refine ⟨fun t ht => (hinv.2 t ht).exact, fun a hno => ?_⟩
  rcases System.next_cases (S := system cfg nfc) ((system cfg nfc).run w₀ as) a with hc | he
  · exact absurd ⟨_, hc⟩ hno
  · rw [he]

/-- Two rounds of a task, the second by a message that is first rejected while the round is busy. -/
theorem logExact_of_run_twoRounds :
    ((system {} id).run World.small (claimedRun ++
      [.write (.fact ⟨12, 10, 1, 7, 1⟩ .assistant "hello"), .request (.sendMessage 1 10 "more"),
        .write (.settle ⟨12, 10, 1, 7, 1⟩ none "stop" "{}"),
        .request (.sendMessage 1 10 "more")])).LogExact {} id 10 :=
  logExact_of_run World.small_initial (by
    simp [NotCleanedUp, claimedRun, System.Guarded, Action.CleansUp])

end Runs

end AgentCraft.Tasking
