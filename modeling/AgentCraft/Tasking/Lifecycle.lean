import AgentCraft.Tasking.Schema

/-!
# The lifecycle of a task

The abstract state machine that the task and round tables implement together. A `Phase` says what the
task status, the terminal intent and the active round mean jointly; `Phase.Step` says which phases
follow each other, sorted by what the step does to the holdings of the task. `Phase.of` reads the phase
off the columns; combinations that it does not list are in no phase.
-/

namespace AgentCraft.Tasking

/-- The terminal statuses other than `deleted`. -/
inductive Ending
  | completed | failed | aborted
deriving DecidableEq, Repr

def Ending.status : Ending → TaskStatus
  | .completed => .completed
  | .failed => .failed
  | .aborted => .aborted

/-- The joint states of a task and its rounds. -/
inductive Phase
  | uploading
  | queued
  | executing
  /-- The active round is being cancelled so that the task can take the status it was asked to. -/
  | cancelling (intent : PendingTerminal)
  /-- The round is gone, the intent is still to be carried out. -/
  | stopped (intent : PendingTerminal)
  | ready
  | ended (e : Ending)
  /-- Deleted; `draining` while a round is still being cancelled. -/
  | deleted (draining : Bool)
deriving DecidableEq, Repr

/-- What a step does to the holdings of the task. -/
inductive MoveKind
  /-- Nothing. -/
  | quiet
  /-- Nothing; the lease of the round and of its slot is prolonged. -/
  | renew
  /-- The input is frozen: `task_root` is reserved. -/
  | commit
  /-- A round is claimed: `running` is reserved. -/
  | claim
  /-- `release_task_holdings` runs for the status just taken; `back` when the round goes back to the
  task because it has settled or has been reclaimed. -/
  | close (back : Bool)
  /-- The provider service releases everything. -/
  | fail
  /-- The retention sweep releases what is left. -/
  | cleanup
deriving DecidableEq, Repr

namespace Phase

/-- The phase that a terminal intent leads to. -/
def ofIntent : PendingTerminal → Phase
  | .completed => .ended .completed
  | .aborted => .ended .aborted
  | .deleted => .deleted false

/-- A terminal phase is never left, except towards `deleted`. -/
def isTerminal : Phase → Bool
  | .ended _ | .deleted _ => true
  | _ => false

/-- A round is claimed and not closed. -/
def isExecuting : Phase → Bool
  | .executing | .cancelling _ => true
  | _ => false

/-- No round is active and none will be. -/
def isStopped : Phase → Bool
  | .stopped _ | .ended _ | .deleted false => true
  | _ => false

/-- The phases that follow each other. -/
inductive Step : MoveKind → Phase → Phase → Prop
  | stay (p : Phase) : Step .quiet p p
  | renew (p : Phase) : Step .renew p p
  | commit : Step .commit .uploading .queued
  | send : Step .quiet .ready .queued
  | claim : Step .claim .queued .executing
  | request (pt : PendingTerminal) : Step .quiet .executing (.cancelling pt)
  | requestAgain (pt pt' : PendingTerminal) : Step .quiet (.cancelling pt) (.cancelling pt')
  | settle : Step (.close true) .executing .ready
  | revoke : Step (.close true) .executing (.ended .aborted)
  | fail (back : Bool) : Step (.close back) .executing (.ended .failed)
  | requeue : Step (.close true) .executing .queued
  | cancelled (pt : PendingTerminal) : Step (.close false) (.cancelling pt) (.stopped pt)
  | drained : Step (.close false) (.deleted true) (.deleted false)
  | reconcile (pt : PendingTerminal) : Step (.close false) (.stopped pt) (.ofIntent pt)
  | endQueued (e : Ending) : Step (.close false) .queued (.ended e)
  | endReady (e : Ending) : Step (.close false) .ready (.ended e)
  | expire : Step (.close false) .uploading (.ended .failed)
  | terminateExecuting : Step (.close false) .executing (.ended .aborted)
  | terminateCancelling (pt : PendingTerminal) : Step (.close false) (.cancelling pt) (.ended .aborted)
  | terminateStopped (pt : PendingTerminal) : Step (.close false) (.stopped pt) (.ended .aborted)
  | delete (p : Phase) (d : Bool) (hd : d = p.isExecuting) (hp : ∀ d', p ≠ .deleted d') :
      Step (.close false) p (.deleted d)
  | failUploading : Step .fail .uploading (.ended .failed)
  | failQueued : Step .fail .queued (.ended .failed)
  | failReady : Step .fail .ready (.ended .failed)
  | cleanupEnded (e : Ending) : Step .cleanup (.ended e) (.ended e)
  | cleanupDeleted (d : Bool) : Step .cleanup (.deleted d) (.deleted false)

variable {k : MoveKind} {p p' : Phase}

/-- Terminal phases are closed under steps. -/
theorem Step.isTerminal (h : Step k p p') (hp : p.isTerminal = true) : p'.isTerminal = true := by
  cases h <;> simp_all [Phase.isTerminal]

/-- Stopped phases are closed under steps: a stopped task is never executed again. -/
theorem Step.isStopped (h : Step k p p') (hp : p.isStopped = true) : p'.isStopped = true := by
  cases h with
  | reconcile pt => cases pt <;> rfl
  | delete _ d hd hne =>
    cases p <;> simp_all [Phase.isStopped, Phase.isExecuting]
  | _ => simp_all [Phase.isStopped]

/-- A closing step leaves no claimed round behind. -/
theorem Step.not_isExecuting {back : Bool} (h : Step (.close back) p p') : p'.isExecuting = false := by
  cases h with
  | reconcile pt => cases pt <;> rfl
  | _ => rfl

/-- A claim starts an execution that was not there. -/
theorem Step.claim_iff : Step .claim p p' ↔ p = .queued ∧ p' = .executing := by
  constructor
  · intro h
    cases h
    exact ⟨rfl, rfl⟩
  · rintro ⟨rfl, rfl⟩
    exact .claim

/-- Only a claim makes a task execute. -/
theorem Step.isExecuting_of_ne_claim (h : Step k p p') (hk : k ≠ .claim)
    (hp : p'.isExecuting = true) : p.isExecuting = true := by
  cases h with
  | claim => exact absurd rfl hk
  | reconcile pt => cases pt <;> simp [ofIntent, isExecuting] at hp
  | _ => simp_all [Phase.isExecuting]

/-- A quiet step changes neither what is executing nor what is terminal. -/
theorem Step.quiet_congr (h : Step .quiet p p') :
    p'.isExecuting = p.isExecuting ∧ p'.isTerminal = p.isTerminal := by
  cases h <;> exact ⟨rfl, rfl⟩

theorem Step.renew_congr (h : Step .renew p p') : p' = p := by
  cases h
  rfl

end Phase

/-- The phase of a task, read off its status, its intent and the states of its active rounds. -/
def Phase.of : TaskStatus → Option PendingTerminal → List RoundState → Option Phase
  | .uploading, none, [] => some .uploading
  | .queued, none, [.pending] => some .queued
  | .running, none, [.running] => some .executing
  | .running, some pt, [.cancelling] => some (.cancelling pt)
  | .running, some pt, [] => some (.stopped pt)
  | .ready, none, [] => some .ready
  | .completed, none, [] => some (.ended .completed)
  | .failed, none, [] => some (.ended .failed)
  | .aborted, none, [] => some (.ended .aborted)
  | .deleted, _, [.cancelling] => some (.deleted true)
  | .deleted, _, [] => some (.deleted false)
  | _, _, _ => none

/-- The columns that a phase stands for. -/
theorem Phase.of_eq_some {s : TaskStatus} {pt : Option PendingTerminal} {rs : List RoundState}
    {p : Phase} : Phase.of s pt rs = some p ↔ match p with
      | .uploading => s = .uploading ∧ pt = none ∧ rs = []
      | .queued => s = .queued ∧ pt = none ∧ rs = [.pending]
      | .executing => s = .running ∧ pt = none ∧ rs = [.running]
      | .cancelling i => s = .running ∧ pt = some i ∧ rs = [.cancelling]
      | .stopped i => s = .running ∧ pt = some i ∧ rs = []
      | .ready => s = .ready ∧ pt = none ∧ rs = []
      | .ended e => s = e.status ∧ pt = none ∧ rs = []
      | .deleted d => s = .deleted ∧ rs = if d then [.cancelling] else [] := by
  constructor
  · intro h
    unfold Phase.of at h
    split at h <;> cases h <;> simp [Ending.status]
  · cases p with
    | ended e =>
      cases e <;> (rintro ⟨rfl, rfl, rfl⟩; rfl)
    | deleted d =>
      rintro ⟨rfl, rfl⟩
      cases d <;> cases pt <;> rfl
    | _ =>
      rintro ⟨rfl, rfl, rfl⟩
      rfl

end AgentCraft.Tasking
