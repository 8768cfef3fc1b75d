import AgentCraft.Tasking.Executor
import AgentCraft.Tasking.Lifecycle

/-!
# The two state machines of a task

The control part of a task row: its status, its terminal intent and its rounds. `Control.Move` lists
what the transactions of the source do to it, one constructor for each; `Control.Move.simulates` shows
that every move of a row in some phase is a step of the lifecycle. What a move does to a single round
is `TaskRound.Step`.
-/

namespace AgentCraft.Tasking

open AgentCraft.Relational

/-- The columns that the two state machines consist of. -/
structure Control where
  status : TaskStatus
  pendingTerminal : Option PendingTerminal
  rounds : List TaskRound
deriving DecidableEq, Repr

def Task.control (t : Task) : Control := ⟨t.status, t.pendingTerminal, t.rounds⟩

namespace Control

/-- The states of the active rounds. -/
def activeStates (c : Control) : List RoundState := (c.rounds.map (·.state)).filter (·.isActive)

/-- `UPDATE task_rounds SET f WHERE task_id = … AND p`. -/
def updateRounds (c : Control) (p : TaskRound → Bool) (f : TaskRound → TaskRound) : Control :=
  { c with rounds := updateWhere p f c.rounds }

/-- The phase of a control part. -/
def phase? (c : Control) : Option Phase := Phase.of c.status c.pendingTerminal c.activeStates

/-- The round that `commit_input` and `send_message` insert. -/
def pendingRound (rid : RoundId) (mid : MessageId) : TaskRound := ⟨rid, mid, .pending, none, 0, none, 0⟩

/-- `state = 'pending'` to `'cancelled'`, as the service and the provider service write it. -/
def cancelPending (c : Control) : Control :=
  c.updateRounds (·.state = .pending) fun r => { r with state := .cancelled }

/-- Every active round to `cancelling`. -/
def startCancelling (c : Control) : Control :=
  c.updateRounds (·.state.isActive) fun r => { r with state := .cancelling }

/-- The control part of `delete_task`. -/
def delete (c : Control) : Control :=
  match c.status with
  | .running => { c.startCancelling with status := .deleted, pendingTerminal := some .deleted }
  | .queued => { c.cancelPending with status := .deleted }
  | _ => { c with status := .deleted }

/-- The control part of `settle`. -/
def settle (c : Control) (x : RoundContext) (revoked : Bool) : Control :=
  { c.updateRounds x.fences (·.settle) with status := if revoked then .aborted else .ready }

/-- The control part of the deadline failure. -/
def failAtDeadline (c : Control) (x : RoundContext) : Control :=
  { c.updateRounds x.fences (·.fail) with status := .failed, pendingTerminal := none }

/-- The control part of `_reclaim_expired_round`, for a round with so many attempts. -/
def reclaim (c : Control) (x : ExpiredCandidate) (attempt : ℕ) : Control :=
  { c.updateRounds x.fences (·.reclaim attempt) with status := (reclaimOutcome attempt).2 }

/-- What the transactions do to the control part. Identifiers that a move issues lie between `n` and
`m`. -/
inductive Move (n m : Uuid) : MoveKind → Control → Control → Prop
  | stay (c : Control) : Move n m .quiet c c
  | renew {c : Control} (x : RoundContext) (e : Time) :
      Move n m .renew c (c.updateRounds x.fences (·.renew e))
  | commit {c : Control} (rid : RoundId) (mid : MessageId) (hn : n ≤ rid) (hm : rid < m)
      (hs : c.status = .uploading) (ha : c.activeStates = []) :
      Move n m .commit c { c with status := .queued, rounds := c.rounds ++ [pendingRound rid mid] }
  | send {c : Control} (rid : RoundId) (mid : MessageId) (hn : n ≤ rid) (hm : rid < m)
      (hs : c.status = .ready) (ha : c.activeStates = []) :
      Move n m .quiet c { c with status := .queued, rounds := c.rounds ++ [pendingRound rid mid] }
  | claim {c : Control} (rid : RoundId) (iid : InstanceId) (e : Time) (hs : c.status = .queued)
      (hr : c.rounds.countP (·.claimable rid) ≠ 0) :
      Move n m .claim c
        { c.updateRounds (·.claimable rid) (·.claim iid e) with status := .running }
  | request {c : Control} (pt : PendingTerminal) (hs : c.status = .running)
      (hr : c.rounds.countP (·.state.isActive) ≠ 0) :
      Move n m .quiet c { c.startCancelling with pendingTerminal := some pt }
  | settle {c : Control} (x : RoundContext) (revoked : Bool) (hr : c.rounds.countP x.fences ≠ 0) :
      Move n m (.close true) c (c.settle x revoked)
  | deadline {c : Control} (x : RoundContext) (hr : c.rounds.countP x.fences ≠ 0) :
      Move n m (.close false) c (c.failAtDeadline x)
  | reclaim {c : Control} (x : ExpiredCandidate) (r : TaskRound) (hs : c.status = .running)
      (hr : c.rounds.find? x.fences = some r) :
      Move n m (.close true) c (c.reclaim x r.attempt)
  | cancelRound {c : Control} (rid : RoundId)
      (hr : c.rounds.countP (fun r => r.id = rid && r.state = .cancelling) ≠ 0) :
      Move n m (.close false) c
        (c.updateRounds (fun r => r.id = rid && r.state = .cancelling) (·.cancel))
  | endQueued {c : Control} (e : Ending) (hs : c.status = .queued) :
      Move n m (.close false) c { c.cancelPending with status := e.status }
  | endReady {c : Control} (e : Ending) (hs : c.status = .ready) :
      Move n m (.close false) c { c with status := e.status }
  | delete {c : Control} (hs : c.status ≠ .deleted) : Move n m (.close false) c c.delete
  | reconcile {c : Control} (pt : PendingTerminal) (hs : c.status = .running)
      (hp : c.pendingTerminal = some pt) (ha : c.activeStates = []) :
      Move n m (.close false) c { c with status := pt.status, pendingTerminal := none }
  | terminate {c : Control} (hs : c.status.isTerminable = true) :
      Move n m (.close false) c
        { c.updateRounds (·.state.isActive) (·.cancel) with
          status := .aborted, pendingTerminal := none }
  | expire {c : Control} (hs : c.status = .uploading) :
      Move n m (.close false) c { c with status := .failed }
  | fail {c : Control} (hs : c.status.isUnstarted = true) :
      Move n m .fail c { c.cancelPending with status := .failed }
  | cleanup {c : Control} (hs : c.status.isTerminal = true) :
      Move n m .cleanup c { c with rounds := [] }

/-! ## Active rounds under the moves -/

variable {c : Control}

@[simp] theorem updateRounds_status (c : Control) (p f) : (c.updateRounds p f).status = c.status := rfl
@[simp] theorem updateRounds_pendingTerminal (c : Control) (p f) :
    (c.updateRounds p f).pendingTerminal = c.pendingTerminal := rfl

theorem activeStates_eq_map (c : Control) :
    c.activeStates = (c.rounds.filter (·.state.isActive)).map (·.state) := by
  simp [activeStates, List.filter_map, Function.comp_def]

theorem activeStates_eq_nil_of_activeRounds {t : Task} (h : t.activeRounds = []) :
    t.control.activeStates = [] := by
  have ht : t.control.rounds.filter (·.state.isActive) = [] := h
  rw [activeStates_eq_map, ht, List.map_nil]

/-- An update that keeps the state of the rounds it touches keeps the active states. -/
theorem activeStates_updateRounds_of_state {p : TaskRound → Bool} {f : TaskRound → TaskRound}
    (hf : ∀ r, (f r).state = r.state) : (c.updateRounds p f).activeStates = c.activeStates := by
  simp only [activeStates, updateRounds]
  rw [map_updateWhere _ _ fun r _ => hf r]

/-- Closing every round that `p` selects, where `p` selects all active ones. -/
theorem activeStates_updateRounds_close {p : TaskRound → Bool} {f : TaskRound → TaskRound}
    (hp : ∀ r ∈ c.rounds, r.state.isActive = true → p r = true)
    (hf : ∀ r, (f r).state.isActive = false) : (c.updateRounds p f).activeStates = [] := by
  rw [activeStates, List.filter_eq_nil_iff]
  intro s hs
  obtain ⟨r', hr', rfl⟩ := List.mem_map.mp hs
  obtain ⟨r, hr, rfl⟩ := mem_updateWhere.mp hr'
  by_cases hpr : p r = true
  · simp [hpr, hf r]
  · have hna : r.state.isActive = false := by
      cases ha : r.state.isActive with
      | false => rfl
      | true => exact absurd (hp r hr ha) hpr
    simp [hpr, hna]

/-- An update among the active rounds that hits, when there is one active round: it hit that one. -/
theorem activeStates_updateRounds_hit {p : TaskRound → Bool} {f : TaskRound → TaskRound}
    {s : RoundState} (hs : c.activeStates = [s]) (hp : ∀ r, p r = true → r.state.isActive = true)
    (hne : c.rounds.countP p ≠ 0) :
    ∃ r ∈ c.rounds, p r = true ∧ r.state = s ∧ c.rounds.filter (·.state.isActive) = [r] ∧
      (c.updateRounds p f).activeStates = [(f r).state].filter (·.isActive) := by
  rw [activeStates_eq_map] at hs
  obtain ⟨r, hr, hst⟩ := List.map_eq_singleton_iff.mp hs
  obtain ⟨hpr, hact⟩ := filter_updateWhere_singleton (f := f) hp hr hne
  have hmem : r ∈ c.rounds := by
    have : r ∈ c.rounds.filter (·.state.isActive) := by rw [hr]; exact List.mem_singleton.mpr rfl
    exact (List.mem_filter.mp this).1
  refine ⟨r, hmem, hpr, hst, hr, ?_⟩
  rw [activeStates_eq_map, updateRounds, hact]
  by_cases ha : (f r).state.isActive = true <;> simp [ha]

/-- With no active round, an update among the active rounds hits nothing. -/
theorem countP_eq_zero_of_activeStates_nil {p : TaskRound → Bool} (hs : c.activeStates = [])
    (hp : ∀ r, p r = true → r.state.isActive = true) : c.rounds.countP p = 0 := by
  rw [List.countP_eq_zero]
  intro r hr hpr
  rw [activeStates, List.filter_eq_nil_iff] at hs
  exact hs _ (List.mem_map.mpr ⟨r, hr, rfl⟩) (hp r hpr)

/-! ## The moves simulate the lifecycle -/

theorem phase?_eq_some {p : Phase} : c.phase? = some p ↔ match p with
    | .uploading => c.status = .uploading ∧ c.pendingTerminal = none ∧ c.activeStates = []
    | .queued => c.status = .queued ∧ c.pendingTerminal = none ∧ c.activeStates = [.pending]
    | .executing => c.status = .running ∧ c.pendingTerminal = none ∧ c.activeStates = [.running]
    | .cancelling i =>
      c.status = .running ∧ c.pendingTerminal = some i ∧ c.activeStates = [.cancelling]
    | .stopped i => c.status = .running ∧ c.pendingTerminal = some i ∧ c.activeStates = []
    | .ready => c.status = .ready ∧ c.pendingTerminal = none ∧ c.activeStates = []
    | .ended e => c.status = e.status ∧ c.pendingTerminal = none ∧ c.activeStates = []
    | .deleted d => c.status = .deleted ∧ c.activeStates = if d then [.cancelling] else [] :=
  Phase.of_eq_some

section Phases

variable {q : Phase} (hq : c.phase? = some q)
include hq

/-- At most one round is active in any phase. -/
theorem activeStates_eq_of_mem {s : RoundState} (hs : s ∈ c.activeStates) : c.activeStates = [s] := by
  have hlen : c.activeStates = [] ∨ ∃ s', c.activeStates = [s'] := by
    rw [phase?_eq_some] at hq
    cases q with
    | deleted d => cases d <;> simp_all
    | _ => simp_all
  rcases hlen with h | ⟨s', h⟩
  · rw [h] at hs
    cases hs
  · rw [h, List.mem_singleton] at hs
    rw [h, hs]

/-- An update of active rounds in state `s` that hits a round tells the active round. -/
theorem activeStates_of_hit {p : TaskRound → Bool} {s : RoundState} (hp : ∀ r, p r = true → r.state = s)
    (hs : s.isActive = true) (hne : c.rounds.countP p ≠ 0) : c.activeStates = [s] := by
  obtain ⟨r, hr, hpr⟩ := List.countP_pos_iff.mp (Nat.pos_of_ne_zero hne)
  refine activeStates_eq_of_mem hq (List.mem_filter.mpr ⟨?_, hs⟩)
  exact List.mem_map.mpr ⟨r, hr, hp r hpr⟩

theorem eq_uploading (hs : c.status = .uploading) :
    q = .uploading ∧ c.pendingTerminal = none ∧ c.activeStates = [] := by
  rw [phase?_eq_some] at hq
  cases q with
  | ended e => cases e <;> simp_all [Ending.status]
  | _ => simp_all

theorem eq_queued (hs : c.status = .queued) :
    q = .queued ∧ c.pendingTerminal = none ∧ c.activeStates = [.pending] := by
  rw [phase?_eq_some] at hq
  cases q with
  | ended e => cases e <;> simp_all [Ending.status]
  | _ => simp_all

theorem eq_ready (hs : c.status = .ready) :
    q = .ready ∧ c.pendingTerminal = none ∧ c.activeStates = [] := by
  rw [phase?_eq_some] at hq
  cases q with
  | ended e => cases e <;> simp_all [Ending.status]
  | _ => simp_all

/-- A running task executes, cancels, or has stopped. -/
theorem eq_running (hs : c.status = .running) :
    (q = .executing ∧ c.pendingTerminal = none ∧ c.activeStates = [.running]) ∨
      (∃ i, q = .cancelling i ∧ c.pendingTerminal = some i ∧ c.activeStates = [.cancelling]) ∨
      ∃ i, q = .stopped i ∧ c.pendingTerminal = some i ∧ c.activeStates = [] := by
  rw [phase?_eq_some] at hq
  cases q with
  | ended e => cases e <;> simp_all [Ending.status]
  | _ => simp_all

/-- A pending round: the task is queued. -/
theorem eq_pending (ha : c.activeStates = [.pending]) : q = .queued ∧ c.status = .queued := by
  rw [phase?_eq_some] at hq
  cases q with
  | deleted d => cases d <;> simp_all
  | _ => simp_all

/-- A running round: the task executes. -/
theorem eq_executing (ha : c.activeStates = [.running]) :
    q = .executing ∧ c.status = .running ∧ c.pendingTerminal = none := by
  rw [phase?_eq_some] at hq
  cases q with
  | deleted d => cases d <;> simp_all
  | _ => simp_all

/-- A cancelling round: the task is being ended, or is deleted. -/
theorem eq_cancelling (ha : c.activeStates = [.cancelling]) :
    (∃ i, q = .cancelling i ∧ c.status = .running ∧ c.pendingTerminal = some i) ∨
      (q = .deleted true ∧ c.status = .deleted) := by
  rw [phase?_eq_some] at hq
  cases q with
  | deleted d => cases d <;> simp_all
  | _ => simp_all

/-- A terminal phase is a terminal status. -/
theorem status_isTerminal (hqt : q.isTerminal = true) : c.status.isTerminal = true := by
  rw [phase?_eq_some] at hq
  cases q with
  | ended e => cases e <;> simp_all [TaskStatus.isTerminal, Ending.status]
  | deleted d => simp_all [TaskStatus.isTerminal]
  | _ => cases hqt

/-- A task in a terminal status is in a terminal phase, with at most a cancelling round. -/
theorem isTerminal_of_status (hs : c.status.isTerminal = true) :
    q.isTerminal = true ∧ (c.activeStates = [] ∨ c.activeStates = [.cancelling]) := by
  rw [phase?_eq_some] at hq
  cases q with
  | ended e => exact ⟨rfl, .inl hq.2.2⟩
  | deleted d => cases d <;> exact ⟨rfl, by simp_all⟩
  | _ =>
    rw [hq.1] at hs
    cases hs

/-- A stopped phase has no active round. -/
theorem activeStates_of_isStopped (hqs : q.isStopped = true) : c.activeStates = [] := by
  rw [phase?_eq_some] at hq
  cases q with
  | deleted d => cases d <;> simp_all [Phase.isStopped]
  | stopped | ended => exact hq.2.2
  | _ => cases hqs

/-- An update of the rounds in an active state `s`, if it hits, moves the active round to `a`. -/
theorem activeStates_updateRounds_of_hit {p : TaskRound → Bool} {f : TaskRound → TaskRound}
    {s a : RoundState} (hp : ∀ r, p r = true → r.state = s) (hs : s.isActive = true)
    (hf : ∀ r, (f r).state = a) (hne : c.rounds.countP p ≠ 0) :
    (c.updateRounds p f).activeStates = [a].filter (·.isActive) := by
  have ha := activeStates_of_hit hq hp hs hne
  have hp' : ∀ r, p r = true → r.state.isActive = true := fun r hr => by rw [hp r hr, hs]
  obtain ⟨r, -, -, -, -, h⟩ := activeStates_updateRounds_hit (f := f) ha hp' hne
  rw [h, hf r]

end Phases

/-- With every active round in a state that `p` selects, closing at `p` leaves none. -/
theorem activeStates_cancelPending (ha : c.activeStates = [] ∨ c.activeStates = [.pending]) :
    c.cancelPending.activeStates = [] := by
  refine activeStates_updateRounds_close ?_ fun _ => rfl
  intro r hr hact
  have hmem : r.state ∈ c.activeStates :=
    List.mem_filter.mpr ⟨List.mem_map.mpr ⟨r, hr, rfl⟩, hact⟩
  rcases ha with ha | ha
  · rw [ha] at hmem
    cases hmem
  · rw [ha, List.mem_singleton] at hmem
    simpa using hmem

theorem activeStates_append_pendingRound (ha : c.activeStates = []) (s : TaskStatus) (rid : RoundId)
    (mid : MessageId) :
    ({ c with status := s, rounds := c.rounds ++ [pendingRound rid mid] } : Control).activeStates
      = [.pending] := by
  simp only [activeStates, List.map_append, List.filter_append] at ha ⊢
  rw [ha]
  rfl

theorem activeStates_startCancelling (c : Control) :
    c.startCancelling.activeStates = c.activeStates.map fun _ => .cancelling := by
  have hc : RoundState.cancelling.isActive = true := rfl
  simp only [activeStates, startCancelling, updateRounds]
  induction c.rounds with
  | nil => rfl
  | cons r rounds ih =>
    by_cases ha : r.state.isActive = true
    · simp [ha, hc, ih]
    · simp [ha, ih]

namespace Move

variable {n m : Uuid} {k : MoveKind} {c' : Control} {q : Phase}

/-- `delete_task` leads to `deleted`, draining if a round was claimed. -/
theorem delete_simulates (hs : c.status ≠ .deleted) (hq : c.phase? = some q) :
    c.delete.phase? = some (.deleted q.isExecuting) ∧ ∀ d, q ≠ .deleted d := by
  have hne : ∀ d, q ≠ .deleted d := by
    rintro d rfl
    exact hs (phase?_eq_some.mp hq).1
  refine ⟨?_, hne⟩
  by_cases hrun : c.status = .running
  · have hst := activeStates_startCancelling c
    have hd : c.delete = { c.startCancelling with
        status := .deleted, pendingTerminal := some .deleted } := by
      simp [Control.delete, hrun]
    rw [hd]
    rcases eq_running hq hrun with ⟨rfl, -, ha⟩ | ⟨i, rfl, -, ha⟩ | ⟨i, rfl, -, ha⟩ <;>
      exact phase?_eq_some.mpr ⟨rfl, by rw [ha] at hst; exact hst⟩
  · by_cases hqu : c.status = .queued
    · obtain ⟨rfl, -, ha⟩ := eq_queued hq hqu
      have hd : c.delete = { c.cancelPending with status := .deleted } := by
        simp [Control.delete, hqu]
      rw [hd]
      exact phase?_eq_some.mpr ⟨rfl, activeStates_cancelPending (.inr ha)⟩
    · have hd : c.delete = { c with status := .deleted } := by
        unfold Control.delete
        split
        · next h => exact absurd h hrun
        · next h => exact absurd h hqu
        · rfl
      rw [hd]
      refine phase?_eq_some.mpr ⟨rfl, ?_⟩
      rw [phase?_eq_some] at hq
      cases q with
      | deleted d => exact absurd rfl (hne d)
      | uploading | ready | ended => exact hq.2.2
      | queued => exact absurd hq.1 hqu
      | _ => exact absurd hq.1 hrun

/-- Every move of a control part in some phase is a step of the lifecycle. -/
theorem simulates (h : Move n m k c c') (hq : c.phase? = some q) :
    ∃ q', c'.phase? = some q' ∧ Phase.Step k q q' := by
  cases h with
  | stay => exact ⟨q, hq, .stay q⟩
  | renew x e =>
    have hst : (c.updateRounds x.fences (·.renew e)).activeStates = c.activeStates :=
      activeStates_updateRounds_of_state fun _ => rfl
    refine ⟨q, ?_, .renew q⟩
    rw [← hq, phase?, phase?, hst]
    rfl
  | commit rid mid hn hm hs ha =>
    obtain ⟨rfl, hp, -⟩ := eq_uploading hq hs
    refine ⟨.queued, ?_, .commit⟩
    exact phase?_eq_some.mpr ⟨rfl, hp, activeStates_append_pendingRound ha _ rid mid⟩
  | send rid mid hn hm hs ha =>
    obtain ⟨rfl, hp, -⟩ := eq_ready hq hs
    refine ⟨.queued, ?_, .send⟩
    exact phase?_eq_some.mpr ⟨rfl, hp, activeStates_append_pendingRound ha _ rid mid⟩
  | claim rid iid e hs hr =>
    obtain ⟨rfl, hp, -⟩ := eq_queued hq hs
    refine ⟨.executing, phase?_eq_some.mpr ⟨rfl, hp, ?_⟩, .claim⟩
    exact activeStates_updateRounds_of_hit (a := .running) hq
      (fun _ h => TaskRound.state_of_claimable h) rfl (fun _ => rfl) hr
  | request pt hs hr =>
    have hst := activeStates_startCancelling c
    rcases eq_running hq hs with ⟨rfl, -, ha⟩ | ⟨i, rfl, -, ha⟩ | ⟨i, rfl, -, ha⟩
    · rw [ha] at hst
      exact ⟨.cancelling pt, phase?_eq_some.mpr ⟨hs, rfl, hst⟩, .request pt⟩
    · rw [ha] at hst
      exact ⟨.cancelling pt, phase?_eq_some.mpr ⟨hs, rfl, hst⟩, .requestAgain i pt⟩
    · exact absurd (countP_eq_zero_of_activeStates_nil ha fun _ h => h) hr
  | settle x revoked hr =>
    have ha := activeStates_of_hit hq (fun _ h => x.state_of_fences h) rfl hr
    obtain ⟨rfl, -, hp⟩ := eq_executing hq ha
    have hnil := activeStates_updateRounds_of_hit (f := (·.settle)) (a := .settled) hq
      (fun _ h => x.state_of_fences h) rfl (fun _ => rfl) hr
    cases revoked with
    | false => exact ⟨.ready, phase?_eq_some.mpr ⟨rfl, hp, hnil⟩, .settle⟩
    | true => exact ⟨.ended .aborted, phase?_eq_some.mpr ⟨rfl, hp, hnil⟩, .revoke⟩
  | deadline x hr =>
    have ha := activeStates_of_hit hq (fun _ h => x.state_of_fences h) rfl hr
    obtain ⟨rfl, -, -⟩ := eq_executing hq ha
    have hnil := activeStates_updateRounds_of_hit (f := (·.fail)) (a := .failed) hq
      (fun _ h => x.state_of_fences h) rfl (fun _ => rfl) hr
    exact ⟨.ended .failed, phase?_eq_some.mpr ⟨rfl, rfl, hnil⟩, .fail false⟩
  | reclaim x r hs hr =>
    have hne : c.rounds.countP x.fences ≠ 0 := by
      have hpos := List.countP_pos_iff.mpr ⟨r, List.mem_of_find?_eq_some hr, List.find?_some hr⟩
      exact hpos.ne'
    have ha := activeStates_of_hit hq (fun _ h => x.state_of_fences h) rfl hne
    obtain ⟨rfl, -, hp⟩ := eq_executing hq ha
    have hst := activeStates_updateRounds_of_hit (f := (·.reclaim r.attempt))
      (a := (reclaimOutcome r.attempt).1) hq (fun _ h => x.state_of_fences h) rfl (fun _ => rfl) hne
    by_cases hlim : attemptLimit ≤ r.attempt
    · simp only [reclaimOutcome, hlim, if_true] at hst
      refine ⟨.ended .failed, phase?_eq_some.mpr ⟨?_, hp, hst⟩, .fail true⟩
      simp [Control.reclaim, reclaimOutcome, hlim, Ending.status]
    · simp only [reclaimOutcome, hlim, if_false] at hst
      refine ⟨.queued, phase?_eq_some.mpr ⟨?_, hp, hst⟩, .requeue⟩
      simp [Control.reclaim, reclaimOutcome, hlim]
  | cancelRound rid hr =>
    have hc : ∀ r : TaskRound, (r.id = rid && r.state = .cancelling) = true → r.state = .cancelling := by
      simp
    have ha := activeStates_of_hit hq hc rfl hr
    have hnil := activeStates_updateRounds_of_hit (f := (·.cancel)) (a := .cancelled) hq hc rfl
      (fun _ => rfl) hr
    rcases eq_cancelling hq ha with ⟨i, rfl, hs, hp⟩ | ⟨rfl, hs⟩
    · exact ⟨.stopped i, phase?_eq_some.mpr ⟨hs, hp, hnil⟩, .cancelled i⟩
    · exact ⟨.deleted false, phase?_eq_some.mpr ⟨hs, hnil⟩, .drained⟩
  | endQueued e hs =>
    obtain ⟨rfl, hp, ha⟩ := eq_queued hq hs
    exact ⟨.ended e, phase?_eq_some.mpr ⟨rfl, hp, activeStates_cancelPending (.inr ha)⟩, .endQueued e⟩
  | endReady e hs =>
    obtain ⟨rfl, hp, ha⟩ := eq_ready hq hs
    exact ⟨.ended e, phase?_eq_some.mpr ⟨rfl, hp, ha⟩, .endReady e⟩
  | delete hs =>
    obtain ⟨hd, hne⟩ := delete_simulates hs hq
    exact ⟨_, hd, .delete q _ rfl hne⟩
  | reconcile pt hs hp ha =>
    have hstop : q = .stopped pt := by
      rcases eq_running hq hs with ⟨-, hp', -⟩ | ⟨i, -, -, ha'⟩ | ⟨i, rfl, hp', -⟩
      · rw [hp] at hp'
        cases hp'
      · rw [ha] at ha'
        cases ha'
      · rw [hp] at hp'
        rw [Option.some.inj hp']
    subst hstop
    refine ⟨.ofIntent pt, ?_, .reconcile pt⟩
    cases pt <;> exact phase?_eq_some.mpr (by first | exact ⟨rfl, rfl, ha⟩ | exact ⟨rfl, ha⟩)
  | terminate hs =>
    have hnil : (c.updateRounds (·.state.isActive) (·.cancel)).activeStates = [] :=
      activeStates_updateRounds_close (fun _ _ h => h) fun _ => rfl
    refine ⟨.ended .aborted, phase?_eq_some.mpr ⟨rfl, rfl, hnil⟩, ?_⟩
    cases hst : c.status with
    | queued =>
      obtain ⟨rfl, -, -⟩ := eq_queued hq hst
      exact .endQueued .aborted
    | running =>
      rcases eq_running hq hst with ⟨rfl, -, -⟩ | ⟨i, rfl, -, -⟩ | ⟨i, rfl, -, -⟩
      · exact .terminateExecuting
      · exact .terminateCancelling i
      · exact .terminateStopped i
    | _ =>
      rw [hst] at hs
      cases hs
  | expire hs =>
    obtain ⟨rfl, hp, ha⟩ := eq_uploading hq hs
    exact ⟨.ended .failed, phase?_eq_some.mpr ⟨rfl, hp, ha⟩, .expire⟩
  | fail hs =>
    have hfailed (ha : c.activeStates = [] ∨ c.activeStates = [.pending])
        (hp : c.pendingTerminal = none) :
        ({ c.cancelPending with status := .failed } : Control).phase? = some (.ended .failed) :=
      phase?_eq_some.mpr ⟨rfl, hp, activeStates_cancelPending ha⟩
    refine ⟨.ended .failed, ?_⟩
    cases hst : c.status with
    | uploading =>
      obtain ⟨rfl, hp, ha⟩ := eq_uploading hq hst
      exact ⟨hfailed (.inl ha) hp, .failUploading⟩
    | queued =>
      obtain ⟨rfl, hp, ha⟩ := eq_queued hq hst
      exact ⟨hfailed (.inr ha) hp, .failQueued⟩
    | ready =>
      obtain ⟨rfl, hp, ha⟩ := eq_ready hq hst
      exact ⟨hfailed (.inl ha) hp, .failReady⟩
    | _ =>
      rw [hst] at hs
      cases hs
  | cleanup hs =>
    rw [phase?_eq_some] at hq
    cases q with
    | ended e => exact ⟨.ended e, phase?_eq_some.mpr ⟨hq.1, hq.2.1, rfl⟩, .cleanupEnded e⟩
    | deleted d => exact ⟨.deleted false, phase?_eq_some.mpr ⟨hq.1, rfl⟩, .cleanupDeleted d⟩
    | _ =>
      rw [hq.1] at hs
      cases hs

end Move

end Control

/-! ## What the moves do to a round -/

/-- What a transaction does to one round of the task that it moves. -/
inductive TaskRound.Step : MoveKind → TaskRound → TaskRound → Prop
  | refl (k : MoveKind) (r : TaskRound) : Step k r r
  | renew (r : TaskRound) (e : Time) (h : r.state = .running) : Step .renew r (r.renew e)
  | claim (r : TaskRound) (iid : InstanceId) (e : Time) (h : r.state = .pending) :
      Step .claim r (r.claim iid e)
  | cancelling (k : MoveKind) (r : TaskRound) (h : r.state.isActive = true) :
      Step k r { r with state := .cancelling }
  | requeue (k : MoveKind) (r : TaskRound) (h : r.state = .running) (ha : r.attempt < attemptLimit) :
      Step k r (r.reclaim r.attempt)
  | close (k : MoveKind) (r : TaskRound) (s : RoundState) (o : Option InstanceId) (e : Option Time)
      (h : r.state.isActive = true) (hs : s.isActive = false) :
      Step k r { r with state := s, leaseOwner := o, leaseExpiresAt := e }

namespace Control.Move

variable {n m : Uuid} {k : MoveKind} {c c' : Control} {q : Phase}

theorem step_of_mem_updateWhere {p : TaskRound → Bool} {f : TaskRound → TaskRound}
    {rounds : List TaskRound} (hf : ∀ r ∈ rounds, p r = true → TaskRound.Step k r (f r))
    {r' : TaskRound} (h : r' ∈ updateWhere p f rounds) : ∃ r ∈ rounds, TaskRound.Step k r r' := by
  obtain ⟨r, hr, rfl⟩ := mem_updateWhere.mp h
  by_cases hp : p r = true
  · rw [if_pos hp]
    exact ⟨r, hr, hf r hr hp⟩
  · rw [if_neg hp]
    exact ⟨r, hr, .refl k r⟩

/-- A fence that finds a round of a task in some phase selects that round only. -/
theorem eq_of_fences (hq : c.phase? = some q) {p : TaskRound → Bool} {s : RoundState}
    (hp : ∀ r, p r = true → r.state = s) (hs : s.isActive = true) {r r₀ : TaskRound}
    (hr : r ∈ c.rounds) (hpr : p r = true) (hr₀ : r₀ ∈ c.rounds) (hpr₀ : p r₀ = true) : r = r₀ := by
  have hne : c.rounds.countP p ≠ 0 := (List.countP_pos_iff.mpr ⟨r, hr, hpr⟩).ne'
  have ha := activeStates_of_hit hq hp hs hne
  have hp' : ∀ r, p r = true → r.state.isActive = true := fun r hr => by rw [hp r hr, hs]
  obtain ⟨r₁, -, -, -, hf, -⟩ := activeStates_updateRounds_hit (f := id) ha hp' hne
  have hone {x : TaskRound} (hx : x ∈ c.rounds) (hpx : p x = true) : x = r₁ := by
    have hmem : x ∈ c.rounds.filter (·.state.isActive) := List.mem_filter.mpr ⟨hx, hp' x hpx⟩
    rw [hf, List.mem_singleton] at hmem
    exact hmem
  rw [hone hr hpr, hone hr₀ hpr₀]

/-- A move takes each round one step, and adds at most a pending round under a fresh identifier. -/
theorem rounds_step (h : Move n m k c c') (hq : c.phase? = some q) {r' : TaskRound}
    (hr' : r' ∈ c'.rounds) : (∃ r ∈ c.rounds, TaskRound.Step k r r') ∨
      ∃ rid mid, n ≤ rid ∧ rid < m ∧ r' = pendingRound rid mid := by
  have hnew {rid : RoundId} {mid : MessageId} (hn : n ≤ rid) (hm : rid < m)
      (hr' : r' ∈ c.rounds ++ [pendingRound rid mid]) :
      (∃ r ∈ c.rounds, TaskRound.Step k r r') ∨
        ∃ rid mid, n ≤ rid ∧ rid < m ∧ r' = pendingRound rid mid := by
    rcases List.mem_append.mp hr' with hr' | hr'
    · exact .inl ⟨r', hr', .refl k r'⟩
    · exact .inr ⟨rid, mid, hn, hm, List.mem_singleton.mp hr'⟩
  cases h with
  | stay => exact .inl ⟨r', hr', .refl _ r'⟩
  | commit rid mid hn hm => exact hnew hn hm hr'
  | send rid mid hn hm => exact hnew hn hm hr'
  | renew x e =>
    exact .inl (step_of_mem_updateWhere (fun r _ hp => .renew r e (x.state_of_fences hp)) hr')
  | claim rid iid e =>
    exact .inl (step_of_mem_updateWhere
      (fun r _ hp => .claim r iid e (TaskRound.state_of_claimable hp)) hr')
  | request pt =>
    exact .inl (step_of_mem_updateWhere (fun r _ hp => .cancelling _ r hp) hr')
  | settle x =>
    exact .inl (step_of_mem_updateWhere (fun r _ hp =>
      .close _ r .settled r.leaseOwner r.leaseExpiresAt (by rw [x.state_of_fences hp]; rfl) rfl) hr')
  | deadline x =>
    exact .inl (step_of_mem_updateWhere (fun r _ hp =>
      .close _ r .failed none none (by rw [x.state_of_fences hp]; rfl) rfl) hr')
  | reclaim x r₀ hs hfind =>
    refine .inl (step_of_mem_updateWhere (fun r hr hp => ?_) hr')
    have heq : r = r₀ := eq_of_fences hq (fun _ h => x.state_of_fences h) rfl hr hp
      (List.mem_of_find?_eq_some hfind) (List.find?_some hfind)
    subst heq
    by_cases hlim : attemptLimit ≤ r.attempt
    · have hout : r.reclaim r.attempt =
          { r with state := .failed, leaseOwner := none, leaseExpiresAt := none } := by
        simp [TaskRound.reclaim, reclaimOutcome, hlim]
      rw [hout]
      exact .close _ r .failed none none (by rw [x.state_of_fences hp]; rfl) rfl
    · exact .requeue _ r (x.state_of_fences hp) (Nat.lt_of_not_le hlim)
  | cancelRound rid =>
    refine .inl (step_of_mem_updateWhere (fun r _ hp => ?_) hr')
    have hst : r.state = .cancelling := by simp_all
    exact .close _ r .cancelled none none (by rw [hst]; rfl) rfl
  | endQueued | fail =>
    refine .inl (step_of_mem_updateWhere (fun r _ hp => ?_) hr')
    have hst : r.state = .pending := by simpa using hp
    exact .close _ r .cancelled r.leaseOwner r.leaseExpiresAt (by rw [hst]; rfl) rfl
  | endReady | expire | reconcile => exact .inl ⟨r', hr', .refl _ r'⟩
  | delete hs =>
    unfold Control.delete at hr'
    split at hr'
    · exact .inl (step_of_mem_updateWhere (fun r _ hp => .cancelling _ r hp) hr')
    · refine .inl (step_of_mem_updateWhere (fun r _ hp => ?_) hr')
      have hst : r.state = .pending := by simpa using hp
      exact .close _ r .cancelled r.leaseOwner r.leaseExpiresAt (by rw [hst]; rfl) rfl
    · exact .inl ⟨r', hr', .refl _ r'⟩
  | terminate =>
    exact .inl (step_of_mem_updateWhere (fun r _ hp => .close _ r .cancelled none none hp rfl) hr')
  | cleanup => cases hr'

/-- A move keeps the identifiers of the rounds, adds a fresh one, or drops all. -/
theorem rounds_ids (h : Move n m k c c') :
    c'.rounds.map (·.id) = c.rounds.map (·.id) ∨
      (∃ rid, n ≤ rid ∧ rid < m ∧ c'.rounds.map (·.id) = c.rounds.map (·.id) ++ [rid]) ∨
      c'.rounds = [] := by
  have hup (p : TaskRound → Bool) {f : TaskRound → TaskRound} (hf : ∀ r, (f r).id = r.id) :
      (updateWhere p f c.rounds).map (·.id) = c.rounds.map (·.id) :=
    map_updateWhere _ _ fun r _ => hf r
  cases h with
  | stay | endReady | expire | reconcile => exact .inl rfl
  | commit rid mid hn hm => exact .inr (.inl ⟨rid, hn, hm, by simp [pendingRound]⟩)
  | send rid mid hn hm => exact .inr (.inl ⟨rid, hn, hm, by simp [pendingRound]⟩)
  | delete =>
    left
    unfold Control.delete
    split
    · exact hup _ fun _ => rfl
    · exact hup _ fun _ => rfl
    · rfl
  | cleanup => exact .inr (.inr rfl)
  | _ => exact .inl (hup _ fun _ => rfl)

end Control.Move

end AgentCraft.Tasking
