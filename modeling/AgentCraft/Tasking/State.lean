import Mathlib.Data.List.Basic

/-!
# The task state machine

The eight task statuses with their legal transitions (`VALID_TRANSITIONS`), the other enumerations of
the task domain, and the failures that end a transaction. `assertTransition` guards the entries that
user requests drive; the system's own paths arbitrate by conditional updates instead.
-/

namespace AgentCraft.Tasking

/-- `TASK_STATUSES`. -/
inductive TaskStatus
  | uploading | queued | running | ready | completed | failed | aborted | deleted
deriving DecidableEq, Repr

/-- The status as the column stores it. -/
def TaskStatus.name : TaskStatus → String
  | .uploading => "uploading"
  | .queued => "queued"
  | .running => "running"
  | .ready => "ready"
  | .completed => "completed"
  | .failed => "failed"
  | .aborted => "aborted"
  | .deleted => "deleted"

/-- `_TERMINAL_STATUSES`: the statuses that the retention sweep looks for. -/
def TaskStatus.isTerminal : TaskStatus → Bool
  | .completed | .failed | .aborted | .deleted => true
  | _ => false

/-- `_UNSTARTED_STATES_SQL`: no round of the task is running. -/
def TaskStatus.isUnstarted : TaskStatus → Bool
  | .uploading | .queued | .ready => true
  | _ => false

/-- `VALID_TRANSITIONS`, one row per status. -/
def validTransitions : TaskStatus → List TaskStatus
  | .uploading => [.queued, .failed, .deleted]
  | .queued => [.running, .completed, .aborted, .failed, .deleted]
  | .running => [.ready, .completed, .aborted, .failed, .deleted]
  | .ready => [.queued, .completed, .aborted, .failed, .deleted]
  | .completed => [.deleted]
  | .failed => [.deleted]
  | .aborted => [.deleted]
  | .deleted => []

/-- `ABORT_REASONS`. -/
inductive AbortReason
  | userCancel | roundFailed | uploadExpired | providerKeyRevoked | toolRevoked | adminSuspended
deriving DecidableEq, Repr

/-- `PENDING_TERMINAL_VALUES`: the terminal status that a running task was asked to take. -/
inductive PendingTerminal
  | completed | aborted | deleted
deriving DecidableEq, Repr

/-- The status that a terminal intent stands for. -/
def PendingTerminal.status : PendingTerminal → TaskStatus
  | .completed => .completed
  | .aborted => .aborted
  | .deleted => .deleted

/-- `ROUND_STATES`. -/
inductive RoundState
  | pending | running | cancelling | settled | failed | cancelled
deriving DecidableEq, Repr

/-- `_ACTIVE_ROUND_STATES`, the states of the partial unique index `one_active_round_per_task`. -/
def RoundState.isActive : RoundState → Bool
  | .pending | .running | .cancelling => true
  | _ => false

/-- `RESERVATION_KINDS`. -/
inductive ReservationKind
  | active | running | taskRoot | artifactCopy
deriving DecidableEq, Repr

/-- The kinds whose bytes count against the storage quota. -/
def ReservationKind.isStorage : ReservationKind → Bool
  | .taskRoot | .artifactCopy => true
  | _ => false

/-- `RESERVATION_STATES`. -/
inductive ReservationState
  | held | consumed | released
deriving DecidableEq, Repr

/-- The states of the partial unique indexes `one_live_*_reservation`. -/
def ReservationState.isLive : ReservationState → Bool
  | .held | .consumed => true
  | .released => false

/-- The two directions of a task file. -/
inductive FileDirection
  | input | output
deriving DecidableEq, Repr

/-- `FILE_STATES`. -/
inductive FileState
  | staged | committed | registered | deleted
deriving DecidableEq, Repr

/-- `MESSAGE_AUTHORS`. -/
inductive MessageAuthor
  | user | assistant | tool
deriving DecidableEq, Repr

/-! ## Failures -/

/-- The members of `ErrorCode` that the task domain raises. -/
inductive ErrorCode
  | quotaDailyExceeded | quotaActiveExceeded | quotaStorageExceeded
  | inputCommitted | fileLimitExceeded | fileNotFound
  | revisionNotPublished | toolRevoked
  | taskNotFound | taskInvalidTransition | taskRoundBusy | toolCallRejected
deriving DecidableEq, Repr

/-- What ends a transaction early; every one of them rolls it back. -/
inductive Failure
  /-- `AgentCraftError` with its HTTP status and the `Retry-After` header. -/
  | agentCraft (code : ErrorCode) (message : String) (httpStatus : ℕ) (retryAfter : Option String)
  /-- `HTTPException` with a `code`/`message` detail. -/
  | http (status : ℕ) (code message : String)
  /-- `_CandidateDropped`: a background job lost the arbitration for its candidate. -/
  | candidateDropped
  /-- The fence of an executor matched no row: nothing is written. -/
  | fencedOut
  /-- A violated constraint, by name. -/
  | integrity (constraint : String)
  /-- `scalar_one` on an empty result. -/
  | noResultFound
  /-- The actor holds no such candidate, context or row: nothing is executed. -/
  | notEnabled
deriving DecidableEq, Repr

/-- `AgentCraftError` without a `Retry-After` header. -/
def agentCraftError (code : ErrorCode) (message : String) (httpStatus : ℕ) : Failure :=
  .agentCraft code message httpStatus none

/-- `_validation_error`. -/
def validationError (message : String) : Failure := .http 400 "VALIDATION_ERROR" message

/-- `_task_not_found`: missing, foreign and deleted tasks look alike. -/
def taskNotFound : Failure := agentCraftError .taskNotFound "任务不存在" 404

/-- `_transition_conflict`. -/
def transitionConflict (message : String) : Failure :=
  agentCraftError .taskInvalidTransition message 409

/-- `assert_transition`: only the transitions of `validTransitions` pass. -/
def assertTransition (cur nxt : TaskStatus) : Except Failure Unit :=
  if nxt ∈ validTransitions cur then .ok ()
  else .error (transitionConflict ("任务状态不允许从 " ++ cur.name ++ " 迁移到 " ++ nxt.name))

theorem assertTransition_eq_ok {cur nxt : TaskStatus} :
    assertTransition cur nxt = .ok () ↔ nxt ∈ validTransitions cur := by
  unfold assertTransition
  split <;> simp_all

/-- A legal transition never leaves `deleted`, and leaves a terminal status only for `deleted`. -/
theorem eq_deleted_of_mem_validTransitions {cur nxt : TaskStatus} (hcur : cur.isTerminal = true)
    (h : nxt ∈ validTransitions cur) : nxt = .deleted ∧ cur ≠ .deleted := by
  cases cur <;> simp_all [validTransitions, TaskStatus.isTerminal]

/-- No legal transition enters `uploading`. -/
theorem ne_uploading_of_mem_validTransitions {cur nxt : TaskStatus}
    (h : nxt ∈ validTransitions cur) : nxt ≠ .uploading := by
  rintro rfl
  cases cur <;> simp [validTransitions] at h

end AgentCraft.Tasking
