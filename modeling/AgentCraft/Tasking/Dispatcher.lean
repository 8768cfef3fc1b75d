import AgentCraft.Tasking.Files
import Mathlib.Data.List.Sort

/-!
# The dispatcher and its background jobs

`task_dispatcher.py`: claiming pending rounds, reclaiming expired and cancelling rounds, and the two
sweeps. Each job is a scan in one session followed by one transaction for each candidate, so what the
scan saw may be stale when the transaction runs; the transactions re-check what their `WHERE` clauses
say and nothing else.
-/

namespace AgentCraft.Tasking

open AgentCraft.Relational

/-- `_ATTEMPT_LIMIT`. -/
def attemptLimit : ℕ := 3

/-- A scanned task. -/
structure TaskCandidate where
  task : TaskId
  owner : UserId
deriving DecidableEq, Repr

/-- A scanned round. -/
structure RoundCandidate where
  round : RoundId
  task : TaskId
  owner : UserId
deriving DecidableEq, Repr

/-- A scanned round whose lease had expired, with the lease that the scan saw. -/
structure ExpiredCandidate where
  round : RoundId
  task : TaskId
  owner : UserId
  leaseOwner : Option InstanceId
  leaseEpoch : ℕ
deriving DecidableEq, Repr

/-- The tasks that satisfy a condition, as candidates. -/
def scanTasks (db : Db) (p : Task → Bool) : List TaskCandidate :=
  (db.tasks.rows.filter fun row => p row.2).map fun row => ⟨row.1, row.2.ownerId⟩

/-- The rounds that satisfy a condition, with their task and its owner. -/
def scanRounds (db : Db) (p : Task → TaskRound → Bool) : List (RoundCandidate × TaskRound) :=
  db.tasks.rows.flatMap fun row =>
    (row.2.rounds.filter (p row.2)).map fun r => (⟨r.id, row.1, row.2.ownerId⟩, r)

/-! ## Dispatch -/

/-- `_DISPATCH_CANDIDATES_SQL`: the oldest pending rounds of queued tasks (identifiers grow with
`created_at`). -/
def dispatchCandidates (cfg : Settings) (db : Db) : List RoundCandidate :=
  (((scanRounds db fun t r => r.state = .pending && t.status = .queued).map Prod.fst).insertionSort
    fun a b => a.round ≤ b.round).take cfg.dispatchBatch

/-- The round part of `_CLAIM_ROUND_SQL`. -/
def TaskRound.claim (iid : InstanceId) (expires : Time) (r : TaskRound) : TaskRound :=
  { r with
    state := .running, leaseOwner := some iid, leaseEpoch := r.leaseEpoch + 1
    leaseExpiresAt := some expires, attempt := r.attempt + 1 }

/-- `id = :rid AND state = 'pending'`. -/
def TaskRound.claimable (rid : RoundId) (r : TaskRound) : Bool := r.id = rid && r.state = .pending

theorem TaskRound.state_of_claimable {rid : RoundId} {r : TaskRound} (h : r.claimable rid = true) :
    r.state = .pending := by
  simp only [TaskRound.claimable, Bool.and_eq_true, decide_eq_true_eq] at h
  exact h.2

/-- The task part of `_claim_round`. -/
def Task.claimRound (t : Task) (rid : RoundId) (iid : InstanceId) (expires : Time) :
    Except Failure Task :=
  match t.rounds.find? (·.claimable rid) with
  | none => .error .candidateDropped
  | some r =>
    if t.status ≠ .queued then .error .candidateDropped
    else do
      let t := t.updateRounds (·.claimable rid) (·.claim iid expires)
      let t ← ({ t with status := .running } : Task).insertReservation
        ⟨t.ownerId, .running, none, 0, .held⟩
      return t.appendEvents
        [(.statusChanged .running none, none), (.roundRunning rid (r.attempt + 1), some rid)]

/-- `_SLOT_LEASE_SQL`: the first free slot that no other transaction has locked. -/
def Db.leaseSlot (db : Db) (locked : List ℕ) (tid : TaskId) (until_ : Time) : Except Failure Db :=
  match db.slots.rows.find? fun s => s.2.state = .free && s.1 ∉ locked with
  | none => .error .candidateDropped
  | some s => .ok { db with slots := db.slots.set s.1 ⟨some tid, .leased, some until_⟩ }

/-- `_claim_round`. -/
def claimRound (cfg : Settings) (db : Db) (locked : List ℕ) (c : RoundCandidate)
    (iid : InstanceId) : Except Failure Db := do
  match db.visibleTask c.owner c.task with
  | none => .error .candidateDropped
  | some t =>
    let t' ← t.claimRound c.round iid (db.now + cfg.leaseTtlSeconds)
    let charged ← db.chargeUsage c.owner
      (fun row => db.underQuota c.owner (row.runningTasks < ·.maxRunningTasks))
      (fun row => { row with runningTasks := row.runningTasks + 1 }) .candidateDropped
    (charged.setTask c.task t').leaseSlot locked c.task (db.now + cfg.leaseTtlSeconds)

/-! ## Reclaim -/

/-- The running part of `_RECLAIM_CANDIDATES_SQL`. -/
def expiredCandidates (db : Db) : List ExpiredCandidate :=
  (scanRounds db fun _ r => r.state = .running && r.leaseExpiresAt.any (· < db.now)).map fun c =>
    ⟨c.1.round, c.1.task, c.1.owner, c.2.leaseOwner, c.2.leaseEpoch⟩

/-- The cancelling part of `_RECLAIM_CANDIDATES_SQL`. -/
def cancellingCandidates (db : Db) : List RoundCandidate :=
  (scanRounds db fun _ r => r.state = .cancelling).map Prod.fst

/-- The predicate of `_FENCE_EXPIRED_SQL`: owner, epoch and state, but not the expiry itself. A
candidate without lease owner compares as unknown. -/
def ExpiredCandidate.fences (c : ExpiredCandidate) (r : TaskRound) : Bool :=
  r.id = c.round && r.state = .running && c.leaseOwner.isSome && r.leaseOwner = c.leaseOwner &&
    r.leaseEpoch = c.leaseEpoch

theorem ExpiredCandidate.state_of_fences (c : ExpiredCandidate) {r : TaskRound}
    (h : c.fences r = true) : r.state = .running := by
  simp only [ExpiredCandidate.fences, Bool.and_eq_true, decide_eq_true_eq] at h
  exact h.1.1.1.2

/-- The state and the task status that a reclaimed round takes, by its attempts. -/
def reclaimOutcome (attempt : ℕ) : RoundState × TaskStatus :=
  if attemptLimit ≤ attempt then (.failed, .failed) else (.pending, .queued)

/-- The round part of `_reclaim_expired_round`: lease cleared, epoch and attempts kept. -/
def TaskRound.reclaim (attempt : ℕ) (r : TaskRound) : TaskRound :=
  { r with state := (reclaimOutcome attempt).1, leaseOwner := none, leaseExpiresAt := none }

/-- `_reclaim_expired_round`, the task part. The second statement of the source addresses the row that
the fence has just cleared, so both are one update here. -/
def Task.reclaimExpired (t : Task) (c : ExpiredCandidate) : Except Failure Task :=
  match t.rounds.find? c.fences with
  | none => .error .candidateDropped
  | some r =>
    if t.status ≠ .running then .error .candidateDropped
    else
      let t := t.updateRounds c.fences (·.reclaim r.attempt)
      if attemptLimit ≤ r.attempt then
        .ok (({ t with status := .failed, abortReason := some .roundFailed } : Task).appendEvents
          [(.statusChanged .failed (some .roundFailed), none),
            (.roundFailed c.round r.attempt, some c.round)])
      else
        .ok (({ t with status := .queued } : Task).appendEvents
          [(.statusChanged .queued none, none),
            (.roundQueued c.round (some r.attempt), some c.round)])

/-- `_reclaim_expired_round`. -/
def reclaimExpired (db : Db) (c : ExpiredCandidate) : Except Failure Db := do
  match db.visibleTask c.owner c.task with
  | none => .error .candidateDropped
  | some t =>
    let t' ← t.reclaimExpired c
    return (db.setTask c.task t').releaseTaskHoldings c.task c.owner

/-- The round part of `_CANCEL_ROUND_SQL` and of the terminators: cancelled, lease cleared. -/
def TaskRound.cancel (r : TaskRound) : TaskRound :=
  { r with state := .cancelled, leaseOwner := none, leaseExpiresAt := none }

/-- `_cancel_cancelling_round`, the task part: only the round is closed. -/
def Task.cancelCancellingRound (t : Task) (rid : RoundId) : Except Failure Task :=
  let cancelling (r : TaskRound) : Bool := r.id = rid && r.state = .cancelling
  if t.rounds.countP cancelling = 0 then .error .candidateDropped
  else .ok ((t.updateRounds cancelling (·.cancel)).appendEvents
    [(.roundCancelled (some rid) none, some rid)])

/-- `_cancel_cancelling_round`. -/
def cancelCancellingRound (db : Db) (c : RoundCandidate) : Except Failure Db := do
  match db.visibleTask c.owner c.task with
  | none => .error .candidateDropped
  | some t =>
    let t' ← t.cancelCancellingRound c.round
    return (db.setTask c.task t').releaseTaskHoldings c.task c.owner

/-! ## Sweeps -/

/-- `_UPLOAD_CANDIDATES_SQL`. -/
def uploadCandidates (cfg : Settings) (db : Db) : List TaskCandidate :=
  scanTasks db fun t => t.status = .uploading && t.createdAt + cfg.uploadTtlHours * 3600 < db.now

/-- The task part of `sweep_upload_ttl`. -/
def Task.expireUpload (t : Task) : Except Failure Task :=
  if t.status ≠ .uploading then .error .candidateDropped
  else .ok (({ t with status := .failed, abortReason := some .uploadExpired } : Task).appendEvents
    [(.statusChanged .failed (some .uploadExpired), none)])

/-- One candidate of `sweep_upload_ttl`. -/
def expireUpload (db : Db) (c : TaskCandidate) : Except Failure Db := do
  match db.visibleTask c.owner c.task with
  | none => .error .candidateDropped
  | some t =>
    let t' ← t.expireUpload
    return (db.setTask c.task t').releaseTaskHoldings c.task c.owner

/-- `_TERMINAL_CANDIDATES_SQL`. -/
def terminalCandidates (cfg : Settings) (db : Db) : List TaskCandidate :=
  scanTasks db fun t =>
    t.status.isTerminal && t.createdAt + cfg.terminalRetentionDays * 86400 < db.now

/-- The task part of `sweep_terminal_cleanup`: events, rounds and messages go, with the references to
them, and every held reservation is released. The status is not read again. -/
def Task.cleanup (t : Task) : Task :=
  let t : Task := { t with
    events := [], rounds := [], messages := [], initialMessageId := none
    files := t.files.map fun f => { f with producedInRoundId := none } }
  (t.releaseReservations none).1

/-- One candidate of `sweep_terminal_cleanup`; a release of no row moves no account. -/
def cleanupTask (db : Db) (c : TaskCandidate) : Except Failure Db :=
  match db.visibleTask c.owner c.task with
  | none => .ok db
  | some t => .ok ((db.setTask c.task t.cleanup).applyReleaseAccounting c.task c.owner
      (t.releaseReservations none).2 true)

end AgentCraft.Tasking
