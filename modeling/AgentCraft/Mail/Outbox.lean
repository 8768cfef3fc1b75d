import AgentCraft.Relational.Table
import AgentCraft.Transition.Fallible
import AgentCraft.Transition.Trace

/-!
# The outbox

`outbox.py`. A worker claims a batch of rows for five minutes in one transaction, sends them one after the
other outside of any transaction, and writes the result of each in a transaction of its own, on condition
that the row is still leased to it. It may stop anywhere in between: a crash, an exception that ends the
cycle, a restart under the same worker id. `now()` is the start of a transaction.

Every worker is under its own id, and runs one cycle at a time. Encryption and templates are left out; a
payload that cannot be opened is a send that fails.
-/

namespace AgentCraft.Mail

open AgentCraft.Relational AgentCraft.Transition

/-- Microseconds of the database clock. -/
abbrev Time := ℕ

abbrev OutboxId := ℕ

/-- `_worker_id`. -/
abbrev WorkerId := String

/-- `OUTBOX_STATES`. -/
inductive OutboxState
  | pending | sent | deliveryFailed
deriving DecidableEq, Repr

/-- `email_outbox`. -/
structure EmailOutbox where
  purpose : String
  payloadCiphertext : String
  state : OutboxState
  leaseOwner : Option WorkerId
  leaseExpiresAt : Option Time
  attempts : ℕ
  nextAttemptAt : Option Time
  createdAt : Time
deriving DecidableEq, Repr

/-- `MAX_ATTEMPTS`. -/
def maxAttempts : ℕ := 5

def seconds (n : ℕ) : Time := n * 1000000

/-- `LEASE_MINUTES`. -/
def lease : Time := seconds (5 * 60)

/-- `BACKOFF_SECONDS`. -/
def backoffSeconds : List ℕ := [60, 300, 900, 1800]

/-- A row as the claim returns it. -/
structure Claimed where
  id : OutboxId
  purpose : String
  payloadCiphertext : String
  attempts : ℕ
deriving DecidableEq, Repr

/-- Where a worker is in `dispatch_once`. -/
inductive Cycle
  | idle
  /-- The rows that are left of the batch. -/
  | working (claimed : List Claimed)
  /-- The first row has been sent, or could not be; the result is not written yet. -/
  | finished (row : Claimed) (ok : Bool) (rest : List Claimed)
deriving DecidableEq, Repr

/-- The table, the workers and the clock. -/
structure Outbox where
  rows : Table OutboxId EmailOutbox
  workers : Table WorkerId Cycle
  now : Time

inductive OutboxFailure
  | notEnabled
  /-- `batch 必须 >= 1`. -/
  | badBatch
  /-- There is no backoff for this attempt. -/
  | indexError
deriving DecidableEq, Repr

/-- The labels of the system. A transaction starts at `startedAt`. -/
inductive OutboxAction
  | tick (micros : ℕ)
  | enqueue (id : OutboxId) (purpose payload : String) (createdAt : Time)
  /-- A process starts under the id. -/
  | boot (worker : WorkerId)
  /-- The claim passes over the rows that another transaction has locked. -/
  | claim (worker : WorkerId) (batch : ℕ) (locked : List OutboxId) (startedAt : Time)
  | send (worker : WorkerId) (ok : Bool)
  | record (worker : WorkerId) (startedAt : Time)
  /-- The cycle ends before its batch does. -/
  | stop (worker : WorkerId)
deriving DecidableEq, Repr

/-- What the claim asks of a row. -/
def EmailOutbox.Due (row : EmailOutbox) (now : Time) : Prop :=
  row.state = .pending ∧ (∀ t ∈ row.nextAttemptAt, t ≤ now) ∧ ∀ t ∈ row.leaseExpiresAt, t < now

instance (row : EmailOutbox) (now : Time) : Decidable (row.Due now) := by
  unfold EmailOutbox.Due
  infer_instance

namespace Outbox

variable (w : Outbox)

/-- `ORDER BY created_at LIMIT batch`, of the rows that are due and not locked. -/
def batchOf (batch : ℕ) (locked : List OutboxId) (startedAt : Time) : List (OutboxId × EmailOutbox) :=
  ((w.rows.rows.filter fun x => decide (x.2.Due startedAt) && !locked.contains x.1).insertionSort
    fun x y => x.2.createdAt ≤ y.2.createdAt).take batch

/-- `_CLAIM_SQL`. -/
def claim (worker : WorkerId) (batch : ℕ) (locked : List OutboxId) (startedAt : Time) : Outbox :=
  let taken := w.batchOf batch locked startedAt
  { w with
    rows := w.rows.map fun id row =>
      if (taken.map (·.1)).contains id then
        { row with leaseOwner := some worker, leaseExpiresAt := some (startedAt + lease) }
      else row
    workers := w.workers.set worker
      (.working (taken.map fun x => ⟨x.1, x.2.purpose, x.2.payloadCiphertext, x.2.attempts⟩)) }

/-- An `UPDATE` of the row if the worker has its lease. -/
def update (id : OutboxId) (worker : WorkerId) (f : EmailOutbox → EmailOutbox) : Outbox :=
  { w with rows := w.rows.map fun id' row => if id' = id ∧ row.leaseOwner = some worker then f row else row }

/-- `_SENT_SQL`. -/
def markSent (id : OutboxId) (worker : WorkerId) : Outbox :=
  w.update id worker fun row => { row with state := .sent, leaseOwner := none, leaseExpiresAt := none }

/-- `_RETRY_SQL`. -/
def markRetry (id : OutboxId) (worker : WorkerId) (attempts secs : ℕ) (startedAt : Time) : Outbox :=
  w.update id worker fun row =>
    { row with
      leaseOwner := none
      leaseExpiresAt := none
      attempts := attempts
      nextAttemptAt := some (startedAt + seconds secs) }

/-- `_DEAD_SQL`. -/
def markDead (id : OutboxId) (worker : WorkerId) (attempts : ℕ) : Outbox :=
  w.update id worker fun row =>
    { row with state := .deliveryFailed, leaseOwner := none, leaseExpiresAt := none, attempts := attempts }

/-- `_finalize_row`, once the row has been sent or could not be. -/
def finalizeRow (worker : WorkerId) (row : Claimed) (ok : Bool) (startedAt : Time) :
    Except OutboxFailure Outbox :=
  let newAttempts := row.attempts + 1
  if ok then .ok (w.markSent row.id worker)
  else if maxAttempts ≤ newAttempts then .ok (w.markDead row.id worker newAttempts)
  else
    match backoffSeconds[newAttempts - 1]? with
    | none => .error .indexError
    | some secs => .ok (w.markRetry row.id worker newAttempts secs startedAt)

/-- The step function. -/
def step : OutboxAction → Except OutboxFailure Outbox
  | .tick micros => .ok { w with now := w.now + micros }
  | .enqueue id purpose payload createdAt =>
    .ok { w with rows := w.rows.insert id ⟨purpose, payload, .pending, none, none, 0, none, createdAt⟩ }
  | .boot worker => .ok { w with workers := w.workers.insert worker .idle }
  | .claim worker batch locked startedAt =>
    if batch < 1 then .error .badBatch
    else if w.workers.get? worker = some .idle ∧ startedAt ≤ w.now then
      .ok (w.claim worker batch locked startedAt)
    else .error .notEnabled
  | .send worker ok =>
    match w.workers.get? worker with
    | some (.working (row :: rest)) =>
      .ok { w with workers := w.workers.set worker (.finished row ok rest) }
    | some (.working []) => .ok { w with workers := w.workers.set worker .idle }
    | _ => .error .notEnabled
  | .record worker startedAt =>
    match w.workers.get? worker with
    | some (.finished row ok rest) =>
      if startedAt ≤ w.now then do
        let w' ← w.finalizeRow worker row ok startedAt
        .ok { w' with workers := w'.workers.set worker (.working rest) }
      else .error .notEnabled
    | _ => .error .notEnabled
  | .stop worker => .ok { w with workers := w.workers.set worker .idle }

end Outbox

/-- The outbox under its workers. -/
def outbox : System Outbox OutboxAction OutboxFailure := ⟨Outbox.step⟩

/-- No row yet and no worker. -/
structure Outbox.Initial (w : Outbox) : Prop where
  rows : w.rows = .empty
  workers : w.workers = .empty

/-- What an observer notes: a send that succeeded, and a failure that has been recorded. -/
inductive OutboxMark
  | succeeded (id : OutboxId)
  | failed (id : OutboxId)
deriving DecidableEq, Repr

/-- The marks of a step. -/
def Outbox.marks (w : Outbox) : OutboxAction → List OutboxMark
  | .send worker true =>
    match w.workers.get? worker with
    | some (.working (row :: _)) => [.succeeded row.id]
    | _ => []
  | .record worker _ =>
    match w.workers.get? worker with
    | some (.finished row false _) =>
      if (w.rows.get? row.id).any (·.leaseOwner = some worker) then [.failed row.id] else []
    | _ => []
  | _ => []

end AgentCraft.Mail
