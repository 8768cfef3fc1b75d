import AgentCraft.Relational.Table
import AgentCraft.Transition.Fallible
import AgentCraft.Transition.Trace

/-!
# Idempotent requests

`idempotency.py` and the shell that every route with an `Idempotency-Key` puts around it
(`api/v2/tasks.py`). A request looks its record up in a transaction of its own, which also purges what
has expired; if there is none it does its work in a second transaction, stores the record with it and
commits both at once. The clock is the one of the database, where `now()` is the start of the
transaction; only `expires_at` comes from the clock of the application.

The work itself is arbitrary: it fails, or it is a write to the business tables with a response.
-/

namespace AgentCraft.Requests

open AgentCraft.Relational AgentCraft.Transition

/-- Microseconds of the database clock. -/
abbrev Time := ℕ

abbrev RequestId := ℕ

/-- `_RECORD_TTL`. -/
def recordTtl : Time := 24 * 3600 * 1000000

/-- `idempotency_route_key`: subject, route and key. -/
structure IdempotencyKey where
  subjectHash : String
  route : String
  key : String
deriving DecidableEq, Repr

/-- A response: the status, the result, and the receipts of the cascade that a kill switch runs. -/
structure Response where
  status : ℕ
  result : String
  receipts : Option String := none
deriving DecidableEq, Repr

/-- `idempotency_records`. -/
structure IdempotencyRecord where
  requestHash : String
  response : Response
  expiresAt : Time
deriving DecidableEq, Repr

/-- The shell of a route. The ones that stop things run a cascade after the commit. -/
inductive Shell
  | plain | killSwitch
deriving DecidableEq, Repr

/-- Why a request fails. -/
inductive Failure
  /-- 409 `IDEMPOTENCY_CONFLICT` of `begin`. -/
  | otherBody
  /-- 409 `IDEMPOTENCY_CONFLICT` of `store`. -/
  | concurrent
  /-- The work raises a domain error. -/
  | business (status : ℕ)
  /-- Anything else. -/
  | internal
deriving DecidableEq, Repr

/-- How a request ends: with the response of an earlier one, with its own, or with an error. -/
inductive Outcome
  | replayed (r : Response)
  | executed (r : Response)
  | failed (f : Failure)
deriving DecidableEq, Repr

/-- How far a request has come, over business tables of type `β`. -/
inductive Phase (β : Type*)
  | arrived
  /-- The lookup has found nothing; the transaction goes on with the purge. -/
  | missed (startedAt : Time)
  | clear
  /-- In the second transaction. -/
  | working (startedAt : Time)
  | worked (startedAt : Time) (write : β → β) (response : Response)
  /-- The record has been flushed. -/
  | flushed (startedAt : Time) (write : β → β) (record : IdempotencyRecord)
  /-- Committed; the cascade is still to come. -/
  | committed (response : Response)
  | done (outcome : Outcome)

/-- A request; `hash` is its `request_hash`. -/
structure Request (β : Type*) where
  idem : IdempotencyKey
  hash : String
  shell : Shell
  phase : Phase β

/-- The database and the requests. -/
structure Desk (β : Type*) where
  records : Table IdempotencyKey IdempotencyRecord
  business : β
  requests : Table RequestId (Request β)
  now : Time

/-- What can go wrong with a step. -/
inductive DeskFailure
  | notEnabled
deriving DecidableEq, Repr

/-- The steps of the requests, and the clock. -/
inductive DeskAction (β : Type*)
  | tick (micros : ℕ)
  | arrive (id : RequestId) (idem : IdempotencyKey) (hash : String) (shell : Shell)
  | lookup (id : RequestId)
  | purge (id : RequestId)
  | enter (id : RequestId)
  | work (id : RequestId) (result : Except ℕ ((β → β) × Response))
  /-- `clock` is `datetime.now` of the application. -/
  | store (id : RequestId) (clock : Time)
  | commit (id : RequestId)
  /-- The cascade of a kill switch: its receipts, or an exception. -/
  | cascade (id : RequestId) (receipts : Option (Option String))
  /-- An exception or a lost connection; the transaction is rolled back. -/
  | fail (id : RequestId)

variable {β : Type*}

def Phase.isDone : Phase β → Bool
  | .done _ => true
  | _ => false

def Phase.isFlushed : Phase β → Bool
  | .flushed .. => true
  | _ => false

/-- A request moves on. -/
def Desk.setPhase (w : Desk β) (id : RequestId) (q : Request β) (phase : Phase β) : Desk β :=
  { w with requests := w.requests.set id { q with phase := phase } }

/-- The `SELECT` of `_lookup`. -/
def Desk.select (w : Desk β) (idem : IdempotencyKey) : Option IdempotencyRecord :=
  (w.records.get? idem).filter fun r => w.now < r.expiresAt

/-- `begin`: a hit is replayed, or rejected for another body. -/
def Desk.lookup (w : Desk β) (id : RequestId) (q : Request β) : Desk β :=
  match w.select q.idem with
  | none => w.setPhase id q (.missed w.now)
  | some r =>
    w.setPhase id q (.done (if r.requestHash = q.hash then .replayed r.response else .failed .otherBody))

/-- The `DELETE` of `_lookup`, and the commit of its transaction. -/
def Desk.purge (w : Desk β) (id : RequestId) (q : Request β) (startedAt : Time) : Desk β :=
  { w.setPhase id q .clear with records := w.records.filter fun _ r => startedAt < r.expiresAt }

/-- Another transaction has flushed a record under the key: the insert waits for it. -/
def Desk.isAwaited (w : Desk β) (idem : IdempotencyKey) : Bool :=
  w.requests.rows.any fun r => r.2.phase.isFlushed && r.2.idem = idem

/-- `store`: what has expired under the key gives way, what has not is a conflict. -/
def Desk.store (w : Desk β) (id : RequestId) (q : Request β) (startedAt : Time) (write : β → β)
    (response : Response) (clock : Time) : Desk β :=
  match (w.records.get? q.idem).filter fun r => startedAt < r.expiresAt with
  | some _ => w.setPhase id q (.done (.failed .concurrent))
  | none => w.setPhase id q (.flushed startedAt write ⟨q.hash, response, clock + recordTtl⟩)

/-- The commit of the second transaction. -/
def Desk.commit (w : Desk β) (id : RequestId) (q : Request β) (startedAt : Time) (write : β → β)
    (record : IdempotencyRecord) : Desk β :=
  { w.setPhase id q (match q.shell with
      | .plain => .done (.executed record.response)
      | .killSwitch => .committed record.response) with
    records := (w.records.filter fun k r => !(k = q.idem && r.expiresAt ≤ startedAt)).insert q.idem record
    business := write w.business }

/-- The step of a request in progress. -/
def Desk.advance (w : Desk β) (id : RequestId) (q : Request β) :
    DeskAction β → Except DeskFailure (Desk β)
  | .lookup _ =>
    match q.phase with
    | .arrived => .ok (w.lookup id q)
    | _ => .error .notEnabled
  | .purge _ =>
    match q.phase with
    | .missed startedAt => .ok (w.purge id q startedAt)
    | _ => .error .notEnabled
  | .enter _ =>
    match q.phase with
    | .clear => .ok (w.setPhase id q (.working w.now))
    | _ => .error .notEnabled
  | .work _ result =>
    match q.phase with
    | .working startedAt =>
      match result with
      | .ok (write, response) => .ok (w.setPhase id q (.worked startedAt write response))
      | .error status => .ok (w.setPhase id q (.done (.failed (.business status))))
    | _ => .error .notEnabled
  | .store _ clock =>
    match q.phase with
    | .worked startedAt write response =>
      if w.isAwaited q.idem then .error .notEnabled
      else .ok (w.store id q startedAt write response clock)
    | _ => .error .notEnabled
  | .commit _ =>
    match q.phase with
    | .flushed startedAt write record => .ok (w.commit id q startedAt write record)
    | _ => .error .notEnabled
  | .cascade _ receipts =>
    match q.phase with
    | .committed response =>
      match receipts with
      | some receipts => .ok (w.setPhase id q (.done (.executed { response with receipts := receipts })))
      | none => .ok (w.setPhase id q (.done (.failed .internal)))
    | _ => .error .notEnabled
  | .fail _ =>
    if q.phase.isDone then .error .notEnabled
    else .ok (w.setPhase id q (.done (.failed .internal)))
  | _ => .error .notEnabled

/-- The request that an action moves on. -/
def DeskAction.request? : DeskAction β → Option RequestId
  | .lookup id | .purge id | .enter id | .work id _ | .store id _ | .commit id | .cascade id _ | .fail id =>
    some id
  | _ => none

/-- The step function. -/
def Desk.step (w : Desk β) (a : DeskAction β) : Except DeskFailure (Desk β) :=
  match a with
  | .tick micros => .ok { w with now := w.now + micros }
  | .arrive id idem hash shell =>
    match w.requests.get? id with
    | some _ => .error .notEnabled
    | none => .ok { w with requests := w.requests.insert id ⟨idem, hash, shell, .arrived⟩ }
  | a =>
    match a.request?.bind fun id => (w.requests.get? id).map fun q => (id, q) with
    | some (id, q) => w.advance id q a
    | none => .error .notEnabled

/-- Requests over business tables of type `β`. -/
def desk (β : Type*) : System (Desk β) (DeskAction β) DeskFailure := ⟨Desk.step⟩

/-- Neither requests nor records yet; the business tables are arbitrary. -/
structure Desk.Initial (w : Desk β) : Prop where
  records : w.records = .empty
  requests : w.requests = .empty

end AgentCraft.Requests
