import Mathlib.Data.List.Sort
import Mathlib.Data.String.Basic
import AgentCraft.Relational.Table
import AgentCraft.Transition.Fallible
import AgentCraft.Transition.Trace

/-!
# The sliding-window rate limiter

`rate_limit.py`: `enforce` counts the recent events of its subjects and, if none of them has reached
the limit, records one event for each. A call is one transaction whose clock is the one of its first
statement: it takes an advisory lock, counts, and inserts, cleans up and commits. Any number of calls
run next to each other; only calls with the same lock key wait for one another.
-/

namespace AgentCraft.Access

open AgentCraft.Relational AgentCraft.Transition

/-- Microseconds of the database clock. -/
abbrev Time := ℕ

/-- A hashed subject: what `hmac_subject` returns. -/
abbrev Subject := String

/-- The scopes that `LIMITS` registers. -/
inductive Scope
  | login | invitationAccept | emailVerifyResend | passwordResetRequest | deletionCancelInvalid
  | deletionCancelAttempt | mfaFailure | passwordChangeTotp | providerTest | mcpDiscover | report
  | discover | taskCreate | upload | sendMessage | sseConnect | adminKillSwitch
deriving DecidableEq, Repr

/-- The scope as the column stores it. -/
def Scope.name : Scope → String
  | .login => "login"
  | .invitationAccept => "invitation_accept"
  | .emailVerifyResend => "email_verify_resend"
  | .passwordResetRequest => "password_reset_request"
  | .deletionCancelInvalid => "deletion_cancel_invalid"
  | .deletionCancelAttempt => "deletion_cancel_attempt"
  | .mfaFailure => "mfa_failure"
  | .passwordChangeTotp => "password_change_totp"
  | .providerTest => "provider_test"
  | .mcpDiscover => "mcp_discover"
  | .report => "report"
  | .discover => "discover"
  | .taskCreate => "task_create"
  | .upload => "upload"
  | .sendMessage => "send_message"
  | .sseConnect => "sse_connect"
  | .adminKillSwitch => "admin_kill_switch"

/-- `LIMITS`: the limit and the window in seconds. -/
def limits : Scope → ℕ × ℕ
  | .login => (10, 900)
  | .invitationAccept => (5, 3600)
  | .emailVerifyResend => (3, 3600)
  | .passwordResetRequest => (3, 3600)
  | .deletionCancelInvalid => (10, 3600)
  | .deletionCancelAttempt => (10, 3600)
  | .mfaFailure => (10, 900)
  | .passwordChangeTotp => (5, 900)
  | .providerTest => (10, 3600)
  | .mcpDiscover => (10, 3600)
  | .report => (10, 86400)
  | .discover => (60, 3600)
  | .taskCreate => (30, 86400)
  | .upload => (60, 3600)
  | .sendMessage => (60, 3600)
  | .sseConnect => (60, 3600)
  | .adminKillSwitch => (10, 3600)

def Scope.limit (s : Scope) : ℕ := (limits s).1

/-- `make_interval(secs => :window)`. -/
def Scope.window (s : Scope) : ℕ := (limits s).2 * 1000000

/-- `rate_limit_events`. -/
structure RateLimitEvent where
  scope : Scope
  subjectHash : Subject
  occurredAt : Time
deriving DecidableEq, Repr

/-- The arguments of `enforce`: a scope and a set of subjects. -/
structure Enforce where
  scope : Scope
  subjects : List Subject
  nodup : subjects.Nodup
deriving DecidableEq

/-- `lock_key`: the scope and the sorted subjects, joined by colons. -/
def Enforce.lockKey (e : Enforce) : String :=
  e.scope.name ++ ":" ++ ":".intercalate (e.subjects.insertionSort (· ≤ ·))

/-- How far a call has come: it asks for the lock, holds it, has been admitted by its count, or has
ended: with its events committed, with a 429 that carries `Retry-After`, or without an answer. -/
inductive CallPhase
  | waiting | locked | counted | admitted | rejected (retryAfter : ℤ) | lost
deriving DecidableEq, Repr

/-- The lock is held until the transaction ends. -/
def CallPhase.holdsLock : CallPhase → Bool
  | .locked | .counted => true
  | _ => false

/-- The count of the call is still to come. -/
def CallPhase.isUncounted : CallPhase → Bool
  | .waiting | .locked => true
  | _ => false

/-- A call of `enforce`; `startedAt` is `now()` of its transaction. -/
structure Call where
  enforce : Enforce
  startedAt : Time
  phase : CallPhase
deriving DecidableEq

abbrev CallId := ℕ

/-- The events and the calls. -/
structure Limiter where
  events : List RateLimitEvent
  calls : Table CallId Call
  now : Time

/-- `occurred_at > now() - make_interval(secs => :window)`, within the scope. -/
def RateLimitEvent.isRecent (scope : Scope) (now : Time) (e : RateLimitEvent) : Bool :=
  e.scope = scope && now < e.occurredAt + scope.window

/-- `count(*)` of one subject. -/
def subjectCount (events : List RateLimitEvent) (scope : Scope) (now : Time) (x : Subject) : ℕ :=
  events.countP fun e => e.subjectHash = x && e.isRecent scope now

/-- `_EVENT_COUNT_SQL`: the largest count of a subject and the oldest event of all of them. -/
def eventCount (events : List RateLimitEvent) (scope : Scope) (now : Time)
    (subjects : List Subject) : ℕ × Option Time :=
  ((subjects.map (subjectCount events scope now)).foldr max 0,
    ((events.filter fun e => e.subjectHash ∈ subjects && e.isRecent scope now).map
      (·.occurredAt)).min?)

/-- `max(1, ceil(window - (now - oldest)))`, in seconds. -/
def retryAfter (scope : Scope) (now : Time) : Option Time → ℤ
  | none => (limits scope).2
  | some oldest => max 1 ((scope.window + oldest - now + 999999) / 1000000)

/-- `_CLEANUP_SQL`. -/
def cleanup (events : List RateLimitEvent) (scope : Scope) (now : Time) : List RateLimitEvent :=
  events.filter fun e => !(e.scope = scope && e.occurredAt + scope.window ≤ now)

/-- The rows that an admitted call inserts. -/
def Call.rows (c : Call) : List RateLimitEvent :=
  c.enforce.subjects.map fun x => ⟨c.enforce.scope, x, c.startedAt⟩

/-- What can go wrong with a step. -/
inductive LimiterFailure
  /-- `ValueError` of an empty subject list. -/
  | noSubjects
  /-- The call is not there, not that far, or still waiting for the lock. -/
  | notEnabled
deriving DecidableEq, Repr

/-- The steps of the calls, and the clock. -/
inductive LimiterAction
  | tick (micros : ℕ)
  | enter (id : CallId) (e : Enforce)
  | lock (id : CallId)
  | count (id : CallId)
  | commit (id : CallId)
  /-- The connection is lost; the transaction is rolled back. -/
  | lose (id : CallId)
deriving DecidableEq

/-- A call moves on. -/
def Limiter.setPhase (w : Limiter) (id : CallId) (c : Call) (phase : CallPhase) : Limiter :=
  { w with calls := w.calls.set id { c with phase := phase } }

variable (hashtext : String → ℤ)

/-- `pg_advisory_xact_lock(hashtext(:lock_key))` has to wait. -/
def Limiter.isBlocked (w : Limiter) (c : Call) : Bool :=
  w.calls.rows.any fun r =>
    r.2.phase.holdsLock && hashtext r.2.enforce.lockKey = hashtext c.enforce.lockKey

/-- The count of `enforce`: a 429 rolls the transaction back. -/
def Limiter.count (w : Limiter) (id : CallId) (c : Call) : Limiter :=
  let (cnt, oldest) := eventCount w.events c.enforce.scope c.startedAt c.enforce.subjects
  if c.enforce.scope.limit ≤ cnt then
    w.setPhase id c (.rejected (retryAfter c.enforce.scope c.startedAt oldest))
  else w.setPhase id c .counted

/-- The insert, the clean-up and the commit of `enforce`. -/
def Limiter.commit (w : Limiter) (id : CallId) (c : Call) : Limiter :=
  { w.setPhase id c .admitted with
    events := cleanup (w.events ++ c.rows) c.enforce.scope c.startedAt }

/-- The step function. -/
def Limiter.step (w : Limiter) : LimiterAction → Except LimiterFailure Limiter
  | .tick micros => .ok { w with now := w.now + micros }
  | .enter id e =>
    if e.subjects = [] then .error .noSubjects
    else
      match w.calls.get? id with
      | some _ => .error .notEnabled
      | none => .ok { w with calls := w.calls.insert id ⟨e, w.now, .waiting⟩ }
  | .lock id =>
    match w.calls.get? id with
    | none => .error .notEnabled
    | some c =>
      if c.phase = .waiting ∧ w.isBlocked hashtext c = false then .ok (w.setPhase id c .locked)
      else .error .notEnabled
  | .count id =>
    match w.calls.get? id with
    | none => .error .notEnabled
    | some c => if c.phase = .locked then .ok (w.count id c) else .error .notEnabled
  | .commit id =>
    match w.calls.get? id with
    | none => .error .notEnabled
    | some c => if c.phase = .counted then .ok (w.commit id c) else .error .notEnabled
  | .lose id =>
    match w.calls.get? id with
    | none => .error .notEnabled
    | some c =>
      if c.phase.isUncounted = true ∨ c.phase = .counted then .ok (w.setPhase id c .lost)
      else .error .notEnabled

/-- The rate limiter. -/
def limiter : System Limiter LimiterAction LimiterFailure := ⟨Limiter.step hashtext⟩

/-- What a step that succeeds does. -/
inductive Limiter.Move (hashtext : String → ℤ) (w : Limiter) : LimiterAction → Limiter → Prop
  | tick (micros : ℕ) : Move hashtext w (.tick micros) { w with now := w.now + micros }
  | enter (id : CallId) (e : Enforce) (hnone : w.calls.get? id = none) :
      Move hashtext w (.enter id e) { w with calls := w.calls.insert id ⟨e, w.now, .waiting⟩ }
  | lock (id : CallId) (c : Call) (hc : w.calls.get? id = some c) (hphase : c.phase = .waiting)
      (hfree : w.isBlocked hashtext c = false) : Move hashtext w (.lock id) (w.setPhase id c .locked)
  | count (id : CallId) (c : Call) (hc : w.calls.get? id = some c) (hphase : c.phase = .locked) :
      Move hashtext w (.count id) (w.count id c)
  | commit (id : CallId) (c : Call) (hc : w.calls.get? id = some c) (hphase : c.phase = .counted) :
      Move hashtext w (.commit id) (w.commit id c)
  | lose (id : CallId) (c : Call) (hc : w.calls.get? id = some c)
      (hphase : c.phase.isUncounted = true ∨ c.phase = .counted) :
      Move hashtext w (.lose id) (w.setPhase id c .lost)

theorem Limiter.step_move {hashtext : String → ℤ} {w w' : Limiter} {a : LimiterAction}
    (h : w.step hashtext a = .ok w') : Limiter.Move hashtext w a w' := by
  cases a with
  | tick micros =>
    cases h
    exact .tick micros
  | enter id e =>
    obtain ⟨-, h⟩ := ite_error_eq_ok.mp h
    split at h <;> cases h
    next hnone => exact .enter id e hnone
  | lock id =>
    simp only [Limiter.step] at h
    split at h
    · cases h
    · next c hc =>
      obtain ⟨⟨hphase, hfree⟩, h⟩ := ite_ok_else_error.mp h
      cases h
      exact .lock id c hc hphase hfree
  | count id =>
    simp only [Limiter.step] at h
    split at h
    · cases h
    · next c hc =>
      obtain ⟨hphase, h⟩ := ite_ok_else_error.mp h
      cases h
      exact .count id c hc hphase
  | commit id =>
    simp only [Limiter.step] at h
    split at h
    · cases h
    · next c hc =>
      obtain ⟨hphase, h⟩ := ite_ok_else_error.mp h
      cases h
      exact .commit id c hc hphase
  | lose id =>
    simp only [Limiter.step] at h
    split at h
    · cases h
    · next c hc =>
      obtain ⟨hphase, h⟩ := ite_ok_else_error.mp h
      cases h
      exact .lose id c hc hphase

/-- No event has been recorded and no call has begun. -/
structure Limiter.Initial (w : Limiter) : Prop where
  events : w.events = []
  calls : w.calls = .empty

/-- The events that a step records. -/
def Limiter.recorded (w : Limiter) : LimiterAction → List RateLimitEvent
  | .commit id =>
    match w.calls.get? id with
    | none => []
    | some c => c.rows
  | _ => []

end AgentCraft.Access
