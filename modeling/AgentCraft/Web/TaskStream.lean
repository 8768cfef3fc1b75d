import AgentCraft.Transition.Trace
import AgentCraft.Web.SseFrames
import Mathlib.Algebra.Order.Field.Rat
import Mathlib.Data.Rat.Floor
import Mathlib.Tactic.Linarith

/-!
# The connection of the task stream

`createTaskStream` of `sse.js` reads a stream, waits when it ends, asks for the events it has missed and
connects again. Its environment answers the requests, lets time pass, fires the timers, and closes the
stream, also from a callback. The numbers of `nextBackoffMs` are not rounded.

The history of a stream is what it has sent and called and what it has been answered. `Disciplined` is the
contract at the head of the file, and `Careful` says which answers and callbacks the code is a match for.
-/

namespace AgentCraft.Web

open AgentCraft.Transition

/-! ## Delays -/

def sseMaxBackoffSeconds : ℚ := 30

def sseDefaultRetryAfterSeconds : ℚ := 60

def sseWatchdogSeconds : ℕ := 45

def sseJitterFraction : ℚ := 3 / 10

/-- What `Math.random` may return. -/
structure Jitter where
  value : ℚ
  nonneg : 0 ≤ value
  lt_one : value < 1

/-- `nextBackoffMs`. -/
def nextBackoffMs (random : Jitter) (failureIndex : ℕ) (floorSeconds : ℚ) : ℚ :=
  let baseSeconds := min sseMaxBackoffSeconds (2 ^ failureIndex)
  let floorMs := if 0 < floorSeconds then floorSeconds * 1000 else 0
  let target := max (baseSeconds * 1000) floorMs
  target + random.value * target * sseJitterFraction

/-- How long `setTimeout` waits: the delay becomes a signed number of 32 bits. -/
def timeoutMs (delay : ℚ) : ℕ := (Int.bmod ⌊delay⌋ (2 ^ 32)).toNat

theorem le_timeoutMs {n : ℕ} {delay : ℚ} (hle : n ≤ delay) (hlt : delay < 2 ^ 31) :
    n ≤ timeoutMs delay := by
  have hfloor : (n : ℤ) ≤ ⌊delay⌋ := Int.le_floor.mpr (by exact_mod_cast hle)
  have hbound : ⌊delay⌋ < 2 ^ 31 := Int.floor_lt.mpr (by exact_mod_cast hlt)
  have hmod : Int.bmod ⌊delay⌋ (2 ^ 32) = ⌊delay⌋ := by
    rw [Int.bmod_eq_of_le] <;> omega
  rw [timeoutMs, hmod]
  omega

/-- A floor of whole seconds is kept, up to 19 days. -/
theorem floor_le_timeoutMs {n : ℕ} (hn : n ≤ 1651910) (random : Jitter) (failureIndex : ℕ) :
    n * 1000 ≤ timeoutMs (nextBackoffMs random failureIndex n) := by
  have hn' : (n : ℚ) ≤ 1651910 := by exact_mod_cast hn
  obtain ⟨target, htarget⟩ : ∃ target : ℚ, target = max (min sseMaxBackoffSeconds (2 ^ failureIndex) * 1000)
      (if 0 < (n : ℚ) then n * 1000 else 0) := ⟨_, rfl⟩
  have hfloor : (n : ℚ) * 1000 ≤ target := by
    rw [htarget]
    refine le_max_of_le_right ?_
    split
    · exact le_rfl
    · linarith
  have hceil : target ≤ 1651910000 := by
    rw [htarget]
    refine max_le ?_ ?_
    · have hmin : min sseMaxBackoffSeconds (2 ^ failureIndex) ≤ sseMaxBackoffSeconds := min_le_left _ _
      have hmax : sseMaxBackoffSeconds = 30 := rfl
      linarith
    · split <;> linarith
  have hnonneg : 0 ≤ random.value * target := mul_nonneg random.nonneg
    (le_trans (by positivity) hfloor)
  have hjitter : random.value * target ≤ target :=
    mul_le_of_le_one_left (le_trans (by positivity) hfloor) random.lt_one.le
  have hdelay : nextBackoffMs random failureIndex n = target + random.value * target * (3 / 10) := by
    rw [htarget]
    rfl
  rw [hdelay]
  refine le_timeoutMs ?_ ?_
  · push_cast
    linarith
  · linarith

/-- The floor that `connect` passes on: `Retry-After`, when it is a positive number. -/
def floorSeconds (retryAfter : Option ℚ) : ℚ :=
  match retryAfter with
  | some r => if 0 < r then r else sseDefaultRetryAfterSeconds
  | none => sseDefaultRetryAfterSeconds

theorem floorSeconds_pos (retryAfter : Option ℚ) : 0 < floorSeconds retryAfter := by
  unfold floorSeconds
  cases retryAfter with
  | none => exact by norm_num [sseDefaultRetryAfterSeconds]
  | some r =>
    dsimp only
    split
    · assumption
    · norm_num [sseDefaultRetryAfterSeconds]

/-- `response.ok`. -/
def isOk (status : ℕ) : Bool := 200 ≤ status && status ≤ 299

/-- The answers after which the client stops. -/
def Refusal (status : ℕ) : Prop := 400 ≤ status ∧ status < 500 ∧ status ≠ 429

instance : DecidablePred Refusal := fun _ => inferInstanceAs (Decidable (_ ∧ _ ∧ _))

/-! ## The stream -/

inductive RequestKind
  | stream
  | events
deriving DecidableEq, Repr

inductive CallbackKind
  | onFrame
  | onEvents
  | onError
deriving DecidableEq, Repr

/-- What an observer of the stream sees. -/
inductive Occurrence
  | request (kind : RequestKind) (after : ℕ) (sent : ℕ)
  | answered (kind : RequestKind) (status : ℕ) (retryAfter : Option ℚ) (arrived : ℕ)
  | called (callback : CallbackKind)
  | closed
deriving DecidableEq

/-- What the stream awaits. -/
inductive Activity
  | idle
  | connecting
  /-- `parseEnvelopeError`. -/
  | readingError (status : ℕ) (retryAfter : Option ℚ)
  /-- `consume`. -/
  | reading (decoder : TextDecoder) (reader : FrameReader)
  /-- `fetchEvents`; `requestV2` sends a request that fails the CSRF gate once more. -/
  | reconciling (retried : Bool)
deriving DecidableEq

/-- The variables of `createTaskStream`, with the clock in milliseconds. A timer is the time when it is due. -/
structure TaskStream where
  lastSeq : ℕ
  attempt : ℕ := 0
  closed : Bool := false
  activity : Activity := .connecting
  reconnectTimer : Option ℕ := none
  watchdogTimer : Option ℕ := none
  now : ℕ := 0
  history : List Occurrence
deriving DecidableEq

/-- What a callback does when it is invoked. -/
inductive Reaction
  /-- It is not a function. -/
  | absent
  | returns (closes : Bool)
  /-- It throws, and `onError`, when there is one, may close the stream. -/
  | throws (closes : Bool) (onError : Option Bool)
deriving DecidableEq, Repr

/-- The callbacks that `safeInvoke` invokes, each with whether it closes the stream. -/
def Reaction.calls (callback : CallbackKind) : Reaction → List (CallbackKind × Bool)
  | absent => []
  | returns closes => [(callback, closes)]
  | throws closes onError =>
    (callback, closes) ::
      if callback = .onError then [] else (onError.map (CallbackKind.onError, ·)).toList

/-- An answer to `fetchEvents`, its body included. -/
structure EventsAnswer where
  status : ℕ
  retryAfter : Option ℚ := none
  /-- `payload?.error?.code`. -/
  code : Option String := none
  /-- The payload is an object. -/
  isObject : Bool := true
  /-- The number `snapshot?.event_sequence`. -/
  watermark : Option ℕ := none
deriving DecidableEq

/-- `createTaskStream`, which connects at once. -/
def createTaskStream (after : ℕ) : TaskStream :=
  { lastSeq := after, history := [.request .stream after 0] }

namespace TaskStream

def record (o : Occurrence) (s : TaskStream) : TaskStream := { s with history := s.history ++ [o] }

def request (kind : RequestKind) (s : TaskStream) : TaskStream :=
  s.record (.request kind s.lastSeq s.now)

def finish (s : TaskStream) : TaskStream := { s with activity := .idle }

/-- `close`. What is pending fails, unless it has been handed over already. -/
def close (s : TaskStream) : TaskStream :=
  if s.closed then s
  else { s.record .closed with closed := true, reconnectTimer := none, watchdogTimer := none }

/-- A callback is invoked. -/
def call (s : TaskStream) (c : CallbackKind × Bool) : TaskStream :=
  if c.2 then (s.record (.called c.1)).close else s.record (.called c.1)

/-- `safeInvoke`. -/
def safeInvoke (callback : CallbackKind) (reaction : Reaction) (s : TaskStream) : TaskStream :=
  (reaction.calls callback).foldl call s

/-- `scheduleReconnect`. -/
def scheduleReconnect (delayMs : ℚ) (s : TaskStream) : TaskStream :=
  if s.closed then s else { s with reconnectTimer := some (s.now + timeoutMs delayMs) }

/-- `registerFailure`. -/
def registerFailure (random : Jitter) (floor : ℚ) (s : TaskStream) : TaskStream :=
  { s.scheduleReconnect (nextBackoffMs random s.attempt floor) with attempt := s.attempt + 1 }

def armWatchdog (s : TaskStream) : TaskStream :=
  { s with watchdogTimer := some (s.now + sseWatchdogSeconds * 1000) }

def disarmWatchdog (s : TaskStream) : TaskStream := { s with watchdogTimer := none }

/-- An error that is reported, unless the stream is closed, and followed by a new attempt. -/
def fail (random : Jitter) (reaction : Reaction) (s : TaskStream) : TaskStream :=
  if s.closed then s.finish
  else ((s.safeInvoke .onError reaction).registerFailure random 0).finish

/-- The listeners of `V2_SESSION_EXPIRED_EVENT`. -/
def expireSession (status : ℕ) (code : Option String) (listenerCloses : Bool) (s : TaskStream) :
    TaskStream :=
  if status = 401 ∧ code = some "SESSION_EXPIRED" ∧ listenerCloses then s.close else s

/-! ### The stream request -/

/-- `connect`, up to its request. -/
def connect (s : TaskStream) : TaskStream :=
  if s.closed then s.finish else { s.request .stream with activity := .connecting }

/-- `connect` gets a response. -/
def streamAnswer (status : ℕ) (hasBody : Bool) (retryAfter : Option ℚ) (s : TaskStream) : TaskStream :=
  let s := s.record (.answered .stream status retryAfter s.now)
  if isOk status ∧ hasBody then { s.armWatchdog with attempt := 0, activity := .reading {} {} }
  else { s with activity := .readingError status retryAfter }

/-- `connect` has read the body of an error. -/
def errorBody (status : ℕ) (retryAfter : Option ℚ) (code : Option String) (listenerCloses : Bool)
    (random : Jitter) (reaction : Reaction) (s : TaskStream) : TaskStream :=
  let s := ((s.expireSession status code listenerCloses).safeInvoke .onError reaction).finish
  if status = 429 then s.registerFailure random (floorSeconds retryAfter)
  else if 500 ≤ status then s.registerFailure random 0
  else s

section Frames

variable {V : Type} (parse : List Char → Option V)

/-- The callback for a block, and the id that moves `lastSeq`: `dispatchBlock`. -/
def call? : Dispatch → Option (CallbackKind × Option ℕ)
  | .tooLarge => some (.onError, none)
  | .block text =>
    match parseFrame parse text with
    | .nothing => none
    | .invalid => some (.onError, none)
    | .frame f => some (.onFrame, f.id)

/-- The callbacks for a chunk. -/
def chunkCalls (decoder : TextDecoder) (reader : FrameReader) (bytes : List UInt8) :
    List (CallbackKind × Option ℕ) :=
  (reader.feed sseMaxBufferBytes (decoder.decode bytes).2).1.filterMap (call? parse)

def setLastSeq (n : ℕ) (s : TaskStream) : TaskStream := { s with lastSeq := n }

/-- The blocks of a chunk, with what their callbacks do. -/
@[grind] def dispatchAll : List (CallbackKind × Option ℕ) → List Reaction → TaskStream → TaskStream
  | [], _, s => s
  | c :: cs, rs, s =>
    dispatchAll cs rs.tail
      ((s.setLastSeq (max s.lastSeq (c.2.getD 0))).safeInvoke c.1 (rs.headD (.returns false)))

/-- `consume` gets a chunk. -/
def chunk (decoder : TextDecoder) (reader : FrameReader) (bytes : List UInt8) (reactions : List Reaction)
    (s : TaskStream) : TaskStream :=
  { dispatchAll (chunkCalls parse decoder reader bytes) reactions s.armWatchdog with
    activity := .reading (decoder.decode bytes).1
      (reader.feed sseMaxBufferBytes (decoder.decode bytes).2).2 }

end Frames

/-- `consume` comes to the end of the stream. -/
def streamEnds (random : Jitter) (s : TaskStream) : TaskStream :=
  if s.closed then s.disarmWatchdog.finish else (s.disarmWatchdog.registerFailure random 0).finish

/-! ### The events request -/

/-- `fetchEvents` gets an answer. -/
def eventsAnswer (retried : Bool) (a : EventsAnswer) (listenerCloses : Bool) (random : Jitter)
    (reaction : Reaction) (s : TaskStream) : TaskStream :=
  let s := s.record (.answered .events a.status a.retryAfter s.now)
  if a.code = some "CSRF_INVALID" ∧ retried = false then
    { s.request .events with activity := .reconciling true }
  else if isOk a.status then
    if a.isObject then
      if s.closed then s.finish
      else if s.lastSeq < a.watermark.getD 0 then
        ((s.safeInvoke .onEvents reaction).setLastSeq (max s.lastSeq (a.watermark.getD 0))).connect
      else s.connect
    else s.fail random reaction
  else (s.expireSession a.status a.code listenerCloses).fail random reaction

end TaskStream

/-! ## Runs -/

/-- What happens to a stream. -/
inductive StreamAction
  | tick (ms : ℕ)
  | close
  | timerFires
  | watchdogFires
  | streamAnswer (status : ℕ) (hasBody : Bool) (retryAfter : Option ℚ)
  | streamFails (random : Jitter) (reaction : Reaction)
  | errorBody (code : Option String) (listenerCloses : Bool) (random : Jitter) (reaction : Reaction)
  | chunk (bytes : List UInt8) (reactions : List Reaction)
  | streamEnds (random : Jitter)
  | streamBreaks (random : Jitter) (reaction : Reaction)
  | eventsAnswer (answer : EventsAnswer) (listenerCloses : Bool) (random : Jitter) (reaction : Reaction)
  | eventsFails (random : Jitter) (reaction : Reaction)

/-- A timer that is due. -/
def Due (timer : Option ℕ) (now : ℕ) : Prop := ∃ due ∈ timer, due ≤ now

instance (timer : Option ℕ) (now : ℕ) : Decidable (Due timer now) :=
  inferInstanceAs (Decidable (∃ due ∈ timer, due ≤ now))

/-- An action, when the stream awaits it. -/
def streamSystem {V : Type} (parse : List Char → Option V) : System TaskStream StreamAction Unit where
  step s
    | .tick ms => .ok { s with now := s.now + ms }
    | .close => .ok s.close
    | .timerFires =>
      if Due s.reconnectTimer s.now then
        if s.closed then .ok { s with reconnectTimer := none }
        else .ok { s.request .events with reconnectTimer := none, activity := .reconciling false }
      else .error ()
    -- the abort makes the read fail: `streamBreaks`
    | .watchdogFires => if Due s.watchdogTimer s.now then .ok s.disarmWatchdog else .error ()
    | .streamAnswer status hasBody retryAfter =>
      match s.activity with
      | .connecting => .ok (s.streamAnswer status hasBody retryAfter)
      | _ => .error ()
    | .streamFails random reaction =>
      match s.activity with
      | .connecting => .ok (s.disarmWatchdog.fail random reaction)
      | _ => .error ()
    | .errorBody code listenerCloses random reaction =>
      match s.activity with
      | .readingError status retryAfter =>
        .ok (s.errorBody status retryAfter code listenerCloses random reaction)
      | _ => .error ()
    | .chunk bytes reactions =>
      match s.activity with
      | .reading decoder reader => .ok (s.chunk parse decoder reader bytes reactions)
      | _ => .error ()
    | .streamEnds random =>
      match s.activity with
      | .reading _ _ => .ok (s.streamEnds random)
      | _ => .error ()
    | .streamBreaks random reaction =>
      match s.activity with
      | .reading _ _ => .ok (s.disarmWatchdog.fail random reaction)
      | _ => .error ()
    | .eventsAnswer answer listenerCloses random reaction =>
      match s.activity with
      | .reconciling retried => .ok (s.eventsAnswer retried answer listenerCloses random reaction)
      | _ => .error ()
    | .eventsFails random reaction =>
      match s.activity with
      | .reconciling _ => .ok (s.fail random reaction)
      | _ => .error ()

/-! ## The contract -/

/-- An occurrence that forbids a request at a time: an answer whose floor has not passed, a refusal, or
the close. -/
def Occurrence.Forbids (t : ℚ) : Occurrence → Prop
  | .answered _ status retryAfter arrived =>
    Refusal status ∨ (status = 429 ∧ t < arrived + floorSeconds retryAfter * 1000)
  | .closed => True
  | _ => False

/-- Nothing forbids a request at a time. -/
def Free (h : List Occurrence) (t : ℚ) : Prop := ∀ o ∈ h, ¬ o.Forbids t

/-- What may happen after a history. -/
def Allowed (h : List Occurrence) : Occurrence → Prop
  | .request _ _ sent => Free h sent
  | .called _ => Occurrence.closed ∉ h
  | _ => True

/-- A refusal has been answered. -/
def Refused (h : List Occurrence) : Prop :=
  ∃ kind status retryAfter arrived,
    Occurrence.answered kind status retryAfter arrived ∈ h ∧ Refusal status

namespace TaskStream

/-- A request is in flight or a stream is being read. -/
def Active (s : TaskStream) : Prop := s.activity ≠ .idle

/-- A reconnect timer is pending. -/
def Waiting (s : TaskStream) : Prop := s.reconnectTimer ≠ none

/-- The stream has stopped for good after a refusal. -/
def Stopped (s : TaskStream) : Prop :=
  s.activity = .idle ∧ s.reconnectTimer = none ∧ Refused s.history

/-- The contract of the stream. -/
structure Disciplined (s : TaskStream) : Prop where
  orderly : Orderly Allowed s.history
  alive : s.closed = false →
    (s.Active ∧ ¬ s.Waiting ∧ ¬ s.Stopped) ∨ (¬ s.Active ∧ s.Waiting ∧ ¬ s.Stopped) ∨
      (¬ s.Active ∧ ¬ s.Waiting ∧ s.Stopped)
  silent : s.closed = true → s.reconnectTimer = none ∧ s.watchdogTimer = none

end TaskStream

/-! ## What the code is a match for -/

/-- The callbacks of a chunk, each with whether it closes the stream. -/
@[grind] def invocations : List (CallbackKind × Option ℕ) → List Reaction → List (CallbackKind × Bool)
  | [], _ => []
  | c :: cs, rs => (rs.headD (.returns false)).calls c.1 ++ invocations cs rs.tail

/-- A callback that closes the stream is the last one. -/
def Quiet (calls : List (CallbackKind × Bool)) : Prop := ∀ c ∈ calls.dropLast, c.2 = false

instance : DecidablePred Quiet := fun _ => inferInstanceAs (Decidable (∀ c ∈ _, _))

/-- The timer of a failure that comes now is not due before the floor of an answer has passed. -/
def FloorKept (s : TaskStream) (random : Jitter) (retryAfter : Option ℚ) (floor : ℚ) : Prop :=
  floorSeconds retryAfter * 1000 ≤ timeoutMs (nextBackoffMs random s.attempt floor)

instance (s : TaskStream) (random : Jitter) (retryAfter : Option ℚ) (floor : ℚ) :
    Decidable (FloorKept s random retryAfter floor) := inferInstanceAs (Decidable (_ ≤ _))

/-- The floor of a `Retry-After` in whole seconds is kept, up to 19 days. -/
theorem floorKept_of_whole {n : ℕ} (hpos : 0 < n) (hn : n ≤ 1651910) (s : TaskStream) (random : Jitter) :
    FloorKept s random (some n) (floorSeconds (some n)) := by
  have hfloor : floorSeconds (some (n : ℚ)) = n := if_pos (by exact_mod_cast hpos)
  have hle := floor_le_timeoutMs hn random s.attempt
  rw [FloorKept, hfloor]
  exact_mod_cast hle

/-- The client is open, and the session listener does not close it. -/
def StaysOpen (s : TaskStream) (status : ℕ) (code : Option String) (listenerCloses : Bool) : Prop :=
  s.closed = false ∧ ¬ (status = 401 ∧ code = some "SESSION_EXPIRED" ∧ listenerCloses)

instance (s : TaskStream) (status : ℕ) (code : Option String) (listenerCloses : Bool) :
    Decidable (StaysOpen s status code listenerCloses) := inferInstanceAs (Decidable (_ ∧ _))

/-- The answers to the events request. A second request for the CSRF gate comes at once, also when the
client is closed; and a client that stays open tries again after any other error, with no floor. -/
def CarefulEvents (s : TaskStream) (retried : Bool) (a : EventsAnswer) (listenerCloses : Bool)
    (random : Jitter) (reaction : Reaction) : Prop :=
  if a.code = some "CSRF_INVALID" ∧ retried = false then
    s.closed = false ∧ ¬ Refusal a.status ∧ a.status ≠ 429
  else if isOk a.status ∧ a.isObject then
    s.closed = false → s.lastSeq < a.watermark.getD 0 → Quiet (reaction.calls .onEvents)
  else StaysOpen s a.status a.code listenerCloses → (∀ c ∈ reaction.calls .onError, c.2 = false) →
    ¬ Refusal a.status ∧ (a.status = 429 → FloorKept s random a.retryAfter 0)

instance (s : TaskStream) (retried : Bool) (a : EventsAnswer) (listenerCloses : Bool)
    (random : Jitter) (reaction : Reaction) :
    Decidable (CarefulEvents s retried a listenerCloses random reaction) := by
  delta CarefulEvents
  infer_instance

/-- The answers and the callbacks that the code is a match for. -/
def Careful {V : Type} (parse : List Char → Option V) (s : TaskStream) : StreamAction → Prop
  | .streamAnswer status hasBody _ =>
    if isOk status ∧ hasBody then s.closed = false else s.closed = false → 400 ≤ status
  | .errorBody code listenerCloses random reaction =>
    match s.activity with
    | .readingError status retryAfter =>
      (StaysOpen s status code listenerCloses ∨ reaction.calls .onError = []) ∧
        (StaysOpen s status code listenerCloses → (∀ c ∈ reaction.calls .onError, c.2 = false) →
          status = 429 → FloorKept s random retryAfter (floorSeconds retryAfter))
    | _ => True
  | .chunk bytes reactions =>
    match s.activity with
    | .reading decoder reader => s.closed = false ∧
        Quiet (invocations (TaskStream.chunkCalls parse decoder reader bytes) reactions)
    | _ => True
  | .eventsAnswer answer listenerCloses random reaction =>
    match s.activity with
    | .reconciling retried => CarefulEvents s retried answer listenerCloses random reaction
    | _ => True
  | _ => True

instance {V : Type} (parse : List Char → Option V) (s : TaskStream) :
    DecidablePred (Careful parse s) := by
  intro a
  cases a with
  | streamAnswer | tick | close | timerFires | watchdogFires | streamFails | streamEnds | streamBreaks
  | eventsFails =>
    delta Careful
    infer_instance
  | errorBody | chunk | eventsAnswer =>
    delta Careful
    cases s.activity <;> infer_instance

section Histories

variable {h l : List Occurrence} {o : Occurrence} {t t' : ℚ}

theorem Occurrence.Forbids.anti (ho : o.Forbids t') (ht : t ≤ t') : o.Forbids t := by
  cases o with
  | answered kind status retryAfter arrived =>
    rcases ho with href | ⟨hstatus, hlt⟩
    · exact .inl href
    · exact .inr ⟨hstatus, ht.trans_lt hlt⟩
  | closed => trivial
  | _ => exact ho.elim

theorem Free.mono (hh : Free h t) (ht : t ≤ t') : Free h t' := fun o ho hforbids =>
  hh o ho (hforbids.anti ht)

theorem free_append : Free (h ++ l) t ↔ Free h t ∧ Free l t := by
  simp only [Free, List.mem_append]
  exact ⟨fun hh => ⟨fun o ho => hh o (.inl ho), fun o ho => hh o (.inr ho)⟩,
    fun hh o ho => ho.elim (hh.1 o) (hh.2 o)⟩

theorem free_singleton : Free [o] t ↔ ¬ o.Forbids t := by
  simp [Free]

theorem Free.not_closed (hh : Free h t) : Occurrence.closed ∉ h := fun hmem => hh _ hmem trivial

theorem Free.not_refused (hh : Free h t) : ¬ Refused h := by
  rintro ⟨kind, status, retryAfter, arrived, hmem, href⟩
  exact hh _ hmem (.inl href)

/-- An answer that is neither a refusal nor one with a floor forbids nothing. -/
theorem not_forbids_answered {kind : RequestKind} {status : ℕ} {retryAfter : Option ℚ} {arrived : ℕ}
    (href : ¬ Refusal status)
    (hfloor : status = 429 → arrived + floorSeconds retryAfter * 1000 ≤ t) :
    ¬ (Occurrence.answered kind status retryAfter arrived).Forbids t := by
  rintro (hs | ⟨hs, hlt⟩)
  · exact href hs
  · exact absurd (hfloor hs) (not_le.mpr hlt)

theorem not_refusal_of_isOk {status : ℕ} (h : isOk status = true) :
    ¬ Refusal status ∧ status ≠ 429 := by
  simp only [isOk, Bool.and_eq_true, decide_eq_true_eq] at h
  refine ⟨fun href => ?_, by omega⟩
  have := href.1
  omega

/-- Callbacks forbid nothing. -/
theorem free_called (cs : List (CallbackKind × Bool)) :
    Free (cs.map fun c => Occurrence.called c.1) t := by
  intro o ho
  obtain ⟨c, -, rfl⟩ := List.mem_map.mp ho
  exact id

end Histories

namespace TaskStream

variable {s s' : TaskStream}

/-- What holds also once the stream is closed. -/
structure Sound (s : TaskStream) : Prop where
  orderly : Orderly Allowed s.history
  closed_iff : Occurrence.closed ∈ s.history ↔ s.closed = true
  silent : s.closed = true → s.reconnectTimer = none ∧ s.watchdogTimer = none

theorem sound_createTaskStream (after : ℕ) : Sound (createTaskStream after) where
  orderly := orderly_nil.concat fun o ho => absurd ho List.not_mem_nil
  closed_iff := by simp [createTaskStream]
  silent := fun h => by cases h

/-- Something happens that is not the close. -/
theorem Sound.record {o : Occurrence} (hs : Sound s) (ho : Allowed s.history o) (hne : o ≠ .closed) :
    Sound (s.record o) where
  orderly := hs.orderly.concat ho
  closed_iff := by
    show Occurrence.closed ∈ s.history ++ [o] ↔ s.closed = true
    rw [← hs.closed_iff, List.mem_append, List.mem_singleton]
    exact ⟨fun h => h.resolve_right hne.symm, .inl⟩
  silent := hs.silent

/-- The close. -/
theorem Sound.close (hs : Sound s) : Sound s.close := by
  unfold TaskStream.close
  split
  · exact hs
  · exact ⟨hs.orderly.concat trivial, by simp [TaskStream.record], fun _ => ⟨rfl, rfl⟩⟩

theorem closed_close : s.close.closed = true := by
  unfold TaskStream.close
  split
  · assumption
  · rfl

theorem Sound.called (hs : Sound s) (hopen : s.closed = false) (callback : CallbackKind) :
    Sound (s.record (.called callback)) :=
  hs.record (fun h => by rw [hs.closed_iff, hopen] at h; cases h) (by simp)

/-- Callbacks that do not close the stream are recorded. -/
theorem foldl_call {cs : List (CallbackKind × Bool)} (hcs : ∀ c ∈ cs, c.2 = false) :
    cs.foldl call s = { s with history := s.history ++ cs.map fun c => Occurrence.called c.1 } := by
  induction cs generalizing s with
  | nil => simp
  | cons c cs ih =>
    have hc : s.call c = s.record (.called c.1) := by
      rw [call, hcs c List.mem_cons_self]
      rfl
    rw [List.foldl_cons, hc, ih fun c hc => hcs c (List.mem_cons_of_mem _ hc)]
    simp [TaskStream.record]

theorem Sound.all_called {cs : List (CallbackKind × Bool)} (hs : Sound s) (hopen : s.closed = false)
    (hcs : ∀ c ∈ cs, c.2 = false) : Sound (cs.foldl call s) := by
  induction cs generalizing s with
  | nil => exact hs
  | cons c cs ih =>
    have hc : s.call c = s.record (.called c.1) := by
      rw [call, hcs c List.mem_cons_self]
      rfl
    rw [List.foldl_cons, hc]
    exact ih (hs.called hopen c.1) hopen fun c hc => hcs c (List.mem_cons_of_mem _ hc)

/-- Callbacks of which only the last may close the stream. -/
theorem Sound.calls {cs : List (CallbackKind × Bool)} (hs : Sound s) (hopen : s.closed = false)
    (hquiet : Quiet cs) :
    Sound (cs.foldl call s) ∧ ((cs.foldl call s).closed = false → ∀ c ∈ cs, c.2 = false) := by
  rcases List.eq_nil_or_concat cs with rfl | ⟨init, last, rfl⟩
  · exact ⟨hs, fun _ c hc => absurd hc List.not_mem_nil⟩
  · rw [List.concat_eq_append] at hquiet ⊢
    have hinit : ∀ c ∈ init, c.2 = false := fun c hc => hquiet c (by simpa using hc)
    have hopen' : (init.foldl call s).closed = false := by
      rw [foldl_call hinit]
      exact hopen
    have hlast := (hs.all_called hopen hinit).called hopen' last.1
    rw [List.foldl_append, List.foldl_cons, List.foldl_nil, call]
    split
    · exact ⟨hlast.close, fun h => by rw [closed_close] at h; cases h⟩
    · next hcloses =>
      refine ⟨hlast, fun _ c hc => ?_⟩
      rcases List.mem_append.mp hc with hc | hc
      · exact hinit c hc
      · rw [List.mem_singleton.mp hc]
        exact Bool.eq_false_of_not_eq_true hcloses

theorem quiet_onError (reaction : Reaction) : Quiet (reaction.calls .onError) := by
  cases reaction <;> simp [Quiet, Reaction.calls]

/-- What an open stream is at. -/
inductive Live (s : TaskStream) : Prop
  | stopped (hact : s.activity = .idle) (htimer : s.reconnectTimer = none)
      (hrefused : Refused s.history)
  | waiting {due : ℕ} (hact : s.activity = .idle) (htimer : s.reconnectTimer = some due)
      (hfree : Free s.history due)
  | active (hact : s.activity ≠ .idle)
      (herror : ∀ status retryAfter, s.activity ≠ .readingError status retryAfter)
      (htimer : s.reconnectTimer = none) (hfree : Free s.history s.now)
  | refused {status : ℕ} {retryAfter : Option ℚ} (hact : s.activity = .readingError status retryAfter)
      (htimer : s.reconnectTimer = none) (hstatus : Refusal status) (hrefused : Refused s.history)
  | failing {status : ℕ} {retryAfter : Option ℚ} (hact : s.activity = .readingError status retryAfter)
      (htimer : s.reconnectTimer = none) (hstatus : 400 ≤ status ∧ ¬ Refusal status)
      (hfree : Free s.history (s.now + if status = 429 then floorSeconds retryAfter * 1000 else 0))

/-- The invariant. -/
structure Kept (s : TaskStream) : Prop where
  sound : Sound s
  live : s.closed = false → Live s

theorem Live.free_now (h : Live s) (hact : s.activity ≠ .idle)
    (herror : ∀ status retryAfter, s.activity ≠ .readingError status retryAfter) :
    s.reconnectTimer = none ∧ Free s.history s.now := by
  cases h with
  | stopped hidle => exact absurd hidle hact
  | waiting hidle => exact absurd hidle hact
  | active _ _ htimer hfree => exact ⟨htimer, hfree⟩
  | refused hreading => exact absurd hreading (herror _ _)
  | failing hreading => exact absurd hreading (herror _ _)

theorem Live.of_readingError {status : ℕ} {retryAfter : Option ℚ} (h : Live s)
    (hact : s.activity = .readingError status retryAfter) :
    s.reconnectTimer = none ∧ (Refusal status ∧ Refused s.history ∨
      (400 ≤ status ∧ ¬ Refusal status) ∧
        Free s.history (s.now + if status = 429 then floorSeconds retryAfter * 1000 else 0)) := by
  cases h with
  | stopped h | waiting h => simp [hact] at h
  | active _ h => exact absurd hact (h _ _)
  | refused h htimer hstatus hrefused =>
    rw [hact] at h
    cases h
    exact ⟨htimer, .inl ⟨hstatus, hrefused⟩⟩
  | failing h htimer hstatus hfree =>
    rw [hact] at h
    cases h
    exact ⟨htimer, .inr ⟨hstatus, hfree⟩⟩

theorem Kept.disciplined (hs : Kept s) : Disciplined s where
  orderly := hs.sound.orderly
  silent := hs.sound.silent
  alive hopen := by
    unfold Active Waiting Stopped
    cases hs.live hopen with
    | stopped hact htimer hrefused =>
      exact .inr (.inr ⟨not_not.mpr hact, not_not.mpr htimer, hact, htimer, hrefused⟩)
    | waiting hact htimer hfree =>
      refine .inr (.inl ⟨not_not.mpr hact, by simp [htimer], fun hstop => ?_⟩)
      exact hfree.not_refused hstop.2.2
    | active hact _ htimer =>
      exact .inl ⟨hact, not_not.mpr htimer, fun hstop => hact hstop.1⟩
    | refused hact htimer | failing hact htimer =>
      have hne : s.activity ≠ .idle := by simp [hact]
      exact .inl ⟨hne, not_not.mpr htimer, fun hstop => hne hstop.1⟩

theorem kept_createTaskStream (after : ℕ) : Kept (createTaskStream after) where
  sound := sound_createTaskStream after
  live _ := .active (by simp [createTaskStream]) (by simp [createTaskStream]) rfl
    (free_singleton.mpr id)

/-! ### Failures -/

section Failures

variable {random : Jitter} {reaction : Reaction} {floor : ℚ}

theorem Sound.registerFailure (hs : Sound s) : Sound (s.registerFailure random floor) := by
  unfold TaskStream.registerFailure scheduleReconnect
  split
  · exact ⟨hs.orderly, hs.closed_iff, hs.silent⟩
  · next hopen => exact ⟨hs.orderly, hs.closed_iff, fun h => absurd h hopen⟩

/-- An attempt that is registered after an error. -/
theorem kept_registerFailure (hs : Sound s) (hact : s.activity = .idle)
    (hfree : s.closed = false →
      Free s.history (s.now + timeoutMs (nextBackoffMs random s.attempt floor))) :
    Kept (s.registerFailure random floor) where
  sound := hs.registerFailure
  live hopen := by
    have hopen' : s.closed = false := by
      unfold TaskStream.registerFailure scheduleReconnect at hopen
      split at hopen <;> exact hopen
    refine @Live.waiting _ (s.now + timeoutMs (nextBackoffMs random s.attempt floor)) ?_ ?_ ?_
    · simp [TaskStream.registerFailure, scheduleReconnect, hopen', hact]
    · simp [TaskStream.registerFailure, scheduleReconnect, hopen']
    · have hhistory : (s.registerFailure random floor).history = s.history := by
        simp [TaskStream.registerFailure, scheduleReconnect, hopen']
      rw [hhistory, Nat.cast_add]
      exact hfree hopen'

theorem Sound.finish (hs : Sound s) : Sound s.finish := ⟨hs.orderly, hs.closed_iff, hs.silent⟩

/-- `finish` and `registerFailure` may be exchanged. -/
theorem finish_registerFailure :
    (s.registerFailure random floor).finish = s.finish.registerFailure random floor := by
  unfold TaskStream.registerFailure scheduleReconnect TaskStream.finish
  split <;> rfl

/-- An error that is reported. -/
theorem kept_fail (hs : Sound s)
    (hfree : s.closed = false → (∀ c ∈ reaction.calls .onError, c.2 = false) →
      Free s.history (s.now + timeoutMs (nextBackoffMs random s.attempt 0))) :
    Kept (s.fail random reaction) := by
  unfold fail
  split
  · next hclosed => exact ⟨hs.finish, fun hopen => absurd (hclosed.symm.trans hopen) (by simp)⟩
  · next hopen =>
    have hopen := Bool.eq_false_of_not_eq_true hopen
    obtain ⟨hsound, hall⟩ := hs.calls hopen (quiet_onError reaction)
    rw [finish_registerFailure]
    refine kept_registerFailure hsound.finish rfl fun hopen' => ?_
    have hcalls : s.safeInvoke .onError reaction = _ := foldl_call (hall hopen')
    rw [hcalls]
    exact free_append.mpr ⟨hfree hopen (hall hopen'), free_called _⟩

theorem Sound.disarm (hs : Sound s) : Sound s.disarmWatchdog :=
  ⟨hs.orderly, hs.closed_iff, fun h => ⟨(hs.silent h).1, rfl⟩⟩

theorem Kept.disarm (hs : Kept s) : Kept s.disarmWatchdog where
  sound := hs.sound.disarm
  live hopen := by
    cases hs.live hopen with
    | stopped hact htimer hrefused => exact .stopped hact htimer hrefused
    | waiting hact htimer hfree => exact .waiting hact htimer hfree
    | active hact herror htimer hfree => exact .active hact herror htimer hfree
    | refused hact htimer hstatus hrefused => exact .refused hact htimer hstatus hrefused
    | failing hact htimer hstatus hfree => exact .failing hact htimer hstatus hfree

/-- An error, when no floor is pending. -/
theorem kept_fail_of_free (hs : Sound s) (hfree : s.closed = false → Free s.history s.now) :
    Kept (s.fail random reaction) :=
  kept_fail hs fun hopen _ => (hfree hopen).mono (le_add_of_nonneg_right (Nat.cast_nonneg _))

/-- A stream request that fails, or a stream that breaks. -/
theorem Kept.fail_of_active (hs : Kept s) (hact : s.activity ≠ .idle)
    (herror : ∀ status retryAfter, s.activity ≠ .readingError status retryAfter) :
    Kept (s.disarmWatchdog.fail random reaction) :=
  kept_fail_of_free hs.sound.disarm fun hopen => ((hs.live hopen).free_now hact herror).2

end Failures

/-! ### Answers -/

theorem Sound.answered (hs : Sound s) (kind : RequestKind) (status : ℕ) (retryAfter : Option ℚ) :
    Sound (s.record (.answered kind status retryAfter s.now)) := hs.record trivial (by simp)

/-- A request that nothing forbids. -/
theorem Sound.request (hs : Sound s) (hfree : Free s.history s.now) (kind : RequestKind) :
    Sound (s.request kind) := hs.record hfree (by simp)

theorem free_request {kind : RequestKind} {after sent : ℕ} {h : List Occurrence} {t : ℚ} (hfree : Free h t) :
    Free (h ++ [.request kind after sent]) t := free_append.mpr ⟨hfree, free_singleton.mpr id⟩

theorem kept_connect (hs : Sound s) (htimer : s.closed = false → s.reconnectTimer = none)
    (hfree : s.closed = false → Free s.history s.now) : Kept s.connect := by
  unfold connect
  split
  · next hclosed => exact ⟨hs.finish, fun hopen => absurd (hclosed.symm.trans hopen) (by simp)⟩
  · next hopen =>
    have hopen := Bool.eq_false_of_not_eq_true hopen
    have hsound := hs.request (hfree hopen) .stream
    exact ⟨⟨hsound.orderly, hsound.closed_iff, hsound.silent⟩, fun _ =>
      .active (by simp) (by simp) (htimer hopen) (free_request (hfree hopen))⟩

theorem kept_streamAnswer {status : ℕ} {hasBody : Bool} {retryAfter : Option ℚ} (hs : Kept s)
    (hact : s.activity = .connecting)
    (hcareful : if isOk status ∧ hasBody then s.closed = false else s.closed = false → 400 ≤ status) :
    Kept (s.streamAnswer status hasBody retryAfter) := by
  have hsound := hs.sound.answered .stream status retryAfter
  have hlive : s.closed = false → s.reconnectTimer = none ∧ Free s.history s.now := fun hopen =>
    (hs.live hopen).free_now (by simp [hact]) (by simp [hact])
  unfold TaskStream.streamAnswer
  dsimp only
  split at hcareful
  · next hok =>
    obtain ⟨htimer, hfree⟩ := hlive hcareful
    obtain ⟨href, hlimit⟩ := not_refusal_of_isOk hok.1
    rw [if_pos hok]
    refine ⟨⟨hsound.orderly, hsound.closed_iff, fun h => ?_⟩, fun _ => ?_⟩
    · exact absurd (hcareful.symm.trans h) (by simp)
    · exact .active (by simp) (by simp) htimer (free_append.mpr ⟨hfree, free_singleton.mpr
        (not_forbids_answered href fun h => absurd h hlimit)⟩)
  · next hfails =>
    rw [if_neg hfails]
    refine ⟨⟨hsound.orderly, hsound.closed_iff, hsound.silent⟩, fun hopen => ?_⟩
    obtain ⟨htimer, hfree⟩ := hlive hopen
    by_cases href : Refusal status
    · exact .refused rfl htimer href
        ⟨_, status, retryAfter, s.now, List.mem_append_right _ List.mem_cons_self, href⟩
    · refine .failing rfl htimer ⟨hcareful hopen, href⟩ (free_append.mpr ⟨hfree.mono ?_, ?_⟩)
      · refine le_add_of_nonneg_right ?_
        split
        · exact mul_nonneg (floorSeconds_pos retryAfter).le (by norm_num)
        · exact le_rfl
      · refine free_singleton.mpr (not_forbids_answered href fun hlimit => ?_)
        rw [if_pos hlimit]
        rfl

theorem expireSession_of_staysOpen {status : ℕ} {code : Option String} {listenerCloses : Bool}
    (h : StaysOpen s status code listenerCloses) : s.expireSession status code listenerCloses = s :=
  if_neg h.2

theorem Sound.expireSession (hs : Sound s) (status : ℕ) (code : Option String) (listenerCloses : Bool) :
    Sound (s.expireSession status code listenerCloses) := by
  unfold TaskStream.expireSession
  split
  · exact hs.close
  · exact hs

/-- A client that does not stay open is closed. -/
theorem closed_expireSession {status : ℕ} {code : Option String} {listenerCloses : Bool}
    (h : ¬ StaysOpen s status code listenerCloses) :
    (s.expireSession status code listenerCloses).closed = true := by
  unfold TaskStream.expireSession
  split
  · exact closed_close
  · next hstays => exact Bool.eq_true_of_not_eq_false fun hopen => h ⟨hopen, hstays⟩

theorem kept_errorBody {status : ℕ} {retryAfter : Option ℚ} {code : Option String}
    {listenerCloses : Bool} {random : Jitter} {reaction : Reaction} (hs : Kept s)
    (hact : s.activity = .readingError status retryAfter)
    (hcareful : StaysOpen s status code listenerCloses ∨ reaction.calls .onError = [])
    (hkept : StaysOpen s status code listenerCloses → (∀ c ∈ reaction.calls .onError, c.2 = false) →
      status = 429 → FloorKept s random retryAfter (floorSeconds retryAfter)) :
    Kept (s.errorBody status retryAfter code listenerCloses random reaction) := by
  unfold errorBody
  dsimp only
  by_cases hstays : StaysOpen s status code listenerCloses
  · rw [expireSession_of_staysOpen hstays]
    obtain ⟨hsound, hall⟩ := hs.sound.calls hstays.1 (quiet_onError reaction)
    have hcalls : (s.safeInvoke .onError reaction).closed = false →
        s.safeInvoke .onError reaction = _ := fun hopen => foldl_call (hall hopen)
    obtain ⟨htimer, hlive⟩ := (hs.live hstays.1).of_readingError hact
    split
    · next hlimit =>
      refine kept_registerFailure hsound.finish rfl fun hopen => ?_
      have hfloor := hkept hstays (hall hopen) hlimit
      rw [hcalls hopen]
      refine free_append.mpr ⟨?_, free_called _⟩
      rcases hlive with ⟨href, -⟩ | ⟨-, hfree⟩
      · exact absurd hlimit href.2.2
      · rw [if_pos hlimit] at hfree
        exact hfree.mono (add_le_add_right hfloor _)
    · next hlimit =>
      split
      · next hserver =>
        refine kept_registerFailure hsound.finish rfl fun hopen => ?_
        rw [hcalls hopen]
        refine free_append.mpr ⟨?_, free_called _⟩
        rcases hlive with ⟨href, -⟩ | ⟨-, hfree⟩
        · exact absurd href.2.1 (Nat.not_lt.mpr hserver)
        · rw [if_neg hlimit, add_zero] at hfree
          exact hfree.mono (le_add_of_nonneg_right (Nat.cast_nonneg _))
      · next hserver =>
        refine ⟨hsound.finish, fun hopen => ?_⟩
        rw [hcalls hopen]
        rcases hlive with ⟨-, hrefused⟩ | ⟨hstatus, -⟩
        · obtain ⟨kind, status', retryAfter', arrived, hmem, href⟩ := hrefused
          exact .stopped rfl htimer
            ⟨kind, status', retryAfter', arrived, List.mem_append_left _ hmem, href⟩
        · exact absurd ⟨hstatus.1, Nat.lt_of_not_le hserver, hlimit⟩ hstatus.2
  · have hnone := hcareful.resolve_left hstays
    have hclosed := closed_expireSession hstays
    have hsound := hs.sound.expireSession status code listenerCloses
    have hsame : (s.expireSession status code listenerCloses).safeInvoke .onError reaction =
        s.expireSession status code listenerCloses := by
      rw [safeInvoke, hnone]
      rfl
    rw [hsame]
    have hnever : (s.expireSession status code listenerCloses).finish.closed = false → False :=
      fun hopen => absurd (hclosed.symm.trans hopen) (by simp)
    split
    · exact kept_registerFailure hsound.finish rfl fun hopen => (hnever hopen).elim
    · split
      · exact kept_registerFailure hsound.finish rfl fun hopen => (hnever hopen).elim
      · exact ⟨hsound.finish, fun hopen => (hnever hopen).elim⟩

theorem call_setLastSeq (c : CallbackKind × Bool) (n : ℕ) :
    (s.setLastSeq n).call c = (s.call c).setLastSeq n := by
  unfold call TaskStream.close TaskStream.record setLastSeq
  split
  · dsimp only
    split <;> rfl
  · rfl

theorem foldl_call_setLastSeq (cs : List (CallbackKind × Bool)) (n : ℕ) :
    cs.foldl call (s.setLastSeq n) = (cs.foldl call s).setLastSeq n := by
  induction cs generalizing s with
  | nil => rfl
  | cons c cs ih => rw [List.foldl_cons, List.foldl_cons, call_setLastSeq, ih]

/-- The blocks of a chunk are so many callbacks. -/
theorem dispatchAll_eq (cs : List (CallbackKind × Option ℕ)) (rs : List Reaction) :
    ∃ n, dispatchAll cs rs s = ((invocations cs rs).foldl call s).setLastSeq n := by
  induction cs generalizing rs s with
  | nil => exact ⟨s.lastSeq, rfl⟩
  | cons c cs ih =>
    obtain ⟨n, hn⟩ := ih rs.tail
      (s := (s.setLastSeq (max s.lastSeq (c.2.getD 0))).safeInvoke c.1 (rs.headD (.returns false)))
    refine ⟨n, ?_⟩
    rw [dispatchAll, hn, invocations, List.foldl_append, safeInvoke, foldl_call_setLastSeq,
      foldl_call_setLastSeq]
    rfl

theorem kept_chunk {V : Type} {parse : List Char → Option V} {decoder : TextDecoder}
    {reader : FrameReader} {bytes : List UInt8} {reactions : List Reaction} (hs : Kept s)
    (hact : s.activity = .reading decoder reader) (hopen : s.closed = false)
    (hquiet : Quiet (invocations (chunkCalls parse decoder reader bytes) reactions)) :
    Kept (s.chunk parse decoder reader bytes reactions) := by
  have harmed : Sound s.armWatchdog := ⟨hs.sound.orderly, hs.sound.closed_iff, fun h =>
    absurd (hopen.symm.trans h) (by simp)⟩
  obtain ⟨hsound, hall⟩ := harmed.calls hopen hquiet
  obtain ⟨n, hn⟩ := @dispatchAll_eq s.armWatchdog (chunkCalls parse decoder reader bytes) reactions
  unfold TaskStream.chunk
  rw [hn]
  refine ⟨⟨hsound.orderly, hsound.closed_iff, hsound.silent⟩, fun hopen' => ?_⟩
  obtain ⟨htimer, hfree⟩ := (hs.live hopen).free_now (by simp [hact]) (by simp [hact])
  rw [foldl_call (hall hopen')]
  exact .active (by simp) (by simp) htimer (free_append.mpr ⟨hfree, free_called _⟩)

theorem kept_streamEnds {random : Jitter} (hs : Kept s) (hact : s.activity ≠ .idle)
    (herror : ∀ status retryAfter, s.activity ≠ .readingError status retryAfter) :
    Kept (s.streamEnds random) := by
  unfold streamEnds
  split
  · next hclosed =>
    exact ⟨hs.sound.disarm.finish, fun hopen => absurd (hclosed.symm.trans hopen) (by simp)⟩
  · rw [finish_registerFailure]
    refine kept_registerFailure hs.sound.disarm.finish rfl fun hopen => ?_
    exact ((hs.live hopen).free_now hact herror).2.mono (le_add_of_nonneg_right (Nat.cast_nonneg _))

theorem kept_eventsAnswer {retried : Bool} {a : EventsAnswer} {listenerCloses : Bool} {random : Jitter}
    {reaction : Reaction} (hs : Kept s) (hact : s.activity = .reconciling retried)
    (hcareful : CarefulEvents s retried a listenerCloses random reaction) :
    Kept (s.eventsAnswer retried a listenerCloses random reaction) := by
  have hsound := hs.sound.answered .events a.status a.retryAfter
  have hlive : s.closed = false → s.reconnectTimer = none ∧ Free s.history s.now := fun hopen =>
    (hs.live hopen).free_now (by simp [hact]) (by simp [hact])
  have hfree {t : ℚ} (hopen : s.closed = false) (ht : s.now ≤ t) (href : ¬ Refusal a.status)
      (hlimit : a.status = 429 → s.now + floorSeconds a.retryAfter * 1000 ≤ t) :
      Free (s.history ++ [.answered .events a.status a.retryAfter s.now]) t :=
    free_append.mpr ⟨(hlive hopen).2.mono ht, free_singleton.mpr (not_forbids_answered href hlimit)⟩
  unfold TaskStream.eventsAnswer
  dsimp only
  unfold CarefulEvents at hcareful
  split at hcareful
  · next hcsrf =>
    -- a second request, at once
    obtain ⟨hopen, href, hlimit⟩ := hcareful
    have hnow := hfree hopen le_rfl href fun h => absurd h hlimit
    have hrequest := hsound.request hnow .events
    rw [if_pos hcsrf]
    exact ⟨⟨hrequest.orderly, hrequest.closed_iff, hrequest.silent⟩, fun _ =>
      .active (by simp) (by simp) (hlive hopen).1 (free_request hnow)⟩
  · next hcsrf =>
    rw [if_neg hcsrf]
    split at hcareful
    · next hok =>
      obtain ⟨href, hlimit⟩ := not_refusal_of_isOk hok.1
      have hnow (hopen : s.closed = false) := hfree hopen le_rfl href fun h => absurd h hlimit
      rw [if_pos hok.1, if_pos hok.2]
      split
      · next hclosed =>
        exact ⟨hsound.finish, fun hopen => absurd (hclosed.symm.trans hopen) (by simp)⟩
      · next hopen =>
        have hopen : s.closed = false := Bool.eq_false_of_not_eq_true hopen
        split
        · next hbehind =>
          obtain ⟨hcalls, hall⟩ := @Sound.calls _ (reaction.calls .onEvents) hsound hopen
            (hcareful hopen hbehind)
          refine kept_connect ⟨hcalls.orderly, hcalls.closed_iff, hcalls.silent⟩ (fun hopen' => ?_)
            fun hopen' => ?_
          · rw [safeInvoke, foldl_call (hall hopen')]
            exact (hlive hopen).1
          · rw [safeInvoke, foldl_call (hall hopen')]
            exact free_append.mpr ⟨hnow hopen, free_called _⟩
        · exact kept_connect hsound (fun hopen => (hlive hopen).1) hnow
    · next hfails =>
      split
      · next hok =>
        rw [if_neg fun hobject => hfails ⟨hok, hobject⟩]
        obtain ⟨href, hlimit⟩ := not_refusal_of_isOk hok
        exact kept_fail_of_free hsound fun hopen => hfree hopen le_rfl href fun h => absurd h hlimit
      · by_cases hstays : StaysOpen s a.status a.code listenerCloses
        · have hsame := expireSession_of_staysOpen
            (s := s.record (.answered .events a.status a.retryAfter s.now)) ⟨hstays.1, hstays.2⟩
          rw [hsame]
          refine kept_fail hsound fun hopen hall => ?_
          obtain ⟨href, hfloor⟩ := hcareful hstays hall
          exact hfree hopen (le_add_of_nonneg_right (Nat.cast_nonneg _)) href fun hlimit =>
            add_le_add_right (hfloor hlimit) _
        · refine kept_fail (hsound.expireSession _ _ _) fun hopen => ?_
          have hclosed := closed_expireSession (s := s.record (.answered .events a.status a.retryAfter s.now))
            fun h => hstays ⟨h.1, h.2⟩
          exact absurd (hclosed.symm.trans hopen) (by simp)

end TaskStream

/-! ## Every run -/

section Runs

variable {V : Type} (parse : List Char → Option V)

/-- A step. -/
theorem stream_kept_step {s s' : TaskStream} {a : StreamAction} (hs : s.Kept) (hcareful : Careful parse s a)
    (hstep : (streamSystem parse).step s a = .ok s') : s'.Kept := by
  cases a with
  | tick ms =>
    cases hstep
    refine ⟨⟨hs.sound.orderly, hs.sound.closed_iff, hs.sound.silent⟩, fun hopen => ?_⟩
    have hlater : (s.now : ℚ) ≤ (s.now + ms : ℕ) := by simp
    cases hs.live hopen with
    | stopped hact htimer hrefused => exact .stopped hact htimer hrefused
    | waiting hact htimer hfree => exact .waiting hact htimer hfree
    | active hact herror htimer hfree => exact .active hact herror htimer (hfree.mono hlater)
    | refused hact htimer hstatus hrefused => exact .refused hact htimer hstatus hrefused
    | failing hact htimer hstatus hfree =>
      exact .failing hact htimer hstatus (hfree.mono (add_le_add_left hlater _))
  | close =>
    cases hstep
    exact ⟨hs.sound.close, fun hopen => absurd (TaskStream.closed_close.symm.trans hopen) (by simp)⟩
  | timerFires =>
    obtain ⟨⟨due, htimer, hdue⟩, hstep⟩ := ite_ok_else_error.mp hstep
    have hopen : s.closed = false := Bool.eq_false_of_not_eq_true fun hclosed => by
      rw [(hs.sound.silent hclosed).1] at htimer
      cases htimer
    rw [hopen] at hstep
    cases hstep
    have hfree : Free s.history s.now := by
      cases hs.live hopen with
      | stopped _ hnone | active _ _ hnone | refused _ hnone | failing _ hnone =>
        rw [hnone] at htimer
        cases htimer
      | waiting _ hsome hfree =>
        rw [hsome] at htimer
        cases htimer
        exact hfree.mono (Nat.cast_le.mpr hdue)
    have hsound := hs.sound.request hfree .events
    exact ⟨⟨hsound.orderly, hsound.closed_iff, fun h => absurd (hopen.symm.trans h) (by simp)⟩,
      fun _ => .active (by simp) (by simp) rfl (TaskStream.free_request hfree)⟩
  | watchdogFires =>
    obtain ⟨-, hstep⟩ := ite_ok_else_error.mp hstep
    cases hstep
    exact hs.disarm
  | streamAnswer status hasBody retryAfter =>
    dsimp only [streamSystem] at hstep
    split at hstep
    · next hact =>
      cases hstep
      exact TaskStream.kept_streamAnswer hs hact hcareful
    · cases hstep
  | streamFails random reaction =>
    dsimp only [streamSystem] at hstep
    split at hstep
    · next hact =>
      cases hstep
      exact hs.fail_of_active (by simp [hact]) (by simp [hact])
    · cases hstep
  | errorBody code listenerCloses random reaction =>
    dsimp only [streamSystem, Careful] at hstep hcareful
    split at hstep
    · next hact =>
      cases hstep
      rw [hact] at hcareful
      exact TaskStream.kept_errorBody hs hact hcareful.1 hcareful.2
    · cases hstep
  | chunk bytes reactions =>
    dsimp only [streamSystem, Careful] at hstep hcareful
    split at hstep
    · next hact =>
      cases hstep
      rw [hact] at hcareful
      exact TaskStream.kept_chunk hs hact hcareful.1 hcareful.2
    · cases hstep
  | streamEnds random =>
    dsimp only [streamSystem] at hstep
    split at hstep
    · next hact =>
      cases hstep
      exact TaskStream.kept_streamEnds hs (by simp [hact]) (by simp [hact])
    · cases hstep
  | streamBreaks random reaction =>
    dsimp only [streamSystem] at hstep
    split at hstep
    · next hact =>
      cases hstep
      exact hs.fail_of_active (by simp [hact]) (by simp [hact])
    · cases hstep
  | eventsAnswer answer listenerCloses random reaction =>
    dsimp only [streamSystem, Careful] at hstep hcareful
    split at hstep
    · next hact =>
      cases hstep
      rw [hact] at hcareful
      exact TaskStream.kept_eventsAnswer hs hact hcareful
    · cases hstep
  | eventsFails random reaction =>
    dsimp only [streamSystem] at hstep
    split at hstep
    · next hact =>
      cases hstep
      exact TaskStream.kept_fail_of_free hs.sound fun hopen =>
        ((hs.live hopen).free_now (by simp [hact]) (by simp [hact])).2
    · cases hstep

/-- A stream whose answers and callbacks the code is a match for keeps the contract. -/
theorem disciplined_run {after : ℕ} {as : List StreamAction}
    (hcareful : (streamSystem parse).Guarded (Careful parse) (createTaskStream after) as) :
    ((streamSystem parse).run (createTaskStream after) as).Disciplined :=
  (System.invariant_run_of_guarded (fun _ _ _ hs hG hstep => stream_kept_step parse hs hG hstep)
    (TaskStream.kept_createTaskStream after) hcareful).disciplined

end Runs

section Examples

/-- `Math.random` at its least. -/
def noJitter : Jitter := ⟨0, le_rfl, by norm_num⟩

/-- A stream that ends, and the events request of its reconnect. -/
def reconnecting : List StreamAction :=
  [.streamAnswer 200 true none, .chunk [0x3A, 0x0A, 0x0A] [], .streamEnds noJitter, .tick 1000, .timerFires]

/-- A reconnect, an answer with a floor, and a refusal after which the client stops. -/
theorem disciplined_refused : ((streamSystem (V := List Char) some).run (createTaskStream 7)
    (reconnecting ++
      [.eventsAnswer { status := 200, watermark := some 9 } false noJitter (.returns false),
        .streamAnswer 429 true (some 90), .errorBody none false noJitter (.returns false),
        .tick 90000, .timerFires, .eventsAnswer { status := 200 } false noJitter .absent,
        .streamAnswer 404 true none, .errorBody none false noJitter (.returns true)])).Disciplined :=
  disciplined_run some (by decide +kernel)

/-- The runs with an answer of 429 to the events request, and with a callback after the close. -/
theorem not_disciplined :
    ¬ ((streamSystem (V := List Char) some).run (createTaskStream 0) (reconnecting ++
      [.eventsAnswer { status := 429, retryAfter := some 60 } false noJitter (.returns false),
        .tick 2000, .timerFires])).Disciplined ∧
    ¬ ((streamSystem (V := List Char) some).run (createTaskStream 0) (reconnecting ++
      [.eventsAnswer { status := 404 } false noJitter (.returns false),
        .tick 2000, .timerFires])).Disciplined ∧
    ¬ ((streamSystem (V := List Char) some).run (createTaskStream 0)
      [.streamAnswer 503 true none, .close, .errorBody none false noJitter (.returns false)]).Disciplined ∧
    ¬ ((streamSystem (V := List Char) some).run (createTaskStream 0)
      [.streamAnswer 204 false none, .errorBody none false noJitter (.returns false)]).Disciplined := by
  refine ⟨fun h => ?_, fun h => ?_, fun h => ?_, fun h => ?_⟩
  · have hfree : Free [.request .stream 0 0, .answered .stream 200 none 0, .request .events 0 1000,
        .answered .events 429 (some 60) 1000, .called .onError] 3000 :=
      h.orderly _ (.request .events 0 3000) [] (by decide +kernel)
    exact hfree (.answered .events 429 (some 60) 1000) (by simp)
      (.inr ⟨rfl, by norm_num [floorSeconds]⟩)
  · have hfree : Free [.request .stream 0 0, .answered .stream 200 none 0, .request .events 0 1000,
        .answered .events 404 none 1000, .called .onError] 3000 :=
      h.orderly _ (.request .events 0 3000) [] (by decide +kernel)
    exact hfree (.answered .events 404 none 1000) (by simp) (.inl (by decide))
  · have hclosed : Occurrence.closed ∉ [.request .stream 0 0, .answered .stream 503 none 0, .closed] :=
      h.orderly _ (.called .onError) [] (by decide +kernel)
    exact hclosed (by simp)
  · have hdead : (streamSystem (V := List Char) some).run (createTaskStream 0)
        [.streamAnswer 204 false none, .errorBody none false noJitter (.returns false)] =
        { lastSeq := 0, activity := .idle, history := [.request .stream 0 0, .answered .stream 204 none 0,
          .called .onError] } := by decide +kernel
    rw [hdead] at h
    rcases h.alive rfl with ⟨hactive, -⟩ | ⟨-, hwaiting, -⟩ | ⟨-, -, -, -, kind, status, r, t, hmem, href⟩
    · exact hactive rfl
    · exact hwaiting rfl
    · simp only [List.mem_cons, List.not_mem_nil, reduceCtorEq, or_false, false_or,
        Occurrence.answered.injEq] at hmem
      exact absurd (hmem.2.1 ▸ href) (by decide)

end Examples

end AgentCraft.Web
