import AgentCraft.Tasking.EventPages
import AgentCraft.Tasking.StreamMerge
import AgentCraft.Transition.System

/-!
# The event streams of tasks

`TaskStreamRegistry` (`v2/task_streams.py`) puts the frames of a task into the queues of its subscribers, and
`_task_event_stream` (`api/v2/task_sse.py`) sends a client what the log has above its cursor, then what is in
its queue. Writers commit events and publish their frames afterwards, in steps of their own.

In every interleaving the numbers of the lines of a stream increase (`numbers_run`), and frames without number
are sent as they are published unless a queue is full (`transients_run`).
-/

namespace AgentCraft.Tasking

open AgentCraft.Transition

/-- `_QUEUE_MAX`. -/
def queueMax : ℕ := 2000

/-- Where the generator of a stream stands. -/
inductive StreamPhase
  /-- The queue is registered. -/
  | registered
  /-- The log is read. -/
  | replayed (replay : List (ℤ × StreamFrame))
  /-- The frames are merged; now the queue is read. -/
  | live
  /-- The queue is unsubscribed. -/
  | ended

/-- The next thing that a generator does. -/
inductive StreamMove
  /-- It reads the log of the task, if it finds the task. -/
  | read (found : Bool)
  | drain
  | send
  | take
  | disconnect

/-- A call of `_task_event_stream`, with its `_Subscription`. -/
structure EventStream where
  task : TaskId
  after : ℕ
  queue : List StreamFrame
  phase : StreamPhase
  lastSent : ℤ
  /-- The merged frames that are not yet sent. -/
  pending : List (Option ℤ × StreamFrame)
  sent : List (Option ℤ × StreamFrame)

namespace EventStream

def isSubscribed (s : EventStream) : Bool :=
  match s.phase with
  | .ended => false
  | _ => true

/-- `register`. -/
def start (tid : TaskId) (after : ℕ) : EventStream := ⟨tid, after, [], .registered, after, [], []⟩

/-- The frame is above the water mark of the subscription. -/
def admits (s : EventStream) (frame : StreamFrame) : Bool :=
  match eventSequence frame with
  | some seq => (s.after : ℤ) < seq
  | none => true

/-- The subscription among those that `publish` goes through. A full queue drops the frame. -/
def offer (s : EventStream) (tid : TaskId) (frame : StreamFrame) : EventStream :=
  if s.task = tid ∧ s.isSubscribed ∧ s.admits frame ∧ s.queue.length < queueMax then
    { s with queue := s.queue ++ [frame] }
  else s

/-- What the client has been told, and is about to be. -/
def told (s : EventStream) : StreamMerge := ⟨s.sent ++ s.pending, s.lastSent⟩

variable (render : EventFrame → StreamFrame)

/-- The frames of the log above the cursor. -/
def replay (events : List TaskEvent) (after : ℕ) : List (ℤ × StreamFrame) :=
  (events.filter (after < ·.sequence)).filterMap fun e => (eventFrame e.body).map fun f => ((e.sequence : ℤ), render f)

/-- A step of `_task_event_stream`; none if it is not the next one. -/
def move (events : List TaskEvent) (s : EventStream) : StreamMove → Option EventStream
  | .read found =>
    match s.phase with
    | .registered => some { s with phase := if found then .replayed (replay render events s.after) else .ended }
    | _ => none
  | .drain =>
    match s.phase with
    | .replayed replay =>
      let merge := mergeStreamFrames replay s.queue s.lastSent
      some { s with queue := [], phase := .live, lastSent := merge.lastSent, pending := merge.merged }
    | _ => none
  | .send =>
    match s.pending with
    | line :: rest => if s.isSubscribed then some { s with pending := rest, sent := s.sent ++ [line] } else none
    | [] => none
  | .take =>
    match s.phase, s.pending, s.queue with
    -- the loop drops and sends as the merge does
    | .live, [], frame :: rest =>
      let next := StreamMerge.takeBuffered ⟨s.sent, s.lastSent⟩ frame
      some { s with queue := rest, lastSent := next.lastSent, sent := next.merged }
    | _, _, _ => none
  | .disconnect => if s.isSubscribed then some { s with phase := .ended } else none

end EventStream

/-- The logs of the tasks beside the streams, in the order of their registration. -/
structure StreamWorld where
  log : TaskId → List TaskEvent
  /-- The last number that has been published for a task. -/
  published : TaskId → ℤ
  streams : List EventStream

inductive StreamAction
  /-- A writer commits events of a task. -/
  | commit (tid : TaskId) (events : List TaskEvent)
  | publish (tid : TaskId) (frame : StreamFrame)
  | connect (tid : TaskId) (after : ℕ)
  | stream (i : ℕ) (move : StreamMove)

inductive StreamError
  /-- The lock on the task numbers its events. -/
  | misnumbered
  | notNext

/-- No streams, and no events. -/
def StreamWorld.empty : StreamWorld := ⟨fun _ => [], fun _ => 0, []⟩

/-- `publish`. -/
def StreamWorld.publish (w : StreamWorld) (tid : TaskId) (frame : StreamFrame) : StreamWorld where
  log := w.log
  published := match eventSequence frame with
    | some seq => Function.update w.published tid seq
    | none => w.published
  streams := w.streams.map (·.offer tid frame)

/-- Tasks, their writers and their streams. -/
def streamSystem (render : EventFrame → StreamFrame) : System StreamWorld StreamAction StreamError where
  step w
    | .commit tid events =>
      if (0 :: (w.log tid ++ events).map (·.sequence)).Pairwise (· < ·) then
        .ok { w with log := Function.update w.log tid (w.log tid ++ events) }
      else .error .misnumbered
    | .publish tid frame => .ok (w.publish tid frame)
    | .connect tid after => .ok { w with streams := w.streams ++ [.start tid after] }
    | .stream i move =>
      match w.streams[i]?.bind fun s => s.move render (w.log s.task) move with
      | some s => .ok { w with streams := w.streams.set i s }
      | none => .error .notNext

/-! ## Steps -/

section Steps

variable {render : EventFrame → StreamFrame} {events : List TaskEvent} {s s' : EventStream} {m : StreamMove}
  {w w' : StreamWorld} {a : StreamAction}

/-- What a step of a generator does. -/
inductive EventStream.Moves (render : EventFrame → StreamFrame) (events : List TaskEvent) (s : EventStream) :
    EventStream → Prop
  | read (hphase : s.phase = .registered) :
    s.Moves render events { s with phase := .replayed (EventStream.replay render events s.after) }
  | drain {replay : List (ℤ × StreamFrame)} (hphase : s.phase = .replayed replay) :
    s.Moves render events { s with
      queue := []
      phase := .live
      lastSent := (mergeStreamFrames replay s.queue s.lastSent).lastSent
      pending := (mergeStreamFrames replay s.queue s.lastSent).merged }
  | send {line : Option ℤ × StreamFrame} {rest : List (Option ℤ × StreamFrame)} (hpending : s.pending = line :: rest) :
    s.Moves render events { s with pending := rest, sent := s.sent ++ [line] }
  | take {frame : StreamFrame} {rest : List StreamFrame} (hphase : s.phase = .live) (hpending : s.pending = [])
      (hqueue : s.queue = frame :: rest) :
    s.Moves render events { s with
      queue := rest
      lastSent := (StreamMerge.takeBuffered ⟨s.sent, s.lastSent⟩ frame).lastSent
      sent := (StreamMerge.takeBuffered ⟨s.sent, s.lastSent⟩ frame).merged }
  | leave : s.Moves render events { s with phase := .ended }

theorem EventStream.moves (h : s.move render events m = some s') : s.Moves render events s' := by
  cases m with
  | read found =>
    rw [EventStream.move] at h
    split at h
    · next hphase =>
      obtain rfl := Option.some.inj h
      cases found with
      | true => exact .read hphase
      | false => exact .leave
    · cases h
  | drain =>
    rw [EventStream.move] at h
    split at h
    · next hphase =>
      obtain rfl := Option.some.inj h
      exact .drain hphase
    · cases h
  | send =>
    rw [EventStream.move] at h
    split at h
    · next hpending =>
      split at h
      · obtain rfl := Option.some.inj h
        exact .send hpending
      · cases h
    · cases h
  | take =>
    rw [EventStream.move] at h
    split at h
    · next hphase hpending hqueue =>
      obtain rfl := Option.some.inj h
      exact .take hphase hpending hqueue
    · cases h
  | disconnect =>
    rw [EventStream.move] at h
    split at h
    · obtain rfl := Option.some.inj h
      exact .leave
    · cases h

/-- A property of the streams that every step keeps. -/
theorem forall_streams_step {P : StreamWorld → EventStream → Prop} (hs : (streamSystem render).step w a = .ok w')
    (hP : ∀ s ∈ w.streams, P w s)
    (hcommit : ∀ tid events s, (0 :: (w.log tid ++ events).map (·.sequence)).Pairwise (· < ·) → P w s →
      P { w with log := Function.update w.log tid (w.log tid ++ events) } s)
    (hpublish : ∀ tid frame s, a = .publish tid frame → s ∈ w.streams → P w s →
      P (w.publish tid frame) (s.offer tid frame))
    (hconnect : ∀ tid after s, P w s → P { w with streams := w.streams ++ [.start tid after] } s)
    (hstart : ∀ tid after, P { w with streams := w.streams ++ [.start tid after] } (.start tid after))
    (hmove : ∀ s s' i, s ∈ w.streams → P w s → s.Moves render (w.log s.task) s' →
      P { w with streams := w.streams.set i s' } s')
    (hother : ∀ s s' i, P w s → P { w with streams := w.streams.set i s' } s) : ∀ s ∈ w'.streams, P w' s := by
  cases a with
  | commit tid events =>
    simp only [streamSystem] at hs
    split at hs
    · next hnumbered =>
      cases hs
      exact fun s hmem => hcommit tid events s hnumbered (hP s hmem)
    · cases hs
  | publish tid frame =>
    cases hs
    intro s hmem
    obtain ⟨s₀, hmem₀, rfl⟩ := List.mem_map.mp hmem
    exact hpublish tid frame s₀ rfl hmem₀ (hP s₀ hmem₀)
  | connect tid after =>
    cases hs
    intro s hmem
    rcases List.mem_append.mp hmem with hmem | hmem
    · exact hconnect tid after s (hP s hmem)
    · rw [List.mem_singleton.mp hmem]
      exact hstart tid after
  | stream i move =>
    simp only [streamSystem] at hs
    split at hs
    · next s' hbind =>
      cases hs
      obtain ⟨s₀, hget, hmove'⟩ := Option.bind_eq_some_iff.mp hbind
      have hmem₀ : s₀ ∈ w.streams := List.mem_of_getElem? hget
      intro s hmem
      rcases List.mem_or_eq_of_mem_set hmem with hmem | rfl
      · exact hother s s' i (hP s hmem)
      · exact hmove s₀ s i hmem₀ (hP s₀ hmem₀) (EventStream.moves hmove')
    · cases hs

/-- The events of a task are numbered in order. -/
def StreamWorld.Numbered (w : StreamWorld) : Prop :=
  ∀ tid, (0 :: (w.log tid).map (·.sequence)).Pairwise (· < ·)

theorem StreamWorld.Numbered.step (h : w.Numbered) (hs : (streamSystem render).step w a = .ok w') : w'.Numbered := by
  cases a with
  | commit tid events =>
    simp only [streamSystem] at hs
    split at hs
    · next hnumbered =>
      cases hs
      intro tid'
      by_cases htid : tid' = tid
      · subst htid
        simpa using hnumbered
      · simpa [htid] using h tid'
    · cases hs
  | publish tid frame =>
    cases hs
    exact h
  | connect tid after =>
    cases hs
    exact h
  | stream i move =>
    simp only [streamSystem] at hs
    split at hs
    · cases hs
      exact h
    · cases hs

end Steps

/-! ## The replay -/

section Replay

variable {render : EventFrame → StreamFrame} {events : List TaskEvent} {after : ℕ}

theorem mem_replay {p : ℤ × StreamFrame} (hp : p ∈ EventStream.replay render events after) :
    ∃ e ∈ events, (e.sequence : ℤ) = p.1 ∧ after < e.sequence := by
  obtain ⟨e, he, hframe⟩ := List.mem_filterMap.mp hp
  obtain ⟨f, -, rfl⟩ := Option.map_eq_some_iff.mp hframe
  obtain ⟨he, hafter⟩ := List.mem_filter.mp he
  exact ⟨e, he, rfl, of_decide_eq_true hafter⟩

theorem replay_above : ∀ p ∈ EventStream.replay render events after, (after : ℤ) < p.1 := by
  intro p hp
  obtain ⟨e, -, hseq, hafter⟩ := mem_replay hp
  exact hseq ▸ Int.ofNat_lt.mpr hafter

theorem replay_increasing (h : (0 :: events.map (·.sequence)).Pairwise (· < ·)) :
    ((EventStream.replay render events after).map Prod.fst).Pairwise (· < ·) := by
  have hevents : events.Pairwise (·.sequence < ·.sequence) :=
    List.pairwise_map.mp (List.pairwise_cons.mp h).2
  rw [EventStream.replay, List.pairwise_map, List.pairwise_filterMap]
  refine (hevents.filter _).imp fun hlt b hb b' hb' => ?_
  obtain ⟨f, -, rfl⟩ := Option.map_eq_some_iff.mp hb
  obtain ⟨f', -, rfl⟩ := Option.map_eq_some_iff.mp hb'
  exact Int.ofNat_lt.mpr hlt

/-- An event with a frame is replayed. -/
theorem mem_map_replay {e : TaskEvent} (he : e ∈ events) (hframe : eventFrame e.body ≠ none) (hafter : after < e.sequence) :
    (e.sequence : ℤ) ∈ (EventStream.replay render events after).map Prod.fst := by
  obtain ⟨f, hf⟩ := Option.ne_none_iff_exists'.mp hframe
  refine List.mem_map.mpr ⟨(e.sequence, render f), List.mem_filterMap.mpr ⟨e, ?_, ?_⟩, rfl⟩
  · exact List.mem_filter.mpr ⟨he, decide_eq_true hafter⟩
  · rw [hf]
    rfl

end Replay

/-! ## The numbers increase -/

section Numbers

variable {render : EventFrame → StreamFrame} {events : List TaskEvent} {s s' : EventStream}

/-- What a client is told is in order and above its cursor. -/
structure EventStream.Sound (s : EventStream) : Prop where
  ordered : s.told.Ordered
  above : s.told.Above s.after
  fresh : s.phase = .registered → s.sent = [] ∧ s.pending = [] ∧ s.lastSent = s.after
  replayed : ∀ replay, s.phase = .replayed replay → (s.sent = [] ∧ s.pending = [] ∧ s.lastSent = s.after) ∧
    (replay.map Prod.fst).Pairwise (· < ·) ∧ ∀ p ∈ replay, (s.after : ℤ) < p.1

theorem EventStream.sound_start (tid : TaskId) (after : ℕ) : (start tid after).Sound where
  ordered := ⟨List.Pairwise.nil, fun _ hp => absurd hp List.not_mem_nil⟩
  above := ⟨le_rfl, fun _ hp => absurd hp List.not_mem_nil⟩
  fresh _ := ⟨rfl, rfl, rfl⟩
  replayed _ h := by cases h

theorem EventStream.Sound.offer (h : s.Sound) (tid : TaskId) (frame : StreamFrame) : (s.offer tid frame).Sound := by
  unfold EventStream.offer
  split
  · exact ⟨h.ordered, h.above, h.fresh, h.replayed⟩
  · exact h

/-- The merge of a replay in order and above the cursor. -/
theorem merge_sound {cursor : ℤ} {replay : List (ℤ × StreamFrame)}
    (hincreasing : (replay.map Prod.fst).Pairwise (· < ·)) (habove : ∀ p ∈ replay, cursor < p.1)
    (buffered : List StreamFrame) :
    (mergeStreamFrames replay buffered cursor).Ordered ∧ (mergeStreamFrames replay buffered cursor).Above cursor := by
  rw [mergeStreamFrames, foldl_takeReplayed, List.nil_append]
  refine ⟨StreamMerge.Ordered.foldl ⟨?_, ?_⟩ buffered, StreamMerge.Above.foldl ⟨?_, ?_⟩ buffered⟩
  · rw [numbered_replayed]
    exact hincreasing
  · rw [numbered_replayed]
    exact fun p hp => le_replayEnd hincreasing hp
  · cases hlast : replay.getLast? with
    | none => simp [replayEnd, hlast]
    | some p =>
      have hp : cursor < p.1 := habove p (List.mem_of_getLast? hlast)
      simpa [replayEnd, hlast] using hp.le
  · rw [numbered_replayed]
    exact habove

theorem EventStream.Sound.moves (h : s.Sound) (hnumbered : (0 :: events.map (·.sequence)).Pairwise (· < ·))
    (hmoves : s.Moves render events s') : s'.Sound := by
  cases hmoves with
  | read hphase =>
    refine ⟨h.ordered, h.above, fun hnone => (by cases hnone), fun replay hreplay => ?_⟩
    cases hreplay
    exact ⟨h.fresh hphase, replay_increasing hnumbered, replay_above⟩
  | @drain replay hphase =>
    obtain ⟨⟨hsent, -, hlast⟩, hincreasing, habove⟩ := h.replayed replay hphase
    have htold : EventStream.told { s with
        queue := []
        phase := .live
        lastSent := (mergeStreamFrames replay s.queue s.lastSent).lastSent
        pending := (mergeStreamFrames replay s.queue s.lastSent).merged } =
        mergeStreamFrames replay s.queue s.after := by
      simp only [EventStream.told, hsent, hlast, List.nil_append]
    obtain ⟨hordered, habove⟩ := merge_sound hincreasing habove s.queue
    exact ⟨htold ▸ hordered, htold ▸ habove, fun hnone => (by cases hnone), fun _ hnone => (by cases hnone)⟩
  | @send line rest hpending =>
    have htold : EventStream.told { s with pending := rest, sent := s.sent ++ [line] } = s.told := by
      simp [EventStream.told, hpending]
    refine ⟨htold ▸ h.ordered, htold ▸ h.above, fun hphase => ?_, fun replay hphase => ?_⟩
    · exact absurd (h.fresh hphase).2.1 (by simp [hpending])
    · exact absurd (h.replayed replay hphase).1.2.1 (by simp [hpending])
  | @take frame rest hphase hpending hqueue =>
    have htold : EventStream.told { s with
        queue := rest
        lastSent := (StreamMerge.takeBuffered ⟨s.sent, s.lastSent⟩ frame).lastSent
        sent := (StreamMerge.takeBuffered ⟨s.sent, s.lastSent⟩ frame).merged } = s.told.takeBuffered frame := by
      simp [EventStream.told, hpending]
    refine ⟨htold ▸ h.ordered.takeBuffered frame, htold ▸ h.above.takeBuffered frame, fun hnone => ?_,
      fun _ hnone => ?_⟩
    · cases hphase.symm.trans hnone
    · cases hphase.symm.trans hnone
  | leave => exact ⟨h.ordered, h.above, fun hnone => (by cases hnone), fun _ hnone => (by cases hnone)⟩

/-- The numbers that a stream has sent increase, above the cursor of the client. -/
def EventStream.Increasing (s : EventStream) : Prop :=
  ((numbered s.sent).map Prod.fst).Pairwise (· < ·) ∧ ∀ p ∈ numbered s.sent, (s.after : ℤ) < p.1

theorem EventStream.Sound.increasing (h : s.Sound) : s.Increasing := by
  have hordered := h.ordered.increasing
  rw [EventStream.told, numbered_append, List.map_append] at hordered
  refine ⟨(List.pairwise_append.mp hordered).1, fun p hp => h.above.sent p ?_⟩
  rw [EventStream.told, numbered_append]
  exact List.mem_append_left _ hp

/-- All streams are sound, over numbered logs. -/
structure StreamWorld.Sound (w : StreamWorld) : Prop where
  numbered : w.Numbered
  streams : ∀ s ∈ w.streams, s.Sound

theorem StreamWorld.sound_empty : StreamWorld.empty.Sound :=
  ⟨fun _ => List.pairwise_singleton _ _, fun s hs => by cases hs⟩

theorem StreamWorld.Sound.step {w w' : StreamWorld} {a : StreamAction} (h : w.Sound)
    (hs : (streamSystem render).step w a = .ok w') : w'.Sound where
  numbered := h.numbered.step hs
  streams := forall_streams_step (P := fun _ s => s.Sound) hs h.streams (fun _ _ _ _ h => h)
    (fun tid frame _ _ _ h => h.offer tid frame) (fun _ _ _ h => h) EventStream.sound_start
    (fun s _ _ _ hsound hmoves => hsound.moves (h.numbered s.task) hmoves) (fun _ _ _ h => h)

theorem StreamWorld.sound_run (render : EventFrame → StreamFrame) (as : List StreamAction) :
    ((streamSystem render).run .empty as).Sound :=
  System.invariant_run (fun _ _ _ hi hs => hi.step hs) as sound_empty

/-- Whatever the interleaving of writers, publishers and streams, no stream sends a number twice, or one that
its client has seen. -/
theorem numbers_run (render : EventFrame → StreamFrame) (as : List StreamAction) :
    ∀ s ∈ ((streamSystem render).run .empty as).streams, s.Increasing :=
  fun s hs => ((StreamWorld.sound_run render as).streams s hs).increasing

/-- A stream reads the log, while its task is announced to be queued. -/
def sampleStream : List StreamAction := [
  .commit 1 [⟨1, .statusChanged .queued none, none, none⟩], .publish 1 (numberedFrame 1), .stream 0 (.read true),
  .publish 1 [], .stream 0 .drain, .stream 0 .send]

theorem numbers_run_sample :
    ∃ s, ((streamSystem fun _ => []).run .empty (.connect 1 0 :: sampleStream)).streams.head? = some s ∧
      s.Increasing := by
  obtain ⟨s, hs⟩ : ∃ s, ((streamSystem fun _ => []).run .empty (.connect 1 0 :: sampleStream)).streams.head? = some s :=
    Option.isSome_iff_exists.mp (by decide +kernel)
  exact ⟨s, hs, numbers_run (fun _ => []) (.connect 1 0 :: sampleStream) s (List.mem_of_head? hs)⟩

end Numbers

/-! ## Frames without number -/

/-- The frame without number that an action publishes for a task. -/
def StreamAction.plain (tid : TaskId) : StreamAction → Option StreamFrame
  | .publish tid' frame => if tid' = tid ∧ eventSequence frame = none then some frame else none
  | _ => none

/-- The frames without number that have reached a stream: those for the client, then those in the queue. -/
def EventStream.transients (s : EventStream) : List StreamFrame :=
  transient s.told.merged ++ transient (withSequences s.queue)

/-- No queue is full when a frame is published. -/
def Roomy (w : StreamWorld) : StreamAction → Prop
  | .publish tid _ => ∀ s ∈ w.streams, s.task = tid → s.isSubscribed = true → s.queue.length < queueMax
  | _ => True

instance (w : StreamWorld) : (a : StreamAction) → Decidable (Roomy w a)
  | .publish tid _ => inferInstanceAs (Decidable (∀ s ∈ w.streams, s.task = tid → s.isSubscribed = true →
      s.queue.length < queueMax))
  | .commit .. => inferInstanceAs (Decidable True)
  | .connect .. => inferInstanceAs (Decidable True)
  | .stream .. => inferInstanceAs (Decidable True)

section Transients

variable {render : EventFrame → StreamFrame} {events : List TaskEvent} {s s' : EventStream} {w w' : StreamWorld}
  {a : StreamAction}

theorem transient_withSequences_append (queue : List StreamFrame) (frame : StreamFrame) :
    transient (withSequences (queue ++ [frame])) =
      transient (withSequences queue) ++ if eventSequence frame = none then [frame] else [] := by
  rw [withSequences, List.map_append, transient_append]
  cases h : eventSequence frame <;> simp [withSequences, h]

theorem EventStream.transients_offer (hsub : s.isSubscribed = true) (hroom : s.queue.length < queueMax)
    (frame : StreamFrame) :
    (s.offer s.task frame).transients =
      s.transients ++ (StreamAction.plain s.task (.publish s.task frame)).toList := by
  unfold EventStream.offer
  cases hseq : eventSequence frame with
  | none =>
    have hadmits : s.admits frame = true := by rw [EventStream.admits, hseq]
    rw [if_pos ⟨rfl, hsub, hadmits, hroom⟩]
    simp [EventStream.transients, EventStream.told, StreamAction.plain, hseq, transient_withSequences_append]
  | some seq =>
    have hplain : StreamAction.plain s.task (.publish s.task frame) = none := by
      simp [StreamAction.plain, hseq]
    rw [hplain, Option.toList_none, List.append_nil]
    split
    · simp [EventStream.transients, EventStream.told, hseq, transient_withSequences_append]
    · rfl

theorem transient_takeBuffered (m : StreamMerge) (frame : StreamFrame) :
    transient (m.takeBuffered frame).merged = transient m.merged ++ transient (withSequences [frame]) :=
  transient_foldl_takeBuffered m [frame]

/-- A generator that goes on neither drops nor adds frames without number. -/
theorem EventStream.Sound.transients_moves (h : s.Sound) (hmoves : s.Moves render events s')
    (hsub : s'.isSubscribed = true) : s.isSubscribed = true ∧ s'.transients = s.transients := by
  cases hmoves with
  | read hphase => exact ⟨by rw [EventStream.isSubscribed, hphase], rfl⟩
  | @drain replay hphase =>
    obtain ⟨⟨hsent, hpending, -⟩, -, -⟩ := h.replayed replay hphase
    refine ⟨by rw [EventStream.isSubscribed, hphase], ?_⟩
    simp only [EventStream.transients, EventStream.told, hsent, hpending, List.nil_append]
    rw [mergeStreamFrames, transient_foldl_takeBuffered, foldl_takeReplayed, List.nil_append, transient_replayed]
    exact List.append_nil _
  | send hpending =>
    refine ⟨hsub, ?_⟩
    simp [EventStream.transients, EventStream.told, hpending]
  | @take frame rest hphase hpending hqueue =>
    refine ⟨by rw [EventStream.isSubscribed, hphase], ?_⟩
    have hsplit : withSequences (frame :: rest) = withSequences [frame] ++ withSequences rest := rfl
    simp only [EventStream.transients, EventStream.told, hpending, hqueue, List.append_nil]
    rw [transient_takeBuffered, hsplit, transient_append, List.append_assoc]
  | leave => cases hsub

/-- What a step of the system does to one stream. -/
theorem exists_stream_step (hs : (streamSystem render).step w a = .ok w') {i : ℕ} (hi : w.streams[i]? = some s) :
    ∃ s', w'.streams[i]? = some s' ∧
      (s' = s ∧ a.plain s.task = none ∨ (∃ tid frame, a = .publish tid frame ∧ s' = s.offer tid frame) ∨
        (a.plain s.task = none ∧ s.Moves render (w.log s.task) s')) := by
  have hlt : i < w.streams.length := (List.getElem?_eq_some_iff.mp hi).1
  cases a with
  | commit tid events =>
    simp only [streamSystem] at hs
    split at hs
    · cases hs
      exact ⟨s, hi, .inl ⟨rfl, rfl⟩⟩
    · cases hs
  | publish tid frame =>
    cases hs
    exact ⟨s.offer tid frame, by simp [StreamWorld.publish, hi], .inr (.inl ⟨tid, frame, rfl, rfl⟩)⟩
  | connect tid after =>
    cases hs
    exact ⟨s, by rw [List.getElem?_append_left hlt]; exact hi, .inl ⟨rfl, rfl⟩⟩
  | stream j move =>
    simp only [streamSystem] at hs
    split at hs
    · next s₁ hbind =>
      cases hs
      obtain ⟨s₀, hget, hmove⟩ := Option.bind_eq_some_iff.mp hbind
      by_cases hj : j = i
      · subst hj
        obtain rfl := Option.some.inj (hget.symm.trans hi)
        exact ⟨s₁, List.getElem?_set_self hlt, .inr (.inr ⟨rfl, EventStream.moves hmove⟩)⟩
      · exact ⟨s, (List.getElem?_set_ne hj).trans hi, .inl ⟨rfl, rfl⟩⟩
    · cases hs

theorem EventStream.Moves.task (h : s.Moves render events s') : s'.task = s.task := by
  cases h <;> rfl

theorem EventStream.offer_task (s : EventStream) (tid : TaskId) (frame : StreamFrame) :
    (s.offer tid frame).task = s.task := by
  unfold EventStream.offer
  split <;> rfl

theorem EventStream.offer_isSubscribed (s : EventStream) (tid : TaskId) (frame : StreamFrame) :
    (s.offer tid frame).isSubscribed = s.isSubscribed := by
  unfold EventStream.offer
  split <;> rfl

/-- One step, seen from one stream. -/
theorem transients_step (hs : (streamSystem render).step w a = .ok w') (hroomy : Roomy w a) {i : ℕ}
    (hi : w.streams[i]? = some s) (hsound : s.Sound) :
    ∃ s', w'.streams[i]? = some s' ∧ s'.task = s.task ∧ (s'.isSubscribed = true →
      s.isSubscribed = true ∧ s'.transients = s.transients ++ (a.plain s.task).toList) := by
  obtain ⟨s', hi', ⟨rfl, hplain⟩ | ⟨tid, frame, rfl, rfl⟩ | ⟨hplain, hmoves⟩⟩ := exists_stream_step hs hi
  · exact ⟨s', hi', rfl, fun hsub => ⟨hsub, by simp [hplain]⟩⟩
  · refine ⟨_, hi', s.offer_task tid frame, fun hsub => ?_⟩
    rw [EventStream.offer_isSubscribed] at hsub
    refine ⟨hsub, ?_⟩
    by_cases htask : s.task = tid
    · subst htask
      exact EventStream.transients_offer hsub (hroomy s (List.mem_of_getElem? hi) rfl hsub) frame
    · have hother : s.offer tid frame = s := if_neg fun h => htask h.1
      have hplain : StreamAction.plain s.task (.publish tid frame) = none := if_neg fun h => htask h.1.symm
      rw [hother, hplain, Option.toList_none, List.append_nil]
  · refine ⟨s', hi', hmoves.task, fun hsub => ?_⟩
    obtain ⟨hbefore, htransients⟩ := hsound.transients_moves hmoves hsub
    exact ⟨hbefore, by simp [htransients, hplain]⟩


theorem transients_run_of_sound {as : List StreamAction} (hsound : w.Sound)
    (hroomy : (streamSystem render).Guarded Roomy w as) {i : ℕ} (hi : w.streams[i]? = some s) :
    ∃ s', ((streamSystem render).run w as).streams[i]? = some s' ∧ s'.task = s.task ∧ (s'.isSubscribed = true →
      s.isSubscribed = true ∧ s'.transients = s.transients ++ as.filterMap (·.plain s.task)) := by
  induction as generalizing w s with
  | nil => exact ⟨s, hi, rfl, fun hsub => ⟨hsub, (List.append_nil _).symm⟩⟩
  | cons a as ih =>
    have hfirst : ∃ s₁, ((streamSystem render).next w a).streams[i]? = some s₁ ∧ s₁.task = s.task ∧
        (s₁.isSubscribed = true → s.isSubscribed = true ∧ s₁.transients = s.transients ++ (a.plain s.task).toList) ∧
        ((streamSystem render).next w a).Sound := by
      cases hs : (streamSystem render).step w a with
      | ok w' =>
        rw [System.next_eq_of_step hs]
        obtain ⟨s₁, hi₁, htask, htransients⟩ := transients_step hs hroomy.1 hi (hsound.streams s (List.mem_of_getElem? hi))
        exact ⟨s₁, hi₁, htask, htransients, hsound.step hs⟩
      | error e =>
        rw [System.next_eq_self_of_error hs]
        refine ⟨s, hi, rfl, fun hsub => ⟨hsub, ?_⟩, hsound⟩
        -- only a publication has a frame, and it is a step
        have hplain : a.plain s.task = none := by
          cases a with
          | publish tid frame => cases hs
          | _ => rfl
        rw [hplain]
        exact (List.append_nil _).symm
    obtain ⟨s₁, hi₁, htask, htransients, hsound₁⟩ := hfirst
    obtain ⟨s', hi', htask', hrest⟩ := ih hsound₁ hroomy.2 hi₁
    refine ⟨s', hi', htask'.trans htask, fun hsub => ?_⟩
    obtain ⟨hsub₁, hrest⟩ := hrest hsub
    obtain ⟨hsub₀, hstep⟩ := htransients hsub₁
    refine ⟨hsub₀, ?_⟩
    rw [hrest, hstep, htask, List.append_assoc]
    cases hplain : a.plain s.task <;> simp [hplain]

/-- As long as no queue is full a stream has all frames without number that are published for its task after it
connects, once and in order. -/
theorem transients_run (render : EventFrame → StreamFrame) (tid : TaskId) (after : ℕ) (as bs : List StreamAction)
    (hroomy : (streamSystem render).Guarded Roomy ((streamSystem render).run .empty (as ++ [.connect tid after])) bs) :
    ∃ s, ((streamSystem render).run .empty (as ++ [.connect tid after] ++ bs)).streams[
        ((streamSystem render).run .empty as).streams.length]? = some s ∧
      (s.isSubscribed = true → s.transients = bs.filterMap (·.plain tid)) := by
  have hconnect : ((streamSystem render).run .empty (as ++ [.connect tid after])).streams[
      ((streamSystem render).run .empty as).streams.length]? = some (.start tid after) := by
    rw [System.run_append]
    exact List.getElem?_concat_length
  obtain ⟨s, hs, -, htransients⟩ :=
    transients_run_of_sound (StreamWorld.sound_run render (as ++ [.connect tid after])) hroomy hconnect
  rw [System.run_append]
  exact ⟨s, hs, fun hsub => (htransients hsub).2⟩

theorem transients_run_sample :
    ∃ s, ((streamSystem fun _ => []).run .empty ([] ++ [.connect 1 0] ++ sampleStream)).streams[
        ((streamSystem fun _ => []).run .empty []).streams.length]? = some s ∧
      (s.isSubscribed = true → s.transients = sampleStream.filterMap (·.plain 1)) :=
  transients_run (fun _ => []) 1 0 [] sampleStream (by decide +kernel)

end Transients

end AgentCraft.Tasking
