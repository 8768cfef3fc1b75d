import AgentCraft.Tasking.TaskStreams

/-!
# Streams without gaps

A stream drops a numbered frame that comes after one with a greater number. If the writers of a task publish
in the order of its log, and no queue is full, a stream that has sent a number has sent all announced events
below it, and what is published is not lost (`gapless_run`): the replay has the log up to the reading, and the
queue, registered before, has what comes next.
-/

namespace AgentCraft.Tasking

open AgentCraft.Transition

/-- The events whose frames are published with their numbers. -/
def EventBody.isAnnounced : EventBody → Bool
  | .messageSaved .. => true
  | .statusChanged .. => true
  | .roundQueued .. => true
  | _ => false

/-- Frames with numbers are published in the order of the log, none is left out before them, and no queue is
full. -/
def InOrder (w : StreamWorld) : StreamAction → Prop
  | .publish tid frame =>
    Roomy w (.publish tid frame) ∧ ∀ seq ∈ eventSequence frame,
      w.published tid < seq ∧ (∃ e ∈ w.log tid, (e.sequence : ℤ) = seq) ∧
      ∀ e ∈ w.log tid, e.body.isAnnounced = true → w.published tid < e.sequence → seq ≤ e.sequence
  | _ => True

instance (w : StreamWorld) : (a : StreamAction) → Decidable (InOrder w a)
  | .publish tid frame => inferInstanceAs (Decidable (Roomy w (.publish tid frame) ∧ ∀ seq ∈ eventSequence frame,
      w.published tid < seq ∧ (∃ e ∈ w.log tid, (e.sequence : ℤ) = seq) ∧
      ∀ e ∈ w.log tid, e.body.isAnnounced = true → w.published tid < e.sequence → seq ≤ e.sequence))
  | .commit .. => inferInstanceAs (Decidable True)
  | .connect .. => inferInstanceAs (Decidable True)
  | .stream .. => inferInstanceAs (Decidable True)

/-- The numbers of the frames of a queue. -/
def queueNumbers (queue : List StreamFrame) : List ℤ := (numbered (withSequences queue)).map Prod.fst

/-- The numbers of what has been merged. -/
def StreamMerge.numbers (m : StreamMerge) : List ℤ := (numbered m.merged).map Prod.fst

section Gapless

variable {render : EventFrame → StreamFrame} {events fresh : List TaskEvent} {s s' : EventStream} {w w' : StreamWorld}
  {a : StreamAction} {p after x : ℤ} {m : StreamMerge} {queue : List StreamFrame} {frame : StreamFrame}

theorem EventBody.framed_of_isAnnounced {b : EventBody} (h : b.isAnnounced = true) : eventFrame b ≠ none := by
  cases b <;> first | exact Option.some_ne_none _ | cases h

/-- The log has come to this number. -/
def Reaches (events : List TaskEvent) (x : ℤ) : Prop := x = 0 ∨ ∃ e ∈ events, (e.sequence : ℤ) = x

/-- What the client is told about the log: its numbers, and no announced one below the last is missing. -/
structure Tells (events : List TaskEvent) (after : ℤ) (m : StreamMerge) : Prop where
  known : ∀ seq ∈ m.numbers, ∃ e ∈ events, (e.sequence : ℤ) = seq
  reached : m.lastSent = after ∨ ∃ e ∈ events, (e.sequence : ℤ) = m.lastSent
  above : after ≤ m.lastSent
  covered : ∀ e ∈ events, e.body.isAnnounced = true → after < e.sequence → e.sequence ≤ m.lastSent →
    (e.sequence : ℤ) ∈ m.numbers

/-- The queue has what has been published above a number. -/
structure Waits (events : List TaskEvent) (p after : ℤ) (x : ℤ) (queue : List StreamFrame) : Prop where
  increasing : (queueNumbers queue).Pairwise (· < ·)
  known : ∀ seq ∈ queueNumbers queue, seq ≤ p ∧ ∃ e ∈ events, (e.sequence : ℤ) = seq
  waiting : ∀ e ∈ events, e.body.isAnnounced = true → after < e.sequence → x < e.sequence → e.sequence ≤ p →
    (e.sequence : ℤ) ∈ queueNumbers queue

/-- New events are above what the log has come to. -/
theorem Reaches.lt (hx : Reaches events x) (hnumbered : (0 :: (events ++ fresh).map (·.sequence)).Pairwise (· < ·))
    {e : TaskEvent} (he : e ∈ fresh) : x < e.sequence := by
  obtain ⟨hpos, hpairs⟩ := List.pairwise_cons.mp hnumbered
  rcases hx with rfl | ⟨e', he', rfl⟩
  · exact Int.ofNat_lt.mpr (hpos _ (List.mem_map_of_mem (List.mem_append_right _ he)))
  · rw [List.map_append, List.pairwise_append] at hpairs
    exact Int.ofNat_lt.mpr (hpairs.2.2 _ (List.mem_map_of_mem he') _ (List.mem_map_of_mem he))

theorem Reaches.append (h : Reaches events x) : Reaches (events ++ fresh) x :=
  h.imp_right fun ⟨e, he, hseq⟩ => ⟨e, List.mem_append_left _ he, hseq⟩

theorem Tells.append (h : Tells events after m)
    (hnumbered : (0 :: (events ++ fresh).map (·.sequence)).Pairwise (· < ·)) : Tells (events ++ fresh) after m where
  known seq hseq := by
    obtain ⟨e, he, heq⟩ := h.known seq hseq
    exact ⟨e, List.mem_append_left _ he, heq⟩
  reached := h.reached.imp_right fun ⟨e, he, heq⟩ => ⟨e, List.mem_append_left _ he, heq⟩
  above := h.above
  covered e he hannounced hafter hle := by
    rcases List.mem_append.mp he with he | he
    · exact h.covered e he hannounced hafter hle
    · rcases h.reached with hlast | ⟨e', he', hlast⟩
      · omega
      · have hlt : (e'.sequence : ℤ) < e.sequence := Reaches.lt (.inr ⟨e', he', rfl⟩) hnumbered he
        omega

theorem Waits.append (h : Waits events p after x queue) (hp : Reaches events p)
    (hnumbered : (0 :: (events ++ fresh).map (·.sequence)).Pairwise (· < ·)) :
    Waits (events ++ fresh) p after x queue where
  increasing := h.increasing
  known seq hseq := by
    obtain ⟨hle, e, he, heq⟩ := h.known seq hseq
    exact ⟨hle, e, List.mem_append_left _ he, heq⟩
  waiting e he hannounced hafter hlt hle := by
    rcases List.mem_append.mp he with he | he
    · exact h.waiting e he hannounced hafter hlt hle
    · have habove := hp.lt hnumbered he
      omega

theorem queueNumbers_cons (frame : StreamFrame) (queue : List StreamFrame) :
    queueNumbers (frame :: queue) = (eventSequence frame).toList ++ queueNumbers queue := by
  cases h : eventSequence frame <;> simp [queueNumbers, withSequences, numbered, h]

theorem queueNumbers_concat (queue : List StreamFrame) (frame : StreamFrame) :
    queueNumbers (queue ++ [frame]) = queueNumbers queue ++ (eventSequence frame).toList := by
  cases h : eventSequence frame <;> simp [queueNumbers, withSequences, numbered, h]

/-- A frame that is published in order, and comes into the queue if it is above the cursor. -/
theorem Waits.publish (h : Waits events p after x queue) {seq : ℤ} (hseq : eventSequence frame = some seq)
    (hp : p < seq) (hknown : ∃ e ∈ events, (e.sequence : ℤ) = seq)
    (hnext : ∀ e ∈ events, e.body.isAnnounced = true → p < e.sequence → seq ≤ e.sequence) :
    Waits events seq after x (if after < seq then queue ++ [frame] else queue) := by
  by_cases hafter : after < seq
  · rw [if_pos hafter]
    refine ⟨?_, ?_, ?_⟩
    · rw [queueNumbers_concat, hseq, Option.toList_some, List.pairwise_append]
      refine ⟨h.increasing, List.pairwise_singleton _ _, fun y hy z hz => ?_⟩
      rw [List.mem_singleton.mp hz]
      exact (h.known y hy).1.trans_lt hp
    · rw [queueNumbers_concat, hseq, Option.toList_some]
      intro y hy
      rcases List.mem_append.mp hy with hy | hy
      · obtain ⟨hle, hy⟩ := h.known y hy
        exact ⟨hle.trans hp.le, hy⟩
      · rw [List.mem_singleton.mp hy]
        exact ⟨le_rfl, hknown⟩
    · intro e he hannounced he_after hlt hle
      rw [queueNumbers_concat, hseq, Option.toList_some]
      by_cases hold : (e.sequence : ℤ) ≤ p
      · exact List.mem_append_left _ (h.waiting e he hannounced he_after hlt hold)
      · have heq : (e.sequence : ℤ) = seq := le_antisymm hle (hnext e he hannounced (not_le.mp hold))
        exact List.mem_append_right _ (List.mem_singleton.mpr heq)
  · rw [if_neg hafter]
    refine ⟨h.increasing, fun y hy => ⟨(h.known y hy).1.trans hp.le, (h.known y hy).2⟩, ?_⟩
    intro e he hannounced he_after hlt hle
    exact absurd (he_after.trans_le hle) hafter

/-- A frame without number does not matter. -/
theorem Waits.publish_plain (h : Waits events p after x queue) (hseq : eventSequence frame = none) :
    Waits events p after x (queue ++ [frame]) := by
  have hnumbers : queueNumbers (queue ++ [frame]) = queueNumbers queue := by
    rw [queueNumbers_concat, hseq, Option.toList_none, List.append_nil]
  exact ⟨hnumbers ▸ h.increasing, hnumbers ▸ h.known, hnumbers ▸ h.waiting⟩

/-- The first frame of the queue is sent, or dropped as one that the client has. -/
theorem Tells.takeBuffered (h : Tells events after m) (hwaits : Waits events p after m.lastSent (frame :: queue)) :
    Tells events after (m.takeBuffered frame) ∧ Waits events p after (m.takeBuffered frame).lastSent queue := by
  obtain ⟨hincreasing, hknown, hwaiting⟩ := hwaits
  rw [queueNumbers_cons] at hincreasing hknown hwaiting
  cases hseq : eventSequence frame with
  | none =>
    rw [hseq, Option.toList_none, List.nil_append] at hincreasing hknown hwaiting
    have hstep : m.takeBuffered frame = ⟨m.merged ++ [(none, frame)], m.lastSent⟩ := by
      rw [StreamMerge.takeBuffered, hseq]
    have hnumbers : (m.takeBuffered frame).numbers = m.numbers := by
      rw [hstep, StreamMerge.numbers, numbered_append, numbered_none, List.append_nil]
      rfl
    have hlast : (m.takeBuffered frame).lastSent = m.lastSent := by rw [hstep]
    refine ⟨⟨hnumbers ▸ h.known, hlast ▸ h.reached, hlast ▸ h.above, ?_⟩, hincreasing, hknown, hlast ▸ hwaiting⟩
    rw [hnumbers, hlast]
    exact h.covered
  | some seq =>
    rw [hseq, Option.toList_some, List.singleton_append] at hincreasing hknown hwaiting
    obtain ⟨hfirst, hincreasing⟩ := List.pairwise_cons.mp hincreasing
    have hknown' (y : ℤ) (hy : y ∈ queueNumbers queue) := hknown y (List.mem_cons_of_mem _ hy)
    by_cases hle : seq ≤ m.lastSent
    · have hstep : m.takeBuffered frame = m := by
        rw [StreamMerge.takeBuffered, hseq]
        exact if_pos hle
      rw [hstep]
      refine ⟨h, hincreasing, hknown', fun e he hannounced hafter hlt hp => ?_⟩
      rcases List.mem_cons.mp (hwaiting e he hannounced hafter hlt hp) with heq | hmem
      · omega
      · exact hmem
    · have hstep : m.takeBuffered frame = ⟨m.merged ++ [(some seq, frame)], seq⟩ := by
        rw [StreamMerge.takeBuffered, hseq]
        exact if_neg hle
      have hnumbers : (m.takeBuffered frame).numbers = m.numbers ++ [seq] := by
        rw [hstep, StreamMerge.numbers, numbered_append, numbered_some, List.map_append]
        rfl
      have hlast : (m.takeBuffered frame).lastSent = seq := by rw [hstep]
      refine ⟨⟨?_, ?_, ?_, ?_⟩, hincreasing, hknown', ?_⟩
      · rw [hnumbers]
        intro y hy
        rcases List.mem_append.mp hy with hy | hy
        · exact h.known y hy
        · rw [List.mem_singleton.mp hy]
          exact (hknown seq List.mem_cons_self).2
      · rw [hlast]
        exact .inr (hknown seq List.mem_cons_self).2
      · rw [hlast]
        exact h.above.trans (not_le.mp hle).le
      · -- between what had been sent and the frame the queue has no other number
        rw [hlast, hnumbers]
        intro e he hannounced hafter hle'
        by_cases hold : (e.sequence : ℤ) ≤ m.lastSent
        · exact List.mem_append_left _ (h.covered e he hannounced hafter hold)
        · have hp := hle'.trans (hknown seq List.mem_cons_self).1
          rcases List.mem_cons.mp (hwaiting e he hannounced hafter (not_le.mp hold) hp) with heq | hmem
          · exact List.mem_append_right _ (List.mem_singleton.mpr heq)
          · have hlt := hfirst _ hmem
            omega
      · rw [hlast]
        intro e he hannounced hafter hlt hp
        have hold : m.lastSent < e.sequence := (not_le.mp hle).trans hlt
        rcases List.mem_cons.mp (hwaiting e he hannounced hafter hold hp) with heq | hmem
        · omega
        · exact hmem

theorem Tells.foldl (h : Tells events after m) (hwaits : Waits events p after m.lastSent queue) :
    Tells events after (queue.foldl StreamMerge.takeBuffered m) ∧
      Waits events p after (queue.foldl StreamMerge.takeBuffered m).lastSent [] := by
  induction queue generalizing m with
  | nil => exact ⟨h, hwaits⟩
  | cons frame queue ih =>
    obtain ⟨htells, hrest⟩ := h.takeBuffered hwaits
    exact ih htells hrest

/-- A replay has the log up to a number. -/
structure Replays (events : List TaskEvent) (after q : ℤ) (replay : List (ℤ × StreamFrame)) : Prop where
  reaches : Reaches events q
  known : ∀ y ∈ replay.map Prod.fst, y ≤ q ∧ ∃ e ∈ events, (e.sequence : ℤ) = y
  covered : ∀ e ∈ events, e.body.isAnnounced = true → after < e.sequence → e.sequence ≤ q →
    (e.sequence : ℤ) ∈ replay.map Prod.fst

theorem Replays.append {q : ℤ} {replay : List (ℤ × StreamFrame)} (h : Replays events after q replay)
    (hnumbered : (0 :: (events ++ fresh).map (·.sequence)).Pairwise (· < ·)) :
    Replays (events ++ fresh) after q replay where
  reaches := h.reaches.append
  known y hy := by
    obtain ⟨hle, e, he, heq⟩ := h.known y hy
    exact ⟨hle, e, List.mem_append_left _ he, heq⟩
  covered e he hannounced hafter hle := by
    rcases List.mem_append.mp he with he | he
    · exact h.covered e he hannounced hafter hle
    · have hlt := h.reaches.lt hnumbered he
      omega

theorem replayEnd_cases (cursor : ℤ) (replay : List (ℤ × StreamFrame)) :
    (replayEnd cursor replay = cursor) ∨ replayEnd cursor replay ∈ replay.map Prod.fst := by
  cases hlast : replay.getLast? with
  | none => exact .inl (by simp [replayEnd, hlast])
  | some p =>
    refine .inr (List.mem_map.mpr ⟨p, List.mem_of_getLast? hlast, ?_⟩)
    simp [replayEnd, hlast]

/-- After the replay the queue has what comes next. -/
theorem Replays.tells {q : ℤ} {replay : List (ℤ × StreamFrame)} (h : Replays events after q replay)
    (hincreasing : (replay.map Prod.fst).Pairwise (· < ·)) (habove : ∀ y ∈ replay, after < y.1)
    (hwaits : Waits events p after q queue) :
    Tells events after ⟨replay.map fun y => (some y.1, y.2), replayEnd after replay⟩ ∧
      Waits events p after (replayEnd after replay) queue := by
  have hnumbers : StreamMerge.numbers ⟨replay.map fun y => (some y.1, y.2), replayEnd after replay⟩ =
      replay.map Prod.fst := congrArg (List.map Prod.fst) (numbered_replayed replay)
  have hle : after ≤ replayEnd after replay := by
    rcases replayEnd_cases after replay with heq | hmem
    · exact heq.ge
    · obtain ⟨y, hy, heq⟩ := List.mem_map.mp hmem
      exact heq ▸ (habove y hy).le
  refine ⟨⟨?_, ?_, hle, ?_⟩, hwaits.increasing, hwaits.known, ?_⟩
  · rw [hnumbers]
    exact fun y hy => (h.known y hy).2
  · exact (replayEnd_cases after replay).imp_right fun hmem => (h.known _ hmem).2
  · rw [hnumbers]
    intro e he hannounced hafter hend
    rcases replayEnd_cases after replay with heq | hmem
    · exact absurd (hafter.trans_le hend) (not_lt.mpr heq.le)
    · exact h.covered e he hannounced hafter (hend.trans (h.known _ hmem).1)
  · intro e he hannounced hafter hlt hp
    refine hwaits.waiting e he hannounced hafter (not_le.mp fun hq => ?_) hp
    obtain ⟨y, hy, heq⟩ := List.mem_map.mp (h.covered e he hannounced hafter hq)
    have hend : y.1 ≤ replayEnd after replay := le_replayEnd hincreasing hy
    omega

/-- The log comes to its last event. -/
theorem exists_end (hnumbered : (0 :: events.map (·.sequence)).Pairwise (· < ·)) :
    ∃ q, Reaches events q ∧ 0 ≤ q ∧ ∀ e ∈ events, (e.sequence : ℤ) ≤ q := by
  rcases List.eq_nil_or_concat events with rfl | ⟨init, last, rfl⟩
  · exact ⟨0, .inl rfl, le_rfl, fun e he => by cases he⟩
  · rw [List.concat_eq_append] at hnumbered ⊢
    refine ⟨last.sequence, .inr ⟨last, by simp, rfl⟩, Int.natCast_nonneg _, fun e he => ?_⟩
    rcases List.mem_append.mp he with he | he
    · have hlt : (e.sequence : ℤ) < last.sequence :=
        Reaches.lt (.inr ⟨e, he, rfl⟩) hnumbered (List.mem_singleton_self last)
      exact hlt.le
    · rw [List.mem_singleton.mp he]

/-- The replay of the whole log. -/
theorem replays_replay {after : ℕ} {q : ℤ} (hreaches : Reaches events q) (hle : ∀ e ∈ events, (e.sequence : ℤ) ≤ q) :
    Replays events after q (EventStream.replay render events after) where
  reaches := hreaches
  known y hy := by
    obtain ⟨z, hz, rfl⟩ := List.mem_map.mp hy
    obtain ⟨e, he, heq, -⟩ := mem_replay hz
    exact ⟨heq ▸ hle e he, e, he, heq⟩
  covered e he hannounced hafter _ :=
    mem_map_replay he (EventBody.framed_of_isAnnounced hannounced) (Int.ofNat_lt.mp hafter)

/-- A stream to which nothing is lost, over a log that has been published up to a number. -/
structure EventStream.Gapless (s : EventStream) (events : List TaskEvent) (p : ℤ) : Prop where
  tells : Tells events s.after s.told
  registered : s.phase = .registered → ∃ q, Reaches events q ∧ Waits events p s.after q s.queue
  replayed : ∀ replay, s.phase = .replayed replay →
    ∃ q, Waits events p s.after q s.queue ∧ Replays events s.after q replay
  live : s.phase = .live → Waits events p s.after s.lastSent s.queue

theorem EventStream.gapless_start (tid : TaskId) (after : ℕ) (hp : Reaches events p) :
    (start tid after).Gapless events p where
  tells := ⟨fun _ hy => absurd hy List.not_mem_nil, .inl rfl, le_rfl, fun e _ _ hafter hle => by
    simp only [start, told] at hafter hle
    omega⟩
  registered _ := ⟨p, hp, List.Pairwise.nil, fun _ hy => absurd hy List.not_mem_nil, fun e _ _ _ hlt hle => by omega⟩
  replayed _ h := by cases h
  live h := by cases h

theorem EventStream.Gapless.append (h : s.Gapless events p) (hp : Reaches events p)
    (hnumbered : (0 :: (events ++ fresh).map (·.sequence)).Pairwise (· < ·)) : s.Gapless (events ++ fresh) p where
  tells := h.tells.append hnumbered
  registered hphase := by
    obtain ⟨q, hq, hwaits⟩ := h.registered hphase
    exact ⟨q, hq.append, hwaits.append hp hnumbered⟩
  replayed replay hphase := by
    obtain ⟨q, hwaits, hreplays⟩ := h.replayed replay hphase
    exact ⟨q, hwaits.append hp hnumbered, hreplays.append hnumbered⟩
  live hphase := (h.live hphase).append hp hnumbered

/-- Only the queue changes. -/
theorem EventStream.Gapless.with_queue {p' : ℤ} (h : s.Gapless events p)
    (hqueue : ∀ x, Waits events p s.after x s.queue → Waits events p' s.after x queue) :
    EventStream.Gapless { s with queue := queue } events p' where
  tells := h.tells
  registered hphase := by
    obtain ⟨q, hq, hwaits⟩ := h.registered hphase
    exact ⟨q, hq, hqueue q hwaits⟩
  replayed replay hphase := by
    obtain ⟨q, hwaits, hreplays⟩ := h.replayed replay hphase
    exact ⟨q, hqueue q hwaits, hreplays⟩
  live hphase := hqueue _ (h.live hphase)

theorem EventStream.Gapless.moves (h : s.Gapless events p) (hsound : s.Sound)
    (hnumbered : (0 :: events.map (·.sequence)).Pairwise (· < ·)) (hmoves : s.Moves render events s') :
    s'.Gapless events p := by
  cases hmoves with
  | read hphase =>
    obtain ⟨q, hq, hwaits⟩ := h.registered hphase
    obtain ⟨q', hreaches, hpos, hle⟩ := exists_end hnumbered
    have hqq' : q ≤ q' := by
      rcases hq with rfl | ⟨e, he, rfl⟩
      · exact hpos
      · exact hle e he
    refine ⟨h.tells, fun hnone => (by cases hnone), fun replay hreplay => ?_, fun hnone => (by cases hnone)⟩
    cases hreplay
    exact ⟨q', ⟨hwaits.increasing, hwaits.known, fun e he hannounced hafter hlt =>
      hwaits.waiting e he hannounced hafter (hqq'.trans_lt hlt)⟩, replays_replay hreaches hle⟩
  | @drain replay hphase =>
    obtain ⟨⟨hsent, -, hlast⟩, hincreasing, habove⟩ := hsound.replayed replay hphase
    obtain ⟨q, hwaits, hreplays⟩ := h.replayed replay hphase
    obtain ⟨htells, hwaits⟩ := hreplays.tells hincreasing habove hwaits
    have hmerge : mergeStreamFrames replay s.queue s.lastSent =
        s.queue.foldl StreamMerge.takeBuffered ⟨replay.map fun y => (some y.1, y.2), replayEnd s.after replay⟩ := by
      rw [mergeStreamFrames, foldl_takeReplayed, hlast, List.nil_append]
    obtain ⟨htold, hwaits⟩ := htells.foldl hwaits
    rw [hmerge]
    refine ⟨?_, fun hnone => (by cases hnone), fun _ hnone => (by cases hnone), fun _ => hwaits⟩
    simpa only [EventStream.told, hsent, List.nil_append] using htold
  | @send line rest hpending =>
    have htold : EventStream.told { s with pending := rest, sent := s.sent ++ [line] } = s.told := by
      simp [EventStream.told, hpending]
    exact ⟨htold ▸ h.tells, h.registered, h.replayed, h.live⟩
  | @take frame rest hphase hpending hqueue =>
    have htold : EventStream.told { s with
        queue := rest
        lastSent := (StreamMerge.takeBuffered ⟨s.sent, s.lastSent⟩ frame).lastSent
        sent := (StreamMerge.takeBuffered ⟨s.sent, s.lastSent⟩ frame).merged } = s.told.takeBuffered frame := by
      simp [EventStream.told, hpending]
    have hhere : s.told = ⟨s.sent, s.lastSent⟩ := by simp [EventStream.told, hpending]
    obtain ⟨htells, hwaits⟩ := h.tells.takeBuffered (hqueue ▸ h.live hphase)
    rw [hhere] at hwaits
    refine ⟨htold ▸ htells, fun hnone => ?_, fun _ hnone => ?_, fun _ => hwaits⟩
    · cases hphase.symm.trans hnone
    · cases hphase.symm.trans hnone
  | leave =>
    exact ⟨h.tells, fun hnone => (by cases hnone), fun _ hnone => (by cases hnone), fun hnone => (by cases hnone)⟩

/-- A publication in order. -/
theorem EventStream.Gapless.offer {tid : TaskId} (h : s.Gapless (w.log s.task) (w.published s.task))
    (hs : s ∈ w.streams) (horder : InOrder w (.publish tid frame)) :
    (s.offer tid frame).Gapless (w.log s.task) ((w.publish tid frame).published s.task) := by
  obtain ⟨hroomy, hnext⟩ := horder
  by_cases htask : s.task = tid
  · subst htask
    by_cases hsub : s.isSubscribed = true
    · have hroom : s.queue.length < queueMax := hroomy s hs rfl hsub
      cases hseq : eventSequence frame with
      | none =>
        have hadmits : s.admits frame = true := by rw [EventStream.admits, hseq]
        have hpublished : (w.publish s.task frame).published s.task = w.published s.task := by
          simp [StreamWorld.publish, hseq]
        rw [EventStream.offer, if_pos ⟨rfl, hsub, hadmits, hroom⟩, hpublished]
        exact h.with_queue fun x hwaits => hwaits.publish_plain hseq
      | some seq =>
        obtain ⟨hp, hknown, hleast⟩ := hnext seq hseq
        have hpublished : (w.publish s.task frame).published s.task = seq := by
          simp [StreamWorld.publish, hseq]
        have hoffer : s.offer s.task frame =
            { s with queue := if (s.after : ℤ) < seq then s.queue ++ [frame] else s.queue } := by
          by_cases hafter : (s.after : ℤ) < seq
          · have hadmits : s.admits frame = true := by simp [EventStream.admits, hseq, hafter]
            rw [EventStream.offer, if_pos ⟨rfl, hsub, hadmits, hroom⟩, if_pos hafter]
          · have hadmits : s.admits frame ≠ true := by simpa [EventStream.admits, hseq] using hafter
            rw [EventStream.offer, if_neg fun hall => hadmits hall.2.2.1, if_neg hafter]
        rw [hoffer, hpublished]
        exact h.with_queue fun x hwaits => hwaits.publish hseq hp hknown hleast
    · have hended : s.phase = .ended := by
        cases hphase : s.phase with
        | ended => rfl
        | _ => exact absurd (by rw [EventStream.isSubscribed, hphase]) hsub
      rw [EventStream.offer, if_neg fun hall => hsub hall.2.1]
      refine ⟨h.tells, fun hphase => ?_, fun _ hphase => ?_, fun hphase => ?_⟩
      all_goals cases hended.symm.trans hphase
  · have hpublished : (w.publish tid frame).published s.task = w.published s.task := by
      cases hseq : eventSequence frame <;> simp [StreamWorld.publish, hseq, htask]
    rw [EventStream.offer, if_neg fun hall => htask hall.1, hpublished]
    exact h

/-- No stream loses anything. -/
structure StreamWorld.Gapless (w : StreamWorld) : Prop where
  sound : w.Sound
  published : ∀ tid, Reaches (w.log tid) (w.published tid)
  streams : ∀ s ∈ w.streams, s.Gapless (w.log s.task) (w.published s.task)

theorem StreamWorld.published_step (h : ∀ tid, Reaches (w.log tid) (w.published tid)) (horder : InOrder w a)
    (hs : (streamSystem render).step w a = .ok w') (tid : TaskId) : Reaches (w'.log tid) (w'.published tid) := by
  cases a with
  | commit tid' events =>
    simp only [streamSystem] at hs
    split at hs
    · cases hs
      by_cases htid : tid = tid'
      · subst htid
        simpa using (h tid).append
      · simpa [htid] using h tid
    · cases hs
  | publish tid' frame =>
    cases hs
    cases hseq : eventSequence frame with
    | none => simpa [StreamWorld.publish, hseq] using h tid
    | some seq =>
      by_cases htid : tid = tid'
      · subst htid
        have hreaches : Reaches (w.log tid) seq := .inr (horder.2 seq hseq).2.1
        simpa [StreamWorld.publish, hseq] using hreaches
      · simpa [StreamWorld.publish, hseq, htid] using h tid
  | connect tid' after =>
    cases hs
    exact h tid
  | stream i move =>
    simp only [streamSystem] at hs
    split at hs
    · cases hs
      exact h tid
    · cases hs

theorem StreamWorld.Gapless.step (h : w.Gapless) (horder : InOrder w a)
    (hs : (streamSystem render).step w a = .ok w') : w'.Gapless where
  sound := h.sound.step hs
  published := published_step h.published horder hs
  streams := by
    refine forall_streams_step (P := fun w s => s.Gapless (w.log s.task) (w.published s.task)) hs h.streams
      (fun tid events s hnumbered hgapless => ?_) (fun tid frame s ha hmem hgapless => ?_) (fun _ _ _ hgapless => hgapless)
      (fun tid after => EventStream.gapless_start tid after (h.published tid))
      (fun s s' _ hmem hgapless hmoves => ?_) (fun _ _ _ hgapless => hgapless)
    · by_cases htask : s.task = tid
      · subst htask
        simpa using hgapless.append (h.published s.task) hnumbered
      · simpa [htask] using hgapless
    · subst ha
      rw [EventStream.offer_task]
      exact hgapless.offer hmem horder
    · rw [hmoves.task]
      exact hgapless.moves (h.sound.streams s hmem) (h.sound.numbered s.task) hmoves

/-- What a client learns from a stream about the log of the task. -/
structure EventStream.Complete (s : EventStream) (events : List TaskEvent) (p : ℤ) : Prop where
  /-- A number that has been sent is one of the log. -/
  logged : ∀ y ∈ (numbered s.sent).map Prod.fst, ∃ e ∈ events, (e.sequence : ℤ) = y
  /-- Below it no announced event is missing. -/
  gapless : ∀ y ∈ (numbered s.sent).map Prod.fst, ∀ e ∈ events, e.body.isAnnounced = true → s.after < e.sequence →
    e.sequence ≤ y → (e.sequence : ℤ) ∈ (numbered s.sent).map Prod.fst
  /-- What has been published is sent, about to be sent, or in the queue. -/
  kept : s.phase = .live → ∀ e ∈ events, e.body.isAnnounced = true → s.after < e.sequence → e.sequence ≤ p →
    (e.sequence : ℤ) ∈ (numbered s.sent).map Prod.fst ++ (numbered s.pending).map Prod.fst ++ queueNumbers s.queue

theorem EventStream.Gapless.complete (h : s.Gapless events p) (hsound : s.Sound) : s.Complete events p := by
  have hnumbers : s.told.numbers = (numbered s.sent).map Prod.fst ++ (numbered s.pending).map Prod.fst := by
    rw [StreamMerge.numbers, EventStream.told, numbered_append, List.map_append]
  have hordered := hsound.ordered.increasing
  rw [EventStream.told, numbered_append, List.map_append] at hordered
  refine ⟨fun y hy => ?_, fun y hy e he hannounced hafter hle => ?_, fun hphase e he hannounced hafter hle => ?_⟩
  · exact h.tells.known y (hnumbers ▸ List.mem_append_left _ hy)
  · have hlast : y ≤ s.lastSent := by
      obtain ⟨z, hz, rfl⟩ := List.mem_map.mp hy
      refine hsound.ordered.reached z ?_
      rw [EventStream.told, numbered_append]
      exact List.mem_append_left _ hz
    have hmem := h.tells.covered e he hannounced (Int.ofNat_lt.mpr hafter) (hle.trans hlast)
    rw [hnumbers] at hmem
    rcases List.mem_append.mp hmem with hmem | hmem
    · exact hmem
    · have hlt := (List.pairwise_append.mp hordered).2.2 y hy _ hmem
      omega
  · by_cases hold : (e.sequence : ℤ) ≤ s.lastSent
    · refine List.mem_append_left _ (hnumbers ▸ ?_)
      exact h.tells.covered e he hannounced (Int.ofNat_lt.mpr hafter) hold
    · refine List.mem_append_right _ ?_
      exact (h.live hphase).waiting e he hannounced (Int.ofNat_lt.mpr hafter) (not_le.mp hold) hle

end Gapless

end AgentCraft.Tasking
