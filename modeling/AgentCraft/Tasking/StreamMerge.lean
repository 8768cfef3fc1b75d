import AgentCraft.Python.JsonLoads

/-!
# The merge of replayed and live frames

`_merge_stream_frames` (`api/v2/task_sse.py`): the frames that are replayed from the database come first, then
those that arrived meanwhile; of these a numbered one is dropped unless its number is above all that have been
sent. Frames without number pass.
-/

namespace AgentCraft.Tasking

open AgentCraft.Python

/-- A frame: a dictionary. -/
abbrev StreamFrame := List (List ℕ × Json)

/-- `frame.get("event_sequence")` if it is an `int`; the booleans are integers. -/
def eventSequence (frame : StreamFrame) : Option ℤ :=
  match getItem frame "event_sequence" with
  | .int i => some i
  | .bool b => some (if b then 1 else 0)
  | _ => none

/-- The locals of the merge. -/
structure StreamMerge where
  merged : List (Option ℤ × StreamFrame)
  lastSent : ℤ

namespace StreamMerge

/-- The body of the loop over `replay`. -/
def takeReplayed (s : StreamMerge) (p : ℤ × StreamFrame) : StreamMerge where
  merged := s.merged ++ [(some p.1, p.2)]
  lastSent := p.1

/-- The body of the loop over `buffered`. -/
def takeBuffered (s : StreamMerge) (frame : StreamFrame) : StreamMerge :=
  match eventSequence frame with
  | some seq => if seq ≤ s.lastSent then s else ⟨s.merged ++ [(some seq, frame)], seq⟩
  | none => ⟨s.merged ++ [(none, frame)], s.lastSent⟩

end StreamMerge

/-- `_merge_stream_frames`. -/
def mergeStreamFrames (replay : List (ℤ × StreamFrame)) (buffered : List StreamFrame) (lastSent : ℤ) :
    StreamMerge :=
  buffered.foldl StreamMerge.takeBuffered (replay.foldl StreamMerge.takeReplayed ⟨[], lastSent⟩)

/-- The numbered frames. -/
def numbered (l : List (Option ℤ × StreamFrame)) : List (ℤ × StreamFrame) :=
  l.filterMap fun p => p.1.map (·, p.2)

/-- The frames without number. -/
def transient (l : List (Option ℤ × StreamFrame)) : List StreamFrame :=
  l.filterMap fun p => if p.1.isNone then some p.2 else none

/-- The frames of a buffer with their numbers. -/
def withSequences (buffered : List StreamFrame) : List (Option ℤ × StreamFrame) :=
  buffered.map fun frame => (eventSequence frame, frame)

/-- The sequence the stream has reached after the replay. -/
def replayEnd (cursor : ℤ) (replay : List (ℤ × StreamFrame)) : ℤ := (replay.getLast?.map Prod.fst).getD cursor

@[simp] theorem numbered_append (l m : List (Option ℤ × StreamFrame)) :
    numbered (l ++ m) = numbered l ++ numbered m := List.filterMap_append

@[simp] theorem transient_append (l m : List (Option ℤ × StreamFrame)) :
    transient (l ++ m) = transient l ++ transient m := List.filterMap_append

@[simp] theorem numbered_some (seq : ℤ) (frame : StreamFrame) : numbered [(some seq, frame)] = [(seq, frame)] := rfl

@[simp] theorem numbered_none (frame : StreamFrame) : numbered [(none, frame)] = [] := rfl

@[simp] theorem transient_some (seq : ℤ) (frame : StreamFrame) : transient [(some seq, frame)] = [] := rfl

@[simp] theorem transient_none (frame : StreamFrame) : transient [(none, frame)] = [frame] := rfl

/-! ## The replay -/

theorem foldl_takeReplayed (replay : List (ℤ × StreamFrame)) (s : StreamMerge) :
    replay.foldl StreamMerge.takeReplayed s =
      ⟨s.merged ++ replay.map fun p => (some p.1, p.2), replayEnd s.lastSent replay⟩ := by
  induction replay generalizing s with
  | nil => simp [replayEnd]
  | cons p replay ih =>
    rw [List.foldl_cons, ih, StreamMerge.takeReplayed]
    have hend : replayEnd p.1 replay = replayEnd s.lastSent (p :: replay) := by
      unfold replayEnd
      rw [List.getLast?_cons, Option.map_some, Option.getD_some]
      cases replay.getLast? <;> rfl
    simp [hend]

@[simp] theorem numbered_replayed (replay : List (ℤ × StreamFrame)) :
    numbered (replay.map fun p => (some p.1, p.2)) = replay := by
  induction replay with
  | nil => rfl
  | cons p replay ih => exact congrArg (p :: ·) ih

@[simp] theorem transient_replayed (replay : List (ℤ × StreamFrame)) :
    transient (replay.map fun p => (some p.1, p.2)) = [] := by
  induction replay with
  | nil => rfl
  | cons p replay ih => exact ih

/-! ## The buffer -/

/-- What has been sent is in order, and below what has been reached. -/
structure StreamMerge.Ordered (s : StreamMerge) : Prop where
  increasing : ((numbered s.merged).map Prod.fst).Pairwise (· < ·)
  reached : ∀ p ∈ numbered s.merged, p.1 ≤ s.lastSent

/-- A frame above what has been reached keeps the order. -/
theorem StreamMerge.Ordered.append {s : StreamMerge} (h : s.Ordered) {seq : ℤ} (hseq : s.lastSent < seq)
    (frame : StreamFrame) : StreamMerge.Ordered ⟨s.merged ++ [(some seq, frame)], seq⟩ := by
  constructor
  · rw [numbered_append, numbered_some, List.map_append, List.pairwise_append]
    refine ⟨h.increasing, List.pairwise_singleton _ _, fun a ha b hb => ?_⟩
    obtain ⟨p, hp, rfl⟩ := List.mem_map.mp ha
    rw [List.map_singleton, List.mem_singleton] at hb
    subst hb
    exact (h.reached p hp).trans_lt hseq
  · intro p hp
    rw [numbered_append, numbered_some, List.mem_append, List.mem_singleton] at hp
    rcases hp with hp | rfl
    · exact ((h.reached p hp).trans_lt hseq).le
    · exact le_rfl

theorem StreamMerge.Ordered.takeBuffered {s : StreamMerge} (h : s.Ordered) (frame : StreamFrame) :
    (s.takeBuffered frame).Ordered := by
  unfold StreamMerge.takeBuffered
  cases eventSequence frame with
  | none =>
    refine ⟨?_, ?_⟩
    · rw [numbered_append, numbered_none, List.append_nil]
      exact h.increasing
    · intro p hp
      rw [numbered_append, numbered_none, List.append_nil] at hp
      exact h.reached p hp
  | some seq =>
    dsimp only
    split
    · exact h
    · next hlt => exact h.append (not_le.mp hlt) frame

theorem StreamMerge.Ordered.foldl {s : StreamMerge} (h : s.Ordered) (buffered : List StreamFrame) :
    (buffered.foldl StreamMerge.takeBuffered s).Ordered := by
  induction buffered generalizing s with
  | nil => exact h
  | cons frame buffered ih => exact ih (h.takeBuffered frame)

/-- What has been sent is above the cursor. -/
structure StreamMerge.Above (cursor : ℤ) (s : StreamMerge) : Prop where
  reached : cursor ≤ s.lastSent
  sent : ∀ p ∈ numbered s.merged, cursor < p.1

theorem StreamMerge.Above.takeBuffered {cursor : ℤ} {s : StreamMerge} (h : s.Above cursor) (frame : StreamFrame) :
    (s.takeBuffered frame).Above cursor := by
  unfold StreamMerge.takeBuffered
  cases eventSequence frame with
  | none =>
    refine ⟨h.reached, fun p hp => ?_⟩
    rw [numbered_append, numbered_none, List.append_nil] at hp
    exact h.sent p hp
  | some seq =>
    dsimp only
    split
    · exact h
    · next hlt =>
      have hseq : cursor < seq := h.reached.trans_lt (not_le.mp hlt)
      refine ⟨hseq.le, fun p hp => ?_⟩
      rw [numbered_append, numbered_some, List.mem_append, List.mem_singleton] at hp
      rcases hp with hp | rfl
      · exact h.sent p hp
      · exact hseq

theorem StreamMerge.Above.foldl {cursor : ℤ} {s : StreamMerge} (h : s.Above cursor) (buffered : List StreamFrame) :
    (buffered.foldl StreamMerge.takeBuffered s).Above cursor := by
  induction buffered generalizing s with
  | nil => exact h
  | cons frame buffered ih => exact ih (h.takeBuffered frame)

/-- Nothing that has been merged is taken back. -/
theorem prefix_foldl_takeBuffered (s : StreamMerge) (buffered : List StreamFrame) :
    s.merged <+: (buffered.foldl StreamMerge.takeBuffered s).merged := by
  induction buffered generalizing s with
  | nil => exact List.prefix_rfl
  | cons frame buffered ih =>
    refine List.IsPrefix.trans ?_ (ih (s.takeBuffered frame))
    unfold StreamMerge.takeBuffered
    cases eventSequence frame with
    | none => exact List.prefix_append _ _
    | some seq =>
      dsimp only
      split
      · exact List.prefix_rfl
      · exact List.prefix_append _ _

theorem transient_foldl_takeBuffered (s : StreamMerge) (buffered : List StreamFrame) :
    transient (buffered.foldl StreamMerge.takeBuffered s).merged =
      transient s.merged ++ transient (withSequences buffered) := by
  induction buffered generalizing s with
  | nil => rw [withSequences, List.map_nil]; exact (List.append_nil _).symm
  | cons frame buffered ih =>
    have hcons : withSequences (frame :: buffered) = [(eventSequence frame, frame)] ++ withSequences buffered := rfl
    rw [List.foldl_cons, ih, hcons, transient_append, ← List.append_assoc]
    congr 1
    unfold StreamMerge.takeBuffered
    cases eventSequence frame with
    | none => rw [transient_append]
    | some seq =>
      dsimp only
      split
      · rw [transient_some, List.append_nil]
      · rw [transient_append]

/-- The numbers of a buffer in order, those above what has been reached, are all sent. -/
theorem mem_foldl_takeBuffered {s : StreamMerge} {buffered : List StreamFrame}
    (hascending : ((numbered (withSequences buffered)).map Prod.fst).Pairwise (· ≤ ·)) {seq : ℤ}
    (hmem : seq ∈ (numbered (withSequences buffered)).map Prod.fst) (hseq : s.lastSent < seq) :
    seq ∈ (numbered (buffered.foldl StreamMerge.takeBuffered s).merged).map Prod.fst := by
  induction buffered generalizing s with
  | nil => cases hmem
  | cons frame buffered ih =>
    have hcons : withSequences (frame :: buffered) = [(eventSequence frame, frame)] ++ withSequences buffered := rfl
    rw [hcons, numbered_append] at hascending hmem
    rw [List.foldl_cons]
    cases hframe : eventSequence frame with
    | none =>
      rw [hframe, numbered_none, List.nil_append] at hascending hmem
      have hstep : s.takeBuffered frame = ⟨s.merged ++ [(none, frame)], s.lastSent⟩ := by
        rw [StreamMerge.takeBuffered, hframe]
      rw [hstep]
      exact ih hascending hmem hseq
    | some seq' =>
      rw [hframe, numbered_some, List.singleton_append, List.map_cons] at hascending hmem
      rw [List.pairwise_cons] at hascending
      by_cases hle : seq' ≤ s.lastSent
      · have hstep : s.takeBuffered frame = s := by
          rw [StreamMerge.takeBuffered, hframe]
          exact if_pos hle
        rw [hstep]
        rcases List.mem_cons.mp hmem with rfl | hmem
        · exact absurd hseq (not_lt.mpr hle)
        · exact ih hascending.2 hmem hseq
      · have hstep : s.takeBuffered frame = ⟨s.merged ++ [(some seq', frame)], seq'⟩ := by
          rw [StreamMerge.takeBuffered, hframe]
          exact if_neg hle
        rw [hstep]
        -- the frame has been sent if the number is its own, and else the number is above it
        by_cases heq : seq = seq'
        · subst heq
          obtain ⟨rest, hrest⟩ := prefix_foldl_takeBuffered ⟨s.merged ++ [(some seq, frame)], seq⟩ buffered
          rw [← hrest, numbered_append, numbered_append, numbered_some]
          simp
        · have hmem := (List.mem_cons.mp hmem).resolve_left heq
          exact ih hascending.2 hmem (lt_of_le_of_ne (hascending.1 seq hmem) (Ne.symm heq))

/-- Without a number twice the frames themselves are all sent. -/
theorem numbered_foldl_takeBuffered {s : StreamMerge} {buffered : List StreamFrame}
    (hascending : ((numbered (withSequences buffered)).map Prod.fst).Pairwise (· < ·)) :
    numbered (buffered.foldl StreamMerge.takeBuffered s).merged =
      numbered s.merged ++ (numbered (withSequences buffered)).filter (s.lastSent < ·.1) := by
  induction buffered generalizing s with
  | nil => rw [withSequences, List.map_nil]; exact (List.append_nil _).symm
  | cons frame buffered ih =>
    have hcons : withSequences (frame :: buffered) = [(eventSequence frame, frame)] ++ withSequences buffered := rfl
    rw [hcons, numbered_append] at hascending ⊢
    rw [List.foldl_cons]
    cases hframe : eventSequence frame with
    | none =>
      rw [hframe, numbered_none, List.nil_append] at hascending
      have hstep : s.takeBuffered frame = ⟨s.merged ++ [(none, frame)], s.lastSent⟩ := by
        rw [StreamMerge.takeBuffered, hframe]
      rw [hstep, ih hascending, numbered_append, numbered_none, List.append_nil, List.nil_append]
    | some seq =>
      rw [hframe, numbered_some, List.singleton_append, List.map_cons, List.pairwise_cons] at hascending
      rw [numbered_some, List.singleton_append]
      by_cases hle : seq ≤ s.lastSent
      · have hstep : s.takeBuffered frame = s := by
          rw [StreamMerge.takeBuffered, hframe]
          exact if_pos hle
        rw [hstep, ih hascending.2, List.filter_cons_of_neg (by simpa using hle)]
      · have hstep : s.takeBuffered frame = ⟨s.merged ++ [(some seq, frame)], seq⟩ := by
          rw [StreamMerge.takeBuffered, hframe]
          exact if_neg hle
        have hrest : (numbered (withSequences buffered)).filter (seq < ·.1) =
            (numbered (withSequences buffered)).filter (s.lastSent < ·.1) := by
          refine List.filter_congr fun p hp => ?_
          have hlt := hascending.1 p.1 (List.mem_map_of_mem hp)
          simp only [hlt, (not_le.mp hle).trans hlt]
        rw [hstep, ih hascending.2, List.filter_cons_of_pos (by simpa using hle), numbered_append, numbered_some,
          List.append_assoc, hrest, List.singleton_append]

/-! ## The merge -/

/-- What the merge returns for a replay above the cursor, and any buffer. -/
structure Merges (cursor : ℤ) (replay : List (ℤ × StreamFrame)) (buffered : List StreamFrame) : Prop where
  /-- The numbers strictly increase. -/
  increasing : ((numbered (mergeStreamFrames replay buffered cursor).merged).map Prod.fst).Pairwise (· < ·)
  /-- No number is one that the client has seen. -/
  above : ∀ p ∈ numbered (mergeStreamFrames replay buffered cursor).merged, cursor < p.1
  /-- All replayed frames are there, first and in order. -/
  replayed : replay <+: numbered (mergeStreamFrames replay buffered cursor).merged
  /-- The frames without number are all there, in their order. -/
  transients : transient (mergeStreamFrames replay buffered cursor).merged = transient (withSequences buffered)
  /-- Of a buffer in order no number above the replay is lost. -/
  no_number_lost : ((numbered (withSequences buffered)).map Prod.fst).Pairwise (· ≤ ·) →
    ∀ seq ∈ (numbered (withSequences buffered)).map Prod.fst, replayEnd cursor replay < seq →
      seq ∈ (numbered (mergeStreamFrames replay buffered cursor).merged).map Prod.fst
  /-- Nor a frame, if it has no number twice. -/
  no_frame_lost : ((numbered (withSequences buffered)).map Prod.fst).Pairwise (· < ·) →
    numbered (mergeStreamFrames replay buffered cursor).merged =
      replay ++ (numbered (withSequences buffered)).filter (replayEnd cursor replay < ·.1)
  /-- What is reached is above all that has been sent. -/
  reached : ∀ p ∈ numbered (mergeStreamFrames replay buffered cursor).merged,
    p.1 ≤ (mergeStreamFrames replay buffered cursor).lastSent

/-- The last of an ascending replay is the greatest. -/
theorem le_replayEnd {cursor : ℤ} {replay : List (ℤ × StreamFrame)}
    (hascending : (replay.map Prod.fst).Pairwise (· < ·)) {p : ℤ × StreamFrame} (hp : p ∈ replay) :
    p.1 ≤ replayEnd cursor replay := by
  induction replay using List.reverseRecOn with
  | nil => cases hp
  | append_singleton replay q ih =>
    rw [List.map_append, List.pairwise_append] at hascending
    rw [replayEnd, List.getLast?_concat, Option.map_some, Option.getD_some]
    rcases List.mem_append.mp hp with hp | hp
    · exact (hascending.2.2 p.1 (List.mem_map_of_mem hp) q.1 (by simp)).le
    · rw [List.mem_singleton.mp hp]

theorem mergeStreamFrames_merges {cursor : ℤ} {replay : List (ℤ × StreamFrame)}
    (hascending : (replay.map Prod.fst).Pairwise (· < ·)) (habove : ∀ p ∈ replay, cursor < p.1)
    (buffered : List StreamFrame) : Merges cursor replay buffered := by
  have hstart : replay.foldl StreamMerge.takeReplayed ⟨[], cursor⟩ =
      ⟨replay.map fun p => (some p.1, p.2), replayEnd cursor replay⟩ := foldl_takeReplayed replay ⟨[], cursor⟩
  have hordered : StreamMerge.Ordered ⟨replay.map fun p => (some p.1, p.2), replayEnd cursor replay⟩ := by
    refine ⟨?_, ?_⟩
    · rw [numbered_replayed]
      exact hascending
    · rw [numbered_replayed]
      exact fun p hp => le_replayEnd hascending hp
  have hover : StreamMerge.Above cursor ⟨replay.map fun p => (some p.1, p.2), replayEnd cursor replay⟩ := by
    refine ⟨?_, ?_⟩
    · cases replay using List.reverseRecOn with
      | nil => exact le_rfl
      | append_singleton replay q =>
        exact (habove q (by simp)).le.trans (le_replayEnd hascending (by simp))
    · rw [numbered_replayed]
      exact habove
  constructor
  · rw [mergeStreamFrames, hstart]
    exact (hordered.foldl buffered).increasing
  · rw [mergeStreamFrames, hstart]
    exact (hover.foldl buffered).sent
  · obtain ⟨rest, hrest⟩ := prefix_foldl_takeBuffered
      ⟨replay.map fun p => (some p.1, p.2), replayEnd cursor replay⟩ buffered
    rw [mergeStreamFrames, hstart, ← hrest, numbered_append, numbered_replayed]
    exact List.prefix_append _ _
  · rw [mergeStreamFrames, hstart, transient_foldl_takeBuffered, transient_replayed, List.nil_append]
  · intro hbuffer seq hmem hseq
    rw [mergeStreamFrames, hstart]
    exact mem_foldl_takeBuffered hbuffer hmem hseq
  · intro hbuffer
    rw [mergeStreamFrames, hstart, numbered_foldl_takeBuffered hbuffer, numbered_replayed]
  · rw [mergeStreamFrames, hstart]
    exact (hordered.foldl buffered).reached

/-- A frame with a number. -/
def numberedFrame (seq : ℤ) : StreamFrame := [(codePoints "event_sequence", .int seq)]

/-- A frame that has been seen twice, one without number and one that is new. -/
theorem mergeStreamFrames_merges_overlap :
    Merges 1 [(2, numberedFrame 2), (3, numberedFrame 3)] [numberedFrame 3, [], numberedFrame 4] :=
  mergeStreamFrames_merges (by simp) (by simp) _

end AgentCraft.Tasking
