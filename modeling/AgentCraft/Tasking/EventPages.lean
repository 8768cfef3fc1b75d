import AgentCraft.Tasking.EventLog
import Mathlib.Data.List.Sort

/-!
# Pages of the event log

`GET /tasks/{id}/events` reads a page of the log and maps it to frames. The limit counts the events that
are read; one kind of event, `round_running`, has no frame. A page of such events alone is an empty page,
and a client that stops at an empty page does not see what follows.

`readPages_eq_iff` says for which logs and limits the client sees everything.
-/

namespace AgentCraft.Tasking

/-- The frames of `_event_frame`. -/
inductive EventFrame
  | messageSaved (messageId : MessageId) (eventSequence : ℕ) (author : MessageAuthor)
  | statusChanged (status : TaskStatus) (abortReason : Option AbortReason)
  | queued (roundId : RoundId) (attempt : Option ℕ)
  | done (finishReason usage : String)
deriving DecidableEq, Repr

/-- The usage of a round that has none. -/
def noUsage : String := "\x7b\x7d"

/-- `_event_frame`. -/
def eventFrame : EventBody → Option EventFrame
  | .messageSaved mid sequence author => some (.messageSaved mid sequence author)
  | .statusChanged status reason => some (.statusChanged status reason)
  | .roundQueued rid attempt => some (.queued rid attempt)
  | .roundSettled _ _ finishReason usage => some (.done
      (if finishReason = "" then "stop" else finishReason) (if usage = "" then noUsage else usage))
  | .roundFailed .. => some (.done "error" noUsage)
  | .roundCancelled .. => some (.done "aborted" noUsage)
  | .roundRunning .. => none

/-- `task_views.list_task_events`: the rows of a page. -/
def listTaskEvents (events : List TaskEvent) (after limit : ℕ) : List TaskEvent :=
  ((events.filter (after < ·.sequence)).insertionSort (·.sequence ≤ ·.sequence)).take limit

/-- An item of the response: the frame of an event with its number. -/
def eventItem (e : TaskEvent) : Option (ℕ × EventFrame) := (eventFrame e.body).map (e.sequence, ·)

/-- The response of `list_task_events_route`: the frames of a page, and the snapshot of the task. -/
structure EventsPage where
  events : List (ℕ × EventFrame)
  status : TaskStatus
  eventSequence : ℕ
deriving DecidableEq, Repr

/-- `list_task_events_route`; none stands for 404. -/
def listTaskEventsRoute (t : Task) (after limit : ℕ) : Option EventsPage :=
  if t.status = .deleted then none
  else some ⟨(listTaskEvents t.events after limit).filterMap eventItem, t.status, t.eventSequence⟩

/-- What a client reads that asks for the next page after the last number it has been given, until a
page comes back empty; none if it has not come to an end after so many pages. -/
@[grind] def readPages (t : Task) (limit : ℕ) : ℕ → ℕ → Option (List (ℕ × EventFrame))
  | 0, _ => none
  | n + 1, after => do
    let page ← listTaskEventsRoute t after limit
    match page.events.getLast? with
    | none => some []
    | some last => (readPages t limit n last.1).map (page.events ++ ·)

/-- The event has no frame. -/
def Hidden (e : TaskEvent) : Prop := eventItem e = none

instance : DecidablePred Hidden := fun e => inferInstanceAs (Decidable (eventItem e = none))

/-- Wherever events without frame stand before one with a frame, they are fewer than the limit. -/
def NoHiddenPage (limit : ℕ) (events : List TaskEvent) : Prop :=
  ∀ before hidden e after, events = before ++ hidden ++ e :: after → (∀ h ∈ hidden, Hidden h) →
    ¬ Hidden e → hidden.length < limit

section Pages

variable {t : Task} {limit after : ℕ} {passed rest : List TaskEvent}

/-- The rows of a page are the first ones of what is left. -/
theorem listTaskEvents_eq (hsorted : ((passed ++ rest).map (·.sequence)).Pairwise (· < ·))
    (hpassed : ∀ e ∈ passed, e.sequence ≤ after) (hrest : ∀ e ∈ rest, after < e.sequence) :
    listTaskEvents (passed ++ rest) after limit = rest.take limit := by
  have hnone : passed.filter (after < ·.sequence) = [] :=
    List.filter_eq_nil_iff.mpr fun e he => by simpa using hpassed e he
  have hall : rest.filter (after < ·.sequence) = rest :=
    List.filter_eq_self.mpr fun e he => decide_eq_true (hrest e he)
  have hpairs : rest.Pairwise (·.sequence ≤ ·.sequence) := by
    rw [List.map_append, List.pairwise_append] at hsorted
    exact (List.pairwise_map.mp hsorted.2.1).imp le_of_lt
  rw [listTaskEvents, List.filter_append, hnone, hall, List.nil_append, hpairs.insertionSort_eq]

/-- The last event of a page that has a frame. -/
theorem exists_last_visible {l : List TaskEvent} (h : l.filterMap eventItem ≠ []) :
    ∃ a v hidden, l = a ++ v :: hidden ∧ ¬ Hidden v ∧ ∀ e ∈ hidden, Hidden e := by
  induction l using List.reverseRecOn with
  | nil => exact absurd rfl h
  | append_singleton l e ih =>
    by_cases he : Hidden e
    · rw [List.filterMap_append, List.filterMap_cons_none he, List.filterMap_nil, List.append_nil] at h
      obtain ⟨a, v, hidden, rfl, hv, hhidden⟩ := ih h
      refine ⟨a, v, hidden ++ [e], by simp, hv, fun x hx => ?_⟩
      rcases List.mem_append.mp hx with hx | hx
      · exact hhidden x hx
      · rw [List.mem_singleton.mp hx]
        exact he
    · exact ⟨l, e, [], rfl, he, fun x hx => by cases hx⟩

/-- The first event that has a frame. -/
theorem exists_first_visible {l : List TaskEvent} (h : l.filterMap eventItem ≠ []) :
    ∃ hidden v a, l = hidden ++ v :: a ∧ (∀ e ∈ hidden, Hidden e) ∧ ¬ Hidden v := by
  induction l with
  | nil => exact absurd rfl h
  | cons e l ih =>
    by_cases he : Hidden e
    · rw [List.filterMap_cons_none he] at h
      obtain ⟨hidden, v, a, rfl, hhidden, hv⟩ := ih h
      exact ⟨e :: hidden, v, a, rfl, List.forall_mem_cons.mpr ⟨he, hhidden⟩, hv⟩
    · exact ⟨[], e, l, rfl, fun x hx => (by cases hx), he⟩

theorem filterMap_hidden {l : List TaskEvent} (h : ∀ e ∈ l, Hidden e) : l.filterMap eventItem = [] :=
  List.filterMap_eq_nil_iff.mpr h

/-- The number of an item is that of its event. -/
theorem eventItem_fst {e : TaskEvent} {p : ℕ × EventFrame} (h : eventItem e = some p) :
    p.1 = e.sequence := by
  obtain ⟨frame, -, rfl⟩ := Option.map_eq_some_iff.mp h
  rfl

/-- A page does not decide about a log that it does not go beyond. -/
theorem noHiddenPage_append {a rest : List TaskEvent} {v : TaskEvent} (hv : ¬ Hidden v)
    (hlength : (a ++ [v]).length ≤ limit) :
    NoHiddenPage limit (a ++ v :: rest) ↔ NoHiddenPage limit rest := by
  constructor
  · rintro h before hidden e after rfl
    exact h (a ++ v :: before) hidden e after (by simp)
  · intro h before hidden e after hsplit hhidden he
    have hsplit' : (a ++ [v]) ++ rest = before ++ (hidden ++ e :: after) := by
      simpa using hsplit
    rcases List.append_eq_append_iff.mp hsplit' with ⟨c, rfl, hrest⟩ | ⟨c, hav, hrest⟩
    · exact h c hidden e after (by rw [hrest, List.append_assoc]) hhidden he
    · rcases List.eq_nil_or_concat c with rfl | ⟨c, x, rfl⟩
      · exact h [] hidden e after hrest.symm hhidden he
      -- the events without frame end before `v`
      · rw [List.concat_eq_append, ← List.append_assoc] at hav
        obtain ⟨rfl, hx⟩ := List.append_inj' hav rfl
        obtain rfl := (List.cons.inj hx).1
        have hle : hidden.length ≤ c.length := by
          rw [List.concat_eq_append, List.append_assoc] at hrest
          rcases List.append_eq_append_iff.mp hrest with ⟨d, rfl, -⟩ | ⟨d, rfl, hd⟩
          · simp
          · cases d with
            | nil => simp
            | cons y d =>
              obtain rfl := (List.cons.inj hd).1
              exact absurd (hhidden v (by simp)) hv
        simp only [List.length_append, List.length_singleton] at hlength
        omega

/-- One page of the rest of a log. -/
theorem listTaskEventsRoute_eq (hlive : t.status ≠ .deleted) (hevents : t.events = passed ++ rest)
    (hsorted : (t.events.map (·.sequence)).Pairwise (· < ·))
    (hpassed : ∀ e ∈ passed, e.sequence ≤ after) (hrest : ∀ e ∈ rest, after < e.sequence) :
    listTaskEventsRoute t after limit =
      some ⟨(rest.take limit).filterMap eventItem, t.status, t.eventSequence⟩ := by
  rw [listTaskEventsRoute, if_neg hlive]
  rw [hevents] at hsorted ⊢
  rw [listTaskEvents_eq hsorted hpassed hrest]

/-- From a number on, a client comes to an end, and has read all frames exactly if no page hides any. -/
theorem readPages_spec (hlive : t.status ≠ .deleted)
    (hsorted : (t.events.map (·.sequence)).Pairwise (· < ·)) {n : ℕ} (hevents : t.events = passed ++ rest)
    (hpassed : ∀ e ∈ passed, e.sequence ≤ after) (hrest : ∀ e ∈ rest, after < e.sequence)
    (hn : rest.length < n) :
    ∃ items, readPages t limit n after = some items ∧
      (items = rest.filterMap eventItem ↔ NoHiddenPage limit rest) := by
  induction n generalizing after passed rest with
  | zero => exact absurd hn (Nat.not_lt_zero _)
  | succ n ih =>
    rw [readPages, listTaskEventsRoute_eq hlive hevents hsorted hpassed hrest, Option.bind_eq_bind,
      Option.bind_some]
    by_cases hpage : (rest.take limit).filterMap eventItem = []
    · refine ⟨[], by simp [hpage], ?_⟩
      by_cases hall : rest.filterMap eventItem = []
      · rw [hall, eq_self, true_iff]
        rintro before hidden e after rfl - he
        exact absurd (List.filterMap_eq_nil_iff.mp hall e (by simp)) he
      -- what has a frame stands behind the page
      · refine iff_of_false (Ne.symm hall) fun hno => ?_
        obtain ⟨hidden, v, a, rfl, hhidden, hv⟩ := exists_first_visible hall
        have hshort := hno [] hidden v a rfl hhidden hv
        refine hv (List.filterMap_eq_nil_iff.mp hpage v ?_)
        rw [List.take_append, List.mem_append]
        right
        obtain ⟨k, hk⟩ := Nat.exists_eq_add_of_lt hshort
        rw [show limit - hidden.length = k + 1 by omega, List.take_succ_cons]
        exact List.mem_cons_self
    · obtain ⟨a, v, hidden, htake, hv, hhidden⟩ := exists_last_visible hpage
      have hsplit : rest = a ++ v :: (hidden ++ rest.drop limit) := by
        conv_lhs => rw [← List.take_append_drop limit rest, htake]
        simp
      have hlength : (a ++ [v]).length ≤ limit := by
        have hle := List.length_take_le limit rest
        rw [htake] at hle
        simp only [List.length_append, List.length_cons, List.length_nil] at hle ⊢
        omega
      obtain ⟨item, hitem⟩ := Option.ne_none_iff_exists'.mp hv
      have hitems : (rest.take limit).filterMap eventItem = a.filterMap eventItem ++ [item] := by
        rw [htake, List.filterMap_append, List.filterMap_cons_some hitem, filterMap_hidden hhidden]
      generalize rest.drop limit = tail at hsplit
      subst hsplit
      have hsequence := eventItem_fst hitem
      have hordered : (passed ++ a).Pairwise (·.sequence < ·.sequence) ∧
          (v :: (hidden ++ tail)).Pairwise (·.sequence < ·.sequence) ∧
          ∀ x ∈ passed ++ a, ∀ y ∈ v :: (hidden ++ tail), x.sequence < y.sequence := by
        rw [← List.pairwise_append, ← List.pairwise_map (f := TaskEvent.sequence), List.append_assoc,
          ← hevents]
        exact hsorted
      have hbefore : ∀ e ∈ passed ++ (a ++ [v]), e.sequence ≤ item.1 := by
        intro e he
        rw [hsequence]
        rw [← List.append_assoc] at he
        rcases List.mem_append.mp he with he | he
        · exact (hordered.2.2 e he v List.mem_cons_self).le
        · rw [List.mem_singleton.mp he]
      have hafter : ∀ e ∈ hidden ++ tail, item.1 < e.sequence := by
        rw [hsequence]
        exact (List.pairwise_cons.mp hordered.2.1).1
      obtain ⟨items, hread, hiff⟩ := ih (by rw [hevents]; simp) hbefore hafter (by
        simp only [List.length_append, List.length_cons] at hn ⊢
        omega)
      refine ⟨a.filterMap eventItem ++ [item] ++ items, ?_, ?_⟩
      · simp [hitems, hread]
      · rw [noHiddenPage_append hv hlength, ← hiff, List.filterMap_append,
          List.filterMap_cons_some hitem, List.append_assoc, List.singleton_append,
          List.append_cancel_left_eq, List.cons.injEq, eq_self, true_and]

/-- A client that follows the pages of a log reads its frames, each once and in order, exactly if no
page hides any. -/
theorem readPages_eq_iff (hlive : t.status ≠ .deleted)
    (hsorted : (0 :: t.events.map (·.sequence)).Pairwise (· < ·)) :
    readPages t limit (t.events.length + 1) 0 = some (t.events.filterMap eventItem) ↔
      NoHiddenPage limit t.events := by
  obtain ⟨hpos, hpairs⟩ := List.pairwise_cons.mp hsorted
  obtain ⟨items, hread, hiff⟩ := readPages_spec (n := t.events.length + 1) hlive hpairs
    (List.nil_append _).symm (fun e he => by cases he)
    (fun e he => hpos _ (List.mem_map_of_mem he)) (Nat.lt_succ_self _)
  rw [hread, Option.some.injEq, hiff]

end Pages

/-- The numbers of a log are in order. -/
theorem Log.Dense.sorted {l : Log} (h : l.Dense) :
    (0 :: l.events.map (·.sequence)).Pairwise (· < ·) := by
  rw [h.numbers, List.pairwise_cons]
  exact ⟨fun n hn => (List.mem_range'_1.mp hn).1, List.pairwise_lt_range'⟩

/-! ## A round that runs -/

/-- The log of a task whose round is claimed and settles with an answer. -/
def settledEvents : List TaskEvent :=
  [⟨1, .messageSaved 9 1 .user, some 9, none⟩,
    ⟨2, .statusChanged .queued none, none, none⟩,
    ⟨3, .roundQueued 200 none, none, some 200⟩,
    ⟨4, .statusChanged .running none, none, none⟩,
    ⟨5, .roundRunning 200 1, none, some 200⟩,
    ⟨6, .messageSaved 12 6 .assistant, some 12, none⟩,
    ⟨7, .roundSettled 200 1 "stop" "", none, some 200⟩,
    ⟨8, .statusChanged .ready none, none, none⟩]

/-- The task of `settledEvents`. -/
def settledTask : Task where
  ownerId := 1
  expertRevisionId := 5
  providerId := 3
  providerModelId := "model"
  providerKeyVersion := 1
  mcpServers := []
  initialMessageId := some 9
  status := .ready
  inputManifestSha256 := some "manifest"
  inputCommittedAt := some 0
  eventSequence := 8
  abortReason := none
  pendingTerminal := none
  createdAt := 0
  files := []
  reservations := []
  messages := [⟨9, 1, .user, "hi"⟩, ⟨12, 6, .assistant, "hello"⟩]
  rounds := [⟨200, 9, .settled, none, 1, none, 1⟩]
  events := settledEvents

/-- Where no two events without frame are adjacent, pages of two events hide nothing. -/
theorem noHiddenPage_two {events : List TaskEvent}
    (h : events.IsChain fun x y => ¬ (Hidden x ∧ Hidden y)) : NoHiddenPage 2 events := by
  rintro before hidden e after rfl hhidden -
  rcases hidden with _ | ⟨x, _ | ⟨y, hidden⟩⟩
  · exact Nat.zero_lt_two
  · exact Nat.one_lt_two
  · rw [List.append_assoc] at h
    have hadjacent := (List.isChain_append_cons_cons.mp h).2.1
    exact absurd ⟨hhidden x (by simp), hhidden y (by simp)⟩ hadjacent

/-- Pages of two events show the client the whole log. -/
theorem readPages_settledTask :
    readPages settledTask 2 (settledTask.events.length + 1) 0 =
      some (settledTask.events.filterMap eventItem) :=
  (readPages_eq_iff (by decide) (by decide)).mpr (noHiddenPage_two (by decide))

/-- Pages of one event: the client stops at the event of the claim, before the answer. -/
theorem readPages_stops_at_claim :
    settledTask.status ≠ .deleted ∧ (0 :: settledTask.events.map (·.sequence)).Pairwise (· < ·) ∧
      readPages settledTask 1 (settledTask.events.length + 1) 0 =
        some ((settledTask.events.take 4).filterMap eventItem) ∧
      (settledTask.events.take 4).filterMap eventItem ≠ settledTask.events.filterMap eventItem := by
  decide +kernel

end AgentCraft.Tasking
