import AgentCraft.Transition.Fallible
import AgentCraft.Transition.System
import AgentCraft.Web.ChatReducer

/-!
# Reconciliation

When a stream ends, the client asks for a page of the events after the last number it has seen, hands it
to the chat page and goes on from the watermark of the snapshot. What the page did not hold, the chat page
fetches from its own watermark, page by page, while the frames of the new stream arrive.

`Complete` says that nothing the client may see is lost; `Gapless` says which frames and pages arrive at a
moment at which the page can take them.
-/

namespace AgentCraft.Web

open AgentCraft.Streams AgentCraft.Tasking AgentCraft.Transition

/-- `EVENTS_PAGE_LIMIT`. -/
def eventsPageLimit : ℕ := 1000

/-- The frames of a log. -/
def visible (log : List TaskEvent) : List (ℕ × EventFrame) := log.filterMap eventItem

/-- The events of an answer to `fetchEvents`. -/
def fetchEvents (log : List TaskEvent) (after : ℕ) : List (ℕ × EventFrame) :=
  visible (listTaskEvents log after eventsPageLimit)

def lastSequence (log : List TaskEvent) : ℕ := ((log.getLast?).map (·.sequence)).getD 0

/-- The stream of the client. An answer to the events request is read in two statements. -/
inductive Connection
  | streaming (sent : ℕ)
  | asking
  | snapshotRead (status : TaskStatus) (watermark : ℕ)
  | answered (status : TaskStatus) (watermark : ℕ) (page : List (ℕ × EventFrame))
deriving DecidableEq

/-- A request of the paging effect, with the values it has been made for. -/
structure PageFetch where
  after : ℕ
  target : ℕ
  page : Option (List (ℕ × EventFrame)) := none
deriving DecidableEq

/-- The log, the client of the stream and the chat page. `applied` is what the reducer has applied of the
log, in its order. -/
structure TaskPage where
  log : List TaskEvent
  lastSeq : ℕ
  connection : Connection
  chat : ChatState
  fetch : Option PageFetch := none
  applied : List (ℕ × EventFrame) := []
deriving DecidableEq

/-- The page has been loaded, and the stream begins at its snapshot. -/
def openPage (log : List TaskEvent) (task : ChatTask) (messages : List TaskMessage) : TaskPage where
  log := log
  lastSeq := task.eventSequence.getD 0
  connection := .streaming (task.eventSequence.getD 0)
  chat := taskChatReducer {} (.loadSucceeded task messages)

/-- The events as they are dispatched. -/
def chatItems (items : List (ℕ × EventFrame)) : List (ℕ × ChatFrame) :=
  items.map fun i => (i.1, ChatFrame.ofEventFrame i.2)

/-- Actions of the page that have nothing to do with the stream. -/
def isAside : ChatAction → Bool
  | .messagesMerged .. | .refetchFailed _ | .terminalAccepted .. | .roundFinalized .. | .streamError ..
  | .noticeSet _ | .noticeCleared => true
  | _ => false

namespace TaskPage

/-- The target of the paging effect, with the watermark it fetches from. -/
def wanted (p : TaskPage) : Option (ℕ × ℕ) :=
  if p.chat.phase = .loaded then
    (p.chat.reconcileTarget.filter (p.chat.watermark < ·)).map fun t => (p.chat.watermark, t)
  else none

/-- `onFrame`, with a frame of the log. -/
def onFrame (p : TaskPage) (i : ℕ × EventFrame) : TaskPage :=
  { p with
    connection := .streaming i.1
    lastSeq := max p.lastSeq i.1
    chat := taskChatReducer p.chat (.frame (some i.1) (.ofEventFrame i.2))
    applied := p.applied ++ accepted p.chat.watermark [i] }

/-- `EVENTS_APPLIED`. -/
def applyPage (p : TaskPage) (page : List (ℕ × EventFrame)) (snapshot : EventsSnapshot) : TaskPage :=
  { p with
    chat := taskChatReducer p.chat (.eventsApplied (chatItems page) snapshot)
    applied := p.applied ++ accepted p.chat.watermark page }

/-- `reconcileAndReconnect`, from the answer on. -/
def reconcile (p : TaskPage) (status : TaskStatus) (watermark : ℕ) (page : List (ℕ × EventFrame)) :
    TaskPage :=
  if p.lastSeq < watermark then
    { p.applyPage page { status := some status, eventSequence := watermark } with
      lastSeq := watermark
      connection := .streaming watermark }
  else { p with connection := .streaming p.lastSeq }

end TaskPage

inductive PageAction
  | commit (e : TaskEvent)
  /-- The next frame of the log that the stream has. -/
  | frame
  /-- A frame that is not in the log. -/
  | transient (f : ChatFrame)
  | disconnect
  | readSnapshot (status : TaskStatus)
  | readRows
  | reconcile
  /-- The paging effect: a request for other values is dropped. -/
  | render
  | readPage
  | pageAnswer
  | aside (a : ChatAction)

def pageSystem : System TaskPage PageAction Unit where
  step p
    | .commit e => if e.sequence = lastSequence p.log + 1 then .ok { p with log := p.log ++ [e] } else .error ()
    | .frame =>
      match p.connection with
      | .streaming sent =>
        match (itemsAfter sent (visible p.log)).head? with
        | some i => .ok (p.onFrame i)
        | none => .error ()
      | _ => .error ()
    | .transient f =>
      match p.connection with
      | .streaming _ => .ok { p with chat := taskChatReducer p.chat (.frame none f) }
      | _ => .error ()
    | .disconnect =>
      match p.connection with
      | .streaming _ => .ok { p with connection := .asking }
      | _ => .error ()
    | .readSnapshot status =>
      match p.connection with
      | .asking => .ok { p with connection := .snapshotRead status (lastSequence p.log) }
      | _ => .error ()
    | .readRows =>
      match p.connection with
      | .snapshotRead status watermark =>
        .ok { p with connection := .answered status watermark (fetchEvents p.log p.lastSeq) }
      | _ => .error ()
    | .reconcile =>
      match p.connection with
      | .answered status watermark page => .ok (p.reconcile status watermark page)
      | _ => .error ()
    | .render =>
      if p.fetch.map (fun f => (f.after, f.target)) = p.wanted then .ok p
      else .ok { p with fetch := p.wanted.map fun d => { after := d.1, target := d.2 } }
    | .readPage =>
      match p.fetch with
      | some f =>
        if f.page = none then .ok { p with fetch := some { f with page := some (fetchEvents p.log f.after) } }
        else .error ()
      | none => .error ()
    | .pageAnswer =>
      match p.fetch with
      | some ⟨_, target, some page⟩ =>
        if page = [] then .ok { p with fetch := none, chat := taskChatReducer p.chat .reconcileGiveUp }
        else .ok { p.applyPage page { eventSequence := target } with fetch := none }
      | _ => .error ()
    | .aside a => if isAside a then .ok { p with chat := taskChatReducer p.chat a } else .error ()

/-! ## What is to hold -/

namespace TaskPage

/-- The page still fetches what lies before a target. -/
def CatchingUp (p : TaskPage) : Prop := ∃ t ∈ p.chat.reconcileTarget, p.chat.watermark < t

/-- Everything has been applied that the client counts as seen. -/
def AllApplied (p : TaskPage) : Prop :=
  ∀ i ∈ visible p.log, i.1 ≤ p.lastSeq → i.1 ≤ p.chat.watermark

/-- What has been applied is what lies between the first snapshot and the watermark, each once and in
order; and all that the client counts as seen, once the page does not fetch any more. -/
structure Complete (start : ℕ) (p : TaskPage) : Prop where
  applied : p.applied = itemsWithin start p.chat.watermark (visible p.log)
  caughtUp : ¬ p.CatchingUp → p.AllApplied

end TaskPage

/-- The frame or the page that arrives leaves no gap, and the page gives up only if nothing is missing. -/
def Gapless (p : TaskPage) : PageAction → Prop
  | .frame =>
    match p.connection with
    | .streaming sent => NoGap (visible p.log) p.chat.watermark (itemsAfter sent (visible p.log)).head?.toList
    | _ => True
  | .reconcile =>
    match p.connection with
    | .answered _ watermark page => p.lastSeq < watermark → NoGap (visible p.log) p.chat.watermark page
    | _ => True
  | .pageAnswer => (p.fetch.bind (·.page)) = some [] → p.AllApplied
  | _ => True

instance (p : TaskPage) : DecidablePred (Gapless p) := by
  intro a
  cases a with
  | frame | reconcile =>
    delta Gapless
    cases p.connection <;> infer_instance
  | pageAnswer =>
    delta Gapless TaskPage.AllApplied
    infer_instance
  | _ => exact .isTrue trivial

/-! ## The log -/

section Logs

variable {log : List TaskEvent} {e : TaskEvent} {a : ℕ}

/-- The numbers of a log ascend from one on. -/
def Numbered (log : List TaskEvent) : Prop := (0 :: log.map (·.sequence)).Pairwise (· < ·)

instance : Decidable (Numbered log) := inferInstanceAs (Decidable (List.Pairwise _ _))

theorem mem_visible {i : ℕ × EventFrame} (hi : i ∈ visible log) :
    ∃ e ∈ log, eventItem e = some i ∧ i.1 = e.sequence := by
  obtain ⟨e, he, hitem⟩ := List.mem_filterMap.mp hi
  exact ⟨e, he, hitem, eventItem_fst hitem⟩

theorem Numbered.pairwise (hlog : Numbered log) : log.Pairwise (·.sequence < ·.sequence) :=
  List.pairwise_map.mp (List.pairwise_cons.mp hlog).2

theorem Numbered.pos (hlog : Numbered log) {i : ℕ × EventFrame} (hi : i ∈ visible log) : 0 < i.1 := by
  obtain ⟨e, he, -, hsequence⟩ := mem_visible hi
  rw [hsequence]
  exact (List.pairwise_cons.mp hlog).1 _ (List.mem_map_of_mem he)

theorem Numbered.ascending (hlog : Numbered log) : Ascending (visible log) := by
  refine hlog.pairwise.filterMap eventItem fun e e' hlt i hi j hj => ?_
  rw [eventItem_fst hi, eventItem_fst hj]
  exact hlt

theorem Numbered.le_lastSequence (hlog : Numbered log) (he : e ∈ log) :
    e.sequence ≤ lastSequence log := by
  rcases List.eq_nil_or_concat log with rfl | ⟨init, last, rfl⟩
  · cases he
  · rw [List.concat_eq_append] at hlog he ⊢
    have hlast : lastSequence (init ++ [last]) = last.sequence := by simp [lastSequence]
    rw [hlast]
    rcases List.mem_append.mp he with he | he
    · exact ((List.pairwise_append.mp hlog.pairwise).2.2 e he last List.mem_cons_self).le
    · rw [List.mem_singleton.mp he]

theorem Numbered.visible_le (hlog : Numbered log) {i : ℕ × EventFrame} (hi : i ∈ visible log) :
    i.1 ≤ lastSequence log := by
  obtain ⟨e, he, -, hsequence⟩ := mem_visible hi
  rw [hsequence]
  exact hlog.le_lastSequence he

/-- A commit. -/
theorem Numbered.concat (hlog : Numbered log) (he : e.sequence = lastSequence log + 1) :
    Numbered (log ++ [e]) := by
  unfold Numbered
  rw [List.map_append, ← List.cons_append, List.pairwise_append]
  refine ⟨hlog, List.pairwise_singleton _ _, fun n hn m hm => ?_⟩
  rw [List.mem_singleton.mp hm]
  show n < e.sequence
  rcases List.mem_cons.mp hn with rfl | hn
  · omega
  · obtain ⟨e', he', rfl⟩ := List.mem_map.mp hn
    have hle := hlog.le_lastSequence he'
    omega

theorem visible_concat : visible (log ++ [e]) = visible log ++ visible [e] := List.filterMap_append

theorem visible_singleton {i : ℕ × EventFrame} (hi : i ∈ visible [e]) : i.1 = e.sequence := by
  obtain ⟨e', he', -, hsequence⟩ := mem_visible hi
  rw [hsequence, List.mem_singleton.mp he']

theorem lastSequence_concat : lastSequence (log ++ [e]) = e.sequence := by simp [lastSequence]

/-- An answer holds the next frames of the log. -/
theorem Numbered.fetchEvents (hlog : Numbered log) (a : ℕ) :
    ∃ rest, itemsAfter a (visible log) = Web.fetchEvents log a ++ rest := by
  have hpage : listTaskEvents log a eventsPageLimit = (log.filter (a < ·.sequence)).take eventsPageLimit := by
    have hsorted := (hlog.pairwise.imp le_of_lt).filter fun e => decide (a < e.sequence)
    rw [listTaskEvents, hsorted.insertionSort_eq]
  have hitems : itemsAfter a (visible log) = visible (log.filter (a < ·.sequence)) := by
    unfold itemsAfter visible
    rw [List.filter_filterMap, List.filterMap_filter]
    refine List.filterMap_congr fun e _ => ?_
    cases h : eventItem e with
    | none => split <;> rfl
    | some i =>
      rw [← eventItem_fst h]
      by_cases hi : a < i.1
      · simp [hi]
      · simpa [hi] using Nat.le_of_not_lt hi
  refine ⟨visible ((log.filter (a < ·.sequence)).drop eventsPageLimit), ?_⟩
  rw [hitems, Web.fetchEvents, hpage]
  conv_lhs => rw [← List.take_append_drop eventsPageLimit (log.filter (a < ·.sequence))]
  exact List.filterMap_append

end Logs

namespace TaskPage

variable {start : ℕ} {p p' : TaskPage}

/-- The page that is on its way holds the next frames. -/
def ConnectionTracked (p : TaskPage) : Prop :=
  match p.connection with
  | .streaming sent => sent = p.lastSeq
  | .asking => True
  | .snapshotRead _ watermark => watermark ≤ lastSequence p.log
  | .answered _ watermark page =>
    watermark ≤ lastSequence p.log ∧ ∃ rest, itemsAfter p.lastSeq (visible p.log) = page ++ rest

/-- The invariant. -/
structure Tracked (start : ℕ) (p : TaskPage) : Prop where
  log : Numbered p.log
  phase : p.chat.phase = .loaded
  start_le : start ≤ p.chat.watermark
  lastSeq_le : p.lastSeq ≤ lastSequence p.log
  watermark_le : p.chat.watermark ≤ lastSequence p.log
  applied : p.applied = itemsWithin start p.chat.watermark (visible p.log)
  pending : ∀ i ∈ visible p.log, p.chat.watermark < i.1 → i.1 ≤ p.lastSeq →
    ∃ t, p.chat.reconcileTarget = some t ∧ i.1 ≤ t
  connection : p.ConnectionTracked
  fetch : ∀ f ∈ p.fetch, f.after ≤ p.chat.watermark ∧
    ∀ page ∈ f.page, ∃ rest, itemsAfter f.after (visible p.log) = page ++ rest

theorem Tracked.complete (hp : Tracked start p) : Complete start p where
  applied := hp.applied
  caughtUp hdone i hi hle := by
    by_contra hlt
    obtain ⟨t, ht, hit⟩ := hp.pending i hi (Nat.lt_of_not_le hlt) hle
    exact hdone ⟨t, ht, (Nat.lt_of_not_le hlt).trans_le hit⟩

/-- Frames of the log, as far as they are applied. -/
theorem Tracked.take {items : List (ℕ × EventFrame)} (hp : Tracked start p)
    (hitems : ∃ rest, itemsAfter p.chat.watermark (visible p.log) =
      itemsAfter p.chat.watermark items ++ rest) (hascending : Ascending items) :
    p.applied ++ accepted p.chat.watermark items = itemsWithin start
        (lastNumber p.chat.watermark (accepted p.chat.watermark items)) (visible p.log) ∧
      p.chat.watermark ≤ lastNumber p.chat.watermark (accepted p.chat.watermark items) ∧
      lastNumber p.chat.watermark (accepted p.chat.watermark items) ≤ lastSequence p.log := by
  obtain ⟨rest, hrest⟩ := hitems
  rw [accepted_eq hascending]
  have hle : p.chat.watermark ≤ lastNumber p.chat.watermark (itemsAfter p.chat.watermark items) :=
    le_lastNumber fun i hi => (mem_itemsAfter.mp hi).2
  refine ⟨?_, hle, ?_⟩
  · rw [itemsWithin_append hp.log.ascending hp.start_le hle, ← hp.applied,
      itemsWithin_lastNumber hp.log.ascending hrest]
  · rcases lastNumber_cases p.chat.watermark (itemsAfter p.chat.watermark items) with
      ⟨-, hlast⟩ | ⟨i, hi, hlast⟩
    · rw [hlast]
      exact hp.watermark_le
    · rw [hlast]
      exact hp.log.visible_le (mem_itemsAfter.mp (hrest ▸ List.mem_append_left rest hi)).1

/-- What a reducer step of `EVENTS_APPLIED` does. -/
theorem eventsApplied_fields {page : List (ℕ × EventFrame)} {snapshot : EventsSnapshot} (s : ChatState)
    (hpos : ∀ i ∈ page, 0 < i.1) :
    (taskChatReducer s (.eventsApplied (chatItems page) snapshot)).watermark =
        lastNumber s.watermark (accepted s.watermark page) ∧
      (taskChatReducer s (.eventsApplied (chatItems page) snapshot)).phase = s.phase ∧
      ∀ n, lastNumber s.watermark (accepted s.watermark page) < n →
        (n ≤ snapshot.eventSequence ∨ ∃ t, s.reconcileTarget = some t ∧ n ≤ t) →
        ∃ t, (taskChatReducer s (.eventsApplied (chatItems page) snapshot)).reconcileTarget = some t ∧
          n ≤ t := by
  have hpos' : ∀ i ∈ chatItems page, 0 < i.1 := by
    intro i hi
    obtain ⟨j, hj, rfl⟩ := List.mem_map.mp hi
    exact hpos j hj
  obtain ⟨hwatermark, htarget, hphase⟩ :=
    foldl_applyNumbered_fields (accepted s.watermark (chatItems page)) s
  obtain ⟨hwatermark', htarget', hphase'⟩ := applySnapshotStatus_fields
    ((accepted s.watermark (chatItems page)).foldl applyNumbered s) snapshot
  have hlast : lastNumber s.watermark (accepted s.watermark (chatItems page)) =
      lastNumber s.watermark (accepted s.watermark page) := by
    rw [chatItems, accepted_map, lastNumber_map]
  rw [taskChatReducer, applyEvents_eq hpos']
  refine ⟨hwatermark'.trans (hwatermark.trans hlast), hphase'.trans hphase, fun n hn h => ?_⟩
  refine applyTarget_le ?_ ?_
  · rw [hwatermark', hwatermark, hlast]
    exact hn
  · rw [htarget', htarget]
    exact h

/-! ### One step -/

/-- The log grows. -/
theorem Tracked.commit {e : TaskEvent} (hp : Tracked start p) (he : e.sequence = lastSequence p.log + 1) :
    Tracked start { p with log := p.log ++ [e] } := by
  have hgrown : lastSequence p.log ≤ lastSequence (p.log ++ [e]) := by
    rw [lastSequence_concat, he]
    exact Nat.le_succ _
  have hlater : ∀ i ∈ visible [e], lastSequence p.log < i.1 := by
    intro i hi
    rw [visible_singleton hi, he]
    exact Nat.lt_succ_self _
  have hsplit {a : ℕ} {page : List (ℕ × EventFrame)}
      (h : ∃ rest, itemsAfter a (visible p.log) = page ++ rest) :
      ∃ rest, itemsAfter a (visible (p.log ++ [e])) = page ++ rest := by
    obtain ⟨rest, hrest⟩ := h
    exact ⟨rest ++ itemsAfter a (visible [e]), by
      rw [visible_concat, itemsAfter_append, hrest, List.append_assoc]⟩
  refine ⟨hp.log.concat he, hp.phase, hp.start_le, hp.lastSeq_le.trans hgrown,
    hp.watermark_le.trans hgrown, ?_, fun i hi hlt hle => ?_, ?_, fun f hf => ?_⟩
  · have hnone : itemsWithin start p.chat.watermark (visible [e]) = [] := by
      refine List.filter_eq_nil_iff.mpr fun i hi => ?_
      have hi' := hlater i hi
      have hwatermark := hp.watermark_le
      simp only [decide_eq_true_eq]
      omega
    show p.applied = itemsWithin start p.chat.watermark (visible (p.log ++ [e]))
    rw [visible_concat, itemsWithin, List.filter_append]
    exact hp.applied.trans ((List.append_nil _).symm.trans (congrArg _ hnone.symm))
  · replace hi : i ∈ visible (p.log ++ [e]) := hi
    rw [visible_concat] at hi
    rcases List.mem_append.mp hi with hi | hi
    · exact hp.pending i hi hlt hle
    · exact absurd (hle.trans hp.lastSeq_le) (Nat.not_le.mpr (hlater i hi))
  · have hconnection := hp.connection
    unfold ConnectionTracked at hconnection ⊢
    dsimp only
    split at hconnection
    · exact hconnection
    · exact hconnection
    · exact hconnection.trans hgrown
    · exact ⟨hconnection.1.trans hgrown, hsplit hconnection.2⟩
  · obtain ⟨hafter, hpage⟩ := hp.fetch f hf
    exact ⟨hafter, fun page hmem => hsplit (hpage page hmem)⟩

/-- The fetch of the paging effect, after the watermark has been raised. -/
theorem Tracked.fetch_of_le (hp : Tracked start p) {n : ℕ} (hn : p.chat.watermark ≤ n) :
    ∀ f ∈ p.fetch, f.after ≤ n ∧
      ∀ page ∈ f.page, ∃ rest, itemsAfter f.after (visible p.log) = page ++ rest := fun f hf =>
  ⟨(hp.fetch f hf).1.trans hn, (hp.fetch f hf).2⟩

/-- The next frame of the stream. -/
theorem Tracked.onFrame {sent : ℕ} {i : ℕ × EventFrame} (hp : Tracked start p)
    (hconnection : p.connection = .streaming sent)
    (hi : (itemsAfter sent (visible p.log)).head? = some i)
    (hgap : NoGap (visible p.log) p.chat.watermark [i]) : Tracked start (p.onFrame i) := by
  obtain ⟨rest, hrest⟩ := List.head?_eq_some_iff.mp hi
  obtain ⟨hmem, hsent⟩ := mem_itemsAfter.mp (List.mem_of_mem_head? hi)
  have hseen : sent = p.lastSeq := by
    have h := hp.connection
    unfold ConnectionTracked at h
    rwa [hconnection] at h
  have hlast : max p.lastSeq i.1 = i.1 := max_eq_right (hseen ▸ hsent.le)
  have hrest' : itemsAfter sent (visible p.log) = [i] ++ rest := hrest
  obtain ⟨happlied, hle, hbound⟩ := hp.take (itemsAfter_eq_of_noGap hrest' hgap)
    (List.pairwise_singleton _ _)
  have hchat : (p.onFrame i).chat.watermark = lastNumber p.chat.watermark (accepted p.chat.watermark [i]) ∧
      (p.onFrame i).chat.phase = p.chat.phase := by
    have hid : sequenceId i.1 = some i.1 := if_pos (hp.log.pos hmem)
    have hreduced : (p.onFrame i).chat =
        if i.1 ≤ p.chat.watermark then p.chat else applyNumbered p.chat (i.1, .ofEventFrame i.2) := by
      rw [TaskPage.onFrame, taskChatReducer, Option.bind_some, hid]
      rfl
    rw [hreduced, accepted]
    split
    · exact ⟨rfl, rfl⟩
    · exact ⟨rfl, (applyNumbered_fields p.chat _).2.2⟩
  have hreached : i.1 ≤ (p.onFrame i).chat.watermark := by
    rw [hchat.1, accepted]
    split
    · assumption
    · exact le_rfl
  refine ⟨hp.log, hchat.2.trans hp.phase, ?_, ?_, ?_, ?_, fun j hj hlt hle' => ?_, hlast.symm, ?_⟩
  · rw [hchat.1]
    exact hp.start_le.trans hle
  · show max p.lastSeq i.1 ≤ lastSequence p.log
    rw [hlast]
    exact hp.log.visible_le hmem
  · rw [hchat.1]
    exact hbound
  · rw [hchat.1]
    exact happlied
  · replace hle' : j.1 ≤ max p.lastSeq i.1 := hle'
    rw [hlast] at hle'
    exact absurd (hle'.trans hreached) (Nat.not_le.mpr hlt)
  · rw [hchat.1]
    exact hp.fetch_of_le hle

/-- A page is applied. -/
theorem Tracked.applyPage {page : List (ℕ × EventFrame)} {snapshot : EventsSnapshot} {a : ℕ}
    (hp : Tracked start p) (hpage : ∃ rest, itemsAfter a (visible p.log) = page ++ rest)
    (hnext : ∃ rest, itemsAfter p.chat.watermark (visible p.log) =
      itemsAfter p.chat.watermark page ++ rest) :
    Numbered (p.applyPage page snapshot).log ∧ (p.applyPage page snapshot).chat.phase = .loaded ∧
      p.chat.watermark ≤ (p.applyPage page snapshot).chat.watermark ∧
      (p.applyPage page snapshot).chat.watermark ≤ lastSequence p.log ∧
      (p.applyPage page snapshot).applied =
        itemsWithin start (p.applyPage page snapshot).chat.watermark (visible p.log) ∧
      (∀ n, (p.applyPage page snapshot).chat.watermark < n →
        (n ≤ snapshot.eventSequence ∨ ∃ t, p.chat.reconcileTarget = some t ∧ n ≤ t) →
        ∃ t, (p.applyPage page snapshot).chat.reconcileTarget = some t ∧ n ≤ t) := by
  obtain ⟨rest, hrest⟩ := hpage
  have hmem : ∀ i ∈ page, i ∈ visible p.log := fun i hi =>
    (mem_itemsAfter.mp (hrest ▸ List.mem_append_left rest hi)).1
  have hascending : Ascending page :=
    (List.pairwise_append.mp (show (page ++ rest).Pairwise _ from hrest ▸ hp.log.ascending.itemsAfter)).1
  obtain ⟨happlied, hle, hbound⟩ := hp.take hnext hascending
  obtain ⟨hwatermark, hphase, htarget⟩ := @eventsApplied_fields page snapshot p.chat
    fun i hi => hp.log.pos (hmem i hi)
  have hwatermark' : (p.applyPage page snapshot).chat.watermark =
      lastNumber p.chat.watermark (accepted p.chat.watermark page) := hwatermark
  rw [hwatermark']
  exact ⟨hp.log, hphase.trans hp.phase, hle, hbound, happlied, htarget⟩

/-- The answer to the events request. -/
theorem Tracked.reconcile {status : TaskStatus} {watermark : ℕ} {page : List (ℕ × EventFrame)}
    (hp : Tracked start p) (hconnection : p.connection = .answered status watermark page)
    (hgap : p.lastSeq < watermark → NoGap (visible p.log) p.chat.watermark page) :
    Tracked start (p.reconcile status watermark page) := by
  have h := hp.connection
  unfold ConnectionTracked at h
  rw [hconnection] at h
  obtain ⟨hbound, rest, hrest⟩ := h
  unfold TaskPage.reconcile
  split
  · next hbehind =>
    obtain ⟨hlog, hphase, hle, hlast, happlied, htarget⟩ := @Tracked.applyPage _ _ _
      { status := some status, eventSequence := watermark } _ hp ⟨rest, hrest⟩
      (itemsAfter_eq_of_noGap hrest (hgap hbehind))
    exact ⟨hlog, hphase, hp.start_le.trans hle, hbound, hlast, happlied,
      fun i _ hlt hle' => htarget i.1 hlt (.inl hle'), rfl, hp.fetch_of_le hle⟩
  · exact ⟨hp.log, hp.phase, hp.start_le, hp.lastSeq_le, hp.watermark_le, hp.applied, hp.pending, rfl,
      hp.fetch⟩

/-- The answer to a page that the chat page has asked for. -/
theorem Tracked.pageAnswer {f : PageFetch} {page : List (ℕ × EventFrame)} (hp : Tracked start p)
    (hfetch : f ∈ p.fetch) (hpage : page ∈ f.page) :
    Tracked start { p.applyPage page { eventSequence := f.target } with fetch := none } := by
  obtain ⟨hafter, hall⟩ := hp.fetch f hfetch
  obtain ⟨rest, hrest⟩ := hall page hpage
  obtain ⟨hlog, hphase, hle, hlast, happlied, htarget⟩ := @Tracked.applyPage _ _ _
    { eventSequence := f.target } _ hp ⟨rest, hrest⟩ ⟨_, itemsAfter_eq_of_le hrest hafter⟩
  exact ⟨hlog, hphase, hp.start_le.trans hle, hp.lastSeq_le, hlast, happlied,
    fun i hi hlt hle' => htarget i.1 hlt (.inr (hp.pending i hi (hle.trans_lt hlt) hle')), hp.connection,
    fun f hf => absurd hf (by simp)⟩

theorem mergeBackfilledMessages_fields (s : ChatState) (incoming : List TaskMessage) :
    (mergeBackfilledMessages s incoming).watermark = s.watermark ∧
      (mergeBackfilledMessages s incoming).reconcileTarget = s.reconcileTarget ∧
      (mergeBackfilledMessages s incoming).phase = s.phase := by
  unfold mergeBackfilledMessages
  split <;> exact ⟨rfl, rfl, rfl⟩

/-- An action that has nothing to do with the stream leaves its fields alone. -/
theorem taskChatReducer_aside {a : ChatAction} (ha : isAside a = true) (s : ChatState) :
    (taskChatReducer s a).watermark = s.watermark ∧
      (taskChatReducer s a).reconcileTarget = s.reconcileTarget ∧
      (taskChatReducer s a).phase = s.phase := by
  cases a with
  | loadSucceeded | loadMissing | loadFailed | frame | eventsApplied | reconcileGiveUp | sendAccepted
  | reset => cases ha
  | messagesMerged after messages =>
    have h := mergeBackfilledMessages_fields s messages
    unfold taskChatReducer
    dsimp only
    split
    · exact h
    · split <;> exact h
  | refetchFailed after =>
    unfold taskChatReducer
    dsimp only
    split <;> exact ⟨rfl, rfl, rfl⟩
  | terminalAccepted cancelling task =>
    have h := pickSnapshotFields_fields { s with roundCancelling := cancelling } task
    unfold taskChatReducer
    dsimp only
    split <;> exact h
  | roundFinalized task messages =>
    have h := pickSnapshotFields_fields { s with finalizing := false, streaming := {} } task
    unfold taskChatReducer
    dsimp only
    cases messages <;> exact h
  | streamError status message =>
    unfold taskChatReducer
    dsimp only
    split <;> exact ⟨rfl, rfl, rfl⟩
  | noticeSet | noticeCleared => exact ⟨rfl, rfl, rfl⟩

/-- The reducer leaves the fields of the stream alone. -/
theorem Tracked.aside {chat : ChatState} (hp : Tracked start p)
    (h : chat.watermark = p.chat.watermark ∧ chat.reconcileTarget = p.chat.reconcileTarget ∧
      chat.phase = p.chat.phase) : Tracked start { p with chat := chat } := by
  obtain ⟨hwatermark, htarget, hphase⟩ := h
  refine ⟨hp.log, hphase.trans hp.phase, ?_, hp.lastSeq_le, ?_, ?_, ?_, hp.connection, ?_⟩
  · rw [hwatermark]
    exact hp.start_le
  · rw [hwatermark]
    exact hp.watermark_le
  · rw [hwatermark]
    exact hp.applied
  · rw [hwatermark, htarget]
    exact hp.pending
  · rw [hwatermark]
    exact hp.fetch

theorem tracked_step {a : PageAction} (hp : Tracked start p) (hgap : Gapless p a)
    (hstep : pageSystem.step p a = .ok p') : Tracked start p' := by
  cases a with
  | commit e =>
    obtain ⟨he, hstep⟩ := ite_ok_else_error.mp hstep
    cases hstep
    exact hp.commit he
  | frame =>
    dsimp only [pageSystem, Gapless] at hstep hgap
    split at hstep
    · next sent hconnection =>
      rw [hconnection] at hgap
      split at hstep
      · next i hi =>
        cases hstep
        dsimp only at hgap
        rw [hi] at hgap
        exact hp.onFrame hconnection hi hgap
      · cases hstep
    · cases hstep
  | transient f =>
    dsimp only [pageSystem] at hstep
    split at hstep
    · cases hstep
      exact hp.aside (applyFrameEvent_fields p.chat none f)
    · cases hstep
  | disconnect =>
    dsimp only [pageSystem] at hstep
    split at hstep
    · cases hstep
      exact ⟨hp.log, hp.phase, hp.start_le, hp.lastSeq_le, hp.watermark_le, hp.applied, hp.pending,
        trivial, hp.fetch⟩
    · cases hstep
  | readSnapshot status =>
    dsimp only [pageSystem] at hstep
    split at hstep
    · cases hstep
      exact ⟨hp.log, hp.phase, hp.start_le, hp.lastSeq_le, hp.watermark_le, hp.applied, hp.pending,
        le_rfl, hp.fetch⟩
    · cases hstep
  | readRows =>
    dsimp only [pageSystem] at hstep
    split at hstep
    · next status watermark hconnection =>
      cases hstep
      have h := hp.connection
      unfold ConnectionTracked at h
      rw [hconnection] at h
      exact ⟨hp.log, hp.phase, hp.start_le, hp.lastSeq_le, hp.watermark_le, hp.applied, hp.pending,
        ⟨h, hp.log.fetchEvents p.lastSeq⟩, hp.fetch⟩
    · cases hstep
  | reconcile =>
    dsimp only [pageSystem, Gapless] at hstep hgap
    split at hstep
    · next status watermark page hconnection =>
      cases hstep
      rw [hconnection] at hgap
      exact hp.reconcile hconnection hgap
    · cases hstep
  | render =>
    dsimp only [pageSystem] at hstep
    split at hstep
    · cases hstep
      exact hp
    · cases hstep
      refine ⟨hp.log, hp.phase, hp.start_le, hp.lastSeq_le, hp.watermark_le, hp.applied, hp.pending,
        hp.connection, fun f hf => ?_⟩
      obtain ⟨d, hd, rfl⟩ := Option.map_eq_some_iff.mp hf
      unfold wanted at hd
      split at hd
      · obtain ⟨t, -, rfl⟩ := Option.map_eq_some_iff.mp hd
        exact ⟨le_rfl, fun page hpage => by cases hpage⟩
      · cases hd
  | readPage =>
    dsimp only [pageSystem] at hstep
    split at hstep
    · next f hfetch =>
      obtain ⟨-, hstep⟩ := ite_ok_else_error.mp hstep
      cases hstep
      refine ⟨hp.log, hp.phase, hp.start_le, hp.lastSeq_le, hp.watermark_le, hp.applied, hp.pending,
        hp.connection, fun f' hf' => ?_⟩
      cases hf'
      refine ⟨(hp.fetch f hfetch).1, fun page hpage => ?_⟩
      cases hpage
      exact hp.log.fetchEvents f.after
    · cases hstep
  | pageAnswer =>
    dsimp only [pageSystem, Gapless] at hstep hgap
    split at hstep
    · next after target page hfetch =>
      split at hstep
      · next hempty =>
        cases hstep
        rw [hfetch, hempty] at hgap
        refine ⟨hp.log, hp.phase, hp.start_le, hp.lastSeq_le, hp.watermark_le, hp.applied,
          fun i hi hlt hle => absurd (hgap rfl i hi hle) (Nat.not_le.mpr hlt), hp.connection,
          fun f hf => absurd hf (by simp)⟩
      · cases hstep
        exact hp.pageAnswer hfetch rfl
    · cases hstep
  | aside a =>
    obtain ⟨ha, hstep⟩ := ite_ok_else_error.mp hstep
    cases hstep
    exact hp.aside (taskChatReducer_aside ha p.chat)

theorem tracked_openPage {log : List TaskEvent} {task : ChatTask} {messages : List TaskMessage}
    (hlog : Numbered log) (hstart : task.eventSequence.getD 0 ≤ lastSequence log) :
    Tracked (task.eventSequence.getD 0) (openPage log task messages) := by
  have hwatermark : (openPage log task messages).chat.watermark = task.eventSequence.getD 0 := by
    unfold openPage taskChatReducer
    dsimp only
    cases task.eventSequence with
    | none => rfl
    | some n => cases n <;> rfl
  refine ⟨hlog, rfl, hwatermark.ge, hstart, hwatermark.le.trans hstart, ?_, fun i _ hlt hle => ?_, rfl,
    fun f hf => by cases hf⟩
  · rw [hwatermark]
    refine (List.filter_eq_nil_iff.mpr fun i _ => ?_).symm
    simp only [decide_eq_true_eq]
    omega
  · rw [hwatermark] at hlt
    exact absurd hle (Nat.not_le.mpr hlt)

/-! ### Catching up -/

/-- What the client counts as seen and the page has not applied. -/
def missing (p : TaskPage) : List (ℕ × EventFrame) :=
  itemsWithin p.chat.watermark p.lastSeq (visible p.log)

theorem allApplied_iff : p.AllApplied ↔ p.missing = [] := by
  unfold AllApplied missing itemsWithin
  rw [List.filter_eq_nil_iff]
  refine forall_congr' fun i => forall_congr' fun _ => ?_
  simp only [decide_eq_true_eq]
  omega

/-- What is missing under a higher watermark. -/
theorem missing_eq (hlog : p'.log = p.log) (hseq : p'.lastSeq = p.lastSeq)
    (hle : p.chat.watermark ≤ p'.chat.watermark) :
    p'.missing = p.missing.filter (p'.chat.watermark < ·.1) := by
  unfold missing itemsWithin
  rw [hlog, hseq, List.filter_filter]
  refine List.filter_congr fun i _ => ?_
  rw [← Bool.decide_and]
  refine decide_eq_decide.mpr ?_
  omega

/-- Raising the watermark over one that is missing leaves fewer missing. -/
theorem missing_lt {i : ℕ × EventFrame} (hlog : p'.log = p.log) (hseq : p'.lastSeq = p.lastSeq)
    (hi : i ∈ p.missing) (hle : i.1 ≤ p'.chat.watermark) : p'.missing.length < p.missing.length := by
  have hwithin := of_decide_eq_true (List.mem_filter.mp hi).2
  rw [missing_eq hlog hseq (hwithin.1.le.trans hle)]
  exact List.length_filter_lt_length_iff_exists.mpr ⟨i, hi, by simpa using hle⟩

/-- The paging effect touches its request only. -/
theorem run_effect (p : TaskPage) : ∃ fetch, pageSystem.run p [.render, .readPage] = { p with fetch := fetch } := by
  obtain ⟨fetch, hrender⟩ : ∃ fetch, pageSystem.next p .render = { p with fetch := fetch } := by
    rcases System.next_cases (S := pageSystem) p .render with hstep | hsame
    · generalize pageSystem.next p .render = p' at hstep
      dsimp only [pageSystem] at hstep
      split at hstep <;> cases hstep
      · exact ⟨p.fetch, rfl⟩
      · exact ⟨_, rfl⟩
    · exact ⟨p.fetch, hsame⟩
  rw [System.run_cons, hrender, System.run_cons, System.run_nil]
  rcases System.next_cases (S := pageSystem) { p with fetch := fetch } .readPage with hstep | hsame
  · generalize pageSystem.next { p with fetch := fetch } .readPage = p' at hstep
    dsimp only [pageSystem] at hstep
    split at hstep
    · obtain ⟨-, hstep⟩ := ite_ok_else_error.mp hstep
      cases hstep
      exact ⟨_, rfl⟩
    · cases hstep
  · exact ⟨fetch, hsame⟩

/-- The paging effect asks for what follows the watermark, and is answered. -/
theorem run_render_readPage (hp : Tracked start p) (hmissing : p.missing ≠ []) :
    ∃ t page, pageSystem.run p [.render, .readPage] =
      { p with fetch := some ⟨p.chat.watermark, t, some page⟩ } := by
  obtain ⟨i, hi⟩ := List.exists_mem_of_ne_nil _ hmissing
  obtain ⟨hmem, hwithin⟩ := List.mem_filter.mp hi
  rw [decide_eq_true_eq] at hwithin
  obtain ⟨t, htarget, hle⟩ := hp.pending i hmem hwithin.1 hwithin.2
  have hwanted : p.wanted = some (p.chat.watermark, t) := by
    have hlt : p.chat.watermark < t := hwithin.1.trans_le hle
    rw [wanted, if_pos hp.phase, htarget, Option.filter_some_pos (by simpa using hlt)]
    rfl
  obtain ⟨f, hafter, hftarget, hrender⟩ : ∃ f : PageFetch, f.after = p.chat.watermark ∧ f.target = t ∧
      pageSystem.next p .render = { p with fetch := some f } := by
    by_cases hsame : p.fetch.map (fun f => (f.after, f.target)) = p.wanted
    · have hstep : pageSystem.step p .render = .ok p := if_pos hsame
      rw [hwanted] at hsame
      obtain ⟨f, hfetch, hvalues⟩ := Option.map_eq_some_iff.mp hsame
      obtain ⟨hafter, hftarget⟩ := Prod.mk.inj hvalues
      refine ⟨f, hafter, hftarget, ?_⟩
      rw [System.next_eq_of_step hstep, ← hfetch]
    · have hstep : pageSystem.step p .render =
          .ok { p with fetch := p.wanted.map fun d => { after := d.1, target := d.2 } } := if_neg hsame
      refine ⟨{ after := p.chat.watermark, target := t }, rfl, rfl, ?_⟩
      rw [System.next_eq_of_step hstep, hwanted]
      rfl
  rw [System.run_cons, hrender, System.run_cons, System.run_nil]
  obtain ⟨after, target, page⟩ := f
  subst hafter
  subst hftarget
  cases page with
  | some page =>
    refine ⟨target, page, System.next_eq_self_of_error (e := ()) ?_⟩
    rfl
  | none =>
    refine ⟨target, fetchEvents p.log p.chat.watermark, System.next_eq_of_step ?_⟩
    rfl

/-- An answer to the paging effect takes nothing back. -/
theorem next_pageAnswer (hp : Tracked start p) :
    (pageSystem.next p .pageAnswer).log = p.log ∧ (pageSystem.next p .pageAnswer).lastSeq = p.lastSeq ∧
      p.chat.watermark ≤ (pageSystem.next p .pageAnswer).chat.watermark := by
  rcases System.next_cases (S := pageSystem) p .pageAnswer with hstep | hsame
  · generalize pageSystem.next p .pageAnswer = p' at hstep
    dsimp only [pageSystem] at hstep
    split at hstep
    · next after target page hfetch =>
      split at hstep
      · cases hstep
        exact ⟨rfl, rfl, le_rfl⟩
      · cases hstep
        obtain ⟨hafter, hall⟩ := hp.fetch _ hfetch
        obtain ⟨rest, hrest⟩ := hall page rfl
        obtain ⟨-, -, hle, -⟩ := @Tracked.applyPage _ _ _ { eventSequence := target } _ hp ⟨rest, hrest⟩
          ⟨_, itemsAfter_eq_of_le hrest hafter⟩
        exact ⟨rfl, rfl, hle⟩
    · cases hstep
  · rw [hsame]
    exact ⟨rfl, rfl, le_rfl⟩

/-- An answer to the paging effect, asked for at the watermark, leaves fewer missing. -/
theorem missing_pageAnswer {t : ℕ} {page : List (ℕ × EventFrame)} (hp : Tracked start p)
    (hfetch : p.fetch = some ⟨p.chat.watermark, t, some page⟩) (hgap : Gapless p .pageAnswer)
    (hmissing : p.missing ≠ []) :
    (pageSystem.next p .pageAnswer).missing.length < p.missing.length := by
  obtain ⟨j, hj⟩ := List.exists_mem_of_ne_nil _ hmissing
  obtain ⟨hmem, hwithin⟩ := List.mem_filter.mp hj
  rw [decide_eq_true_eq] at hwithin
  obtain ⟨rest, hrest⟩ := (hp.fetch _ hfetch).2 page rfl
  have hascending : Ascending (page ++ rest) := hrest ▸ hp.log.ascending.itemsAfter
  cases page with
  | nil =>
    rw [Gapless, hfetch] at hgap
    exact absurd (allApplied_iff.mp (hgap rfl)) hmissing
  | cons i is =>
    have hstep : pageSystem.step p .pageAnswer =
        .ok { p.applyPage (i :: is) { eventSequence := t } with fetch := none } := by
      dsimp only [pageSystem]
      rw [hfetch]
      rfl
    have hi : i ∈ visible p.log ∧ p.chat.watermark < i.1 :=
      mem_itemsAfter.mp (hrest ▸ List.mem_append_left rest List.mem_cons_self)
    have hle : i.1 ≤ j.1 := by
      have hj' : j ∈ i :: (is ++ rest) := by
        have h := mem_itemsAfter.mpr ⟨hmem, hwithin.1⟩
        rwa [hrest] at h
      rcases List.mem_cons.mp hj' with rfl | hj'
      · exact le_rfl
      · exact ((List.pairwise_cons.mp hascending).1 j hj').le
    have hitems : Ascending (i :: is) := (List.pairwise_append.mp hascending).1
    rw [System.next_eq_of_step hstep]
    refine missing_lt rfl rfl (i := i)
      (List.mem_filter.mpr ⟨hi.1, decide_eq_true ⟨hi.2, hle.trans hwithin.2⟩⟩) ?_
    have hwatermark := (@eventsApplied_fields (i :: is) { eventSequence := t } p.chat
      fun k hk => hp.log.pos (mem_itemsAfter.mp (hrest ▸ List.mem_append_left rest hk)).1).1
    show i.1 ≤ (taskChatReducer p.chat _).watermark
    rw [hwatermark, accepted_eq hitems]
    exact le_lastNumber_of_mem hitems.itemsAfter (mem_itemsAfter.mpr ⟨List.mem_cons_self, hi.2⟩)

end TaskPage

/-- A page that the chat page asks for and gets. -/
def pageRound : List PageAction := [.render, .readPage, .pageAnswer]

/-- So many pages in a row. -/
def pageRounds (n : ℕ) : List PageAction := (List.replicate n pageRound).flatten

section Runs

variable {start : ℕ} {p : TaskPage}

theorem tracked_run {as : List PageAction} (hp : p.Tracked start) (hgap : pageSystem.Guarded Gapless p as) :
    (pageSystem.run p as).Tracked start :=
  System.invariant_run_of_guarded (fun _ _ _ hp hG hstep => TaskPage.tracked_step hp hG hstep) hp hgap

/-- A page leaves fewer missing, or none. -/
theorem missing_pageRound (hp : p.Tracked start) (hgap : pageSystem.Guarded Gapless p pageRound) :
    (pageSystem.run p pageRound).missing = [] ∨
      (pageSystem.run p pageRound).missing.length < p.missing.length := by
  have hround : pageRound = [.render, .readPage] ++ [.pageAnswer] := rfl
  rw [hround, System.Guarded.append] at hgap
  have hp' := tracked_run hp hgap.1
  rw [hround, System.run_append, System.run_cons, System.run_nil]
  by_cases hmissing : p.missing = []
  · obtain ⟨fetch, heffect⟩ := p.run_effect
    obtain ⟨hlog, hseq, hle⟩ := TaskPage.next_pageAnswer hp'
    have hnone : (pageSystem.run p [.render, .readPage]).missing = [] := by
      rw [heffect]
      exact hmissing
    left
    rw [TaskPage.missing_eq hlog hseq hle, hnone]
    rfl
  · obtain ⟨t, page, heffect⟩ := TaskPage.run_render_readPage hp hmissing
    have hgap' := hgap.2.1
    rw [heffect] at hp' hgap' ⊢
    exact .inr (TaskPage.missing_pageAnswer hp' rfl hgap' hmissing)

/-- Enough pages leave nothing missing. -/
theorem missing_pageRounds {n : ℕ} (hp : p.Tracked start) (hn : p.missing.length ≤ n)
    (hgap : pageSystem.Guarded Gapless p (pageRounds n)) : (pageSystem.run p (pageRounds n)).missing = [] := by
  induction n generalizing p with
  | zero => exact List.length_eq_zero_iff.mp (Nat.le_zero.mp hn)
  | succ n ih =>
    have hrounds : pageRounds (n + 1) = pageRound ++ pageRounds n := by
      rw [pageRounds, List.replicate_succ, List.flatten_cons]
      rfl
    rw [hrounds, System.Guarded.append] at hgap
    rw [hrounds, System.run_append]
    refine ih (tracked_run hp hgap.1) ?_ hgap.2
    rcases missing_pageRound hp hgap.1 with hnone | hfewer
    · rw [hnone]
      exact Nat.zero_le _
    · omega

/-- In a run without gaps nothing that the client may see is lost, and so many pages as there are frames
complete what is missing. -/
theorem complete_run {log : List TaskEvent} {task : ChatTask} {messages : List TaskMessage}
    {as : List PageAction} (hlog : Numbered log)
    (hstart : task.eventSequence.getD 0 ≤ lastSequence log)
    (hgap : pageSystem.Guarded Gapless (openPage log task messages) as) :
    (pageSystem.run (openPage log task messages) as).Complete (task.eventSequence.getD 0) ∧
      ∀ n, (visible (pageSystem.run (openPage log task messages) as).log).length ≤ n →
        pageSystem.Guarded Gapless (pageSystem.run (openPage log task messages) as) (pageRounds n) →
        (pageSystem.run (openPage log task messages) (as ++ pageRounds n)).AllApplied := by
  have hp := tracked_run (@TaskPage.tracked_openPage _ _ messages hlog hstart) hgap
  refine ⟨hp.complete, fun n hn hrounds => ?_⟩
  rw [System.run_append]
  exact TaskPage.allApplied_iff.mpr
    (missing_pageRounds hp ((List.length_filter_le _ _).trans hn) hrounds)

end Runs

section Examples

/-- A task that runs for so many events. -/
def runningLog (n : ℕ) : List TaskEvent :=
  (List.range n).map fun k => ⟨k + 1, .statusChanged .running none, none, none⟩

def readyEvent (n : ℕ) : TaskEvent := ⟨n, .statusChanged .ready none, none, none⟩

/-- A stream that breaks after one frame, and what is committed before it is there again. -/
def brokenStream : List PageAction :=
  [.frame, .disconnect, .commit (readyEvent 4), .readSnapshot .ready, .commit ⟨5, .roundRunning 1 1, none, none⟩,
    .readRows, .reconcile, .render, .commit (readyEvent 6), .frame, .aside .noticeCleared]

theorem complete_brokenStream :
    (pageSystem.run (openPage (runningLog 3) { status := .running, eventSequence := some 1 } [])
      brokenStream).Complete 1 ∧
    (pageSystem.run (openPage (runningLog 3) { status := .running, eventSequence := some 1 } [])
      (brokenStream ++ pageRounds 5)).AllApplied :=
  ⟨(@complete_run _ { status := .running, eventSequence := some 1 } _ _ (by decide) (by decide)
      (by decide +kernel)).1,
    (@complete_run _ { status := .running, eventSequence := some 1 } _ _ (by decide) (by decide)
      (by decide +kernel)).2 5 (by decide +kernel) (by decide +kernel)⟩

/-- The first page is full, and a live frame arrives before the second. -/
def overtakenPage : List PageAction :=
  [.disconnect, .readSnapshot .running, .readRows, .reconcile, .render, .commit (readyEvent 1002), .frame]

/-- The frame between the page and the live frame is lost, also when the page goes on. -/
theorem not_complete :
    ¬ (pageSystem.run (openPage (runningLog 1001) { status := .running } []) overtakenPage).Complete 0 ∧
    ¬ (pageSystem.run (openPage (runningLog 1001) { status := .running } [])
      (overtakenPage ++ pageRounds 3)).Complete 0 := by
  constructor
  · intro h
    exact absurd h.applied (by decide +kernel)
  · intro h
    exact absurd h.applied (by decide +kernel)

end Examples

end AgentCraft.Web
