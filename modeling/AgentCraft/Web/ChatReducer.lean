import AgentCraft.Streams.Numbered
import AgentCraft.Tasking.EventPages

/-!
# The state of the chat page

`taskChatReducer.js`. The page applies the frames of the stream in the order of their numbers: a frame
with a number that is not above the watermark is dropped, and one that is raises it. The frames carry no
texts of messages; these are fetched from a cursor. The files of the task are left out.
-/

namespace AgentCraft.Web

open AgentCraft.Tasking AgentCraft.Streams

/-! ## The state -/

inductive Phase
  | loading
  | loaded
  | missing
  | error
deriving DecidableEq, Repr

/-- `TERMINAL_STATUSES`. -/
def isTerminalStatus : TaskStatus → Bool
  | .completed | .failed | .aborted | .deleted => true
  | _ => false

/-- What the page keeps of a task. -/
structure ChatTask where
  status : TaskStatus
  abortReason : Option AbortReason := none
  eventSequence : Option ℕ := none
deriving DecidableEq, Repr

inductive ToolStatus
  | running
  | error
  | ended
deriving DecidableEq, Repr

structure ToolCard where
  name : String
  args : Option String := none
  status : ToolStatus := .running
  result : Option String := none
deriving DecidableEq, Repr

/-- What is rendered before it is stored; `EMPTY_STREAMING` at first. -/
structure Streaming where
  isActive : Bool := false
  text : String := ""
  thinking : String := ""
  toolCalls : List ToolCard := []
deriving DecidableEq, Repr

/-- The user message that has been sent and not yet fetched. -/
structure PendingUser where
  content : String
  messageSeq : Option ℕ
deriving DecidableEq, Repr

/-- `initialTaskChatState`, by its defaults. -/
structure ChatState where
  phase : Phase := .loading
  loadError : Option String := none
  task : Option ChatTask := none
  messages : List TaskMessage := []
  watermark : ℕ := 0
  pendingRefetchAfter : Option ℕ := none
  pendingReplaceSeq : Option ℕ := none
  reconcileTarget : Option ℕ := none
  finalizing : Bool := false
  pendingUser : Option PendingUser := none
  roundCancelling : Bool := false
  streaming : Streaming := {}
  notice : Option String := none
deriving DecidableEq, Repr

/-! ## Messages -/

/-- `MESSAGES_PAGE_LIMIT`. -/
def messagesPageLimit : ℕ := 200

/-- `byId.set`. -/
@[grind] def setById (m : TaskMessage) : List TaskMessage → List TaskMessage
  | [] => [m]
  | x :: xs => if x.id = m.id then m :: xs else x :: setById m xs

/-- `mergeMessages`. -/
def mergeMessages (existing incoming : List TaskMessage) : List TaskMessage :=
  ((existing ++ incoming).foldl (fun byId m => setById m byId) []).insertionSort
    (·.eventSequence ≤ ·.eventSequence)

/-- `continuationCursor`. -/
def continuationCursor (messages : List TaskMessage) : Option ℕ :=
  if messages.length < messagesPageLimit then none
  else some (messages.foldl (fun n m => max n m.eventSequence) 0)

/-! ## Frames -/

/-- A frame as the server sends it. -/
inductive ChatFrame
  | textDelta (delta : String)
  | thinkingDelta (delta : String)
  | toolStart (name : Option String) (args : Option String)
  | toolEnd (name : Option String) (isError : Bool) (result : Option String)
  | messageSaved
  | statusChanged (status : TaskStatus) (abortReason : Option AbortReason)
  | done
  | queued
  | error (recoverable : Bool) (message : Option String)
  /-- `meta`, the updates of tools, and what the page does not know. -/
  | other
deriving DecidableEq, Repr

/-- A frame of the log. -/
def ChatFrame.ofEventFrame : EventFrame → ChatFrame
  | .messageSaved .. => messageSaved
  | .statusChanged status reason => statusChanged status reason
  | .queued .. => queued
  | .done .. => done

/-- `withTerminalClear`. -/
def withTerminalClear (s : ChatState) (status : TaskStatus) : ChatState :=
  if isTerminalStatus status then { s with streaming := {}, roundCancelling := false }
  else if status = .running then { s with roundCancelling := false }
  else s

/-- `applyStatusChanged`. -/
def applyStatusChanged (s : ChatState) (status : TaskStatus) (abortReason : Option AbortReason) :
    ChatState :=
  match s.task with
  | none => s
  | some task =>
    withTerminalClear
      { s with task := some { task with status := status, abortReason := abortReason.or task.abortReason } }
      status

/-- `applyMessageSaved`. -/
def applyMessageSaved (s : ChatState) (seq : Option ℕ) : ChatState :=
  let after := seq.getD 0 - 1
  { s with
    pendingRefetchAfter := some (min (s.pendingRefetchAfter.getD after) after)
    pendingReplaceSeq := seq }

/-- The first card of the name that is running. -/
@[grind] def endFirstCard (name : Option String) (isError : Bool) (result : Option String) :
    List ToolCard → List ToolCard
  | [] => []
  | c :: cs =>
    if some c.name = name ∧ c.status = .running then
      { c with status := if isError then .error else .ended, result := some (result.getD "") } :: cs
    else c :: endFirstCard name isError result cs

/-- `applyFrameEvent`; a frame that is not in the log has no number. -/
def applyFrameEvent (s : ChatState) (seq : Option ℕ) : ChatFrame → ChatState
  | .textDelta delta =>
    { s with streaming := { s.streaming with isActive := true, text := s.streaming.text ++ delta } }
  | .thinkingDelta delta =>
    { s with streaming := { s.streaming with isActive := true, thinking := s.streaming.thinking ++ delta } }
  | .toolStart name args =>
    { s with streaming := { s.streaming with
      isActive := true
      toolCalls := s.streaming.toolCalls ++ [{ name := name.getD "工具调用", args := args }] } }
  | .toolEnd name isError result =>
    { s with streaming := { s.streaming with
      isActive := true
      toolCalls := (endFirstCard name isError result s.streaming.toolCalls.reverse).reverse } }
  | .messageSaved => applyMessageSaved s seq
  | .statusChanged status abortReason => applyStatusChanged s status abortReason
  | .done => { s with streaming := {}, finalizing := true }
  | .queued => { s with notice := some "任务已进入排队，等待运行槽位分配。" }
  | .error recoverable message =>
    { s with notice := some (message.getD "执行出错" ++ if recoverable then "（可重试）" else "") }
  | .other => s

/-- `applySequencedFrame`. -/
def applySequencedFrame (s : ChatState) (id : Option ℕ) (f : ChatFrame) : ChatState :=
  match id with
  | none => applyFrameEvent s none f
  | some id => if id ≤ s.watermark then s else { applyFrameEvent s (some id) f with watermark := id }

/-! ## Actions -/

/-- `mergeBackfilledMessages`. -/
def mergeBackfilledMessages (s : ChatState) (incoming : List TaskMessage) : ChatState :=
  if incoming = [] then s
  else
    let delivered := incoming.any fun m => m.author = .assistant ∧ some m.eventSequence = s.pendingReplaceSeq
    { s with
      messages := mergeMessages s.messages incoming
      pendingUser := s.pendingUser.filter fun p =>
        !incoming.any fun m => m.author = .user ∧ some m.eventSequence = p.messageSeq
      pendingReplaceSeq := if delivered then none else s.pendingReplaceSeq
      streaming := { s.streaming with
        text := if delivered then "" else s.streaming.text
        thinking := if delivered then "" else s.streaming.thinking
        toolCalls := if incoming.any (·.author = .tool) then
          s.streaming.toolCalls.filter (·.status = .running) else s.streaming.toolCalls } }

/-- `snapshot` of an answer with events. -/
structure EventsSnapshot where
  status : Option TaskStatus := none
  abortReason : Option AbortReason := none
  eventSequence : ℕ
deriving DecidableEq, Repr

/-- What is dispatched. -/
inductive ChatAction
  | loadSucceeded (task : ChatTask) (messages : List TaskMessage)
  | loadMissing
  | loadFailed (message : Option String)
  | frame (id : Option ℕ) (f : ChatFrame)
  | eventsApplied (events : List (ℕ × ChatFrame)) (snapshot : EventsSnapshot)
  | reconcileGiveUp
  | messagesMerged (after : ℕ) (messages : List TaskMessage)
  | refetchFailed (after : ℕ)
  | sendAccepted (content : String) (messageSeq watermarkSeq : Option ℕ)
  | terminalAccepted (cancelling : Bool) (task : Option ChatTask)
  | roundFinalized (task : Option ChatTask) (messages : Option (List TaskMessage))
  | streamError (status : Option ℕ) (message : Option String)
  | noticeSet (notice : String)
  | noticeCleared
  | reset
deriving DecidableEq, Repr

/-- `Number.isInteger(seq) && seq > 0 ? seq : null`. -/
def sequenceId (seq : ℕ) : Option ℕ := if 0 < seq then some seq else none

/-- The events of `EVENTS_APPLIED`. -/
def applyEvents (s : ChatState) (events : List (ℕ × ChatFrame)) : ChatState :=
  events.foldl (fun s item => applySequencedFrame s (sequenceId item.1) item.2) s

/-- The status of a snapshot. -/
def applySnapshotStatus (s : ChatState) (snapshot : EventsSnapshot) : ChatState :=
  match s.task, snapshot.status with
  | some task, some status =>
    let abortReason := snapshot.abortReason.or task.abortReason
    { s with task := some { task with status := status, abortReason := abortReason } }
  | _, _ => s

/-- The target of a snapshot: what is not yet applied is to be fetched. -/
def applyTarget (s : ChatState) (target : ℕ) : ChatState :=
  let raised := if s.watermark < target then some (max (s.reconcileTarget.getD 0) target)
    else s.reconcileTarget
  { s with reconcileTarget := raised.filter fun t => s.watermark < t }

/-- `pickSnapshotFields`. -/
def pickSnapshotFields (s : ChatState) (task : Option ChatTask) : ChatState :=
  match task, s.task with
  | some view, some task =>
    { s with task := some { task with status := view.status, abortReason := view.abortReason } }
  | _, _ => s

/-- `taskChatReducer`. -/
def taskChatReducer (s : ChatState) : ChatAction → ChatState
  | .loadSucceeded task messages =>
    { s with
      phase := .loaded
      task := some task
      messages := mergeMessages [] messages
      watermark := ((task.eventSequence.bind sequenceId)).getD s.watermark
      pendingRefetchAfter := (continuationCursor (mergeMessages [] messages)).or s.pendingRefetchAfter }
  | .loadMissing => { s with phase := .missing }
  | .loadFailed message => { s with phase := .error, loadError := some (message.getD "加载失败，请稍后重试") }
  | .frame id f => applySequencedFrame s (id.bind sequenceId) f
  | .eventsApplied events snapshot =>
    applyTarget (applySnapshotStatus (applyEvents s events) snapshot) snapshot.eventSequence
  | .reconcileGiveUp => { s with reconcileTarget := none }
  | .messagesMerged after messages =>
    let next := mergeBackfilledMessages s messages
    match continuationCursor messages with
    | some continuation =>
      { next with pendingRefetchAfter := some (max continuation (next.pendingRefetchAfter.getD 0)) }
    | none => if s.pendingRefetchAfter = some after then { next with pendingRefetchAfter := none } else next
  | .refetchFailed after =>
    if s.pendingRefetchAfter = some after then { s with pendingRefetchAfter := none } else s
  | .sendAccepted content messageSeq watermarkSeq =>
    { s with
      notice := none
      pendingUser := some ⟨content, messageSeq⟩
      watermark := max s.watermark (watermarkSeq.getD 0)
      pendingRefetchAfter := match messageSeq with
        | some seq => some (min (s.pendingRefetchAfter.getD (seq - 1)) (seq - 1))
        | none => s.pendingRefetchAfter
      task := s.task.map fun task => { task with status := .queued } }
  | .terminalAccepted cancelling task =>
    let next := pickSnapshotFields { s with roundCancelling := cancelling } task
    if next.task.any fun task => isTerminalStatus task.status then
      { next with streaming := {}, roundCancelling := false }
    else next
  | .roundFinalized task messages =>
    let next := pickSnapshotFields { s with finalizing := false, streaming := {} } task
    match messages with
    | none => next
    | some messages =>
      { next with
        messages := mergeMessages next.messages messages
        pendingUser := next.pendingUser.filter fun p => p.messageSeq ≠ none ∧
          !messages.any fun m => m.author = .user ∧ some m.eventSequence = p.messageSeq }
  | .streamError status message =>
    if status = some 403 then { s with notice := some (message.getD "无权访问该任务") }
    else { s with notice := some "事件流连接中断，正在自动重连…" }
  | .noticeSet notice => { s with notice := some notice }
  | .noticeCleared => { s with notice := none }
  | .reset => {}

/-! ## What a frame leaves alone -/

section Frames

variable (s : ChatState) (seq : Option ℕ) (f : ChatFrame)

theorem withTerminalClear_fields (status : TaskStatus) :
    (withTerminalClear s status).watermark = s.watermark ∧
      (withTerminalClear s status).reconcileTarget = s.reconcileTarget ∧
      (withTerminalClear s status).phase = s.phase := by
  unfold withTerminalClear
  split
  · exact ⟨rfl, rfl, rfl⟩
  · split <;> exact ⟨rfl, rfl, rfl⟩

/-- A frame event does not touch the watermark, the target and the phase. -/
theorem applyFrameEvent_fields :
    (applyFrameEvent s seq f).watermark = s.watermark ∧
      (applyFrameEvent s seq f).reconcileTarget = s.reconcileTarget ∧
      (applyFrameEvent s seq f).phase = s.phase := by
  cases f with
  | statusChanged status reason =>
    unfold applyFrameEvent applyStatusChanged
    cases s.task with
    | none => exact ⟨rfl, rfl, rfl⟩
    | some task => exact withTerminalClear_fields _ status
  | _ => exact ⟨rfl, rfl, rfl⟩

/-- A frame of the log whose number is above the watermark. -/
def applyNumbered (s : ChatState) (item : ℕ × ChatFrame) : ChatState :=
  { applyFrameEvent s (some item.1) item.2 with watermark := item.1 }

theorem applyNumbered_fields (item : ℕ × ChatFrame) :
    (applyNumbered s item).watermark = item.1 ∧
      (applyNumbered s item).reconcileTarget = s.reconcileTarget ∧
      (applyNumbered s item).phase = s.phase :=
  ⟨rfl, (applyFrameEvent_fields s (some item.1) item.2).2⟩

end Frames

theorem applySequencedFrame_some (s : ChatState) (item : ℕ × ChatFrame) :
    applySequencedFrame s (some item.1) item.2 =
      if item.1 ≤ s.watermark then s else applyNumbered s item := rfl

/-- The events that are applied are those that a reader at the watermark takes. -/
theorem applyEvents_eq {events : List (ℕ × ChatFrame)} (hpos : ∀ i ∈ events, 0 < i.1) (s : ChatState) :
    applyEvents s events = (accepted s.watermark events).foldl applyNumbered s := by
  induction events generalizing s with
  | nil => rfl
  | cons i is ih =>
    have hid : sequenceId i.1 = some i.1 := if_pos (hpos i List.mem_cons_self)
    have hrest := ih fun j hj => hpos j (List.mem_cons_of_mem _ hj)
    unfold applyEvents at hrest ⊢
    rw [List.foldl_cons, hid, applySequencedFrame_some, accepted]
    split
    · exact hrest s
    · exact hrest (applyNumbered s i)

theorem foldl_applyNumbered_fields (events : List (ℕ × ChatFrame)) (s : ChatState) :
    (events.foldl applyNumbered s).watermark = lastNumber s.watermark events ∧
      (events.foldl applyNumbered s).reconcileTarget = s.reconcileTarget ∧
      (events.foldl applyNumbered s).phase = s.phase := by
  induction events generalizing s with
  | nil => exact ⟨rfl, rfl, rfl⟩
  | cons i is ih =>
    obtain ⟨hwatermark, htarget, hphase⟩ := ih (applyNumbered s i)
    obtain ⟨-, htarget', hphase'⟩ := applyNumbered_fields s i
    exact ⟨hwatermark, htarget.trans htarget', hphase.trans hphase'⟩

theorem applySnapshotStatus_fields (s : ChatState) (snapshot : EventsSnapshot) :
    (applySnapshotStatus s snapshot).watermark = s.watermark ∧
      (applySnapshotStatus s snapshot).reconcileTarget = s.reconcileTarget ∧
      (applySnapshotStatus s snapshot).phase = s.phase := by
  unfold applySnapshotStatus
  split <;> exact ⟨rfl, rfl, rfl⟩

/-- A number above the watermark that is not above a target stays so. -/
theorem applyTarget_le {s : ChatState} {target n : ℕ} (hn : s.watermark < n)
    (h : n ≤ target ∨ ∃ t, s.reconcileTarget = some t ∧ n ≤ t) :
    ∃ t, (applyTarget s target).reconcileTarget = some t ∧ n ≤ t := by
  unfold applyTarget
  by_cases htarget : s.watermark < target
  · refine ⟨max (s.reconcileTarget.getD 0) target, ?_, ?_⟩
    · simp only [if_pos htarget]
      exact Option.filter_some_pos (by simpa using .inr htarget)
    · rcases h with h | ⟨t, ht, hle⟩
      · exact h.trans (le_max_right _ _)
      · rw [ht]
        exact hle.trans (le_max_left _ _)
  · rcases h with h | ⟨t, ht, hle⟩
    · exact absurd (hn.trans_le h) htarget
    · refine ⟨t, ?_, hle⟩
      simp only [if_neg htarget, ht]
      exact Option.filter_some_pos (by simpa using hn.trans_le hle)

theorem pickSnapshotFields_fields (s : ChatState) (task : Option ChatTask) :
    (pickSnapshotFields s task).watermark = s.watermark ∧
      (pickSnapshotFields s task).reconcileTarget = s.reconcileTarget ∧
      (pickSnapshotFields s task).phase = s.phase := by
  unfold pickSnapshotFields
  split <;> exact ⟨rfl, rfl, rfl⟩

end AgentCraft.Web
