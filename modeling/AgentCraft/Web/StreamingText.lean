import AgentCraft.Web.ChatReducer

/-!
# The text that streams in

The page renders the deltas of a message until it has fetched the message itself. The buffer is cleared
when the message that was announced last is merged; what has come in by then of the next message is
cleared with it.

`text_merge_eq_iff` says when the buffer holds what has come in since an announcement, and nothing else.
-/

namespace AgentCraft.Web

open AgentCraft.Tasking

/-- The reducer over the actions of a page. -/
def reduce (s : ChatState) (as : List ChatAction) : ChatState := as.foldl taskChatReducer s

/-- A frame that leaves the round open. -/
def isOpenFrame : ChatFrame → Bool
  | .done => false
  | .statusChanged status _ => !isTerminalStatus status
  | _ => true

def isTextDelta : ChatFrame → Bool
  | .textDelta _ => true
  | _ => false

/-- An action of one round. The deltas have no numbers. -/
def isRoundAction : ChatAction → Bool
  | .frame none f => isOpenFrame f
  | .frame (some _) f => isOpenFrame f && !isTextDelta f
  | .eventsApplied events _ => events.all fun i => isOpenFrame i.2 && !isTextDelta i.2
  | .messagesMerged .. | .refetchFailed _ | .sendAccepted .. | .reconcileGiveUp | .streamError ..
  | .noticeSet _ | .noticeCleared => true
  | _ => false

/-- The text that an action brings. -/
def textOf : ChatAction → String
  | .frame none (.textDelta delta) => delta
  | _ => ""

/-- The text that the actions bring. -/
@[grind] def textDeltas : List ChatAction → String
  | [] => ""
  | a :: as => textOf a ++ textDeltas as

/-- The action merges the assistant message that was announced last. -/
def Delivers (s : ChatState) : ChatAction → Prop
  | .messagesMerged _ messages =>
    ∃ m ∈ messages, m.author = .assistant ∧ some m.eventSequence = s.pendingReplaceSeq
  | _ => False

instance (s : ChatState) : DecidablePred (Delivers s) := by
  intro a
  cases a with
  | messagesMerged =>
    delta Delivers
    infer_instance
  | _ => exact .isFalse id

/-- No delta has come in when the buffer is cleared; `received` is what has come in before. -/
@[grind] def Spares : ChatState → String → List ChatAction → Prop
  | _, _, [] => True
  | s, received, a :: as =>
    (Delivers s a → received = "") ∧ Spares (taskChatReducer s a) (received ++ textOf a) as

/-- The buffer is cleared. -/
@[grind] def Clears : ChatState → List ChatAction → Prop
  | _, [] => False
  | s, a :: as => Delivers s a ∨ Clears (taskChatReducer s a) as

instance decidableSpares : ∀ s received as, Decidable (Spares s received as)
  | _, _, [] => inferInstanceAs (Decidable True)
  | s, received, a :: as =>
    have := decidableSpares (taskChatReducer s a) (received ++ textOf a) as
    inferInstanceAs (Decidable (_ ∧ _))

instance decidableClears : ∀ s as, Decidable (Clears s as)
  | _, [] => inferInstanceAs (Decidable False)
  | s, a :: as =>
    have := decidableClears (taskChatReducer s a) as
    inferInstanceAs (Decidable (_ ∨ _))

/-! ## One action -/

section Actions

variable {s : ChatState} {a : ChatAction}

theorem text_applyStatusChanged {status : TaskStatus} (h : isTerminalStatus status = false)
    (reason : Option AbortReason) :
    (applyStatusChanged s status reason).streaming = s.streaming := by
  unfold applyStatusChanged withTerminalClear
  cases s.task with
  | none => rfl
  | some task =>
    simp only [h, Bool.false_eq_true, if_false]
    split <;> rfl

/-- A frame that leaves the round open and is no delta. -/
theorem text_applyFrameEvent {f : ChatFrame} (hopen : isOpenFrame f = true) (hdelta : isTextDelta f = false)
    (seq : Option ℕ) : (applyFrameEvent s seq f).streaming.text = s.streaming.text := by
  cases f with
  | textDelta delta => cases hdelta
  | done => cases hopen
  | statusChanged status reason =>
    rw [applyFrameEvent, text_applyStatusChanged (by simpa [isOpenFrame] using hopen)]
  | _ => rfl

theorem text_applySequencedFrame {f : ChatFrame} (hopen : isOpenFrame f = true)
    (hdelta : isTextDelta f = false) (id : Option ℕ) :
    (applySequencedFrame s id f).streaming.text = s.streaming.text := by
  cases id with
  | none => exact text_applyFrameEvent hopen hdelta none
  | some id =>
    unfold applySequencedFrame
    dsimp only
    split
    · rfl
    · exact text_applyFrameEvent hopen hdelta (some id)

theorem text_applyEvents {events : List (ℕ × ChatFrame)}
    (h : ∀ i ∈ events, isOpenFrame i.2 = true ∧ isTextDelta i.2 = false) :
    (applyEvents s events).streaming.text = s.streaming.text := by
  induction events generalizing s with
  | nil => rfl
  | cons i is ih =>
    obtain ⟨hopen, hdelta⟩ := h i List.mem_cons_self
    have hrest := ih (s := applySequencedFrame s (sequenceId i.1) i.2)
      fun j hj => h j (List.mem_cons_of_mem _ hj)
    exact hrest.trans (text_applySequencedFrame hopen hdelta _)

theorem text_applySnapshotStatus (snapshot : EventsSnapshot) :
    (applySnapshotStatus s snapshot).streaming = s.streaming := by
  unfold applySnapshotStatus
  split <;> rfl

theorem text_merge (after : ℕ) (messages : List TaskMessage) :
    (taskChatReducer s (.messagesMerged after messages)).streaming.text =
      if Delivers s (.messagesMerged after messages) then "" else s.streaming.text := by
  have hbackfill : (mergeBackfilledMessages s messages).streaming.text =
      if Delivers s (.messagesMerged after messages) then "" else s.streaming.text := by
    unfold mergeBackfilledMessages Delivers
    by_cases hnone : messages = []
    · simp [hnone]
    · simp [hnone]
  rw [← hbackfill]
  unfold taskChatReducer
  dsimp only
  split
  · rfl
  · split <;> rfl

/-- An action of a round clears the buffer or adds to it. -/
theorem text_taskChatReducer (ha : isRoundAction a = true) :
    (taskChatReducer s a).streaming.text =
      if Delivers s a then "" else s.streaming.text ++ textOf a := by
  cases a with
  | loadSucceeded | loadMissing | loadFailed | terminalAccepted | roundFinalized | reset => cases ha
  | messagesMerged after messages => simpa [textOf] using text_merge after messages
  | frame n f =>
    have hno : ¬ Delivers s (.frame n f) := id
    rw [if_neg hno]
    cases n with
    | none =>
      cases hdelta : isTextDelta f with
      | true =>
        cases f with
        | textDelta delta => rfl
        | _ => cases hdelta
      | false =>
        have hnone : textOf (.frame none f) = "" := by
          cases f with
          | textDelta delta => cases hdelta
          | _ => rfl
        rw [hnone, String.append_empty]
        exact text_applyFrameEvent ha hdelta none
    | some n =>
      obtain ⟨hopen, hdelta⟩ := Bool.and_eq_true_iff.mp ha
      have hnone : textOf (.frame (some n) f) = "" := rfl
      rw [hnone, String.append_empty]
      exact text_applySequencedFrame hopen (by simpa using hdelta) _
  | eventsApplied events snapshot =>
    have hno : ¬ Delivers s (.eventsApplied events snapshot) := id
    have hnone : textOf (.eventsApplied events snapshot) = "" := rfl
    have hevents : ∀ i ∈ events, isOpenFrame i.2 = true ∧ isTextDelta i.2 = false := by
      intro i hi
      simpa using List.all_eq_true.mp ha i hi
    rw [if_neg hno, hnone, String.append_empty]
    show (applySnapshotStatus (applyEvents s events) snapshot).streaming.text = s.streaming.text
    rw [text_applySnapshotStatus, text_applyEvents hevents]
  | refetchFailed after =>
    have hno : ¬ Delivers s (.refetchFailed after) := id
    have hnone : textOf (.refetchFailed after) = "" := rfl
    rw [if_neg hno, hnone, String.append_empty]
    unfold taskChatReducer
    dsimp only
    split <;> rfl
  | streamError status message =>
    have hno : ¬ Delivers s (.streamError status message) := id
    have hnone : textOf (.streamError status message) = "" := rfl
    rw [if_neg hno, hnone, String.append_empty]
    unfold taskChatReducer
    dsimp only
    split <;> rfl
  | sendAccepted | reconcileGiveUp | noticeSet | noticeCleared => exact String.append_empty.symm

end Actions

/-! ## A round -/

section Rounds

variable {s : ChatState} {as : List ChatAction} {received : String}

theorem append_eq_empty {x y : String} (h : x ++ y = "") : x = "" := by
  have hlist := congrArg String.toList h
  rw [String.toList_append] at hlist
  exact String.toList_eq_nil_iff.mp (List.append_eq_nil_iff.mp hlist).1

theorem append_eq_right {x y : String} : x ++ y = y ↔ x = "" := by
  constructor
  · intro h
    have hlist := congrArg String.toList h
    rw [String.toList_append] at hlist
    exact String.toList_eq_nil_iff.mp (List.append_left_eq_self.mp hlist)
  · rintro rfl
    exact String.empty_append

/-- Without a clearing the buffer grows. -/
theorem text_of_not_clears (has : ∀ a ∈ as, isRoundAction a = true) (h : ¬ Clears s as) :
    (reduce s as).streaming.text = s.streaming.text ++ textDeltas as := by
  induction as generalizing s with
  | nil => exact String.append_empty.symm
  | cons a as ih =>
    obtain ⟨hdelivers, hrest⟩ := not_or.mp h
    have hstep := text_taskChatReducer (s := s) (has a List.mem_cons_self)
    rw [if_neg hdelivers] at hstep
    have hih := ih (s := taskChatReducer s a) (fun b hb => has b (List.mem_cons_of_mem _ hb)) hrest
    rw [hstep, String.append_assoc] at hih
    exact hih

/-- A clearing spares what has come in only if nothing had come in. -/
theorem received_eq_empty (h : Clears s as) (hspares : Spares s received as) : received = "" := by
  induction as generalizing s received with
  | nil => cases h
  | cons a as ih =>
    obtain ⟨hnow, hlater⟩ := hspares
    rcases h with hdelivers | hrest
    · exact hnow hdelivers
    · exact append_eq_empty (ih hrest hlater)

theorem spares_of_not_clears (h : ¬ Clears s as) : Spares s received as := by
  induction as generalizing s received with
  | nil => trivial
  | cons a as ih =>
    obtain ⟨hdelivers, hrest⟩ := not_or.mp h
    exact ⟨fun hyes => absurd hyes hdelivers, ih hrest⟩

/-- With a clearing the buffer holds what has come in exactly if each clearing has spared it. -/
theorem text_eq_iff_of_clears (has : ∀ a ∈ as, isRoundAction a = true) (h : Clears s as) :
    (reduce s as).streaming.text = received ++ textDeltas as ↔ Spares s received as := by
  induction as generalizing s received with
  | nil => cases h
  | cons a as ih =>
    have hstep := text_taskChatReducer (s := s) (has a List.mem_cons_self)
    have has' : ∀ b ∈ as, isRoundAction b = true := fun b hb => has b (List.mem_cons_of_mem _ hb)
    show (reduce (taskChatReducer s a) as).streaming.text = received ++ (textOf a ++ textDeltas as) ↔ _
    rw [← String.append_assoc]
    by_cases hdelivers : Delivers s a
    · have hnone : textOf a = "" := by
        cases a with
        | messagesMerged => rfl
        | _ => cases hdelivers
      rw [Spares, hnone, String.append_empty]
      by_cases hrest : Clears (taskChatReducer s a) as
      · rw [ih has' hrest]
        exact ⟨fun hspares => ⟨fun _ => received_eq_empty hrest hspares, hspares⟩, And.right⟩
      -- what comes in after the last clearing
      · rw [text_of_not_clears has' hrest, hstep, if_pos hdelivers, String.empty_append, eq_comm,
          append_eq_right]
        exact ⟨fun hempty => ⟨fun _ => hempty, spares_of_not_clears hrest⟩, fun hspares => hspares.1 hdelivers⟩
    · have hrest : Clears (taskChatReducer s a) as := h.resolve_left hdelivers
      rw [ih has' hrest, Spares]
      exact ⟨fun hspares => ⟨fun hyes => absurd hyes hdelivers, hspares⟩, And.right⟩

/-- After a merge the buffer holds what has come in since an announcement exactly if no clearing has come
after a delta, and there has been one or the buffer was empty. -/
theorem text_merge_eq_iff (s : ChatState) (n after : ℕ) (messages : List TaskMessage)
    (has : ∀ a ∈ as, isRoundAction a = true) :
    (reduce s (.frame (some n) .messageSaved :: (as ++ [.messagesMerged after messages]))).streaming.text =
        textDeltas as ↔
      Spares (taskChatReducer s (.frame (some n) .messageSaved)) "" (as ++ [.messagesMerged after messages]) ∧
        (s.streaming.text = "" ∨
          Clears (taskChatReducer s (.frame (some n) .messageSaved))
            (as ++ [.messagesMerged after messages])) := by
  have hall : ∀ a ∈ as ++ [.messagesMerged after messages], isRoundAction a = true := by
    intro a ha
    rcases List.mem_append.mp ha with ha | ha
    · exact has a ha
    · rw [List.mem_singleton.mp ha]
      rfl
  have hdeltas : textDeltas (as ++ [.messagesMerged after messages]) = textDeltas as := by
    clear hall has
    induction as with
    | nil => rfl
    | cons a as ih => rw [List.cons_append, textDeltas, textDeltas, ih]
  have hannounced : (taskChatReducer s (.frame (some n) .messageSaved)).streaming.text =
      s.streaming.text := text_applySequencedFrame rfl rfl _
  show (reduce (taskChatReducer s (.frame (some n) .messageSaved)) _).streaming.text = _ ↔ _
  generalize taskChatReducer s (.frame (some n) .messageSaved) = s' at hannounced ⊢
  rw [← hannounced, ← hdeltas]
  by_cases hclears : Clears s' (as ++ [.messagesMerged after messages])
  · have hiff := @text_eq_iff_of_clears _ _ "" hall hclears
    rw [String.empty_append] at hiff
    rw [hiff]
    exact ⟨fun hspares => ⟨hspares, .inr hclears⟩, And.left⟩
  · rw [text_of_not_clears hall hclears, append_eq_right]
    exact ⟨fun hempty => ⟨spares_of_not_clears hclears, .inl hempty⟩, fun h => h.2.resolve_right hclears⟩

end Rounds

section Examples

def storedAnswer : TaskMessage := ⟨12, 2, .assistant, "hello"⟩

/-- An answer that is fetched before the next one begins. -/
theorem text_merge_in_time :
    (reduce { streaming := { text := "hello" } } [.frame (some 2) .messageSaved, .frame none (.thinkingDelta "so"),
      .messagesMerged 1 [storedAnswer]]).streaming.text = "" :=
  (@text_merge_eq_iff [.frame none (.thinkingDelta "so")] { streaming := { text := "hello" } } 2 1 [storedAnswer]
    (by decide)).mpr (by decide +kernel)

/-- The next answer begins before the merge and is erased; and an announcement of the next answer before
the merge leaves the text of the first. -/
theorem text_merge_late :
    (reduce { streaming := { text := "hello" } } [.frame (some 2) .messageSaved, .frame none (.textDelta "next"),
      .messagesMerged 1 [storedAnswer]]).streaming.text ≠ textDeltas [.frame none (.textDelta "next")] ∧
    (reduce { streaming := { text := "hello" } } [.frame (some 2) .messageSaved, .frame (some 3) .messageSaved,
      .messagesMerged 1 [storedAnswer]]).streaming.text ≠ textDeltas [.frame (some 3) .messageSaved] := by
  decide +kernel

end Examples

end AgentCraft.Web
