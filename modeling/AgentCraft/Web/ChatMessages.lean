import AgentCraft.Web.Reconcile

/-!
# The messages of the chat page

The page shows the messages it has fetched. `pendingRefetchAfter` is the cursor from which it fetches when
a frame announces another one; it is cleared when the answer is merged.

`Covered` says that a message that the watermark has passed is shown or still to be fetched. `Timely` says
when the snapshot of the first load, the frames, the sends and the answers come in time for this.
-/

namespace AgentCraft.Web

open AgentCraft.Streams AgentCraft.Tasking AgentCraft.Transition

/-- `task_views.list_task_messages`. -/
def listTaskMessages (stored : List TaskMessage) (after limit : ℕ) : List TaskMessage :=
  ((stored.filter (after < ·.eventSequence)).insertionSort (·.eventSequence ≤ ·.eventSequence)).take limit

/-- An answer to `messagesPath`. -/
def fetchMessages (stored : List TaskMessage) (after : ℕ) : List TaskMessage :=
  listTaskMessages stored after messagesPageLimit

/-- The event that announces a message. -/
def Announces (e : TaskEvent) (m : TaskMessage) : Prop :=
  e.sequence = m.eventSequence ∧ e.body = .messageSaved m.id m.eventSequence m.author

instance (e : TaskEvent) (m : TaskMessage) : Decidable (Announces e m) :=
  inferInstanceAs (Decidable (_ ∧ _))

/-- A request of the effect that fetches messages, and how many messages there were when it was
answered. -/
structure MessageFetch where
  after : ℕ
  known : Option ℕ := none
deriving DecidableEq

/-- The server and the chat page. `task` and `bundle` are what `loadTaskBundle` has been answered: the
snapshot, and how many messages there were. -/
structure ChatPage where
  log : List TaskEvent := []
  stored : List TaskMessage := []
  task : Option ChatTask := none
  bundle : Option ℕ := none
  chat : ChatState := {}
  fetch : Option MessageFetch := none
deriving DecidableEq

inductive ChatPageAction
  /-- An event, with its message. -/
  | commit (e : TaskEvent) (m : Option TaskMessage)
  | readTask (status : TaskStatus)
  | readBundle
  | load
  | frame (i : ℕ × EventFrame)
  | transient (f : ChatFrame)
  /-- A page of events that has been read when the log had so many. -/
  | events (known after : ℕ) (snapshot : EventsSnapshot)
  | send (content : String) (m : TaskMessage) (watermarkSeq : ℕ)
  /-- The effect that fetches messages. -/
  | render
  | readMessages
  | merge
  /-- `ROUND_FINALIZED`, with messages that have been read when there were so many. -/
  | finalize (task : Option ChatTask) (known after : ℕ)
  | aside (a : ChatAction)

/-- Actions of the page that touch neither its messages nor its numbers. -/
def isNeutral : ChatAction → Bool
  | .reconcileGiveUp | .terminalAccepted .. | .roundFinalized _ none | .streamError .. | .noticeSet _
  | .noticeCleared => true
  | _ => false

/-- An event and its message are committed together. -/
def Committable (p : ChatPage) (e : TaskEvent) (m : Option TaskMessage) : Prop :=
  e.sequence = lastSequence p.log + 1 ∧ (m = none → e.body.isMessageSaved = false) ∧
    ∀ x ∈ m, Announces e x ∧ ∀ y ∈ p.stored, x.id ≠ y.id

instance (p : ChatPage) (e : TaskEvent) (m : Option TaskMessage) : Decidable (Committable p e m) :=
  inferInstanceAs (Decidable (_ ∧ _ ∧ _))

def chatSystem : System ChatPage ChatPageAction Unit where
  step p
    | .commit e m =>
      if Committable p e m then .ok { p with log := p.log ++ [e], stored := p.stored ++ m.toList }
      else .error ()
    | .readTask status =>
      if p.task = none then
        .ok { p with task := some { status := status, eventSequence := some (lastSequence p.log) } }
      else .error ()
    | .readBundle => if p.bundle = none then .ok { p with bundle := some p.stored.length } else .error ()
    | .load =>
      match p.chat.phase, p.task, p.bundle with
      | .loading, some task, some known =>
        .ok { p with
          chat := taskChatReducer p.chat (.loadSucceeded task (fetchMessages (p.stored.take known) 0)) }
      | _, _, _ => .error ()
    | .frame i =>
      if p.chat.phase = .loaded ∧ i ∈ visible p.log then
        .ok { p with chat := taskChatReducer p.chat (.frame (some i.1) (.ofEventFrame i.2)) }
      else .error ()
    | .transient f =>
      if p.chat.phase = .loaded then .ok { p with chat := taskChatReducer p.chat (.frame none f) }
      else .error ()
    | .events known after snapshot =>
      if p.chat.phase = .loaded then
        let page := fetchEvents (p.log.take known) after
        .ok { p with chat := taskChatReducer p.chat (.eventsApplied (chatItems page) snapshot) }
      else .error ()
    | .send content m watermarkSeq =>
      if p.chat.phase = .loaded ∧ m ∈ p.stored ∧ watermarkSeq ≤ lastSequence p.log then
        .ok { p with
          chat := taskChatReducer p.chat (.sendAccepted content (some m.eventSequence) (some watermarkSeq)) }
      else .error ()
    | .render =>
      if p.chat.phase = .loaded then
        if p.fetch.map (·.after) = p.chat.pendingRefetchAfter then .ok p
        else .ok { p with fetch := p.chat.pendingRefetchAfter.map fun after => { after := after } }
      else .error ()
    | .readMessages =>
      match p.fetch with
      | some ⟨after, none⟩ => .ok { p with fetch := some ⟨after, some p.stored.length⟩ }
      | _ => .error ()
    | .merge =>
      match p.fetch with
      | some ⟨after, some known⟩ =>
        .ok { p with
          fetch := none
          chat := taskChatReducer p.chat (.messagesMerged after (fetchMessages (p.stored.take known) after)) }
      | _ => .error ()
    | .finalize task known after =>
      if p.chat.phase = .loaded then
        let page := fetchMessages (p.stored.take known) after
        .ok { p with chat := taskChatReducer p.chat (.roundFinalized task (some page)) }
      else .error ()
    | .aside a =>
      if p.chat.phase = .loaded ∧ isNeutral a then .ok { p with chat := taskChatReducer p.chat a }
      else .error ()

/-! ## What is to hold -/

/-- A message is shown or will be fetched. -/
def Within (p : ChatPage) (m : TaskMessage) : Prop :=
  m ∈ p.chat.messages ∨ ∃ after, p.chat.pendingRefetchAfter = some after ∧ after < m.eventSequence

/-- The messages that the watermark of a loaded page has passed are shown or will be fetched. -/
def Covered (p : ChatPage) : Prop :=
  p.chat.phase = .loaded → ∀ m ∈ p.stored, m.eventSequence ≤ p.chat.watermark → Within p m

/-- No message lies between the watermark and a number. -/
def NoMessageBefore (p : ChatPage) (n : ℕ) : Prop :=
  ∀ m ∈ p.stored, p.chat.watermark < m.eventSequence → n ≤ m.eventSequence

instance (p : ChatPage) (n : ℕ) : Decidable (NoMessageBefore p n) :=
  inferInstanceAs (Decidable (∀ m ∈ p.stored, _ → _))

/-- The page of messages is full. -/
def IsFull (messages : List TaskMessage) : Prop := ¬ messages.length < messagesPageLimit

instance : DecidablePred IsFull := fun _ => inferInstanceAs (Decidable (¬ _))

/-- The answers and the frames that come in time. The snapshot of the first load is not younger than its
messages; a frame, a page of events or a send does not pass a message; and an answer is merged before
another message is announced. -/
def Timely (p : ChatPage) : ChatPageAction → Prop
  | .readTask _ => ∀ known ∈ p.bundle,
      IsFull (fetchMessages (p.stored.take known) 0) ∨ p.stored.length ≤ known
  | .frame i => p.chat.watermark < i.1 → NoMessageBefore p i.1
  | .events known after _ =>
    ∀ i ∈ (itemsAfter p.chat.watermark (fetchEvents (p.log.take known) after)).head?, NoMessageBefore p i.1
  | .send _ m _ => NoMessageBefore p m.eventSequence
  | .merge =>
    match p.fetch with
    | some ⟨after, some known⟩ =>
      if IsFull (fetchMessages (p.stored.take known) after) then ∀ b ∈ p.chat.pendingRefetchAfter, after ≤ b
      else p.chat.pendingRefetchAfter = some after →
        ∀ m ∈ p.stored.drop known, m ∈ p.chat.messages ∨ p.chat.watermark < m.eventSequence
    | _ => True
  | _ => True

instance (p : ChatPage) : DecidablePred (Timely p) := by
  intro a
  cases a with
  | readTask | frame | events | send =>
    delta Timely
    infer_instance
  | merge =>
    delta Timely
    rcases p.fetch with _ | ⟨after, _ | known⟩ <;> infer_instance
  | _ => exact .isTrue trivial

/-! ## Merging -/

section Merging

variable {acc existing incoming l : List TaskMessage} {m y : TaskMessage}

/-- Messages are known by their ids. -/
def UniqueIds (l : List TaskMessage) : Prop := ∀ x ∈ l, ∀ y ∈ l, x.id = y.id → x = y

theorem UniqueIds.of_subset {l' : List TaskMessage} (h : UniqueIds l') (hsub : ∀ x ∈ l, x ∈ l') : UniqueIds l :=
  fun x hx y hy => h x (hsub x hx) y (hsub y hy)

theorem mem_setById (h : ∀ x ∈ l, x.id = m.id → x = m) : y ∈ setById m l ↔ y = m ∨ y ∈ l := by
  induction l with
  | nil => simp [setById]
  | cons x xs ih =>
    have hih := ih fun x hx => h x (List.mem_cons_of_mem _ hx)
    rw [setById]
    split
    · next hid =>
      have hx := h x List.mem_cons_self hid
      subst hx
      simp
    · rw [List.mem_cons, hih, List.mem_cons, or_left_comm]

theorem mem_foldl_setById (h : UniqueIds (acc ++ l)) :
    y ∈ l.foldl (fun byId m => setById m byId) acc ↔ y ∈ acc ∨ y ∈ l := by
  induction l generalizing acc with
  | nil => simp
  | cons m l ih =>
    have hset : ∀ x, x ∈ setById m acc ↔ x = m ∨ x ∈ acc := fun x =>
      mem_setById fun x hx hid => h x (by simp [hx]) m (by simp) hid
    rw [List.foldl_cons, ih, hset, List.mem_cons, or_assoc, or_left_comm]
    refine h.of_subset fun x hx => ?_
    rcases List.mem_append.mp hx with hx | hx
    · rcases (hset x).mp hx with rfl | hx
      · simp
      · simp [hx]
    · simp [hx]

theorem mem_mergeMessages (h : UniqueIds (existing ++ incoming)) :
    y ∈ mergeMessages existing incoming ↔ y ∈ existing ∨ y ∈ incoming := by
  rw [mergeMessages, List.mem_insertionSort, mem_foldl_setById (by simpa using h), List.mem_append]
  simp

/-- A page of messages stays as it is. -/
theorem mergeMessages_nil (hids : l.Pairwise (·.id ≠ ·.id))
    (hascending : l.Pairwise (·.eventSequence < ·.eventSequence)) : mergeMessages [] l = l := by
  have hset : ∀ {acc : List TaskMessage} {m : TaskMessage}, (∀ x ∈ acc, x.id ≠ m.id) →
      setById m acc = acc ++ [m] := by
    intro acc m h
    induction acc with
    | nil => rfl
    | cons x xs ih =>
      rw [setById, if_neg (h x List.mem_cons_self), ih fun x hx => h x (List.mem_cons_of_mem _ hx)]
      rfl
  have hfold : ∀ {acc l : List TaskMessage}, (acc ++ l).Pairwise (·.id ≠ ·.id) →
      l.foldl (fun byId m => setById m byId) acc = acc ++ l := by
    intro acc l h
    induction l generalizing acc with
    | nil => simp
    | cons m l ih =>
      have hm : ∀ x ∈ acc, x.id ≠ m.id := fun x hx =>
        (List.pairwise_append.mp h).2.2 x hx m List.mem_cons_self
      rw [List.foldl_cons, hset hm, ih (by simpa using h)]
      simp
  rw [mergeMessages, List.nil_append, @hfold [] _ hids, List.nil_append]
  exact (hascending.imp le_of_lt).insertionSort_eq

end Merging

/-! ## Pages of messages -/

section Pages

variable {stored page : List TaskMessage} {after known : ℕ} {m : TaskMessage}

theorem fetchMessages_eq (hascending : stored.Pairwise (·.eventSequence < ·.eventSequence)) :
    fetchMessages stored after = (stored.filter (after < ·.eventSequence)).take messagesPageLimit := by
  have hsorted := (hascending.imp le_of_lt).filter fun m => decide (after < m.eventSequence)
  rw [fetchMessages, listTaskMessages, hsorted.insertionSort_eq]

theorem mem_of_mem_fetchMessages (hm : m ∈ fetchMessages stored after) :
    m ∈ stored ∧ after < m.eventSequence := by
  have h := List.mem_filter.mp ((List.mem_insertionSort _).mp (List.mem_of_mem_take hm))
  exact ⟨h.1, of_decide_eq_true h.2⟩

/-- A message after the cursor is on the page, or the page is full and ends before it. -/
theorem mem_fetchMessages (hascending : stored.Pairwise (·.eventSequence < ·.eventSequence))
    (hm : m ∈ stored) (hafter : after < m.eventSequence) :
    m ∈ fetchMessages stored after ∨ IsFull (fetchMessages stored after) ∧
      ∀ x ∈ fetchMessages stored after, x.eventSequence < m.eventSequence := by
  have hfilter : m ∈ stored.filter (after < ·.eventSequence) :=
    List.mem_filter.mpr ⟨hm, decide_eq_true hafter⟩
  have hsorted := hascending.filter fun m => decide (after < m.eventSequence)
  rw [fetchMessages_eq hascending]
  rw [← List.take_append_drop messagesPageLimit (stored.filter (after < ·.eventSequence))] at hfilter hsorted
  rcases List.mem_append.mp hfilter with htake | hdrop
  · exact .inl htake
  · refine .inr ⟨?_, fun x hx => (List.pairwise_append.mp hsorted).2.2 x hx m hdrop⟩
    have hlong := List.length_pos_of_mem hdrop
    rw [List.length_drop] at hlong
    rw [IsFull, List.length_take]
    omega

theorem le_foldl_max (l : List TaskMessage) (n : ℕ) :
    n ≤ l.foldl (fun n m => max n m.eventSequence) n ∧
      ∀ x ∈ l, x.eventSequence ≤ l.foldl (fun n m => max n m.eventSequence) n := by
  induction l generalizing n with
  | nil => exact ⟨le_rfl, fun x hx => by cases hx⟩
  | cons m l ih =>
    obtain ⟨hle, hall⟩ := ih (max n m.eventSequence)
    refine ⟨(le_max_left _ _).trans hle, fun x hx => ?_⟩
    rcases List.mem_cons.mp hx with rfl | hx
    · exact (le_max_right _ _).trans hle
    · exact hall x hx

theorem foldl_max_le {l : List TaskMessage} {n b : ℕ} (hn : n ≤ b) (h : ∀ x ∈ l, x.eventSequence ≤ b) :
    l.foldl (fun n m => max n m.eventSequence) n ≤ b := by
  induction l generalizing n with
  | nil => exact hn
  | cons m l ih =>
    exact ih (max_le hn (h m List.mem_cons_self)) fun x hx => h x (List.mem_cons_of_mem _ hx)

/-- The cursor of a full page is its last number. -/
theorem continuationCursor_of_full (hfull : IsFull page) : ∃ c, continuationCursor page = some c ∧
    (∀ x ∈ page, x.eventSequence ≤ c) ∧ ∀ b, (∀ x ∈ page, x.eventSequence ≤ b) → c ≤ b :=
  ⟨_, if_neg hfull, (le_foldl_max page 0).2, fun b hb => foldl_max_le (Nat.zero_le b) hb⟩

theorem continuationCursor_of_not_full (hfull : ¬ IsFull page) : continuationCursor page = none :=
  if_pos (not_not.mp hfull)

end Pages

/-! ## What the frames do to the messages -/

section Frames

variable {s s' s'' : ChatState}

/-- Nothing is taken from the list, and the cursor is not raised. -/
structure Extends (s s' : ChatState) : Prop where
  messages : ∀ m ∈ s.messages, m ∈ s'.messages
  pending : ∀ a, s.pendingRefetchAfter = some a → ∃ a', s'.pendingRefetchAfter = some a' ∧ a' ≤ a

theorem Extends.refl (s : ChatState) : Extends s s := ⟨fun _ hm => hm, fun a ha => ⟨a, ha, le_rfl⟩⟩

theorem Extends.trans (h : Extends s s') (h' : Extends s' s'') : Extends s s'' where
  messages m hm := h'.messages m (h.messages m hm)
  pending a ha := by
    obtain ⟨a', ha', hle⟩ := h.pending a ha
    obtain ⟨a'', ha'', hle'⟩ := h'.pending a' ha'
    exact ⟨a'', ha'', hle'.trans hle⟩

theorem extends_of_eq (hmessages : s'.messages = s.messages)
    (hpending : s'.pendingRefetchAfter = s.pendingRefetchAfter) : Extends s s' :=
  ⟨fun m hm => by rwa [hmessages], fun a ha => ⟨a, by rwa [hpending], le_rfl⟩⟩

/-- The messages and the cursor are the same. -/
def SameMessages (s s' : ChatState) : Prop :=
  s'.messages = s.messages ∧ s'.pendingRefetchAfter = s.pendingRefetchAfter

theorem applyStatusChanged_same (s : ChatState) (status : TaskStatus) (reason : Option AbortReason) :
    SameMessages s (applyStatusChanged s status reason) := by
  unfold applyStatusChanged withTerminalClear
  cases s.task with
  | none => exact ⟨rfl, rfl⟩
  | some task =>
    dsimp only
    split
    · exact ⟨rfl, rfl⟩
    · split <;> exact ⟨rfl, rfl⟩

/-- A frame adds to what is to be fetched. -/
theorem extends_applyFrameEvent (s : ChatState) (seq : Option ℕ) (f : ChatFrame) :
    Extends s (applyFrameEvent s seq f) ∧ (applyFrameEvent s seq f).messages = s.messages := by
  cases f with
  | messageSaved =>
    refine ⟨⟨fun m hm => hm, fun a ha => ?_⟩, rfl⟩
    refine ⟨min a (seq.getD 0 - 1), ?_, min_le_left _ _⟩
    show some (min (s.pendingRefetchAfter.getD _) _) = _
    rw [ha]
    rfl
  | statusChanged status reason =>
    have h := applyStatusChanged_same s status reason
    exact ⟨extends_of_eq h.1 h.2, h.1⟩
  | _ => exact ⟨extends_of_eq rfl rfl, rfl⟩

theorem extends_applyNumbered (s : ChatState) (item : ℕ × ChatFrame) :
    Extends s (applyNumbered s item) ∧ (applyNumbered s item).messages = s.messages := by
  obtain ⟨h, hmessages⟩ := extends_applyFrameEvent s (some item.1) item.2
  exact ⟨⟨h.messages, h.pending⟩, hmessages⟩

/-- A message that is announced will be fetched. -/
theorem applyNumbered_messageSaved (s : ChatState) (n : ℕ) :
    ∃ a, (applyNumbered s (n, .messageSaved)).pendingRefetchAfter = some a ∧ a ≤ n - 1 :=
  ⟨min (s.pendingRefetchAfter.getD (n - 1)) (n - 1), rfl, min_le_right _ _⟩

theorem foldl_applyNumbered_messages (items : List (ℕ × ChatFrame)) (s : ChatState) :
    Extends s (items.foldl applyNumbered s) ∧ (items.foldl applyNumbered s).messages = s.messages ∧
      ∀ n, (n, ChatFrame.messageSaved) ∈ items →
        ∃ a, (items.foldl applyNumbered s).pendingRefetchAfter = some a ∧ a ≤ n - 1 := by
  induction items generalizing s with
  | nil => exact ⟨.refl s, rfl, fun n hn => by cases hn⟩
  | cons i is ih =>
    obtain ⟨h, hmessages⟩ := extends_applyNumbered s i
    obtain ⟨hrest, hsame, hall⟩ := ih (applyNumbered s i)
    refine ⟨h.trans hrest, hsame.trans hmessages, fun n hn => ?_⟩
    rcases List.mem_cons.mp hn with rfl | hn
    · obtain ⟨a, ha, hle⟩ := applyNumbered_messageSaved s n
      obtain ⟨a', ha', hle'⟩ := hrest.pending a ha
      exact ⟨a', ha', hle'.trans hle⟩
    · exact hall n hn

theorem applySnapshotStatus_same (s : ChatState) (snapshot : EventsSnapshot) :
    SameMessages s (applySnapshotStatus s snapshot) := by
  unfold applySnapshotStatus
  split <;> exact ⟨rfl, rfl⟩

theorem pickSnapshotFields_same (s : ChatState) (task : Option ChatTask) :
    SameMessages s (pickSnapshotFields s task) := by
  unfold pickSnapshotFields
  split <;> exact ⟨rfl, rfl⟩

/-- An action that touches neither the messages nor the numbers. -/
theorem taskChatReducer_neutral {a : ChatAction} (ha : isNeutral a = true) (s : ChatState) :
    SameMessages s (taskChatReducer s a) ∧ (taskChatReducer s a).watermark = s.watermark ∧
      (taskChatReducer s a).phase = s.phase := by
  cases a with
  | loadSucceeded | loadMissing | loadFailed | frame | eventsApplied | messagesMerged | refetchFailed
  | sendAccepted | reset => cases ha
  | reconcileGiveUp | noticeSet | noticeCleared => exact ⟨⟨rfl, rfl⟩, rfl, rfl⟩
  | terminalAccepted cancelling task =>
    have h := pickSnapshotFields_same { s with roundCancelling := cancelling } task
    have hfields := pickSnapshotFields_fields { s with roundCancelling := cancelling } task
    unfold taskChatReducer
    dsimp only
    split <;> exact ⟨h, hfields.1, hfields.2.2⟩
  | roundFinalized task messages =>
    cases messages with
    | some => cases ha
    | none =>
      have h := pickSnapshotFields_same { s with finalizing := false, streaming := {} } task
      have hfields := pickSnapshotFields_fields { s with finalizing := false, streaming := {} } task
      exact ⟨h, hfields.1, hfields.2.2⟩
  | streamError status message =>
    unfold taskChatReducer
    dsimp only
    split <;> exact ⟨⟨rfl, rfl⟩, rfl, rfl⟩

end Frames

/-! ## The invariant -/

/-- The invariant. -/
structure Kept (p : ChatPage) : Prop where
  log : Numbered p.log
  announced : ∀ m ∈ p.stored, ∃ e ∈ p.log, Announces e m
  ascending : p.stored.Pairwise (·.eventSequence < ·.eventSequence)
  ids : p.stored.Pairwise (·.id ≠ ·.id)
  watermark : p.chat.watermark ≤ lastSequence p.log
  shown : ∀ m ∈ p.chat.messages, m ∈ p.stored
  bundle : ∀ known ∈ p.bundle, known ≤ p.stored.length
  fetch : ∀ f ∈ p.fetch, p.chat.phase = .loaded ∧ ∀ known ∈ f.known, known ≤ p.stored.length
  loading : p.chat.phase ≠ .loaded → p.chat = {}
  task : ∀ t ∈ p.task, ∃ w, t.eventSequence = some w ∧ w ≤ lastSequence p.log ∧
    ∀ known ∈ p.bundle, ∀ m ∈ p.stored, m.eventSequence ≤ w →
      m ∈ fetchMessages (p.stored.take known) 0 ∨ IsFull (fetchMessages (p.stored.take known) 0) ∧
        ∀ x ∈ fetchMessages (p.stored.take known) 0, x.eventSequence < m.eventSequence
  covered : Covered p

theorem kept_empty : Kept {} where
  log := by decide
  announced := fun m hm => by cases hm
  ascending := .nil
  ids := .nil
  watermark := Nat.le_refl 0
  shown := fun m hm => by cases hm
  bundle := fun known h => by cases h
  fetch := fun f h => by cases h
  loading := fun _ => rfl
  task := fun t h => by cases h
  covered := fun h => by cases h

section Steps

variable {p p' : ChatPage} {m : TaskMessage}

theorem Kept.pos (hp : Kept p) (hm : m ∈ p.stored) : 0 < m.eventSequence := by
  obtain ⟨e, he, hsequence, -⟩ := hp.announced m hm
  rw [← hsequence]
  exact (List.pairwise_cons.mp hp.log).1 _ (List.mem_map_of_mem he)

theorem Kept.le_last (hp : Kept p) (hm : m ∈ p.stored) : m.eventSequence ≤ lastSequence p.log := by
  obtain ⟨e, he, hsequence, -⟩ := hp.announced m hm
  rw [← hsequence]
  exact hp.log.le_lastSequence he

theorem Kept.uniqueIds (hp : Kept p) : UniqueIds p.stored := by
  have hnodup : (p.stored.map (·.id)).Nodup := List.pairwise_map.mpr hp.ids
  exact fun x hx y hy hid => List.inj_on_of_nodup_map hnodup hx hy hid

/-- The frame of a message is in the log. -/
theorem Announces.item {e : TaskEvent} (h : Announces e m) :
    eventItem e = some (m.eventSequence, .messageSaved m.id m.eventSequence m.author) := by
  rw [eventItem, h.2, h.1]
  rfl

theorem Within.mono (hext : Extends p.chat p'.chat) (h : Within p m) : Within p' m := by
  rcases h with hm | ⟨a, ha, hlt⟩
  · exact .inl (hext.messages m hm)
  · obtain ⟨a', ha', hle⟩ := hext.pending a ha
    exact .inr ⟨a', ha', hle.trans_lt hlt⟩

/-- The page of the state changes. -/
theorem Kept.chat {chat : ChatState} (hp : Kept p) (hphase : chat.phase = .loaded)
    (hwatermark : chat.watermark ≤ lastSequence p.log) (hshown : ∀ m ∈ chat.messages, m ∈ p.stored)
    (hcovered : ∀ m ∈ p.stored, m.eventSequence ≤ chat.watermark → Within { p with chat := chat } m) :
    Kept { p with chat := chat } :=
  ⟨hp.log, hp.announced, hp.ascending, hp.ids, hwatermark, hshown, hp.bundle,
    fun f hf => ⟨hphase, (hp.fetch f hf).2⟩, fun h => absurd hphase h, hp.task, fun _ => hcovered⟩

/-- The page goes on, and the watermark is where it was. -/
theorem Kept.extend {chat : ChatState} (hp : Kept p) (hloaded : p.chat.phase = .loaded)
    (hext : Extends p.chat chat) (hshown : ∀ m ∈ chat.messages, m ∈ p.stored)
    (hwatermark : chat.watermark = p.chat.watermark) (hphase : chat.phase = p.chat.phase) :
    Kept { p with chat := chat } :=
  hp.chat (hphase.trans hloaded) (hwatermark ▸ hp.watermark) hshown fun m hm hle =>
    (hp.covered hloaded m hm (hwatermark ▸ hle)).mono hext

/-! ### Commits and reads -/

theorem take_append {stored new : List TaskMessage} {known : ℕ} (h : known ≤ stored.length) :
    (stored ++ new).take known = stored.take known := List.take_append_of_le_length h

theorem Kept.commit {e : TaskEvent} {x : Option TaskMessage} (hp : Kept p) (he : Committable p e x) :
    Kept { p with log := p.log ++ [e], stored := p.stored ++ x.toList } := by
  obtain ⟨hsequence, -, hx⟩ := he
  have hgrown : lastSequence p.log ≤ lastSequence (p.log ++ [e]) := by
    rw [lastSequence_concat, hsequence]
    exact Nat.le_succ _
  have hnew : ∀ y ∈ x.toList, Announces e y ∧ lastSequence p.log < y.eventSequence ∧
      ∀ z ∈ p.stored, y.id ≠ z.id := by
    intro y hy
    obtain ⟨hannounces, hids⟩ := hx y (Option.mem_toList.mp hy)
    refine ⟨hannounces, ?_, hids⟩
    rw [← hannounces.1, hsequence]
    exact Nat.lt_succ_self _
  have hsingle : ∀ r : TaskMessage → TaskMessage → Prop, x.toList.Pairwise r := by
    intro r
    cases x with
    | none => exact .nil
    | some y => exact List.pairwise_singleton _ _
  refine ⟨hp.log.concat hsequence, fun m hm => ?_, ?_, ?_, hp.watermark.trans hgrown, fun m hm => ?_,
    fun known h => ?_, fun f hf => ⟨(hp.fetch f hf).1, fun known h => ?_⟩, hp.loading, fun t ht => ?_,
    fun hloaded m hm hle => ?_⟩
  · rcases List.mem_append.mp hm with hm | hm
    · obtain ⟨e', he', h⟩ := hp.announced m hm
      exact ⟨e', List.mem_append_left _ he', h⟩
    · exact ⟨e, by simp, (hnew m hm).1⟩
  · exact List.pairwise_append.mpr ⟨hp.ascending, hsingle _, fun z hz y hy =>
      (hp.le_last hz).trans_lt (hnew y hy).2.1⟩
  · exact List.pairwise_append.mpr ⟨hp.ids, hsingle _, fun z hz y hy => ((hnew y hy).2.2 z hz).symm⟩
  · exact List.mem_append_left _ (hp.shown m hm)
  · exact (hp.bundle known h).trans (by simp)
  · exact ((hp.fetch f hf).2 known h).trans (by simp)
  · obtain ⟨w, hw, hle, hknown⟩ := hp.task t ht
    refine ⟨w, hw, hle.trans hgrown, fun known h m hm hmw => ?_⟩
    show m ∈ fetchMessages ((p.stored ++ x.toList).take known) 0 ∨ _
    rw [take_append (hp.bundle known h)]
    rcases List.mem_append.mp hm with hm | hm
    · exact hknown known h m hm hmw
    · exact absurd (hmw.trans hle) (Nat.not_le.mpr (hnew m hm).2.1)
  · rcases List.mem_append.mp hm with hm | hm
    · exact hp.covered hloaded m hm hle
    · exact absurd (hle.trans hp.watermark) (Nat.not_le.mpr (hnew m hm).2.1)

/-- A message that came after an answer. -/
theorem Kept.lt_of_mem_drop {known : ℕ} {x : TaskMessage} (hp : Kept p) (hx : x ∈ p.stored.take known)
    (hm : m ∈ p.stored.drop known) : x.eventSequence < m.eventSequence := by
  have h := hp.ascending
  rw [← List.take_append_drop known p.stored] at h
  exact (List.pairwise_append.mp h).2.2 x hx m hm

/-- An answer and what came after it. -/
theorem Kept.mem_page {known after : ℕ} (hp : Kept p) (hm : m ∈ p.stored) (hafter : after < m.eventSequence) :
    m ∈ fetchMessages (p.stored.take known) after ∨
      (IsFull (fetchMessages (p.stored.take known) after) ∧
        ∀ x ∈ fetchMessages (p.stored.take known) after, x.eventSequence < m.eventSequence) ∨
      m ∈ p.stored.drop known := by
  have hsplit := hm
  rw [← List.take_append_drop known p.stored] at hsplit
  rcases List.mem_append.mp hsplit with hm | hm
  · have hascending := hp.ascending.sublist (List.take_sublist known p.stored)
    rcases mem_fetchMessages hascending hm hafter with h | h
    · exact .inl h
    · exact .inr (.inl h)
  · exact .inr (.inr hm)

theorem mem_stored_of_page {known after : ℕ} {stored : List TaskMessage}
    (hm : m ∈ fetchMessages (stored.take known) after) : m ∈ stored :=
  List.mem_of_mem_take (mem_of_mem_fetchMessages hm).1

theorem Kept.readTask {status : TaskStatus} (hp : Kept p) (htimely : Timely p (.readTask status)) :
    Kept { p with task := some { status := status, eventSequence := some (lastSequence p.log) } } := by
  refine ⟨hp.log, hp.announced, hp.ascending, hp.ids, hp.watermark, hp.shown, hp.bundle, hp.fetch,
    hp.loading, fun t ht => ?_, hp.covered⟩
  cases ht
  refine ⟨_, rfl, le_rfl, fun known h m hm _ => ?_⟩
  rcases @Kept.mem_page _ _ known _ hp hm (hp.pos hm) with hpage | hbeyond | hdrop
  · exact .inl hpage
  · exact .inr hbeyond
  · rcases htimely known h with hfull | hall
    · exact .inr ⟨hfull, fun x hx => hp.lt_of_mem_drop (mem_of_mem_fetchMessages hx).1 hdrop⟩
    · rw [List.drop_eq_nil_of_le hall] at hdrop
      cases hdrop

theorem Kept.readBundle (hp : Kept p) : Kept { p with bundle := some p.stored.length } := by
  refine ⟨hp.log, hp.announced, hp.ascending, hp.ids, hp.watermark, hp.shown, fun known h => ?_, hp.fetch,
    hp.loading, fun t ht => ?_, hp.covered⟩
  · cases h
    exact le_rfl
  · obtain ⟨w, hw, hle, -⟩ := hp.task t ht
    refine ⟨w, hw, hle, fun known h m hm _ => ?_⟩
    cases h
    have hnone : p.stored.drop p.stored.length = [] := List.drop_length
    rcases @Kept.mem_page _ _ p.stored.length _ hp hm (hp.pos hm) with hpage | hbeyond | hdrop
    · exact .inl hpage
    · exact .inr hbeyond
    · rw [hnone] at hdrop
      cases hdrop

/-! ### The page -/

/-- The first load. -/
theorem Kept.load {t : ChatTask} {known : ℕ} (hp : Kept p) (hphase : p.chat.phase = .loading)
    (ht : p.task = some t) (hknown : p.bundle = some known) :
    Kept { p with
      chat := taskChatReducer p.chat (.loadSucceeded t (fetchMessages (p.stored.take known) 0)) } := by
  have hascending := hp.ascending.sublist (List.take_sublist known p.stored)
  have hempty := hp.loading (by rw [hphase]; simp)
  obtain ⟨w, hw, hle, hall⟩ := hp.task t ht
  have hpage : mergeMessages [] (fetchMessages (p.stored.take known) 0) =
      fetchMessages (p.stored.take known) 0 := by
    have hids := hp.ids.sublist (List.take_sublist known p.stored)
    rw [fetchMessages_eq hascending]
    exact mergeMessages_nil (hids.sublist ((List.take_sublist _ _).trans List.filter_sublist))
      (hascending.sublist ((List.take_sublist _ _).trans List.filter_sublist))
  have hwatermark : (taskChatReducer p.chat
      (.loadSucceeded t (fetchMessages (p.stored.take known) 0))).watermark = w := by
    rw [hempty]
    simp only [taskChatReducer, hw, Option.bind_some, sequenceId]
    cases w <;> rfl
  refine hp.chat rfl (hwatermark ▸ hle) (fun m hm => ?_) fun m hm hmw => ?_
  · have hm' : m ∈ mergeMessages [] (fetchMessages (p.stored.take known) 0) := hm
    rw [hpage] at hm'
    exact mem_stored_of_page hm'
  · rw [hwatermark] at hmw
    rcases hall known hknown m hm hmw with hm' | ⟨hfull, hbefore⟩
    · left
      show m ∈ mergeMessages [] _
      rwa [hpage]
    · obtain ⟨c, hc, -, hleast⟩ := continuationCursor_of_full hfull
      have hcm : c ≤ m.eventSequence - 1 := hleast _ fun x hx => Nat.le_sub_one_of_lt (hbefore x hx)
      refine .inr ⟨c, ?_, hcm.trans_lt (Nat.sub_one_lt_of_lt (hp.pos hm))⟩
      show (continuationCursor (mergeMessages [] _)).or _ = some c
      rw [hpage, hc]
      rfl

/-- A frame of the log that announces no message leaves none behind, and one that does has it fetched. -/
theorem Kept.frame {i : ℕ × EventFrame} (hp : Kept p) (hloaded : p.chat.phase = .loaded)
    (hi : i ∈ visible p.log) (htimely : p.chat.watermark < i.1 → NoMessageBefore p i.1) :
    Kept { p with chat := taskChatReducer p.chat (.frame (some i.1) (.ofEventFrame i.2)) } := by
  have hid : sequenceId i.1 = some i.1 := if_pos (hp.log.pos hi)
  have hreduced : taskChatReducer p.chat (.frame (some i.1) (.ofEventFrame i.2)) =
      if i.1 ≤ p.chat.watermark then p.chat else applyNumbered p.chat (i.1, .ofEventFrame i.2) := by
    rw [taskChatReducer, Option.bind_some, hid]
    rfl
  rw [hreduced]
  split
  · exact hp
  · next habove =>
    obtain ⟨hext, hmessages⟩ := extends_applyNumbered p.chat (i.1, .ofEventFrame i.2)
    obtain ⟨-, -, hphase⟩ := applyNumbered_fields p.chat (i.1, .ofEventFrame i.2)
    refine hp.chat (hphase.trans hloaded) (hp.log.visible_le hi) (by rw [hmessages]; exact hp.shown)
      fun m hm hle => ?_
    by_cases hold : m.eventSequence ≤ p.chat.watermark
    · exact (hp.covered hloaded m hm hold).mono hext
    · have hsame : m.eventSequence = i.1 := Nat.le_antisymm hle
        (htimely (Nat.lt_of_not_le habove) m hm (Nat.lt_of_not_le hold))
      obtain ⟨e, he, hannounces⟩ := hp.announced m hm
      obtain ⟨e', he', hitem, hsequence⟩ := mem_visible hi
      have hevent : e' = e := by
        have hnodup : (p.log.map (·.sequence)).Nodup :=
          (List.pairwise_cons.mp hp.log).2.imp Nat.ne_of_lt
        exact List.inj_on_of_nodup_map hnodup he' he (by rw [← hsequence, ← hsame, hannounces.1])
      rw [hevent, hannounces.item] at hitem
      cases hitem
      obtain ⟨a, ha, hle'⟩ := applyNumbered_messageSaved p.chat m.eventSequence
      exact .inr ⟨a, ha, hle'.trans_lt (Nat.sub_one_lt_of_lt (hp.pos hm))⟩

theorem Kept.transient {f : ChatFrame} (hp : Kept p) (hloaded : p.chat.phase = .loaded) :
    Kept { p with chat := taskChatReducer p.chat (.frame none f) } := by
  obtain ⟨hext, hmessages⟩ := extends_applyFrameEvent p.chat none f
  obtain ⟨hwatermark, -, hphase⟩ := applyFrameEvent_fields p.chat none f
  refine hp.extend hloaded hext (fun m hm => hp.shown m ?_) hwatermark hphase
  rw [← hmessages]
  exact hm

/-- A send: what it announces is fetched, and it passes no other message. -/
theorem Kept.send {content : String} {x : TaskMessage} {watermarkSeq : ℕ} (hp : Kept p)
    (hloaded : p.chat.phase = .loaded) (hx : x ∈ p.stored) (hbound : watermarkSeq ≤ lastSequence p.log)
    (htimely : NoMessageBefore p x.eventSequence) :
    Kept { p with
      chat := taskChatReducer p.chat (.sendAccepted content (some x.eventSequence) (some watermarkSeq)) } := by
  have hpending : min (p.chat.pendingRefetchAfter.getD (x.eventSequence - 1)) (x.eventSequence - 1) ≤
      x.eventSequence - 1 := min_le_right _ _
  have hext : Extends p.chat
      (taskChatReducer p.chat (.sendAccepted content (some x.eventSequence) (some watermarkSeq))) := by
    refine ⟨fun m hm => hm, fun a ha => ⟨min a (x.eventSequence - 1), ?_, min_le_left _ _⟩⟩
    show some (min (p.chat.pendingRefetchAfter.getD _) _) = _
    rw [ha]
    rfl
  refine hp.chat hloaded (max_le hp.watermark hbound) hp.shown fun m hm hle => ?_
  by_cases hold : m.eventSequence ≤ p.chat.watermark
  · exact (hp.covered hloaded m hm hold).mono hext
  · have hafter := htimely m hm (Nat.lt_of_not_le hold)
    refine .inr ⟨_, rfl, hpending.trans_lt ?_⟩
    exact (Nat.sub_one_lt_of_lt (hp.pos hx)).trans_le hafter

/-- A page of events, which the server has read before. -/
theorem Kept.events {known after : ℕ} {snapshot : EventsSnapshot} (hp : Kept p)
    (hloaded : p.chat.phase = .loaded) (htimely : Timely p (.events known after snapshot)) :
    Kept { p with chat := taskChatReducer p.chat <|
      .eventsApplied (chatItems (fetchEvents (p.log.take known) after)) snapshot } := by
  have hlog : Numbered (p.log.take known) :=
    hp.log.sublist (((List.take_sublist known p.log).map _).cons_cons 0)
  obtain ⟨rest, hrest⟩ := hlog.fetchEvents after
  dsimp only [Timely] at htimely
  generalize fetchEvents (p.log.take known) after = page at htimely hrest ⊢
  have hordered : Ascending (page ++ rest) := hrest ▸ hlog.ascending.itemsAfter
  have hascending : Ascending page := (List.pairwise_append.mp hordered).1
  have hvisible : ∀ i ∈ page, i ∈ visible (p.log.take known) ∧ after < i.1 := fun i hi =>
    mem_itemsAfter.mp (hrest ▸ List.mem_append_left rest hi)
  have hpos : ∀ i ∈ page, 0 < i.1 := fun i hi => hlog.pos (hvisible i hi).1
  have hchat : taskChatReducer p.chat (.eventsApplied (chatItems page) snapshot) = applyTarget
      (applySnapshotStatus ((chatItems (itemsAfter p.chat.watermark page)).foldl applyNumbered p.chat)
        snapshot) snapshot.eventSequence := by
    have hpos' : ∀ i ∈ chatItems page, 0 < i.1 := by
      intro i hi
      obtain ⟨j, hj, rfl⟩ := List.mem_map.mp hi
      exact hpos j hj
    rw [taskChatReducer, applyEvents_eq hpos', chatItems, accepted_map, accepted_eq hascending]
    rfl
  obtain ⟨hext, hmessages, hannounced⟩ :=
    foldl_applyNumbered_messages (chatItems (itemsAfter p.chat.watermark page)) p.chat
  obtain ⟨hsame, hsamePending⟩ := applySnapshotStatus_same
    ((chatItems (itemsAfter p.chat.watermark page)).foldl applyNumbered p.chat) snapshot
  obtain ⟨hwatermark, hphase, -⟩ := @TaskPage.eventsApplied_fields _ snapshot p.chat hpos
  rw [accepted_eq hascending] at hwatermark
  refine hp.chat (hphase.trans hloaded) ?_ (fun m hm => hp.shown m ?_) fun m hm hle => ?_
  · rw [hwatermark]
    rcases lastNumber_cases p.chat.watermark (itemsAfter p.chat.watermark page) with ⟨-, hlast⟩ | ⟨i, hi, hlast⟩
    · rw [hlast]
      exact hp.watermark
    · rw [hlast]
      obtain ⟨e, he, -, hsequence⟩ := mem_visible (hvisible i (mem_itemsAfter.mp hi).1).1
      rw [hsequence]
      exact hp.log.le_lastSequence (List.mem_of_mem_take he)
  · rw [hchat] at hm
    rw [← hmessages, ← hsame]
    exact hm
  · by_cases hold : m.eventSequence ≤ p.chat.watermark
    · have hext' : Extends p.chat (taskChatReducer p.chat (.eventsApplied (chatItems page) snapshot)) := by
        rw [hchat]
        exact hext.trans (extends_of_eq hsame hsamePending)
      exact (hp.covered hloaded m hm hold).mono hext'
    -- the page goes beyond the message, and holds its frame
    · rw [hwatermark] at hle
      rcases lastNumber_cases p.chat.watermark (itemsAfter p.chat.watermark page) with
        ⟨-, hlast⟩ | ⟨x, hx, hlast⟩
      · rw [hlast] at hle
        exact absurd hle hold
      rw [hlast] at hle
      have hframe : (m.eventSequence, ChatFrame.messageSaved) ∈
          chatItems (itemsAfter p.chat.watermark page) := by
        obtain ⟨e, he, hannounces⟩ := hp.announced m hm
        have he' : e ∈ p.log.take known := by
          rw [← List.take_append_drop known p.log] at he
          rcases List.mem_append.mp he with he | he
          · exact he
          · obtain ⟨e', he', -, hsequence⟩ := mem_visible (hvisible x (mem_itemsAfter.mp hx).1).1
            have hsorted := hp.log.pairwise
            rw [← List.take_append_drop known p.log] at hsorted
            have hlt := (List.pairwise_append.mp hsorted).2.2 e' he' e he
            rw [hannounces.1, ← hsequence] at hlt
            exact absurd hle (Nat.not_le.mpr hlt)
        have hitem : (m.eventSequence, EventFrame.messageSaved m.id m.eventSequence m.author) ∈
            visible (p.log.take known) := List.mem_filterMap.mpr ⟨e, he', hannounces.item⟩
        have hafter : after < m.eventSequence := by
          obtain ⟨y, hy⟩ : ∃ y, (itemsAfter p.chat.watermark page).head? = some y :=
            Option.isSome_iff_exists.mp (List.isSome_head?.mpr (List.ne_nil_of_mem hx))
          have hymem := List.mem_of_mem_head? hy
          exact (hvisible y (mem_itemsAfter.mp hymem).1).2.trans_le
            (htimely y hy m hm (Nat.lt_of_not_le hold))
        have hmem : (m.eventSequence, EventFrame.messageSaved m.id m.eventSequence m.author) ∈ page := by
          have h := mem_itemsAfter.mpr ⟨hitem, hafter⟩
          rw [hrest] at h
          rcases List.mem_append.mp h with h | h
          · exact h
          · exact absurd hle (Nat.not_le.mpr
              ((List.pairwise_append.mp hordered).2.2 x (mem_itemsAfter.mp hx).1 _ h))
        exact List.mem_map.mpr ⟨_, mem_itemsAfter.mpr ⟨hmem, Nat.lt_of_not_le hold⟩, rfl⟩
      obtain ⟨a, ha, hle'⟩ := hannounced _ hframe
      refine .inr ⟨a, ?_, hle'.trans_lt (Nat.sub_one_lt_of_lt (hp.pos hm))⟩
      show (taskChatReducer p.chat _).pendingRefetchAfter = some a
      rw [hchat]
      exact hsamePending.trans ha

/-! ### Answers with messages -/

/-- Messages of the server are added to those that are shown. -/
theorem Kept.mem_merge {known after : ℕ} {y : TaskMessage} (hp : Kept p) :
    y ∈ mergeMessages p.chat.messages (fetchMessages (p.stored.take known) after) ↔
      y ∈ p.chat.messages ∨ y ∈ fetchMessages (p.stored.take known) after := by
  refine mem_mergeMessages (hp.uniqueIds.of_subset fun x hx => ?_)
  rcases List.mem_append.mp hx with hx | hx
  · exact hp.shown x hx
  · exact mem_stored_of_page hx

theorem Kept.finalize {task : Option ChatTask} {known after : ℕ} (hp : Kept p)
    (hloaded : p.chat.phase = .loaded) :
    Kept { p with chat := taskChatReducer p.chat <|
      .roundFinalized task (some (fetchMessages (p.stored.take known) after)) } := by
  obtain ⟨hmessages, hpending⟩ := pickSnapshotFields_same { p.chat with finalizing := false, streaming := {} } task
  obtain ⟨hwatermark, -, hphase⟩ :=
    pickSnapshotFields_fields { p.chat with finalizing := false, streaming := {} } task
  have hmerged : (taskChatReducer p.chat
      (.roundFinalized task (some (fetchMessages (p.stored.take known) after)))).messages =
      mergeMessages p.chat.messages (fetchMessages (p.stored.take known) after) := by
    show mergeMessages (pickSnapshotFields _ task).messages _ = _
    rw [hmessages]
  refine hp.extend hloaded ⟨fun m hm => ?_, fun a ha => ⟨a, hpending.trans ha, le_rfl⟩⟩ (fun m hm => ?_)
    hwatermark hphase
  · rw [hmerged]
    exact hp.mem_merge.mpr (.inl hm)
  · rw [hmerged] at hm
    rcases hp.mem_merge.mp hm with hm | hm
    · exact hp.shown m hm
    · exact mem_stored_of_page hm

/-- What a merge makes of the messages. -/
theorem Kept.mem_backfill {known after : ℕ} {y : TaskMessage} (hp : Kept p) :
    y ∈ (mergeBackfilledMessages p.chat (fetchMessages (p.stored.take known) after)).messages ↔
      y ∈ p.chat.messages ∨ y ∈ fetchMessages (p.stored.take known) after := by
  unfold mergeBackfilledMessages
  split
  · next hnone => simp [hnone]
  · exact hp.mem_merge

theorem mergeBackfilledMessages_pending (s : ChatState) (incoming : List TaskMessage) :
    (mergeBackfilledMessages s incoming).pendingRefetchAfter = s.pendingRefetchAfter := by
  unfold mergeBackfilledMessages
  split <;> rfl

/-- The answer of the effect. -/
theorem Kept.merge {known after : ℕ} (hp : Kept p) (hfetch : p.fetch = some ⟨after, some known⟩)
    (htimely : Timely p .merge) :
    Kept { p with
      fetch := none
      chat := taskChatReducer p.chat (.messagesMerged after (fetchMessages (p.stored.take known) after)) } := by
  have hloaded := (hp.fetch _ hfetch).1
  have hmem := @Kept.mem_backfill p known after
  have hpending := mergeBackfilledMessages_pending p.chat (fetchMessages (p.stored.take known) after)
  obtain ⟨hwatermark, -, hphase⟩ := TaskPage.mergeBackfilledMessages_fields p.chat
    (fetchMessages (p.stored.take known) after)
  have hpage := @Kept.mem_page p
  dsimp only [Timely] at htimely
  rw [hfetch] at htimely
  dsimp only at htimely
  -- a message whose cursor the merge has passed
  have hkept {next : ChatState} (hnext : next = taskChatReducer p.chat
      (.messagesMerged after (fetchMessages (p.stored.take known) after)))
      (hmessages : next.messages =
        (mergeBackfilledMessages p.chat (fetchMessages (p.stored.take known) after)).messages)
      (hphase' : next.phase = p.chat.phase) (hwatermark' : next.watermark = p.chat.watermark)
      (hdebt : ∀ m ∈ p.stored, m.eventSequence ≤ p.chat.watermark → ∀ b, p.chat.pendingRefetchAfter = some b →
        b < m.eventSequence → m ∈ next.messages ∨
          ∃ a, next.pendingRefetchAfter = some a ∧ a < m.eventSequence) :
      Kept { p with fetch := none, chat := next } := by
    have hchat := @Kept.chat _ next hp (hphase'.trans hloaded) (hwatermark'.trans_le hp.watermark)
      (fun m hm => ?_) fun m hm hle => ?_
    · exact ⟨hchat.log, hchat.announced, hchat.ascending, hchat.ids, hchat.watermark, hchat.shown,
        hchat.bundle, fun f hf => (by cases hf), hchat.loading, hchat.task, hchat.covered⟩
    · rw [hmessages] at hm
      rcases (hmem hp).mp hm with hm | hm
      · exact hp.shown m hm
      · exact mem_stored_of_page hm
    · rw [hwatermark'] at hle
      rcases hp.covered hloaded m hm hle with hold | ⟨b, hb, hlt⟩
      · left
        show m ∈ next.messages
        rw [hmessages]
        exact (hmem hp).mpr (.inl hold)
      · exact hdebt m hm hle b hb hlt
  by_cases hfull : IsFull (fetchMessages (p.stored.take known) after)
  · obtain ⟨c, hc, hmax, hleast⟩ := continuationCursor_of_full hfull
    rw [if_pos hfull] at htimely
    have hnext : taskChatReducer p.chat
        (.messagesMerged after (fetchMessages (p.stored.take known) after)) =
        { mergeBackfilledMessages p.chat (fetchMessages (p.stored.take known) after) with
          pendingRefetchAfter := some (max c (p.chat.pendingRefetchAfter.getD 0)) } := by
      rw [taskChatReducer, hc, hpending]
    rw [hnext]
    refine hkept hnext.symm rfl hphase hwatermark fun m hm hle b hb hlt => ?_
    rcases hpage hp hm ((htimely b hb).trans_lt hlt) with h | ⟨-, hbefore⟩ | hdrop
    · exact .inl ((hmem hp).mpr (.inr h))
    · have hcm : c ≤ m.eventSequence - 1 := hleast _ fun x hx => Nat.le_sub_one_of_lt (hbefore x hx)
      refine .inr ⟨_, rfl, ?_⟩
      rw [hb]
      exact max_lt (hcm.trans_lt (Nat.sub_one_lt_of_lt (hp.pos hm))) hlt
    · have hcm : c ≤ m.eventSequence - 1 := hleast _ fun x hx =>
        Nat.le_sub_one_of_lt (hp.lt_of_mem_drop (mem_of_mem_fetchMessages hx).1 hdrop)
      refine .inr ⟨_, rfl, ?_⟩
      rw [hb]
      exact max_lt (hcm.trans_lt (Nat.sub_one_lt_of_lt (hp.pos hm))) hlt
  · have hc := continuationCursor_of_not_full hfull
    rw [if_neg hfull] at htimely
    by_cases hsame : p.chat.pendingRefetchAfter = some after
    · have hnext : taskChatReducer p.chat
          (.messagesMerged after (fetchMessages (p.stored.take known) after)) =
          { mergeBackfilledMessages p.chat (fetchMessages (p.stored.take known) after) with
            pendingRefetchAfter := none } := by
        rw [taskChatReducer, hc]
        exact if_pos hsame
      rw [hnext]
      refine hkept hnext.symm rfl hphase hwatermark fun m hm hle b hb hlt => .inl ?_
      rw [hsame] at hb
      cases hb
      rcases hpage hp hm hlt with h | ⟨hfull', -⟩ | hdrop
      · exact (hmem hp).mpr (.inr h)
      · exact absurd hfull' hfull
      · rcases htimely hsame m hdrop with h | h
        · exact (hmem hp).mpr (.inl h)
        · exact absurd hle (Nat.not_le.mpr h)
    · have hnext : taskChatReducer p.chat
          (.messagesMerged after (fetchMessages (p.stored.take known) after)) =
          mergeBackfilledMessages p.chat (fetchMessages (p.stored.take known) after) := by
        rw [taskChatReducer, hc]
        exact if_neg hsame
      rw [hnext]
      exact hkept hnext.symm rfl hphase hwatermark fun m hm hle b hb hlt =>
        .inr ⟨b, hpending.trans hb, hlt⟩

end Steps

/-! ## Every run -/

theorem kept_step {p p' : ChatPage} {a : ChatPageAction} (hp : Kept p) (htimely : Timely p a)
    (hstep : chatSystem.step p a = .ok p') : Kept p' := by
  cases a with
  | commit e m =>
    obtain ⟨he, hstep⟩ := ite_ok_else_error.mp hstep
    cases hstep
    exact hp.commit he
  | readTask status =>
    obtain ⟨-, hstep⟩ := ite_ok_else_error.mp hstep
    cases hstep
    exact hp.readTask htimely
  | readBundle =>
    obtain ⟨-, hstep⟩ := ite_ok_else_error.mp hstep
    cases hstep
    exact hp.readBundle
  | load =>
    dsimp only [chatSystem] at hstep
    split at hstep
    · next task known hphase htask hbundle =>
      cases hstep
      exact hp.load hphase htask hbundle
    · cases hstep
  | frame i =>
    obtain ⟨⟨hloaded, hi⟩, hstep⟩ := ite_ok_else_error.mp hstep
    cases hstep
    exact hp.frame hloaded hi htimely
  | transient f =>
    obtain ⟨hloaded, hstep⟩ := ite_ok_else_error.mp hstep
    cases hstep
    exact hp.transient hloaded
  | events known after snapshot =>
    obtain ⟨hloaded, hstep⟩ := ite_ok_else_error.mp hstep
    cases hstep
    exact hp.events hloaded htimely
  | send content m watermarkSeq =>
    obtain ⟨⟨hloaded, hm, hbound⟩, hstep⟩ := ite_ok_else_error.mp hstep
    cases hstep
    exact hp.send hloaded hm hbound htimely
  | render =>
    obtain ⟨hloaded, hstep⟩ := ite_ok_else_error.mp hstep
    split at hstep
    · cases hstep
      exact hp
    · cases hstep
      refine ⟨hp.log, hp.announced, hp.ascending, hp.ids, hp.watermark, hp.shown, hp.bundle,
        fun f hf => ⟨hloaded, fun known h => ?_⟩, hp.loading, hp.task, hp.covered⟩
      obtain ⟨after, -, rfl⟩ := Option.map_eq_some_iff.mp hf
      cases h
  | readMessages =>
    dsimp only [chatSystem] at hstep
    split at hstep
    · next after hfetch =>
      cases hstep
      refine ⟨hp.log, hp.announced, hp.ascending, hp.ids, hp.watermark, hp.shown, hp.bundle,
        fun f hf => ⟨(hp.fetch _ hfetch).1, fun known h => ?_⟩, hp.loading, hp.task, hp.covered⟩
      cases hf
      cases h
      exact le_rfl
    · cases hstep
  | merge =>
    dsimp only [chatSystem] at hstep
    split at hstep
    · next after known hfetch =>
      cases hstep
      exact hp.merge hfetch htimely
    · cases hstep
  | finalize task known after =>
    obtain ⟨hloaded, hstep⟩ := ite_ok_else_error.mp hstep
    cases hstep
    exact hp.finalize hloaded
  | aside a =>
    obtain ⟨⟨hloaded, ha⟩, hstep⟩ := ite_ok_else_error.mp hstep
    cases hstep
    obtain ⟨⟨hmessages, hpending⟩, hwatermark, hphase⟩ := taskChatReducer_neutral ha p.chat
    exact hp.extend hloaded (extends_of_eq hmessages hpending)
      (fun m hm => hp.shown m (hmessages ▸ hm)) hwatermark hphase

/-- Where everything comes in time, the messages that the watermark has passed are shown or will be
fetched. -/
theorem covered_run {as : List ChatPageAction} (htimely : chatSystem.Guarded Timely {} as) :
    Covered (chatSystem.run {} as) :=
  (System.invariant_run_of_guarded (fun _ _ _ hp hG hstep => kept_step hp hG hstep) kept_empty htimely).covered

section Examples

/-- An event that announces a message. -/
def savedEvent (m : TaskMessage) : TaskEvent :=
  ⟨m.eventSequence, .messageSaved m.id m.eventSequence m.author, some m.id, none⟩

def question : TaskMessage := ⟨9, 1, .user, "hi"⟩

def answer : TaskMessage := ⟨12, 2, .assistant, "hello"⟩

def secondAnswer : TaskMessage := ⟨13, 3, .assistant, "there"⟩

/-- The page is loaded, and there is one message. -/
def loadedPage : List ChatPageAction :=
  [.commit (savedEvent question) (some question), .readTask .ready, .readBundle, .load]

/-- The answer is announced, fetched and merged. -/
def fetchedAnswer : List ChatPageAction :=
  [.commit (savedEvent answer) (some answer), .frame (2, .messageSaved 12 2 .assistant), .render,
    .readMessages, .merge]

/-- An answer that is fetched, another one that is announced afterwards, and a send. -/
theorem covered_send : Covered (chatSystem.run {} (loadedPage ++ fetchedAnswer ++
    [.commit (savedEvent secondAnswer) (some secondAnswer), .events 3 2 { eventSequence := 3 }, .render,
      .readMessages, .merge, .commit (savedEvent ⟨14, 4, .user, "go on"⟩) (some ⟨14, 4, .user, "go on"⟩),
      .commit ⟨5, .statusChanged .queued none, none, none⟩ none,
      .send "go on" ⟨14, 4, .user, "go on"⟩ 5])) :=
  covered_run (by decide +kernel)

/-- A message that is committed between the two reads of the first load; one that is announced after the
answer that clears the cursor; and one that a send passes. -/
theorem not_covered :
    ¬ Covered (chatSystem.run {}
      [.readBundle, .commit (savedEvent question) (some question), .readTask .running, .load]) ∧
    ¬ Covered (chatSystem.run {} (loadedPage ++
      [.commit (savedEvent answer) (some answer), .frame (2, .messageSaved 12 2 .assistant), .render,
        .readMessages, .commit (savedEvent secondAnswer) (some secondAnswer),
        .frame (3, .messageSaved 13 3 .assistant), .merge])) ∧
    ¬ Covered (chatSystem.run {} (loadedPage ++
      [.commit (savedEvent answer) (some answer), .commit ⟨3, .statusChanged .ready none, none, none⟩ none,
        .commit (savedEvent ⟨14, 4, .user, "go on"⟩) (some ⟨14, 4, .user, "go on"⟩),
        .commit ⟨5, .statusChanged .queued none, none, none⟩ none,
        .commit ⟨6, .roundQueued 200 none, none, some 200⟩ none,
        .send "go on" ⟨14, 4, .user, "go on"⟩ 6])) := by
  refine ⟨fun h => ?_, fun h => ?_, fun h => ?_⟩
  · exact absurd (h (by decide +kernel) question (by decide +kernel) (by decide +kernel))
      (by unfold Within; decide +kernel)
  · exact absurd (h (by decide +kernel) secondAnswer (by decide +kernel) (by decide +kernel))
      (by unfold Within; decide +kernel)
  · exact absurd (h (by decide +kernel) answer (by decide +kernel) (by decide +kernel))
      (by unfold Within; decide +kernel)

end Examples

end AgentCraft.Web
