import AgentCraft.Tasking.Providers
import Mathlib.Data.List.Range
import Mathlib.Logic.Relation

/-!
# The event log of a task

The counter `event_sequence` with the events and messages that carry its numbers. Everything that
appends to the log does so in two elementary steps (`Log.Step`): an event, or a message together with its
`message_saved` event, each under the next number. A log built by such steps is dense.
-/

namespace AgentCraft.Tasking

/-- The columns and child tables that event numbers live in. -/
structure Log where
  sequence : ℕ
  events : List TaskEvent
  messages : List TaskMessage
deriving DecidableEq, Repr

def Task.log (t : Task) : Log := ⟨t.eventSequence, t.events, t.messages⟩

namespace Log

/-- Append an event under the next number. -/
def event (l : Log) (body : EventBody) (rid : Option RoundId) : Log :=
  { l with sequence := l.sequence + 1, events := l.events ++ [⟨l.sequence + 1, body, none, rid⟩] }

/-- Append a message and its event under the next number. -/
def message (l : Log) (mid : MessageId) (author : MessageAuthor) (content : String)
    (rid : Option RoundId) : Log where
  sequence := l.sequence + 1
  events := l.events ++
    [⟨l.sequence + 1, .messageSaved mid (l.sequence + 1) author, some mid, rid⟩]
  messages := l.messages ++ [⟨mid, l.sequence + 1, author, content⟩]

/-- The elementary steps. -/
inductive Step : Log → Log → Prop
  | event (l : Log) (body : EventBody) (rid : Option RoundId) (h : body.isMessageSaved = false) :
      Step l (l.event body rid)
  | message (l : Log) (mid : MessageId) (author : MessageAuthor) (content : String)
      (rid : Option RoundId) : Step l (l.message mid author content rid)

/-- A log extends another by elementary steps. -/
def Extends (l l' : Log) : Prop := Relation.ReflTransGen Step l l'

theorem Extends.refl (l : Log) : Extends l l := Relation.ReflTransGen.refl

theorem Extends.trans {l₁ l₂ l₃ : Log} (h : Extends l₁ l₂) (h' : Extends l₂ l₃) : Extends l₁ l₃ :=
  Relation.ReflTransGen.trans h h'

theorem Step.extends {l l' : Log} (h : Step l l') : Extends l l' := Relation.ReflTransGen.single h

/-! ## Density -/

/-- The `message_saved` event that announces a message. -/
def Announces (e : TaskEvent) (m : TaskMessage) : Prop :=
  e.sequence = m.eventSequence ∧ e.body = .messageSaved m.id m.eventSequence m.author ∧
    e.messageId = some m.id

/-- The numbers of the events are `1, …, sequence`, each once and in order, and every message is
announced by an event. -/
structure Dense (l : Log) : Prop where
  numbers : l.events.map (·.sequence) = List.range' 1 l.sequence
  announced : ∀ m ∈ l.messages, ∃ e ∈ l.events, Announces e m

/-- What readers of the log rely on: the numbers `1, …, sequence` are used once each, and every message
carries the number of exactly one event, which announces it. -/
structure Exact (l : Log) : Prop where
  numbers : l.events.map (·.sequence) = List.range' 1 l.sequence
  saved : ∀ m ∈ l.messages, ∃ e ∈ l.events, Announces e m ∧
    ∀ e' ∈ l.events, e'.sequence = m.eventSequence → e' = e

theorem dense_empty : Dense ⟨0, [], []⟩ := ⟨rfl, by simp⟩

/-- Appending one event under the next number keeps the numbering. -/
theorem Dense.numbers_append {l : Log} (h : l.Dense) {e : TaskEvent}
    (he : e.sequence = l.sequence + 1) :
    (l.events ++ [e]).map (·.sequence) = List.range' 1 (l.sequence + 1) := by
  rw [List.map_append, h.numbers, List.range'_concat, List.map_singleton, he]
  simp [Nat.add_comm]

theorem Step.dense {l l' : Log} (h : Step l l') (hl : l.Dense) : l'.Dense := by
  cases h with
  | event body rid _ =>
    refine ⟨hl.numbers_append rfl, ?_⟩
    intro m hm
    obtain ⟨e, he, ha⟩ := hl.announced m hm
    exact ⟨e, List.mem_append_left _ he, ha⟩
  | message mid author content rid =>
    refine ⟨hl.numbers_append rfl, ?_⟩
    intro m hm
    rcases List.mem_append.mp hm with hm | hm
    · obtain ⟨e, he, ha⟩ := hl.announced m hm
      exact ⟨e, List.mem_append_left _ he, ha⟩
    · obtain rfl := List.mem_singleton.mp hm
      exact ⟨_, List.mem_append_right _ (List.mem_singleton.mpr rfl), rfl, rfl, rfl⟩

theorem Extends.dense {l l' : Log} (h : Extends l l') (hl : l.Dense) : l'.Dense := by
  induction h with
  | refl => exact hl
  | tail _ hstep ih => exact hstep.dense ih

/-- In a dense log, a number belongs to one event. -/
theorem Dense.eq_of_sequence_eq {l : Log} (h : l.Dense) {e e' : TaskEvent} (he : e ∈ l.events)
    (he' : e' ∈ l.events) (hs : e.sequence = e'.sequence) : e = e' := by
  refine List.inj_on_of_nodup_map ?_ he he' hs
  rw [h.numbers]
  exact List.nodup_range'

theorem Dense.exact {l : Log} (h : l.Dense) : l.Exact := by
  refine ⟨h.numbers, fun m hm => ?_⟩
  obtain ⟨e, he, ha⟩ := h.announced m hm
  exact ⟨e, he, ha, fun e' he' hs => h.eq_of_sequence_eq he' he (hs.trans ha.1.symm)⟩

end Log

/-! ## The log under the task operations -/

namespace Task

@[simp] theorem saveMessage_log (t : Task) (mid author content rid) :
    (t.saveMessage mid author content rid).log = t.log.message mid author content rid := rfl

/-- The events of a batch, under consecutive numbers. -/
@[grind] def numbered (n : ℕ) : List (EventBody × Option RoundId) → List TaskEvent
  | [] => []
  | e :: es => ⟨n, e.1, none, e.2⟩ :: numbered (n + 1) es

theorem addEvents_eq (es : List (EventBody × Option RoundId)) (t : Task) (n : ℕ) :
    t.addEvents n es = { t with events := t.events ++ numbered n es } := by
  induction es generalizing t n with
  | nil => simp [addEvents, numbered]
  | cons e es ih => simp [addEvents, numbered, ih, addEvent]

theorem foldl_event (es : List (EventBody × Option RoundId)) (l : Log) :
    es.foldl (fun l e => l.event e.1 e.2) l =
      ⟨l.sequence + es.length, l.events ++ numbered (l.sequence + 1) es, l.messages⟩ := by
  induction es generalizing l with
  | nil => simp [numbered]
  | cons e es ih =>
    rw [List.foldl_cons, ih]
    simp [Log.event, numbered, Nat.add_comm, Nat.add_left_comm]

/-- A batch is the sequence of its events. -/
theorem appendEvents_log (t : Task) (es : List (EventBody × Option RoundId)) :
    (t.appendEvents es).log = es.foldl (fun l e => l.event e.1 e.2) t.log := by
  rw [foldl_event, appendEvents, addEvents_eq]
  rfl

/-- A batch without `message_saved` events extends the log. -/
theorem appendEvents_extends (t : Task) {es : List (EventBody × Option RoundId)}
    (h : ∀ e ∈ es, e.1.isMessageSaved = false) : t.log.Extends (t.appendEvents es).log := by
  rw [appendEvents_log]
  generalize t.log = l
  induction es generalizing l with
  | nil => exact .refl l
  | cons e es ih =>
    refine (Log.Step.event l e.1 e.2 (h e List.mem_cons_self)).extends.trans ?_
    exact ih (fun e' he' => h e' (List.mem_cons_of_mem _ he')) _

/-- A batch changes the counter and the events only. -/
theorem appendEvents_eq (t : Task) (es : List (EventBody × Option RoundId)) :
    t.appendEvents es = { t with
      eventSequence := t.eventSequence + es.length
      events := t.events ++ numbered (t.eventSequence + 1) es } := by
  rw [appendEvents, addEvents_eq]
  rfl

section Fields

variable (t : Task) (es : List (EventBody × Option RoundId))

@[simp] theorem appendEvents_ownerId : (t.appendEvents es).ownerId = t.ownerId := by
  rw [appendEvents_eq]
@[simp] theorem appendEvents_status : (t.appendEvents es).status = t.status := by
  rw [appendEvents_eq]
@[simp] theorem appendEvents_pendingTerminal :
    (t.appendEvents es).pendingTerminal = t.pendingTerminal := by
  rw [appendEvents_eq]
@[simp] theorem appendEvents_rounds : (t.appendEvents es).rounds = t.rounds := by
  rw [appendEvents_eq]
@[simp] theorem appendEvents_reservations : (t.appendEvents es).reservations = t.reservations := by
  rw [appendEvents_eq]
@[simp] theorem appendEvents_files : (t.appendEvents es).files = t.files := by
  rw [appendEvents_eq]
@[simp] theorem appendEvents_messages : (t.appendEvents es).messages = t.messages := by
  rw [appendEvents_eq]

variable (mid : MessageId) (author : MessageAuthor) (content : String) (rid : Option RoundId)

@[simp] theorem saveMessage_ownerId : (t.saveMessage mid author content rid).ownerId = t.ownerId := rfl
@[simp] theorem saveMessage_status : (t.saveMessage mid author content rid).status = t.status := rfl
@[simp] theorem saveMessage_pendingTerminal :
    (t.saveMessage mid author content rid).pendingTerminal = t.pendingTerminal := rfl
@[simp] theorem saveMessage_rounds : (t.saveMessage mid author content rid).rounds = t.rounds := rfl
@[simp] theorem saveMessage_reservations :
    (t.saveMessage mid author content rid).reservations = t.reservations := rfl

end Fields

end Task

end AgentCraft.Tasking
