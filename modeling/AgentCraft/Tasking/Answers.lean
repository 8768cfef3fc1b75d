import AgentCraft.Tasking.Transactions

/-!
# The answers of a round

While a round runs, `EventHandler.handle_frame` translates the frames of the engine, and
`_persist_fact` stores each completed answer in a transaction of its own. An answer whose transaction
fails is remembered in a single slot, `pending_assistant`, and stored when the round is settled.

A transaction can fail in two ways: it is rolled back, or it is committed and the acknowledgement is
lost. The slot holds one answer and does not tell the two apart; `answersKept_iff` says for which
patterns of failures every answer is stored exactly once and in order. The transactions on the rows
themselves are those of the task domain (`persistFact_messages`, `settle_messages`).
-/

namespace AgentCraft.Tasking

open AgentCraft.Relational AgentCraft.Transition

/-- What becomes of the transaction of a fact. -/
inductive Outcome
  | committed
  | rolledBack
  /-- Committed, but the executor sees an exception. -/
  | unacknowledged
deriving DecidableEq, Repr

/-- `usage`, as `_map_usage` maps it. -/
structure Usage where
  promptTokens : ℕ := 0
  completionTokens : ℕ := 0
deriving DecidableEq, Repr

/-- The frames of the engine, with the fields that `handle_frame` reads. -/
inductive Frame
  /-- `type` and `delta` of `assistantMessageEvent`. -/
  | messageUpdate (event delta : String)
  | toolStart (name : String)
  | toolUpdate (name : String)
  | toolEnd (name result : String) (isError : Bool)
  | messageEnd (role : String) (stopReason : Option String) (content : String) (usage : Usage)
  | agentSettled
  /-- A frame of another type. -/
  | other (type : String)
deriving DecidableEq, Repr

/-- What is streamed to the browser. -/
inductive StreamEvent
  | textDelta (delta : String)
  | thinkingDelta (delta : String)
  | toolEvent (name status : String) (result : Option String)
  | messageSaved (content : String)
  | error (code message : String)
  | done (finishReason : String) (usage : Usage)
deriving DecidableEq, Repr

/-- A fact; `frame` counts the frames before the one that it comes from. -/
structure Fact where
  frame : ℕ
  author : MessageAuthor
  content : String
deriving DecidableEq, Repr

/-- The executor of a round between its claim and its settlement. -/
structure Pump where
  /-- The lease still fences the round. -/
  leaseHeld : Bool := true
  frames : ℕ := 0
  finishReason : Option String := none
  lastUsage : Usage := {}
  pendingAssistant : Option Fact := none
  /-- The rows of `task_messages` that the round has committed, in the order of their numbers. -/
  saved : List Fact := []
deriving DecidableEq, Repr

/-- What happens while the round runs. -/
inductive PumpEvent
  | frame (f : Frame) (o : Outcome)
  | leaseLost
deriving DecidableEq, Repr

namespace Pump

/-- The transaction of `_persist_fact`: under a lost lease it writes nothing. -/
def insertFact (s : Pump) (f : Fact) : Pump :=
  if s.leaseHeld then { s with saved := s.saved ++ [f] } else s

/-- The `except` branch of `_persist_fact`. -/
def defer (s : Pump) (f : Fact) : Pump :=
  if f.author = .assistant then { s with pendingAssistant := some f } else s

/-- `_persist_fact`. -/
def persistFact (s : Pump) (f : Fact) : Outcome → Pump
  | .committed => s.insertFact f
  | .rolledBack => s.defer f
  | .unacknowledged => (s.insertFact f).defer f

/-- `_persist_tool`: an error is marked in the content. -/
def toolContent (name result : String) (isError : Bool) : String :=
  if isError then "[tool_error] " ++ name ++ ": " ++ result else result

/-- `_translate_message_end`, of a message of the assistant. -/
def endMessage (s : Pump) (stopReason : Option String) (content : String) (usage : Usage)
    (o : Outcome) : Pump × List StreamEvent :=
  if stopReason = some "stop" then
    ({ s with finishReason := some "stop", lastUsage := usage }.persistFact
      ⟨s.frames, .assistant, content⟩ o, [.messageSaved content])
  else if stopReason = some "aborted" then ({ s with finishReason := some "aborted" }, [])
  else if stopReason = some "toolUse" then (s, [])
  else (s, [.error "ENGINE_ERROR" "生成回复失败，请重试"])

/-- `handle_frame`, before the frame is counted. -/
def translate (s : Pump) (o : Outcome) : Frame → Pump × List StreamEvent
  | .messageUpdate event delta =>
    (s, if event = "text_delta" then [.textDelta delta]
      else if event = "thinking_delta" then [.thinkingDelta delta] else [])
  | .toolStart name => (s, [.toolEvent name "start" none])
  | .toolUpdate name => (s, [.toolEvent name "update" none])
  | .toolEnd name result isError =>
    (s.persistFact ⟨s.frames, .tool, toolContent name result isError⟩ o,
      [.toolEvent name "end" (some result)])
  | .messageEnd role stopReason content usage =>
    if role = "assistant" then s.endMessage stopReason content usage o else (s, [])
  | .agentSettled => (s, [.done (s.finishReason.getD "stop") s.lastUsage])
  | .other _ => (s, [])

/-- `handle_frame`. -/
def handleFrame (s : Pump) (f : Frame) (o : Outcome) : Pump × List StreamEvent :=
  let (s', out) := s.translate o f
  ({ s' with frames := s.frames + 1 }, out)

def next (s : Pump) : PumpEvent → Pump
  | .frame f o => (s.handleFrame f o).1
  | .leaseLost => { s with leaseHeld := false }

def run (s : Pump) (es : List PumpEvent) : Pump := es.foldl next s

/-- The messages of the round once `settle` has committed; it abstains if the lease is lost. -/
def settle (s : Pump) : Option (List Fact) :=
  if s.leaseHeld then some (s.saved ++ s.pendingAssistant.toList) else none

end Pump

/-! ## What is to be stored -/

/-- The content of a completed message of the assistant. -/
def Frame.answer? : Frame → Option String
  | .messageEnd role stopReason content _ =>
    if role = "assistant" ∧ stopReason = some "stop" then some content else none
  | _ => none

/-- The completed messages among the events, numbered from `n` on, with what became of their
transactions. -/
@[grind] def answersFrom (n : ℕ) : List PumpEvent → List (Fact × Outcome)
  | [] => []
  | .frame f o :: es =>
    (f.answer?.map fun content => (⟨n, .assistant, content⟩, o)).toList ++ answersFrom (n + 1) es
  | .leaseLost :: es => answersFrom n es

/-- The answers of a round are all stored: their transactions commit, and only the last one may be
rolled back. If it is, lost acknowledgements before it do no harm. -/
def Recoverable (os : List Outcome) : Prop :=
  (∀ o ∈ os, o = .committed) ∨ ∃ pre, os = pre ++ [.rolledBack] ∧ ∀ o ∈ pre, o ≠ .rolledBack

/-- The stored messages of the assistant. -/
def assistants (facts : List Fact) : List Fact := facts.filter (·.author = .assistant)

/-- The answers whose transactions have been committed. -/
def keptAnswers (as : List (Fact × Outcome)) : List Fact :=
  (as.filter (·.2 ≠ .rolledBack)).map Prod.fst

/-- The answers that the executor believes to be lost. -/
def deferredAnswers (as : List (Fact × Outcome)) : List Fact :=
  (as.filter (·.2 ≠ .committed)).map Prod.fst

/-! ## What a run stores -/

section Runs

variable {s : Pump} {f : Frame} {o : Outcome}

@[simp] theorem assistants_append (xs ys : List Fact) :
    assistants (xs ++ ys) = assistants xs ++ assistants ys := List.filter_append _ _

@[simp] theorem keptAnswers_append (xs ys : List (Fact × Outcome)) :
    keptAnswers (xs ++ ys) = keptAnswers xs ++ keptAnswers ys := by
  simp [keptAnswers]

@[simp] theorem deferredAnswers_append (xs ys : List (Fact × Outcome)) :
    deferredAnswers (xs ++ ys) = deferredAnswers xs ++ deferredAnswers ys := by
  simp [deferredAnswers]

/-- What a frame adds: the answer that it completes, if any, is stored or remembered. -/
structure Pump.Adds (s s' : Pump) (as : List (Fact × Outcome)) : Prop where
  leaseHeld : s'.leaseHeld = s.leaseHeld
  saved : s.leaseHeld = true → assistants s'.saved = assistants s.saved ++ keptAnswers as
  pending : s'.pendingAssistant = (deferredAnswers as).getLast?.or s.pendingAssistant

theorem Pump.Adds.nothing {s' : Pump} (hl : s'.leaseHeld = s.leaseHeld) (hs : s'.saved = s.saved)
    (hp : s'.pendingAssistant = s.pendingAssistant) : s.Adds s' [] :=
  ⟨hl, fun _ => by rw [hs]; exact (List.append_nil _).symm, hp⟩

@[simp] theorem Pump.insertFact_leaseHeld (s : Pump) (x : Fact) :
    (s.insertFact x).leaseHeld = s.leaseHeld := by
  unfold insertFact
  split <;> rfl

@[simp] theorem Pump.insertFact_pending (s : Pump) (x : Fact) :
    (s.insertFact x).pendingAssistant = s.pendingAssistant := by
  unfold insertFact
  split <;> rfl

theorem Pump.insertFact_saved (h : s.leaseHeld = true) (x : Fact) :
    (s.insertFact x).saved = s.saved ++ [x] := by
  rw [insertFact, if_pos h]

/-- The transaction of a tool result touches neither the answers nor the slot. -/
theorem Pump.adds_persistTool (s : Pump) (n : ℕ) (content : String) (o : Outcome) :
    s.Adds (s.persistFact ⟨n, .tool, content⟩ o) [] := by
  have hinsert : s.Adds (s.insertFact ⟨n, .tool, content⟩) [] := by
    refine ⟨insertFact_leaseHeld _ _, fun hl => ?_, insertFact_pending _ _⟩
    rw [insertFact_saved hl, assistants_append]
    rfl
  cases o with
  | committed => exact hinsert
  | rolledBack => exact .nothing rfl rfl rfl
  | unacknowledged => exact hinsert

theorem Pump.adds_persistAssistant (s : Pump) (n : ℕ) (content : String) (o : Outcome) :
    s.Adds (s.persistFact ⟨n, .assistant, content⟩ o) [(⟨n, .assistant, content⟩, o)] := by
  have hsaved (hl : s.leaseHeld = true) : assistants (s.insertFact ⟨n, .assistant, content⟩).saved =
      assistants s.saved ++ [⟨n, .assistant, content⟩] := by
    rw [insertFact_saved hl, assistants_append]
    rfl
  cases o with
  | committed => exact ⟨insertFact_leaseHeld _ _, hsaved, insertFact_pending _ _⟩
  | rolledBack => exact ⟨rfl, fun _ => (List.append_nil _).symm, rfl⟩
  | unacknowledged => exact ⟨insertFact_leaseHeld _ _, hsaved, rfl⟩

/-- A message that is not a completed answer changes at most the reason of the end. -/
theorem Pump.adds_endMessage (s : Pump) {stopReason : Option String} (content : String) (usage : Usage)
    (o : Outcome) (h : stopReason ≠ some "stop") :
    s.Adds (s.endMessage stopReason content usage o).1 [] := by
  rw [endMessage, if_neg h]
  split
  · exact .nothing rfl rfl rfl
  · split <;> exact .nothing rfl rfl rfl

/-- One frame. -/
theorem Pump.adds_handleFrame (s : Pump) (f : Frame) (o : Outcome) :
    s.Adds (s.handleFrame f o).1 (answersFrom s.frames [.frame f o]) := by
  -- the count of the frames is not looked at
  have hcount {s' : Pump} {as : List (Fact × Outcome)} (h : s.Adds s' as) :
      s.Adds { s' with frames := s.frames + 1 } as := ⟨h.leaseHeld, h.saved, h.pending⟩
  cases f with
  | toolEnd name result isError => exact hcount (s.adds_persistTool _ _ o)
  | messageEnd role stopReason content usage =>
    by_cases hrole : role = "assistant"
    · subst hrole
      by_cases hstop : stopReason = some "stop"
      · subst hstop
        have h := Pump.adds_persistAssistant { s with finishReason := some "stop", lastUsage := usage }
          s.frames content o
        exact ⟨h.leaseHeld, h.saved, h.pending⟩
      · have hnone : answersFrom s.frames
            [.frame (.messageEnd "assistant" stopReason content usage) o] = [] := by
          simp [answersFrom, Frame.answer?, hstop]
        rw [hnone]
        exact hcount (s.adds_endMessage content usage o hstop)
    · have hnone : answersFrom s.frames
          [.frame (.messageEnd role stopReason content usage) o] = [] := by
        simp [answersFrom, Frame.answer?, hrole]
      have hsame : s.translate o (.messageEnd role stopReason content usage) = (s, []) := if_neg hrole
      have hnothing : s.Adds (s.translate o (.messageEnd role stopReason content usage)).1 [] := by
        rw [hsame]
        exact .nothing rfl rfl rfl
      rw [hnone]
      exact hcount hnothing
  | _ => exact hcount (.nothing rfl rfl rfl)

theorem answersFrom_cons (n : ℕ) (f : Frame) (o : Outcome) (es : List PumpEvent) :
    answersFrom n (.frame f o :: es) = answersFrom n [.frame f o] ++ answersFrom (n + 1) es := by
  simp [answersFrom]

/-- A lease that is lost stays lost. -/
theorem Pump.leaseHeld_of_run {es : List PumpEvent} (h : (s.run es).leaseHeld = true) :
    s.leaseHeld = true := by
  induction es generalizing s with
  | nil => exact h
  | cons e es ih =>
    have hnext := ih h
    cases e with
    | frame f o => exact (s.adds_handleFrame f o).leaseHeld ▸ hnext
    | leaseLost => cases hnext

/-- A run under a lease stores the answers whose transactions are committed, and remembers the last of
the others. -/
theorem Pump.adds_run {es : List PumpEvent} (h : (s.run es).leaseHeld = true) :
    assistants (s.run es).saved = assistants s.saved ++ keptAnswers (answersFrom s.frames es) ∧
      (s.run es).pendingAssistant =
        (deferredAnswers (answersFrom s.frames es)).getLast?.or s.pendingAssistant := by
  induction es generalizing s with
  | nil => exact ⟨(List.append_nil _).symm, rfl⟩
  | cons e es ih =>
    have hl := leaseHeld_of_run h
    cases e with
    | leaseLost => cases leaseHeld_of_run (s := s.next .leaseLost) h
    | frame f o =>
      obtain ⟨hsaved, hpending⟩ := ih (s := s.next (.frame f o)) h
      have hadds := s.adds_handleFrame f o
      rw [answersFrom_cons]
      constructor
      · refine hsaved.trans ?_
        rw [keptAnswers_append, ← List.append_assoc, ← hadds.saved hl]
        rfl
      · refine hpending.trans ?_
        rw [deferredAnswers_append, List.getLast?_append, Option.or_assoc, ← hadds.pending]
        rfl

end Runs

/-! ## When nothing is lost or doubled -/

/-- The frames of the answers are distinct. -/
theorem answersFrom_nodup (es : List PumpEvent) (n : ℕ) :
    ((answersFrom n es).map Prod.fst).Nodup ∧ ∀ x ∈ answersFrom n es, n ≤ x.1.frame := by
  induction es generalizing n with
  | nil => exact ⟨List.nodup_nil, by simp [answersFrom]⟩
  | cons e es ih =>
    cases e with
    | leaseLost => exact ih n
    | frame f o =>
      obtain ⟨hnodup, hge⟩ := ih (n + 1)
      cases hf : f.answer? with
      | none =>
        simp only [answersFrom, hf, Option.map_none, Option.toList_none, List.nil_append]
        exact ⟨hnodup, fun x hx => Nat.le_of_succ_le (hge x hx)⟩
      | some content =>
        simp only [answersFrom, hf, Option.map_some, Option.toList_some, List.singleton_append,
          List.map_cons, List.nodup_cons, List.forall_mem_cons]
        refine ⟨⟨fun hmem => ?_, hnodup⟩, le_rfl, fun x hx => Nat.le_of_succ_le (hge x hx)⟩
        obtain ⟨x, hx, heq⟩ := List.mem_map.mp hmem
        have hlt := hge x hx
        rw [heq] at hlt
        exact absurd hlt (Nat.not_succ_le_self n)

theorem answersFrom_author (es : List PumpEvent) (n : ℕ) :
    ∀ x ∈ answersFrom n es, x.1.author = .assistant := by
  induction es generalizing n with
  | nil => simp [answersFrom]
  | cons e es ih =>
    cases e with
    | leaseLost => exact ih n
    | frame f o =>
      intro x hx
      rcases List.mem_append.mp hx with hx | hx
      · obtain ⟨content, -, rfl⟩ := Option.map_eq_some_iff.mp (Option.mem_toList.mp hx)
        rfl
      · exact ih (n + 1) x hx

theorem keptAnswers_eq_iff {as : List (Fact × Outcome)} :
    keptAnswers as = as.map Prod.fst ↔ ∀ x ∈ as, x.2 ≠ .rolledBack := by
  constructor
  · intro h x hx
    have hlen := congrArg List.length h
    rw [keptAnswers, List.length_map, List.length_map] at hlen
    exact of_decide_eq_true (List.length_filter_eq_length_iff.mp hlen x hx)
  · intro h
    rw [keptAnswers, List.filter_eq_self.mpr fun x hx => decide_eq_true (h x hx)]

theorem deferredAnswers_eq_nil_iff {as : List (Fact × Outcome)} :
    deferredAnswers as = [] ↔ ∀ x ∈ as, x.2 = .committed := by
  simp [deferredAnswers]

/-- Distinct answers are stored exactly once and in order in two cases only. -/
theorem kept_append_deferred_iff {as : List (Fact × Outcome)} (hnodup : (as.map Prod.fst).Nodup) :
    keptAnswers as ++ (deferredAnswers as).getLast?.toList = as.map Prod.fst ↔
      Recoverable (as.map Prod.snd) := by
  constructor
  · intro heq
    rcases List.eq_nil_or_concat' (deferredAnswers as) with hnil | ⟨init, x, hlast⟩
    · left
      intro o ho
      obtain ⟨a, ha, rfl⟩ := List.mem_map.mp ho
      exact deferredAnswers_eq_nil_iff.mp hnil a ha
    · right
      rw [hlast, List.getLast?_concat, Option.toList_some] at heq
      rcases List.eq_nil_or_concat' as with rfl | ⟨pre, a, rfl⟩
      · cases init <;> cases hlast
      · rw [List.map_append, List.map_singleton] at heq
        obtain ⟨hkept, hfact⟩ := List.append_inj' heq rfl
        obtain rfl := (List.cons.inj hfact).1
        -- the answer in the slot is the last one
        have hmem : a.1 ∈ deferredAnswers (pre ++ [a]) := by
          rw [hlast]
          exact List.mem_append_right _ List.mem_cons_self
        obtain ⟨y, hy, hya⟩ := List.mem_map.mp hmem
        obtain ⟨hy, hyc⟩ := List.mem_filter.mp hy
        have ha := List.inj_on_of_nodup_map hnodup hy (List.mem_append_right _ List.mem_cons_self) hya
        subst ha
        have hrolled : y.2 = .rolledBack := by
          by_contra hno
          have hstored : y.1 ∈ keptAnswers (pre ++ [y]) :=
            List.mem_map_of_mem (List.mem_filter.mpr ⟨hy, decide_eq_true hno⟩)
          rw [hkept] at hstored
          rw [List.map_append, List.nodup_append] at hnodup
          exact hnodup.2.2 y.1 hstored y.1 List.mem_cons_self rfl
        refine ⟨pre.map Prod.snd, by rw [List.map_append, List.map_singleton, hrolled], ?_⟩
        have hpre : keptAnswers pre = pre.map Prod.fst := by
          rw [← hkept, keptAnswers_append]
          simp [keptAnswers, hrolled]
        rintro o ho
        obtain ⟨z, hz, rfl⟩ := List.mem_map.mp ho
        exact keptAnswers_eq_iff.mp hpre z hz
  · rintro (hall | ⟨pre, hpre, hrest⟩)
    · have hcommitted : ∀ x ∈ as, x.2 = .committed :=
        fun x hx => hall x.2 (List.mem_map_of_mem hx)
      rw [deferredAnswers_eq_nil_iff.mpr hcommitted, keptAnswers_eq_iff.mpr fun x hx => by
        rw [hcommitted x hx]
        decide]
      exact List.append_nil _
    · obtain ⟨init, last, rfl, hinit, hlast⟩ := List.map_eq_append_iff.mp hpre
      obtain ⟨a, rfl, ha⟩ := List.map_eq_singleton_iff.mp hlast
      subst hinit
      have hkept := keptAnswers_eq_iff.mpr fun x hx => hrest x.2 (List.mem_map_of_mem hx)
      rw [keptAnswers_append, deferredAnswers_append, hkept]
      simp [keptAnswers, deferredAnswers, ha]

theorem Pump.leaseHeld_of_settle {s : Pump} {rows : List Fact} (h : s.settle = some rows) :
    s.leaseHeld = true := by
  by_contra hno
  rw [settle, if_neg hno] at h
  cases h

/-- The slot holds an answer. -/
theorem Pump.assistants_pending {es : List PumpEvent} (h : (Pump.run {} es).leaseHeld = true) :
    assistants (Pump.run {} es).pendingAssistant.toList = (Pump.run {} es).pendingAssistant.toList := by
  rw [(adds_run h).2, Option.or_none]
  cases hlast : (deferredAnswers (answersFrom 0 es)).getLast? with
  | none => rfl
  | some x =>
    obtain ⟨y, hy, rfl⟩ := List.mem_map.mp (List.mem_of_getLast? hlast)
    exact List.filter_cons_of_pos
      (decide_eq_true (answersFrom_author es 0 y (List.mem_filter.mp hy).1))

/-- In a round that settles, every completed answer is stored exactly once and in order if the failures
of its transactions are recoverable, and only then. -/
theorem answersKept_iff {es : List PumpEvent} {rows : List Fact}
    (h : (Pump.run {} es).settle = some rows) :
    assistants rows = (answersFrom 0 es).map Prod.fst ↔
      Recoverable ((answersFrom 0 es).map Prod.snd) := by
  have hheld := Pump.leaseHeld_of_settle h
  obtain ⟨hsaved, hpending⟩ := Pump.adds_run hheld
  rw [Pump.settle, if_pos hheld] at h
  cases h
  rw [assistants_append, Pump.assistants_pending hheld, hsaved, hpending, Option.or_none]
  exact kept_append_deferred_iff (answersFrom_nodup es 0).1

/-- Two answers of a round. -/
def twoAnswers (first second : Outcome) : List PumpEvent :=
  [.frame (.messageEnd "assistant" (some "stop") "Seven." {}) first,
    .frame (.toolEnd "count" "14" false) .committed,
    .frame (.messageEnd "assistant" (some "stop") "Fourteen." {}) second]

/-- The transaction of the last answer is rolled back, and settling stores the answer. -/
theorem answersKept_of_lastRolledBack :
    assistants [⟨0, .assistant, "Seven."⟩, ⟨1, .tool, "14"⟩, ⟨2, .assistant, "Fourteen."⟩] =
      (answersFrom 0 (twoAnswers .committed .rolledBack)).map Prod.fst :=
  (@answersKept_iff (twoAnswers .committed .rolledBack) _ (by decide)).mpr
    (.inr ⟨[.committed], by decide, by decide⟩)

/-- Both transactions are rolled back: the first answer is lost. If only the first one is, the answers
change places, and an answer whose acknowledgement is lost is stored twice. -/
theorem answers_lost_of_twoRollbacks :
    (Pump.run {} (twoAnswers .rolledBack .rolledBack)).settle =
        some [⟨1, .tool, "14"⟩, ⟨2, .assistant, "Fourteen."⟩] ∧
      (answersFrom 0 (twoAnswers .rolledBack .rolledBack)).map Prod.fst =
        [⟨0, .assistant, "Seven."⟩, ⟨2, .assistant, "Fourteen."⟩] ∧
      (Pump.run {} (twoAnswers .rolledBack .committed)).settle =
        some [⟨1, .tool, "14"⟩, ⟨2, .assistant, "Fourteen."⟩, ⟨0, .assistant, "Seven."⟩] ∧
      (Pump.run {} (twoAnswers .committed .unacknowledged)).settle =
        some [⟨0, .assistant, "Seven."⟩, ⟨1, .tool, "14"⟩, ⟨2, .assistant, "Fourteen."⟩,
          ⟨2, .assistant, "Fourteen."⟩] := by
  decide

/-! ## On the rows -/

section Rows

variable {db db' : Db} {c : RoundContext}

/-- The author and the text of the messages of a task. -/
def Db.spoken (db : Db) (tid : TaskId) : Option (List (MessageAuthor × String)) :=
  (db.tasks.get? tid).map fun t => t.messages.map fun m => (m.author, m.content)

theorem releaseTaskHoldings_spoken (db : Db) (tid : TaskId) (u : UserId) :
    (db.releaseTaskHoldings tid u).spoken tid = db.spoken tid := by
  cases hvis : db.visibleTask u tid with
  | none => rw [Db.releaseTaskHoldings_of_none hvis]
  | some t =>
    have hfound := (Db.visibleTask_eq_some.mp hvis).1
    rw [Db.spoken, Db.spoken, Db.releaseTaskHoldings_tasks hvis, Table.get?_set_self hfound, hfound]
    rfl

/-- The transaction of a fact, when it commits, appends its message. -/
theorem persistFact_spoken {author : MessageAuthor} {content : String}
    (h : persistFact db c author content = .ok db') :
    db'.spoken c.task = (db.spoken c.task).map (· ++ [(author, content)]) := by
  unfold persistFact at h
  split at h
  · cases h
  · next t hvis =>
    obtain ⟨-, h⟩ := ite_error_eq_ok.mp h
    cases h
    have hfound := (Db.visibleTask_eq_some.mp hvis).1
    rw [Db.spoken, Db.spoken, hfound, Db.setTask_tasks, Table.get?_set_self hfound]
    simp [Task.saveMessage, Task.addEvent]

/-- Settling, when it commits, appends the answer in the slot. -/
theorem settle_spoken {pending : Option String} {finishReason usage : String}
    (h : settle db c pending finishReason usage = .ok db') :
    db'.spoken c.task =
      (db.spoken c.task).map (· ++ (pending.map fun content => (.assistant, content)).toList) := by
  unfold settle at h
  split at h
  · cases h
  · next t hvis =>
    obtain ⟨t', ht', h⟩ := bind_eq_ok.mp h
    cases h
    have hfound := (Db.visibleTask_eq_some.mp hvis).1
    have hmessages : t'.messages.map (fun m => (m.author, m.content)) =
        t.messages.map (fun m => (m.author, m.content)) ++
          (pending.map fun content => (MessageAuthor.assistant, content)).toList := by
      have hstatus {t₁ : Task} (revoked : Bool) : (t₁.settleStatus revoked).messages = t₁.messages := by
        unfold Task.settleStatus
        split
        · rfl
        · exact Task.appendEvents_messages _ _
      unfold Task.settle at ht'
      split at ht'
      · cases ht'
      · cases ht'
        rw [hstatus, Task.appendEvents_messages]
        cases pending <;> simp [Task.saveMessage, Task.addEvent, Task.updateRounds]
    refine (releaseTaskHoldings_spoken (db.setTask c.task t') c.task c.owner).trans ?_
    rw [Db.spoken, Db.spoken, hfound, Db.setTask_tasks, Table.get?_set_self hfound]
    exact congrArg some hmessages

theorem persistFacts_spoken (facts : List Fact)
    (h : facts.foldlM (fun db f => persistFact db c f.author f.content) db = .ok db') :
    db'.spoken c.task = (db.spoken c.task).map (· ++ facts.map fun f => (f.author, f.content)) := by
  induction facts generalizing db with
  | nil =>
    cases h
    simp
  | cons f facts ih =>
    obtain ⟨db₁, hfirst, hrest⟩ := bind_eq_ok.mp h
    rw [ih hrest, persistFact_spoken hfirst, Option.map_map]
    congr 1
    funext ms
    simp

/-- The rows that a run has after `settle` are the messages that its transactions append to the task. -/
theorem settle_spoken_of_run {es : List PumpEvent} {rows : List Fact} {finishReason usage : String}
    {db₁ : Db} (hrows : (Pump.run {} es).settle = some rows)
    (hfacts : (Pump.run {} es).saved.foldlM (fun db f => persistFact db c f.author f.content) db =
      .ok db₁)
    (hsettle : settle db₁ c ((Pump.run {} es).pendingAssistant.map (·.content)) finishReason usage =
      .ok db') :
    db'.spoken c.task = (db.spoken c.task).map (· ++ rows.map fun f => (f.author, f.content)) := by
  have hheld := Pump.leaseHeld_of_settle hrows
  have hslot := Pump.assistants_pending hheld
  rw [Pump.settle, if_pos hheld] at hrows
  cases hrows
  rw [settle_spoken hsettle, persistFacts_spoken _ hfacts, Option.map_map]
  congr 1
  funext ms
  cases hp : (Pump.run {} es).pendingAssistant with
  | none => simp
  | some x =>
    rw [hp] at hslot
    have hauthor : x.author = .assistant :=
      of_decide_eq_true (List.filter_eq_self.mp hslot x List.mem_cons_self)
    simp [hauthor]

end Rows

end AgentCraft.Tasking
