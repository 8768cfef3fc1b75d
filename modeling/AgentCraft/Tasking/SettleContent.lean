import AgentCraft.Engine.Extension
import AgentCraft.Tasking.Transactions

/-!
# What the engine prints, and whether its round can settle

The frames of the engine are whatever `json.loads` makes of its lines. `EventHandler` takes texts and numbers of
tokens out of them without looking further, and they come to the database in three ways: as facts, in the slot of
an answer whose transaction has failed, and as the usage in the event of the settlement. The database refuses
texts with a NUL or with half of a surrogate pair, and floats that are no numbers.

A fact that is refused is left out, or comes into the slot; the slot and the usage are part of the transaction that
settles the round, so `settles_iff` says which answers keep it from ever settling. Nothing else that the engine
prints does.
-/

namespace AgentCraft.Tasking

open AgentCraft.Python AgentCraft.Relational
open AgentCraft.Engine (Host isTruthy orElse)

/-! ## What the database takes -/

/-- A text that PostgreSQL and its driver take. -/
def isStorable (t : List ℕ) : Bool := isEncodable t && t.all (· != 0)

mutual

/-- A value that `jsonb` takes. -/
def isStorableJson : Json → Bool
  | .float literal => (floatValue literal).isSome
  | .str u => isStorable u
  | .arr l => itemsAreStorable l
  | .obj l => fieldsAreStorable l
  | _ => true

@[grind] def itemsAreStorable : List Json → Bool
  | [] => true
  | v :: l => isStorableJson v && itemsAreStorable l

@[grind] def fieldsAreStorable : List (List ℕ × Json) → Bool
  | [] => true
  | (k, v) :: l => isStorable k && isStorableJson v && fieldsAreStorable l

end

/-! ## The handler -/

/-- A `TypeError` or an `AttributeError`; the engine logs it and goes on with the next frame. -/
inductive HandlerError
  | wrongType
deriving DecidableEq, Repr

/-- `v == s`, for a text of the source. -/
def isText (v : Json) (s : String) : Bool := v.same (.ofString s)

/-- The text of a block, if it is a block of text. -/
def blockText : Json → Option Json
  | .obj block => if isText (getItem block "type") "text" then some (getItem block "text") else none
  | _ => none

/-- An item that `join` takes. -/
def partText : Json → Except HandlerError (List ℕ)
  | .str u => .ok u
  | _ => .error .wrongType

/-- `"\n".join(part for part in parts if part)`. -/
def joinParts (parts : List Json) : Except HandlerError (List ℕ) :=
  ((parts.filter isTruthy).mapM partText).map [10].intercalate

/-- `_content_text`. -/
def contentText : Json → Except HandlerError (List ℕ)
  | .str u => .ok u
  | .arr l => joinParts (l.filterMap blockText)
  | _ => .ok []

/-- `_tool_result_text`. -/
def toolResultText : Json → Except HandlerError (List ℕ)
  | .obj result =>
    match getItem result "content" with
    | .arr l => joinParts (l.filterMap blockText)
    | _ => .ok []
  | _ => .ok []

/-- `_map_usage`. -/
def mapUsage (usage : Json) : Json :=
  let usage : List (List ℕ × Json) := match usage with
    | .obj l => l
    | _ => []
  .obj [(codePoints "prompt_tokens", orElse (getItem usage "input") (.int 0)),
    (codePoints "completion_tokens", orElse (getItem usage "output") (.int 0))]

/-- What a frame makes of the state of its round. -/
inductive FrameEffect
  | nothing
  /-- A completed answer. -/
  | answer (content : List ℕ) (usage : Json)
  | aborted
  | tool (content : List ℕ)

/-- `_translate_message_end`, as far as the round is concerned. -/
def endOfMessage (message : List (List ℕ × Json)) : Except HandlerError FrameEffect := do
  if !isText (getItem message "role") "assistant" then return .nothing
  let usage := mapUsage (getItem message "usage")
  let content ← contentText (getItem message "content")
  if isText (getItem message "stopReason") "stop" then return .answer content usage
  if isText (getItem message "stopReason") "aborted" then return .aborted
  return .nothing

/-- The content that `_persist_tool` stores. -/
def toolFact (host : Host) (name : Json) (result : List ℕ) (isError : Bool) : List ℕ :=
  if isError then codePoints "[tool_error] " ++ host.text name ++ codePoints ": " ++ result else result

/-- `handle_frame`, as far as the round is concerned. -/
def frameEffect (host : Host) (frame : List (List ℕ × Json)) : Except HandlerError FrameEffect :=
  if isText (getItem frame "type") "tool_execution_end" then
    (toolResultText (getItem frame "result")).map fun result =>
      .tool (toolFact host (getItem frame "toolName") result (isTruthy (getItem frame "isError")))
  else if isText (getItem frame "type") "message_end" then
    match orElse (getItem frame "message") (.obj []) with
    | .obj message => endOfMessage message
    | _ => .error .wrongType
  else .ok .nothing

/-! ## The round -/

/-- The executor of a round, beside the database. -/
structure RoundHandler where
  db : Db
  finishReason : Option String
  lastUsage : Option Json
  pendingAssistant : Option (List ℕ)

namespace RoundHandler

/-- Before the first frame. -/
def start (db : Db) : RoundHandler := ⟨db, none, none, none⟩

/-- The text of a value that is stored. -/
def storedText (t : List ℕ) : String := String.ofList (chars t)

/-- `_persist_fact`: the fence first, then the row, which the database may refuse. -/
def persist (s : RoundHandler) (c : RoundContext) (author : MessageAuthor) (content : List ℕ) : RoundHandler :=
  match persistFact s.db c author (storedText content) with
  | .error _ => s
  | .ok db =>
    if isStorable content then { s with db := db }
    else if author = .assistant then { s with pendingAssistant := some content }
    else s

/-- What a frame does; one that raises does nothing. -/
def handle (host : Host) (c : RoundContext) (s : RoundHandler) (frame : List (List ℕ × Json)) : RoundHandler :=
  match frameEffect host frame with
  | .ok (.answer content usage) =>
    { s with finishReason := some "stop", lastUsage := some usage }.persist c .assistant content
  | .ok .aborted => { s with finishReason := some "aborted" }
  | .ok (.tool content) => s.persist c .tool content
  | _ => s

/-- The usage of `agent_settled`. -/
def usage (s : RoundHandler) : Json :=
  s.lastUsage.getD (.obj [(codePoints "prompt_tokens", .int 0), (codePoints "completion_tokens", .int 0)])

/-- The transaction of `settle`, or none: it is rolled back if the fence is gone, and if the database refuses the
answer of the slot or the usage. -/
def settle (s : RoundHandler) (c : RoundContext) : Option Db :=
  match Tasking.settle s.db c (s.pendingAssistant.map storedText) (s.finishReason.getD "stop")
      (storedText (s.usage.text ⟨true, true⟩)) with
  | .error _ => none
  | .ok db => if s.pendingAssistant.all isStorable && isStorableJson s.usage then some db else none

end RoundHandler

/-- What happens between the claim of a round and its settlement. -/
inductive RoundEvent
  | frame (frame : List (List ℕ × Json))
  /-- Transactions of others. -/
  | others (db : Db)

def RoundHandler.next (host : Host) (c : RoundContext) (s : RoundHandler) : RoundEvent → RoundHandler
  | .frame frame => s.handle host c frame
  | .others db => { s with db := db }

def RoundHandler.run (host : Host) (c : RoundContext) (s : RoundHandler) (es : List RoundEvent) : RoundHandler :=
  es.foldl (RoundHandler.next host c) s

/-- The lease of the round is held. -/
def LeaseHeld (db : Db) (c : RoundContext) : Prop :=
  ∃ t, db.visibleTask c.owner c.task = some t ∧ t.rounds.countP c.fences ≠ 0

/-- The transactions of others leave the lease alone. -/
def RoundEvent.KeepsLease (c : RoundContext) : RoundEvent → Prop
  | .frame _ => True
  | .others db => LeaseHeld db c

/-- The answer that a frame completes, with its usage. -/
def RoundEvent.answer? (host : Host) : RoundEvent → Option (List ℕ × Json)
  | .frame raw =>
    match frameEffect host raw with
    | .ok (.answer content usage) => some (content, usage)
    | _ => none
  | .others _ => none

/-- The round has settled, and its task does not run. -/
structure RoundSettled (db : Db) (c : RoundContext) : Prop where
  task : ∃ t, db.visibleTask c.owner c.task = some t ∧ t.status ≠ .running ∧
    (∀ r ∈ t.rounds, c.fences r = false) ∧ ∃ r ∈ t.rounds, r.id = c.round ∧ r.state = .settled

/-! ## The settlement -/

section Settlement

variable {host : Host} {db db' : Db} {c : RoundContext} {s : RoundHandler} {e : RoundEvent}

theorem visibleTask_setTask {t t' : Task} (hvis : db.visibleTask c.owner c.task = some t) (howner : t'.ownerId = t.ownerId) :
    (db.setTask c.task t').visibleTask c.owner c.task = some t' := by
  obtain ⟨hfound, hown⟩ := Db.visibleTask_eq_some.mp hvis
  refine Db.visibleTask_eq_some.mpr ⟨?_, howner.trans hown⟩
  rw [Db.setTask_tasks, Table.get?_set_self hfound]

/-- Under the lease the transaction of a fact is not fenced out, and it keeps the lease. -/
theorem persistFact_of_leaseHeld (h : LeaseHeld db c) (author : MessageAuthor) (content : String) :
    ∃ db', persistFact db c author content = .ok db' ∧ LeaseHeld db' c := by
  obtain ⟨t, hvis, hrounds⟩ := h
  refine ⟨_, by rw [persistFact, hvis]; exact if_neg hrounds, ?_⟩
  exact ⟨t.saveMessage db.nextId author content (some c.round), visibleTask_setTask hvis rfl, hrounds⟩

theorem Task.settleStatus_spec (t : Task) (revoked : Bool) : (t.settleStatus revoked).ownerId = t.ownerId ∧
    (t.settleStatus revoked).rounds = t.rounds ∧ (t.settleStatus revoked).status ≠ .running := by
  unfold Task.settleStatus
  split
  · next hstatus => exact ⟨rfl, rfl, hstatus⟩
  · cases revoked <;> simp

theorem Task.settle_of_fenced {t : Task} (h : t.rounds.countP c.fences ≠ 0) (mid : MessageId) (pending : Option String)
    (finishReason usage : String) (revoked : Bool) :
    ∃ t', t.settle c mid pending finishReason usage revoked = .ok t' ∧ t'.ownerId = t.ownerId ∧
      t'.rounds = updateWhere c.fences (·.settle) t.rounds ∧ t'.status ≠ .running := by
  cases hfind : t.rounds.find? c.fences with
  | none =>
    refine absurd (List.countP_eq_zero.mpr fun r hr => ?_) h
    exact List.find?_eq_none.mp hfind r hr
  | some r =>
    have hend {t₁ : Task} (howner : t₁.ownerId = t.ownerId)
        (hrounds : t₁.rounds = updateWhere c.fences (·.settle) t.rounds) :
        (t₁.settleStatus revoked).ownerId = t.ownerId ∧
          (t₁.settleStatus revoked).rounds = updateWhere c.fences (·.settle) t.rounds ∧
          (t₁.settleStatus revoked).status ≠ .running := by
      obtain ⟨howner', hrounds', hstatus⟩ := t₁.settleStatus_spec revoked
      exact ⟨howner'.trans howner, hrounds'.trans hrounds, hstatus⟩
    rw [Task.settle, hfind]
    refine ⟨_, rfl, ?_⟩
    cases pending with
    | none => exact hend (by simp [Task.updateRounds]) (by simp [Task.updateRounds])
    | some content => exact hend (by simp [Task.updateRounds]) (by simp [Task.updateRounds])

/-- Under the lease the transaction of the settlement settles the round. -/
theorem settle_of_leaseHeld (h : LeaseHeld db c) (pending : Option String) (finishReason usage : String) :
    ∃ db', settle db c pending finishReason usage = .ok db' ∧ RoundSettled db' c := by
  obtain ⟨t, hvis, hrounds⟩ := h
  obtain ⟨t', hsettle, howner, hrounds', hstatus⟩ :=
    Task.settle_of_fenced hrounds db.nextId pending finishReason usage (providerRevoked db t)
  have hvis' := visibleTask_setTask hvis howner
  have hreleased : ({ (db.setTask c.task t').releaseTaskHoldings c.task c.owner with
      nextId := db.nextId + 1 } : Db).visibleTask c.owner c.task = some t'.releaseHoldings := by
    obtain ⟨hfound, hown⟩ := Db.visibleTask_eq_some.mp hvis'
    refine Db.visibleTask_eq_some.mpr ⟨?_, hown⟩
    exact (congrArg (·.get? c.task) (Db.releaseTaskHoldings_tasks hvis')).trans (Table.get?_set_self hfound _)
  refine ⟨_, ?_, ⟨t'.releaseHoldings, hreleased, hstatus, fun r hr => ?_, ?_⟩⟩
  · rw [settle, hvis]
    dsimp only
    rw [hsettle]
    rfl
  · have hr : r ∈ updateWhere c.fences (·.settle) t.rounds := hrounds' ▸ hr
    obtain ⟨x, -, rfl⟩ := mem_updateWhere.mp hr
    split
    · simp [RoundContext.fences, TaskRound.settle]
    · next hx => exact Bool.eq_false_iff.mpr hx
  · obtain ⟨r, hr, hfences⟩ := List.countP_pos_iff.mp (Nat.pos_of_ne_zero hrounds)
    have hid : r.id = c.round := by
      simp only [RoundContext.fences, Bool.and_eq_true, decide_eq_true_eq] at hfences
      exact hfences.1.1.1
    refine ⟨r.settle, ?_, hid, rfl⟩
    have hmem : r.settle ∈ updateWhere c.fences (·.settle) t.rounds :=
      mem_updateWhere.mpr ⟨r, hr, if_pos hfences⟩
    exact hrounds' ▸ hmem

theorem RoundHandler.persist_of_leaseHeld (h : LeaseHeld s.db c) (author : MessageAuthor) (content : List ℕ) :
    LeaseHeld (s.persist c author content).db c ∧ (s.persist c author content).lastUsage = s.lastUsage ∧
      (s.persist c author content).pendingAssistant =
        if isStorable content = false ∧ author = .assistant then some content else s.pendingAssistant := by
  obtain ⟨db', hpersist, hheld⟩ := persistFact_of_leaseHeld h author (RoundHandler.storedText content)
  rw [RoundHandler.persist, hpersist]
  dsimp only
  cases hstorable : isStorable content with
  | true => exact ⟨hheld, rfl, rfl⟩
  | false =>
    by_cases hauthor : author = .assistant
    · simp [hauthor, h]
    · simp [hauthor, h]

/-- The round after the answers so far: the lease is held, the slot has the last answer that the database
refuses, and the usage is that of the last answer. -/
structure RoundHandler.Follows (s : RoundHandler) (c : RoundContext) (answers : List (List ℕ × Json)) : Prop where
  held : LeaseHeld s.db c
  pending : s.pendingAssistant = ((answers.map Prod.fst).filter (!isStorable ·)).getLast?
  usage : s.lastUsage = (answers.map Prod.snd).getLast?

theorem RoundHandler.follows_start (h : LeaseHeld db c) : (start db).Follows c [] := ⟨h, rfl, rfl⟩

/-- A step that completes no answer. -/
theorem RoundHandler.Follows.quiet {answers : List (List ℕ × Json)} {s' : RoundHandler} (h : s.Follows c answers)
    (hheld : LeaseHeld s'.db c) (hpending : s'.pendingAssistant = s.pendingAssistant)
    (husage : s'.lastUsage = s.lastUsage) : s'.Follows c (answers ++ (none : Option (List ℕ × Json)).toList) := by
  rw [Option.toList_none, List.append_nil]
  exact ⟨hheld, hpending.trans h.pending, husage.trans h.usage⟩

theorem RoundHandler.Follows.next {answers : List (List ℕ × Json)} (h : s.Follows c answers) (he : e.KeepsLease c) :
    (s.next host c e).Follows c (answers ++ (e.answer? host).toList) := by
  cases e with
  | others db' => exact h.quiet he rfl rfl
  | frame raw =>
    simp only [RoundHandler.next, RoundHandler.handle, RoundEvent.answer?]
    split
    · next content usage heffect =>
      obtain ⟨hheld, husage, hpending⟩ := persist_of_leaseHeld
        (s := { s with finishReason := some "stop", lastUsage := some usage }) h.held .assistant content
      rw [heffect]
      refine ⟨hheld, ?_, ?_⟩
      · rw [hpending, Option.toList_some, List.map_append, List.filter_append]
        cases hstorable : isStorable content with
        | true => simpa [hstorable] using h.pending
        | false => simp [hstorable]
      · rw [husage]
        simp
    · next heffect =>
      rw [heffect]
      exact h.quiet h.held rfl rfl
    · next content heffect =>
      obtain ⟨hheld, husage, hpending⟩ := persist_of_leaseHeld h.held .tool content
      rw [heffect]
      exact h.quiet hheld (hpending.trans (if_neg (by simp))) husage
    · next hanswer haborted htool =>
      split
      · next content usage heffect => exact absurd heffect (hanswer content usage)
      · exact h.quiet h.held rfl rfl

theorem RoundHandler.Follows.run {answers : List (List ℕ × Json)} {es : List RoundEvent} (h : s.Follows c answers)
    (hes : ∀ e ∈ es, e.KeepsLease c) :
    (s.run host c es).Follows c (answers ++ es.filterMap (·.answer? host)) := by
  induction es generalizing s answers with
  | nil => rwa [List.filterMap_nil, List.append_nil]
  | cons e es ih =>
    obtain ⟨he, hes⟩ := List.forall_mem_cons.mp hes
    have hstep : (s.next host c e).Follows c _ := h.next he
    have hrest := ih hstep hes
    have hanswers : (e.answer? host).toList ++ es.filterMap (·.answer? host) = (e :: es).filterMap (·.answer? host) := by
      cases hanswer : e.answer? host <;> simp [hanswer]
    rwa [List.append_assoc, hanswers] at hrest

theorem isStorableJson_noUsage : isStorableJson
    (.obj [(codePoints "prompt_tokens", .int 0), (codePoints "completion_tokens", .int 0)]) = true := by
  decide +kernel

/-- A round whose lease is held settles in the end if and only if the database takes every answer of the engine, and
the usage of the last one. -/
theorem settles_iff {es : List RoundEvent} (h : LeaseHeld db c) (hes : ∀ e ∈ es, e.KeepsLease c) :
    (∃ db', ((RoundHandler.start db).run host c es).settle c = some db' ∧ RoundSettled db' c) ↔
      (∀ a ∈ es.filterMap (·.answer? host), isStorable a.1 = true) ∧
        ∀ a ∈ (es.filterMap (·.answer? host)).getLast?, isStorableJson a.2 = true := by
  have hfollows : ((RoundHandler.start db).run host c es).Follows c ([] ++ es.filterMap (·.answer? host)) :=
    (RoundHandler.follows_start h).run hes
  rw [List.nil_append] at hfollows
  generalize (RoundHandler.start db).run host c es = s at hfollows ⊢
  generalize es.filterMap (·.answer? host) = answers at hfollows ⊢
  obtain ⟨db', hsettle, hsettled⟩ := settle_of_leaseHeld hfollows.held (s.pendingAssistant.map RoundHandler.storedText)
    (s.finishReason.getD "stop") (RoundHandler.storedText (s.usage.text ⟨true, true⟩))
  have hpending : s.pendingAssistant.all isStorable = true ↔ ∀ a ∈ answers, isStorable a.1 = true := by
    rw [hfollows.pending]
    cases hlast : ((answers.map Prod.fst).filter (!isStorable ·)).getLast? with
    | none =>
      rw [List.getLast?_eq_none_iff, List.filter_eq_nil_iff] at hlast
      refine ⟨fun _ a ha => ?_, fun _ => rfl⟩
      simpa using hlast a.1 (List.mem_map_of_mem ha)
    | some content =>
      obtain ⟨hmem, hrefused⟩ := List.mem_filter.mp (List.mem_of_getLast? hlast)
      have hfalse : isStorable content = false := by simpa using hrefused
      obtain ⟨a, ha, rfl⟩ := List.mem_map.mp hmem
      refine ⟨fun hall => ?_, fun hall => absurd (hall a ha) (by simp [hfalse])⟩
      simp [hfalse] at hall
  have husage : isStorableJson s.usage = true ↔ ∀ a ∈ answers.getLast?, isStorableJson a.2 = true := by
    rw [RoundHandler.usage, hfollows.usage, List.getLast?_map]
    cases answers.getLast? with
    | none => simpa using isStorableJson_noUsage
    | some a => simp
  rw [RoundHandler.settle, hsettle]
  dsimp only
  rw [← hpending, ← husage]
  constructor
  · rintro ⟨db₁, hsome, -⟩
    split at hsome
    · next hstorable => exact Bool.and_eq_true_iff.mp hstorable
    · cases hsome
  · intro hstorable
    exact ⟨db', if_pos (Bool.and_eq_true_iff.mpr hstorable), hsettled⟩

end Settlement

/-! ## A round with one answer -/

/-- The lease of the round that `claimedRun` claims. -/
def claimedContext : RoundContext := ⟨12, 10, 1, 7, 1⟩

/-- The end of a message of the assistant. -/
def answerFrame (content : List ℕ) : List (List ℕ × Json) := [
  (codePoints "type", .ofString "message_end"),
  (codePoints "message", .obj [(codePoints "role", .ofString "assistant"), (codePoints "stopReason", .ofString "stop"),
    (codePoints "content", .str content)])]

theorem leaseHeld_claimed : LeaseHeld ((system {} id).run World.small claimedRun).db claimedContext := by
  have hheld : (((system {} id).run World.small claimedRun).db.visibleTask claimedContext.owner claimedContext.task).any
      (fun t => t.rounds.countP claimedContext.fences != 0) = true := by
    decide +kernel
  cases hvis : ((system {} id).run World.small claimedRun).db.visibleTask claimedContext.owner claimedContext.task with
  | none =>
    rw [hvis] at hheld
    cases hheld
  | some t =>
    rw [hvis] at hheld
    exact ⟨t, hvis, bne_iff_ne.mp hheld⟩

/-- Values without texts of their own. -/
def plainHost : Host := ⟨fun _ => [], fun _ => true, fun _ => true⟩

theorem settles_iff_nul :
    (∃ db', ((RoundHandler.start ((system {} id).run World.small claimedRun).db).run plainHost claimedContext
        [.frame (answerFrame [0])]).settle claimedContext = some db' ∧ RoundSettled db' claimedContext) ↔
      (∀ a ∈ [RoundEvent.frame (answerFrame [0])].filterMap (·.answer? plainHost), isStorable a.1 = true) ∧
        ∀ a ∈ ([RoundEvent.frame (answerFrame [0])].filterMap (·.answer? plainHost)).getLast?,
          isStorableJson a.2 = true :=
  settles_iff leaseHeld_claimed (List.forall_mem_singleton.mpr trivial)

/-- An answer that consists of a NUL: the round does not settle. -/
example : ([RoundEvent.frame (answerFrame [0])].filterMap (·.answer? plainHost)).all (isStorable ·.1) = false := by
  decide +kernel

end AgentCraft.Tasking
