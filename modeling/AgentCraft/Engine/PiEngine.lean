import AgentCraft.Engine.LineAssembler
import AgentCraft.Python.JsonTexts
import AgentCraft.Python.Text
import AgentCraft.Transition.System

/-!
# The reader of a Pi engine

`PiEngine._read_loop` takes the lines that a transport returns and hands each to `handle_line`, which
parses it and passes the frame on: to the command that waits for it, to the answer for an extension, or to
the subscribers. The loop is meant to go on whatever a line says; only a line that `json.loads` refuses
with `JSONDecodeError` is skipped, though, and everything else that is raised ends the loop as a crash.

`SparesReader` says which lines do no harm, and `reader_survives_iff` that these are all.
-/

namespace AgentCraft.Engine

open AgentCraft.Python AgentCraft.Transition

/-- A frame: the dictionary of a line. -/
abbrev Frame := List (List ℕ × Json)

/-- The task of `_read_loop`. -/
inductive Reader
  | running
  /-- At the end of the stream. -/
  | ended
  /-- Cancelled by `stop`. -/
  | stopped
  /-- By what `handle_line` or `readline` raised. -/
  | crashed
deriving DecidableEq, Repr

/-- What escapes from `readline` or `handle_line`. -/
inductive Escape
  | unicodeDecodeError
  | valueError
  | recursionError
  | attributeError
  | typeError
deriving DecidableEq, Repr

/-- `PiEngine`, with what its futures, subscribers and extensions have been given. -/
structure PiEngine where
  seq : ℕ
  /-- `_pending`: the ids, and whether the future is done. -/
  pending : List (String × Bool)
  callbacks : List ℕ
  reader : Reader
  needsRebuild : Bool
  isRoundSettled : Bool
  unparsableDropped : ℕ
  answered : List (String × Frame)
  delivered : List (ℕ × Frame)
  uiRequests : List Frame
deriving DecidableEq, Repr

/-- The engine after `start`. -/
def PiEngine.started : PiEngine := ⟨0, [], [], .running, false, true, 0, [], [], []⟩

namespace PiEngine

/-- `_handle_response`. An empty dictionary does not ask for the hash of a key. -/
def handleResponse (e : PiEngine) (frame : Frame) : Except Escape PiEngine :=
  let frameId := getItem frame "id"
  if frameId = .null then .ok e
  else if e.pending ≠ [] ∧ frameId.hashable = false then .error .typeError
  else match e.pending.find? (fun p => Json.ofString p.1 = frameId) with
    | none => .ok { e with needsRebuild := true }
    | some p => .ok { e with
        pending := e.pending.filter (·.1 ≠ p.1)
        answered := if p.2 then e.answered else e.answered ++ [(p.1, frame)] }

/-- `_dispatch_event`, with the subscribers of that moment: what a callback raises is logged. -/
def dispatchEvent (e : PiEngine) (frame : Frame) : PiEngine :=
  { e with delivered := e.delivered ++ e.callbacks.map (·, frame) }

/-- `handle_line` with a frame that has been parsed. -/
def handleFrame (e : PiEngine) (frame : Frame) : Except Escape PiEngine :=
  let frameType := getItem frame "type"
  if frameType = Json.ofString "response" then e.handleResponse frame
  else if frameType = Json.ofString "extension_ui_request" then
    .ok { e with uiRequests := e.uiRequests ++ [frame] }
  else if frameType = Json.ofString "agent_settled" then
    .ok ({ e with isRoundSettled := true }.dispatchEvent frame)
  else .ok (e.dispatchEvent frame)

/-- `handle_line`. -/
def handleLine (limits : Limits) (e : PiEngine) (line : String) : Except Escape PiEngine :=
  let stripped := strip line.toList
  if stripped = [] then .ok e
  else match loads limits stripped with
    | .error .decode => .ok { e with unparsableDropped := e.unparsableDropped + 1 }
    | .error .digits => .error .valueError
    | .error .recursion => .error .recursionError
    | .ok (.obj frame) => e.handleFrame frame
    | .ok _ => .error .attributeError

/-- The body of `_read_loop`, with what `readline` returns; none stands for `UnicodeDecodeError`. -/
def readLine (limits : Limits) (e : PiEngine) : Option String → Except Escape PiEngine
  | none => .error .unicodeDecodeError
  | some line => if maxLineBytes < line.length then .ok e else e.handleLine limits line

/-- `_fail_pending`, at the end of the reader. -/
def endReader (e : PiEngine) (r : Reader) : PiEngine := { e with reader := r, pending := [] }

end PiEngine

/-- What happens to an engine. -/
inductive EngineAction
  /-- `readline` returns, or raises `UnicodeDecodeError`. -/
  | line (l : Option String)
  /-- `readline` returns `None`. -/
  | eof
  | stop
  /-- `send_command`, up to the wait for the response. -/
  | sendCommand
  /-- The wait has timed out: the future is cancelled. -/
  | timeout (id : String)
  /-- The end of `send_command`. -/
  | forget (id : String)
  /-- `send_prompt` and `abort` begin with this. -/
  | unsettle
  | subscribe (callback : ℕ)
  | unsubscribe (callback : ℕ)
deriving DecidableEq, Repr

/-- What the engine does. After its end the reader takes nothing more. -/
def engineSystem (limits : Limits) : System PiEngine EngineAction Unit where
  step e
    | .line l =>
      if e.reader ≠ .running then .error ()
      else match e.readLine limits l with
        | .ok e' => .ok e'
        | .error _ => .ok (e.endReader .crashed)
    | .eof => if e.reader ≠ .running then .error () else .ok (e.endReader .ended)
    | .stop => .ok (e.endReader (if e.reader = .running then .stopped else e.reader))
    | .sendCommand => .ok { e with
        seq := e.seq + 1, pending := e.pending ++ [(s!"req_{e.seq + 1}", false)] }
    | .timeout id => .ok { e with
        pending := e.pending.map fun p => if p.1 = id then (p.1, true) else p }
    | .forget id => .ok { e with pending := e.pending.filter (·.1 ≠ id) }
    | .unsettle => .ok { e with isRoundSettled := false }
    | .subscribe c => .ok { e with callbacks := e.callbacks ++ [c] }
    | .unsubscribe c => .ok { e with callbacks := e.callbacks.erase c }

/-! ## What the subscribers are meant to be given -/

/-- The event of a line, however deep or long its JSON is; a line above the limit is dropped. -/
def eventOf : Option String → Option Frame
  | none => none
  | some line =>
    if maxLineBytes < line.length then none
    else match loads ⟨none, none⟩ (strip line.toList) with
      | .ok (.obj frame) =>
        if getItem frame "type" = Json.ofString "response" ∨
          getItem frame "type" = Json.ofString "extension_ui_request" then none else some frame
      | _ => none

/-- What a line gives to subscribers. -/
def given (callbacks : List ℕ) (l : Option String) : List (ℕ × Frame) :=
  ((eventOf l).map fun frame => callbacks.map (·, frame)).getD []

/-- The subscribers, and what they have been given until the stream has ended or the engine stopped. -/
structure Audience where
  callbacks : List ℕ
  ended : Bool
  delivered : List (ℕ × Frame)

def Audience.step (a : Audience) : EngineAction → Audience
  | .line l => if a.ended then a else { a with delivered := a.delivered ++ given a.callbacks l }
  | .eof | .stop => { a with ended := true }
  | .subscribe c => { a with callbacks := a.callbacks ++ [c] }
  | .unsubscribe c => { a with callbacks := a.callbacks.erase c }
  | _ => a

def audience (as : List EngineAction) : Audience := as.foldl Audience.step ⟨[], false, []⟩

/-- The reader has run until the end of the stream or the stop, and has passed every event on. -/
def ReaderSurvives (limits : Limits) (as : List EngineAction) : Prop :=
  let e := (engineSystem limits).run .started as
  e.reader ≠ .crashed ∧ (e.reader = .running ↔ (audience as).ended = false) ∧
    e.delivered = (audience as).delivered

/-! ## Lines that do no harm -/

/-- What `json.loads` has made of the line does no harm: it is no JSON text at all, or an object within
the limits that does not answer with an unhashable id while a command waits. -/
def HarmlessFrame (e : PiEngine) : Except LoadsError Json → Prop
  | .error .decode => True
  | .error _ => False
  | .ok (.obj frame) => getItem frame "type" = Json.ofString "response" →
      e.pending = [] ∨ (getItem frame "id").hashable = true
  | .ok _ => False

/-- The line does no harm to the reader. -/
def Harmless (limits : Limits) (e : PiEngine) : Option String → Prop
  | none => False
  | some line => maxLineBytes < line.length ∨ strip line.toList = [] ∨
      HarmlessFrame e (loads limits (strip line.toList))

/-- The action is no line that does harm. -/
def SparesReader (limits : Limits) (e : PiEngine) : EngineAction → Prop
  | .line l => e.reader = .running → Harmless limits e l
  | _ => True

instance (e : PiEngine) : ∀ r, Decidable (HarmlessFrame e r)
  | .error .decode => inferInstanceAs (Decidable True)
  | .error .digits | .error .recursion => inferInstanceAs (Decidable False)
  | .ok (.obj frame) => inferInstanceAs (Decidable (getItem frame "type" = Json.ofString "response" →
      e.pending = [] ∨ (getItem frame "id").hashable = true))
  | .ok .null | .ok (.bool _) | .ok (.int _) | .ok (.float _) | .ok (.str _) | .ok (.arr _) =>
    inferInstanceAs (Decidable False)

instance (limits : Limits) (e : PiEngine) : ∀ l, Decidable (Harmless limits e l)
  | none => inferInstanceAs (Decidable False)
  | some line => inferInstanceAs (Decidable (maxLineBytes < line.length ∨ strip line.toList = [] ∨
      HarmlessFrame e (loads limits (strip line.toList))))

instance (limits : Limits) (e : PiEngine) : ∀ a, Decidable (SparesReader limits e a)
  | .line l => inferInstanceAs (Decidable (e.reader = .running → Harmless limits e l))
  | .eof | .stop | .sendCommand | .timeout _ | .forget _ | .unsettle | .subscribe _ | .unsubscribe _ =>
    inferInstanceAs (Decidable True)

section OneLine

variable {limits : Limits} {e e' : PiEngine} {frame : Frame} {l : Option String}

theorem handleResponse_ok_iff : (∃ e', e.handleResponse frame = .ok e') ↔
    e.pending = [] ∨ (getItem frame "id").hashable = true := by
  unfold PiEngine.handleResponse
  by_cases hnull : getItem frame "id" = .null
  · rw [if_pos hnull, hnull]
    exact ⟨fun _ => .inr rfl, fun _ => ⟨e, rfl⟩⟩
  · rw [if_neg hnull]
    by_cases hraise : e.pending ≠ [] ∧ (getItem frame "id").hashable = false
    · rw [if_pos hraise]
      refine ⟨fun ⟨e', he'⟩ => (by cases he'), ?_⟩
      rintro (hnil | hhash)
      · exact absurd hnil hraise.1
      · rw [hraise.2] at hhash
        cases hhash
    · rw [if_neg hraise]
      constructor
      · intro _
        by_cases hnil : e.pending = []
        · exact .inl hnil
        · exact .inr (by simpa [hnil] using hraise)
      · intro _
        split <;> exact ⟨_, rfl⟩

theorem handleFrame_ok_iff :
    (∃ e', e.handleFrame frame = .ok e') ↔ HarmlessFrame e (.ok (.obj frame)) := by
  unfold PiEngine.handleFrame HarmlessFrame
  by_cases hresponse : getItem frame "type" = Json.ofString "response"
  · simp only [hresponse, if_true, true_imp_iff]
    exact handleResponse_ok_iff
  · simp only [hresponse, if_false, false_imp_iff, iff_true]
    split
    · exact ⟨_, rfl⟩
    · split <;> exact ⟨_, rfl⟩

/-- A line does harm exactly if something escapes. -/
theorem readLine_ok_iff : (∃ e', e.readLine limits l = .ok e') ↔ Harmless limits e l := by
  cases l with
  | none => exact ⟨fun ⟨e', he'⟩ => (by cases he'), fun h => h.elim⟩
  | some line =>
    unfold PiEngine.readLine PiEngine.handleLine Harmless
    by_cases hlong : maxLineBytes < line.length
    · simp only [hlong, if_true, true_or, iff_true]
      exact ⟨e, rfl⟩
    · by_cases hblank : strip line.toList = []
      · simp only [hlong, hblank, if_false, if_true, true_or, or_true, iff_true]
        exact ⟨e, rfl⟩
      · simp only [hlong, hblank, if_false, false_or]
        cases loads limits (strip line.toList) with
        | error err =>
          cases err with
          | decode => exact ⟨fun _ => trivial, fun _ => ⟨_, rfl⟩⟩
          | digits => exact ⟨fun ⟨e', he'⟩ => (by cases he'), fun h => h.elim⟩
          | recursion => exact ⟨fun ⟨e', he'⟩ => (by cases he'), fun h => h.elim⟩
        | ok v =>
          cases v with
          | obj frame => exact handleFrame_ok_iff
          | _ => exact ⟨fun ⟨e', he'⟩ => (by cases he'), fun h => h.elim⟩

/-- A frame is given to the subscribers unless it is a response or for an extension. -/
theorem handleFrame_spec (h : e.handleFrame frame = .ok e') :
    e'.reader = e.reader ∧ e'.callbacks = e.callbacks ∧
      e'.delivered = e.delivered ++
        if getItem frame "type" = Json.ofString "response" ∨
          getItem frame "type" = Json.ofString "extension_ui_request" then []
        else e.callbacks.map (·, frame) := by
  unfold PiEngine.handleFrame at h
  by_cases hresponse : getItem frame "type" = Json.ofString "response"
  · rw [if_pos hresponse, PiEngine.handleResponse] at h
    rw [if_pos (.inl hresponse), List.append_nil]
    split at h
    · cases h
      exact ⟨rfl, rfl, rfl⟩
    · obtain ⟨-, h⟩ := ite_error_eq_ok.mp h
      split at h
      all_goals
        cases h
        exact ⟨rfl, rfl, rfl⟩
  · rw [if_neg hresponse] at h
    by_cases hui : getItem frame "type" = Json.ofString "extension_ui_request"
    · rw [if_pos hui] at h
      rw [if_pos (.inr hui), List.append_nil]
      cases h
      exact ⟨rfl, rfl, rfl⟩
    · rw [if_neg hui] at h
      rw [if_neg (not_or.mpr ⟨hresponse, hui⟩)]
      split at h
      all_goals
        cases h
        exact ⟨rfl, rfl, rfl⟩

/-- A line that does no harm gives its event to the subscribers. -/
theorem readLine_spec (h : e.readLine limits l = .ok e') :
    e'.reader = e.reader ∧ e'.callbacks = e.callbacks ∧
      e'.delivered = e.delivered ++ given e.callbacks l := by
  cases l with
  | none => cases h
  | some line =>
    simp only [PiEngine.readLine, PiEngine.handleLine] at h
    unfold given eventOf
    split at h
    · next hlong =>
      cases h
      simp [hlong]
    · next hlong =>
      have hlimits := loads_upToLimits limits (strip line.toList)
      split at h
      · next hblank =>
        cases h
        have hnone : loads ⟨none, none⟩ [] = .error .decode := by decide +kernel
        simp [hlong, hblank, hnone]
      · cases hloads : loads limits (strip line.toList) with
        | error err =>
          rw [hloads] at h hlimits
          cases err with
          | decode =>
            cases h
            obtain hfree | hfree | hfree := hlimits
            · simp [hlong, ← hfree]
            · cases hfree
            · cases hfree
          | digits => cases h
          | recursion => cases h
        | ok v =>
          rw [hloads] at h hlimits
          obtain hfree | hfree | hfree := hlimits
          · cases v with
            | obj frame =>
              have hspec := handleFrame_spec h
              simp only [hlong, if_false, ← hfree]
              split at hspec
              · next htype => simpa [htype] using hspec
              · next htype => simpa [htype] using hspec
            | _ => cases h
          · cases hfree
          · cases hfree

end OneLine

/-! ## Runs -/

section Runs

variable {limits : Limits} {e : PiEngine} {a : Audience}

/-- The engine and the audience that it should have. -/
structure Serves (e : PiEngine) (a : Audience) : Prop where
  alive : e.reader ≠ .crashed
  running : e.reader = .running ↔ a.ended = false
  callbacks : e.callbacks = a.callbacks
  delivered : e.delivered = a.delivered

/-- Whatever happens but a line that does harm. -/
theorem Serves.next (h : Serves e a) {act : EngineAction} (hspares : SparesReader limits e act) :
    Serves ((engineSystem limits).next e act) (a.step act) := by
  cases act with
  | line l =>
    by_cases hrunning : e.reader = .running
    · have hended := h.running.mp hrunning
      obtain ⟨e', he'⟩ := readLine_ok_iff.mpr (hspares hrunning)
      obtain ⟨hreader, hcallbacks, hdelivered⟩ := readLine_spec he'
      have hstep : (engineSystem limits).step e (.line l) = .ok e' := by
        simp only [engineSystem, hrunning, ne_eq, not_true_eq_false, if_false, he']
      rw [System.next_eq_of_step hstep, Audience.step, if_neg (by simp [hended])]
      refine ⟨hreader ▸ h.alive, ?_, hcallbacks.trans h.callbacks, ?_⟩
      · rw [hreader]
        exact h.running
      · rw [hdelivered, h.delivered, h.callbacks]
    · have hended : a.ended = true := by simpa [hrunning] using h.running
      have hstep : (engineSystem limits).step e (.line l) = .error () := by
        simp only [engineSystem, ne_eq, hrunning, not_false_eq_true, if_true]
      rw [System.next_eq_self_of_error hstep, Audience.step, if_pos hended]
      exact h
  | eof =>
    by_cases hrunning : e.reader = .running
    · have hstep : (engineSystem limits).step e .eof = .ok (e.endReader .ended) := by
        simp only [engineSystem, hrunning, ne_eq, not_true_eq_false, if_false]
      rw [System.next_eq_of_step hstep]
      exact ⟨by simp [PiEngine.endReader], by simp [PiEngine.endReader, Audience.step],
        h.callbacks, h.delivered⟩
    · have hstep : (engineSystem limits).step e .eof = .error () := by
        simp only [engineSystem, ne_eq, hrunning, not_false_eq_true, if_true]
      rw [System.next_eq_self_of_error hstep]
      exact ⟨h.alive, by simp [Audience.step, hrunning], h.callbacks, h.delivered⟩
  | stop =>
    rw [System.next_eq_of_step (rfl : (engineSystem limits).step e .stop = .ok _)]
    refine ⟨?_, ?_, h.callbacks, h.delivered⟩
    · simp only [PiEngine.endReader]
      split
      · simp
      · exact h.alive
    · simp only [PiEngine.endReader, Audience.step]
      split
      · simp
      · next hrunning => simpa using hrunning
  | subscribe c =>
    exact ⟨h.alive, h.running, congrArg (· ++ [c]) h.callbacks, h.delivered⟩
  | unsubscribe c =>
    exact ⟨h.alive, h.running, congrArg (·.erase c) h.callbacks, h.delivered⟩
  | _ => exact ⟨h.alive, h.running, h.callbacks, h.delivered⟩

theorem Serves.run (h : Serves e a) {as : List EngineAction}
    (hG : (engineSystem limits).Guarded (SparesReader limits) e as) :
    Serves ((engineSystem limits).run e as) (as.foldl Audience.step a) := by
  induction as generalizing e a with
  | nil => exact h
  | cons act as ih => exact ih (h.next hG.1) hG.2

/-- A crash is for good. -/
theorem crashed_run (h : e.reader = .crashed) (as : List EngineAction) :
    ((engineSystem limits).run e as).reader = .crashed := by
  refine System.invariant_run (I := fun e : PiEngine => e.reader = .crashed) (fun e act e' he hstep => ?_) as h
  cases act with
  | line l => simp only [engineSystem, he, ne_eq, reduceCtorEq, not_false_eq_true, if_true] at hstep
  | eof => simp only [engineSystem, he, ne_eq, reduceCtorEq, not_false_eq_true, if_true] at hstep
  | stop =>
    simp only [engineSystem, he, reduceCtorEq, if_false] at hstep
    cases hstep
    rfl
  | _ =>
    cases hstep
    exact he

/-- A line that does harm ends the reader. -/
theorem crashed_next {act : EngineAction} (h : ¬ SparesReader limits e act) :
    ((engineSystem limits).next e act).reader = .crashed := by
  cases act with
  | line l =>
    obtain ⟨hrunning, hharm⟩ := Classical.not_imp.mp h
    have hraise : ∃ err, e.readLine limits l = .error err := by
      cases hread : e.readLine limits l with
      | error err => exact ⟨err, rfl⟩
      | ok e' => exact absurd (readLine_ok_iff.mp ⟨e', hread⟩) hharm
    obtain ⟨err, herr⟩ := hraise
    have hstep : (engineSystem limits).step e (.line l) = .ok (e.endReader .crashed) := by
      simp only [engineSystem, hrunning, ne_eq, not_true_eq_false, if_false, herr]
    rw [System.next_eq_of_step hstep]
    rfl
  | _ => exact absurd trivial h

theorem guarded_of_run {as : List EngineAction}
    (h : ((engineSystem limits).run e as).reader ≠ .crashed) :
    (engineSystem limits).Guarded (SparesReader limits) e as := by
  induction as generalizing e with
  | nil => trivial
  | cons act as ih =>
    rw [System.run_cons] at h
    refine ⟨?_, ih h⟩
    by_contra hharm
    exact h (crashed_run (crashed_next hharm) as)

/-- The reader runs until the end of the stream or the stop, and passes every event on, exactly if no
line that it takes does harm. -/
theorem reader_survives_iff (limits : Limits) (as : List EngineAction) :
    ReaderSurvives limits as ↔
      (engineSystem limits).Guarded (SparesReader limits) .started as := by
  constructor
  · exact fun h => guarded_of_run h.1
  · intro hG
    have hserves : Serves ((engineSystem limits).run .started as) (audience as) :=
      Serves.run ⟨by simp [PiEngine.started], by simp [PiEngine.started], rfl, rfl⟩ hG
    exact ⟨hserves.alive, hserves.running, hserves.delivered⟩

end Runs

/-- A line that is no JSON text, a blank one, a response and an event. -/
theorem reader_survives_noise :
    ReaderSurvives ⟨some 1000, some 4300⟩
      [.subscribe 0, .sendCommand, .line (some "Starting [1, 2"), .line (some " "),
        .line (some "\x7b\"type\": \"response\", \"id\": \"req_1\"\x7d"),
        .line (some "\x7b\"type\": \"agent_settled\"\x7d"), .eof] := by
  refine (reader_survives_iff _ _).mpr ?_
  decide +kernel

/-- JSON texts that are no objects, and a response with a list for its id while a command waits. -/
def harmfulLines : List String := [
  "42", "[]", "null", "\"text\"", "\x7b\"type\": \"response\", \"id\": []\x7d"]

/-- No event is given to anybody after them. -/
theorem reader_dies : ¬ ∃ l ∈ harmfulLines, ReaderSurvives ⟨some 1000, some 4300⟩
    [.subscribe 0, .sendCommand, .line (some l), .line (some "\x7b\"type\": \"agent_settled\"\x7d")] := by
  have hcrash : ∀ l ∈ harmfulLines, ((engineSystem ⟨some 1000, some 4300⟩).run .started
      [.subscribe 0, .sendCommand, .line (some l),
        .line (some "\x7b\"type\": \"agent_settled\"\x7d")]).reader = .crashed := by
    decide +kernel
  rintro ⟨l, hl, halive, -⟩
  exact halive (hcrash l hl)

/-- More brackets than the scanner enters, and more digits than `int` takes, do harm as well. -/
theorem not_harmless_of_limits {limits : Limits} (e : PiEngine) {c : Char} {n : ℕ}
    (hc : isGraphic c = true) (hn : n < maxLineBytes)
    (h : loads limits (List.replicate (n + 1) c) = .error .digits ∨
      loads limits (List.replicate (n + 1) c) = .error .recursion) :
    ¬ Harmless limits e (some (String.ofList (List.replicate (n + 1) c))) := by
  have hspace : isSpace c = false := isSpace_of_isGraphic hc
  have hstrip : strip (List.replicate (n + 1) c) = List.replicate (n + 1) c := by
    have hlast : (List.replicate (n + 1) c).getLast? = some c := by
      rw [List.getLast?_replicate, if_neg n.succ_ne_zero]
    simpa using @strip_frame [] _ [] (fun x hx => by cases hx) (fun x hx => by cases hx)
      ⟨c, rfl, hspace⟩ ⟨c, hlast, hspace⟩
  have hlength : (String.ofList (List.replicate (n + 1) c)).length = n + 1 := by simp
  simp only [Harmless, String.toList_ofList, hstrip, hlength]
  rintro (hlong | hblank | hframe)
  · omega
  · simp at hblank
  · rcases h with h | h
    all_goals
      rw [h] at hframe
      exact hframe

end AgentCraft.Engine
