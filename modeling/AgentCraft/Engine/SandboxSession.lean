import AgentCraft.Python.JsonNumbers
import AgentCraft.Python.JsonTexts
import AgentCraft.Python.Utf8

/-!
# Requests to an MCP server in a sandbox

`SandboxStdioSession._request` writes a request and reads lines until one is the response to it. A server
may print other things before: logs, blank lines, notifications, requests of its own, responses to other
requests. `_recv` takes a blank line for the end of the stream, and goes by the id alone, compared as
Python compares; `request_answer_iff` says which output it gets past.
-/

namespace AgentCraft.Engine

open AgentCraft.Python

/-- A JSON-RPC message. -/
abbrev Message := List (List ℕ × Json)

/-- `k in message`. -/
def hasItem (k : String) (message : Message) : Bool := message.any (·.1 = codePoints k)

/-- What `readline` does: it returns a line, raises `UnicodeDecodeError`, or returns `None`. -/
inductive Output
  | line (s : String)
  | undecodable
  | eof
deriving DecidableEq, Repr

/-- What `_request` raises: the messages of `McpSandboxError`, and what escapes. -/
inductive RequestError
  /-- "MCP 沙箱连接已关闭". -/
  | closed
  /-- "MCP 沙箱输出超限". -/
  | outputLimit
  /-- "MCP 沙箱请求超时". -/
  | timedOut
  /-- "MCP server 返回错误". -/
  | serverError
  | recursionError
  | unicodeDecodeError
deriving DecidableEq, Repr

/-- `_recv`, with `received` bytes read before. After the last output the server prints nothing until
the wait times out. -/
@[grind] def recv (limits : Limits) (maxOutputBytes : ℕ) (wantId : ℤ) :
    ℕ → List Output → Except RequestError Message
  | _, [] => .error .timedOut
  | _, .undecodable :: _ => .error .unicodeDecodeError
  | _, .eof :: _ => .error .closed
  | received, .line s :: rest =>
    if s = "" then .error .closed
    else if maxOutputBytes < received + (encodeUtf8 s).length then .error .outputLimit
    else match loads limits s.toList with
      | .error .recursion => .error .recursionError
      | .ok (.obj message) =>
        if (getItem message "id").equalsInt wantId then .ok message
        else recv limits maxOutputBytes wantId (received + (encodeUtf8 s).length) rest
      | _ => recv limits maxOutputBytes wantId (received + (encodeUtf8 s).length) rest

/-- What `_request` makes of the response: its result, a dictionary. -/
def outcome (message : Message) : Except RequestError Message :=
  if hasItem "error" message then .error .serverError
  else match getItem message "result" with
    | .obj result => .ok result
    | _ => .ok []

/-- `_request` after it has sent the request with the id. -/
def request (limits : Limits) (maxOutputBytes : ℕ) (requestId : ℤ) (output : List Output) :
    Except RequestError Message :=
  (recv limits maxOutputBytes requestId 0 output).bind outcome

/-! ## What it is meant to return -/

/-- The response to the request: it carries the id, and a result or an error, and is no request. -/
def IsResponse (wantId : ℤ) (message : Message) : Prop :=
  getItem message "id" = .int wantId ∧ hasItem "method" message = false ∧
    (hasItem "result" message || hasItem "error" message) = true

/-- The line is a response to the request, however deep or long its JSON is. -/
def Answers (wantId : ℤ) : Output → Prop
  | .line s => ∃ message, loads ⟨none, none⟩ s.toList = .ok (.obj message) ∧ IsResponse wantId message
  | _ => False

/-- The bytes of what a server prints. -/
def outputBytes (output : List Output) : ℕ :=
  (output.map fun | .line s => (encodeUtf8 s).length | _ => 0).sum

/-- What `_recv` gets past: a line that is not empty, that the interpreter reads or finds ill-formed, and
whose id, if it is an object, does not compare equal to that of the request. -/
def Passed (limits : Limits) (wantId : ℤ) : Output → Prop
  | .line s => s ≠ "" ∧ loads limits s.toList ≠ .error .recursion ∧
      ∀ message, loads limits s.toList = .ok (.obj message) →
        (getItem message "id").equalsInt wantId = false
  | _ => False

section Requests

variable {limits : Limits} {maxOutputBytes received : ℕ} {wantId : ℤ} {noise : List Output}
  {answer : String} {message : Message}

/-- The answer itself is read if the limits of the interpreter allow it. -/
theorem recv_answer (hanswer : loads ⟨none, none⟩ answer.toList = .ok (.obj message))
    (hresponse : IsResponse wantId message) (hbound : received + (encodeUtf8 answer).length ≤ maxOutputBytes) :
    recv limits maxOutputBytes wantId received [.line answer] = .ok message ↔
      loads limits answer.toList = .ok (.obj message) := by
  have hid : (getItem message "id").equalsInt wantId = true := by
    rw [hresponse.1]
    exact decide_eq_true rfl
  have hne : answer ≠ "" := by
    rintro rfl
    have hnone : loads ⟨none, none⟩ "".toList = .error .decode := by decide +kernel
    rw [hnone] at hanswer
    cases hanswer
  rw [recv, if_neg hne, if_neg (Nat.not_lt.mpr hbound)]
  rcases loads_upToLimits limits answer.toList with hfree | hdigits | hrecursion
  · rw [hfree, hanswer]
    simp only [hid, if_true]
  · rw [hdigits, recv]
    exact ⟨fun h => (by cases h), fun h => (by cases h)⟩
  · rw [hrecursion]
    exact ⟨fun h => (by cases h), fun h => (by cases h)⟩

/-- A line that is passed: `_recv` reads on. -/
theorem recv_passed {s : String} (h : Passed limits wantId (.line s)) (rest : List Output)
    (hbound : received + (encodeUtf8 s).length ≤ maxOutputBytes) :
    recv limits maxOutputBytes wantId received (.line s :: rest) =
      recv limits maxOutputBytes wantId (received + (encodeUtf8 s).length) rest := by
  obtain ⟨hne, hrecursion, hid⟩ := h
  rw [recv, if_neg hne, if_neg (Nat.not_lt.mpr hbound)]
  cases hloads : loads limits s.toList with
  | error err =>
    cases err with
    | recursion => exact absurd hloads hrecursion
    | _ => rfl
  | ok v =>
    cases v with
    | obj m => simp only [hid m hloads, Bool.false_eq_true, if_false]
    | _ => rfl

/-- A line that is not passed: `_recv` raises, or returns it. -/
theorem recv_not_passed {s : String} (h : ¬ Passed limits wantId (.line s)) (rest : List Output)
    (hbound : received + (encodeUtf8 s).length ≤ maxOutputBytes)
    (hrecv : recv limits maxOutputBytes wantId received (.line s :: rest) = .ok message) :
    loads limits s.toList = .ok (.obj message) := by
  rw [recv] at hrecv
  by_cases hempty : s = ""
  · rw [if_pos hempty] at hrecv
    cases hrecv
  · rw [if_neg hempty, if_neg (Nat.not_lt.mpr hbound)] at hrecv
    cases hloads : loads limits s.toList with
    | error err =>
      cases err with
      | recursion =>
        rw [hloads] at hrecv
        cases hrecv
      | _ => exact absurd ⟨hempty, by simp [hloads], fun m hm => by simp [hloads] at hm⟩ h
    | ok v =>
      cases v with
      | obj m =>
        cases hid : (getItem m "id").equalsInt wantId with
        | true =>
          simp only [hloads, hid, if_true, Except.ok.injEq] at hrecv
          rw [hrecv]
        | false =>
          refine absurd ⟨hempty, by simp [hloads], fun m' hm' => ?_⟩ h
          rw [hloads] at hm'
          cases hm'
          exact hid
      | _ => exact absurd ⟨hempty, by simp [hloads], fun m hm => by simp [hloads] at hm⟩ h

/-- `_recv` returns the response exactly if it gets past everything before it, and the limits of the
interpreter allow the response. -/
theorem recv_answer_iff (limits : Limits)
    (hanswer : loads ⟨none, none⟩ answer.toList = .ok (.obj message))
    (hresponse : IsResponse wantId message) (hnoise : ∀ o ∈ noise, ¬ Answers wantId o)
    (heof : .eof ∉ noise)
    (hbound : received + outputBytes (noise ++ [.line answer]) ≤ maxOutputBytes) :
    recv limits maxOutputBytes wantId received (noise ++ [.line answer]) = .ok message ↔
      (∀ o ∈ noise, Passed limits wantId o) ∧ loads limits answer.toList = .ok (.obj message) := by
  induction noise generalizing received with
  | nil =>
    simp only [List.nil_append, List.not_mem_nil, false_imp_iff, implies_true, true_and]
    exact recv_answer hanswer hresponse (by simpa [outputBytes] using hbound)
  | cons o noise ih =>
    have hrest := fun o ho => hnoise o (List.mem_cons_of_mem _ ho)
    cases o with
    | eof => exact absurd List.mem_cons_self heof
    | undecodable =>
      refine ⟨fun h => (by cases h), fun h => ?_⟩
      exact (h.1 .undecodable List.mem_cons_self).elim
    | line s =>
      have hbytes : received + (encodeUtf8 s).length + outputBytes (noise ++ [.line answer]) ≤
          maxOutputBytes := by
        rw [Nat.add_assoc]
        exact hbound
      have hfirst := (Nat.le_add_right _ _).trans hbytes
      rw [List.forall_mem_cons, List.cons_append]
      by_cases hpassed : Passed limits wantId (.line s)
      · rw [recv_passed hpassed _ hfirst, and_iff_right hpassed]
        exact ih hrest (fun h => heof (List.mem_cons_of_mem _ h)) hbytes
      · constructor
        · intro hrecv
          have hloads := recv_not_passed hpassed _ hfirst hrecv
          -- what is returned would be a response
          refine absurd ⟨message, ?_, hresponse⟩ (hnoise _ List.mem_cons_self)
          rcases loads_upToLimits limits s.toList with hfree | hdigits | hrecursion
          · rw [← hfree, hloads]
          · rw [hloads] at hdigits
            cases hdigits
          · rw [hloads] at hrecursion
            cases hrecursion
        · rintro ⟨⟨hp, -⟩, -⟩
          exact absurd hp hpassed

/-- `_request` returns what its own response says exactly if `_recv` gets past everything before the
response, and the limits of the interpreter allow the response. -/
theorem request_answer_iff (limits : Limits)
    (hanswer : loads ⟨none, none⟩ answer.toList = .ok (.obj message))
    (hresponse : IsResponse wantId message) (hnoise : ∀ o ∈ noise, ¬ Answers wantId o)
    (heof : .eof ∉ noise) (hbound : outputBytes (noise ++ [.line answer]) ≤ maxOutputBytes) :
    (recv limits maxOutputBytes wantId 0 (noise ++ [.line answer]) = .ok message ∧
      request limits maxOutputBytes wantId (noise ++ [.line answer]) = outcome message) ↔
      (∀ o ∈ noise, Passed limits wantId o) ∧ loads limits answer.toList = .ok (.obj message) := by
  have hrecv := recv_answer_iff limits hanswer hresponse hnoise heof
    (show 0 + outputBytes (noise ++ [.line answer]) ≤ maxOutputBytes by rwa [Nat.zero_add])
  rw [← hrecv]
  refine ⟨And.left, fun h => ⟨h, ?_⟩⟩
  rw [request, h]
  rfl

end Requests

/-- The text of a response without result to a request. -/
def emptyResponse (id : String) : String := "\x7b\"id\": " ++ id ++ ", \"result\": \x7b\x7d\x7d"

/-- A log line and the response to another request before the response. -/
theorem request_past_noise :
    recv ⟨some 1000, some 4300⟩ 1000 1 0
        ([.line "listening", .line (emptyResponse "7")] ++ [.line (emptyResponse "1")]) =
        .ok [(codePoints "id", .int 1), (codePoints "result", .obj [])] ∧
      request ⟨some 1000, some 4300⟩ 1000 1
        ([.line "listening", .line (emptyResponse "7")] ++ [.line (emptyResponse "1")]) =
        outcome [(codePoints "id", .int 1), (codePoints "result", .obj [])] := by
  have hlog (limits : Limits) (h : limits ∈ [⟨none, none⟩, ⟨some 1000, some 4300⟩]) :
      loads limits "listening".toList = .error .decode := by
    revert limits
    decide +kernel
  have hother (limits : Limits) (h : limits ∈ [⟨none, none⟩, ⟨some 1000, some 4300⟩]) :
      loads limits (emptyResponse "7").toList =
        .ok (.obj [(codePoints "id", .int 7), (codePoints "result", .obj [])]) := by
    revert limits
    decide +kernel
  refine (request_answer_iff ⟨some 1000, some 4300⟩ (by decide +kernel) ⟨by decide, by decide, by decide⟩
    ?_ (by decide) (by decide)).mpr ⟨?_, by decide +kernel⟩
  · rw [List.forall_mem_cons, List.forall_mem_singleton]
    constructor
    · rintro ⟨m, hm, -⟩
      rw [hlog _ (by simp)] at hm
      cases hm
    · rintro ⟨m, hm, hresponse⟩
      rw [hother _ (by simp)] at hm
      cases hm
      exact absurd hresponse.1 (by decide)
  · rw [List.forall_mem_cons, List.forall_mem_singleton]
    refine ⟨⟨by decide, by rw [hlog _ (by simp)]; simp, fun m hm => ?_⟩,
      ⟨by decide, by rw [hother _ (by simp)]; simp, fun m hm => ?_⟩⟩
    · rw [hlog _ (by simp)] at hm
      cases hm
    · rw [hother _ (by simp)] at hm
      cases hm
      decide

/-- A blank line before the response, a request of the server with the same id, and `true` for an id. -/
theorem recv_stopped_by_noise :
    recv ⟨some 1000, some 4300⟩ 1000 1 0 ([.line ""] ++ [.line (emptyResponse "1")]) = .error .closed ∧
      recv ⟨some 1000, some 4300⟩ 1000 1 0
        ([.line "\x7b\"id\": 1, \"method\": \"ping\"\x7d"] ++ [.line (emptyResponse "1")]) =
        .ok [(codePoints "id", .int 1), (codePoints "method", .ofString "ping")] ∧
      recv ⟨some 1000, some 4300⟩ 1000 1 0
        ([.line (emptyResponse "true")] ++ [.line (emptyResponse "1")]) =
        .ok [(codePoints "id", .bool true), (codePoints "result", .obj [])] := by
  decide +kernel

end AgentCraft.Engine
