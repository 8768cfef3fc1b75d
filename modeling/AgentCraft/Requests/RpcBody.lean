import AgentCraft.Python.JsonTexts
import AgentCraft.Python.Utf8
import AgentCraft.Streams.EventStream

/-!
# The body of an MCP answer

`_parse_json_rpc_body` reads the answer of an MCP server: a JSON text, or else an event stream, of which
it takes the last line of data that is a response by itself. It breaks lines where `str.splitlines` does,
and does not join the lines of data of an event.

`Readable` says which bodies are read as they are meant (`parseJsonRpcBody_eq`).
-/

namespace AgentCraft.Requests

open AgentCraft.Python AgentCraft.Streams

/-- A message: the dictionary of a JSON text. -/
abbrev RpcMessage := List (List ℕ × Json)

/-- `key in message`. -/
def RpcMessage.hasKey (m : RpcMessage) (key : String) : Bool := m.any (·.1 = codePoints key)

/-- What makes a message a response. -/
def RpcMessage.isResponse (m : RpcMessage) : Bool := m.hasKey "result" || m.hasKey "error"

def dataPrefix : List Char := ['d', 'a', 't', 'a', ':']

/-- What is left of a line that begins with `data:`. -/
def lineData (line : List Char) : Option (List Char) :=
  if dataPrefix.isPrefixOf (strip line) then some (strip ((strip line).drop dataPrefix.length)) else none

/-- The text of a line of data is taken if it is a response; a `RecursionError` is not caught. -/
def readCandidate (limits : Limits) (result : Option RpcMessage) (text : List Char) :
    Except LoadsError (Option RpcMessage) :=
  match loads limits text with
  | .error .recursion => .error .recursion
  | .ok (.obj candidate) => .ok (if RpcMessage.isResponse candidate then some candidate else result)
  | _ => .ok result

/-- The loop of `_parse_json_rpc_body`. -/
def readLines (limits : Limits) (result : Option RpcMessage) (lines : List (List Char)) :
    Except LoadsError (Option RpcMessage) :=
  (lines.filterMap lineData).foldlM (readCandidate limits) result

/-- `_parse_json_rpc_body`. -/
def parseJsonRpcBody (limits : Limits) (raw : List UInt8) : Except LoadsError (Option RpcMessage) :=
  let text := (decodeReplace raw).toList
  match loads limits text with
  | .ok (.obj parsed) => .ok (some parsed)
  | .ok _ => .ok none
  | .error .recursion => .error .recursion
  | .error _ => readLines limits none (splitlines text)

/-- What a server writes. -/
inductive Body
  | plain (text : List Char)
  | stream (events : List StreamEvent)
deriving DecidableEq, Repr

@[grind] def Body.text : Body → List Char
  | plain text => text
  | stream es => streamText es

def Body.bytes (body : Body) : List UInt8 := encodeUtf8 (String.ofList body.text)

/-- The message is what the body says: its text, or the data of its last event. -/
def Body.Encodes (body : Body) (m : RpcMessage) : Prop :=
  match body with
  | plain text => loads ⟨none, none⟩ text = .ok (.obj m)
  | stream es => ∃ e, lastMessage es = some e ∧ loads ⟨none, none⟩ e.data = .ok (.obj m)

/-- What is read of the line itself, up to the first break that `str.splitlines` makes in it. -/
def firstData (l : EventLine) : Option (List Char) := lineData (breakLines l.text).1

/-- The line is read as a line of its kind. -/
structure ReadableLine (limits : Limits) (l : EventLine) : Prop where
  /-- No line of data begins in the midst of it. -/
  noStray : ∀ piece ∈ (breakLines l.text).2, lineData piece = none
  /-- Its data are not nested too deeply. -/
  depth : ∀ t, firstData l = some t → loads limits t ≠ .error .recursion

instance (limits : Limits) (l : EventLine) : Decidable (ReadableLine limits l) :=
  decidable_of_iff ((∀ piece ∈ (breakLines l.text).2, lineData piece = none) ∧
      ∀ t ∈ firstData l, loads limits t ≠ .error .recursion)
    ⟨fun h => ⟨h.1, h.2⟩, fun h => ⟨h.noStray, h.depth⟩⟩

/-- The data of the event stand on one of its lines, which `str.splitlines` leaves whole, with no number
of too many digits. -/
def OneLine (limits : Limits) (e : StreamEvent) : Prop :=
  ∃ b x b', e.dataLines = b ++ x :: b' ∧ (∀ y ∈ b ++ b', ∀ c ∈ y, isBlank c = true) ∧
    (∀ c ∈ x, isLineBreak c = false) ∧ loads limits (strip x) ≠ .error .digits

/-- The body is read as it is meant. -/
def Body.Readable (limits : Limits) : Body → Prop
  | plain text => loads limits text ≠ .error .digits ∧ loads limits text ≠ .error .recursion
  | stream es => (∀ e ∈ es, ∀ p ∈ e.lines, ReadableLine limits p.1) ∧
      ∀ e, lastMessage es = some e → OneLine limits e

/-! ## The lines of a stream -/

section Streams

variable {limits : Limits} {l : EventLine} {m : RpcMessage} {es : List StreamEvent}

/-- What begins like another line is no line of data. -/
theorem lineData_of_head {c : Char} (hspace : isSpace c = false) (hc : c ≠ 'd') (s : List Char) :
    lineData (c :: s) = none := by
  have hstrip : strip (c :: s) = c :: s.rdropWhile isSpace :=
    strip_append (List.cons_ne_nil c []) (fun x hx => by rwa [List.mem_singleton.mp hx]) s
  rw [lineData, hstrip, if_neg]
  intro hprefix
  exact hc (List.cons_prefix_cons.mp (List.isPrefixOf_iff_prefix.mp hprefix)).1.symm

theorem mem_dataPrefix {c : Char} (hc : c ∈ dataPrefix) : isSpace c = false ∧ isLineBreak c = false := by
  simp only [dataPrefix, List.mem_cons, List.not_mem_nil, or_false] at hc
  rcases hc with rfl | rfl | rfl | rfl | rfl <;> decide

/-- The text of a line of data. -/
theorem lineData_dataPrefix (s : List Char) : lineData (dataPrefix ++ s) = some (strip s) := by
  have hstrip : strip (dataPrefix ++ s) = dataPrefix ++ s.rdropWhile isSpace :=
    strip_append (List.cons_ne_nil _ _) (fun _ hc => (mem_dataPrefix hc).1) s
  have hprefix : dataPrefix.isPrefixOf (dataPrefix ++ s.rdropWhile isSpace) = true :=
    List.isPrefixOf_iff_prefix.mpr (List.prefix_append _ _)
  rw [lineData, hstrip, if_pos hprefix, List.drop_left, strip_rdropWhile]

/-- Of a line of data, the text up to the first break is read. -/
theorem firstData_value (value : LineText) :
    firstData (.field .data (some value)) = some (strip (breakLines value.chars).1) := by
  have hbreak : ∀ c ∈ dataPrefix, isLineBreak c = false := fun _ hc => (mem_dataPrefix hc).2
  have htext : EventLine.text (.field .data (some value)) = dataPrefix ++ value.chars := rfl
  rw [firstData, htext, breakLines_append hbreak, lineData_dataPrefix]

/-- A line without data is not taken for one with data. -/
theorem firstData_eq_none (h : l.data = none) : firstData l = none := by
  have hhead (c : Char) (s : List Char) (hbreak : isLineBreak c = false) (hspace : isSpace c = false)
      (hc : c ≠ 'd') (htext : l.text = c :: s) : firstData l = none := by
    have hfirst : breakLines (c :: s) = (c :: (breakLines s).1, (breakLines s).2) :=
      breakLines_append (a := [c]) (fun x hx => by rwa [List.mem_singleton.mp hx]) s
    rw [firstData, htext, hfirst]
    exact lineData_of_head hspace hc _
  cases l with
  | comment t => exact hhead ':' t.chars rfl rfl (by decide) rfl
  | field name value =>
    cases name with
    | data => cases value <;> cases h
    | event => cases value <;> exact hhead 'e' _ rfl rfl (by decide) rfl
    | id => cases value <;> exact hhead 'i' _ rfl rfl (by decide) rfl
    | retry => cases value <;> exact hhead 'r' _ rfl rfl (by decide) rfl

/-- A line of data without breaks is read whole; a name alone is not read, and has no text. -/
theorem firstData_whole {y : List Char} (h : l.data = some y) (hy : ∀ c ∈ y, isLineBreak c = false) :
    firstData l = some (strip y) ∨ firstData l = none ∧ y = [] := by
  cases l with
  | comment t => cases h
  | field name value =>
    cases name with
    | data =>
      cases value with
      | none =>
        cases h
        exact .inr ⟨by decide, rfl⟩
      | some value =>
        cases h
        left
        have hspace : ∃ d, value.chars = d ++ EventLine.dropSpace value.chars ∧ ∀ c ∈ d, c = ' ' := by
          unfold EventLine.dropSpace
          split
          · next hhead =>
            obtain ⟨s, hs⟩ := List.head?_eq_some_iff.mp hhead
            exact ⟨[' '], by rw [hs]; rfl, fun c hc => List.mem_singleton.mp hc⟩
          · exact ⟨[], rfl, fun c hc => by cases hc⟩
        obtain ⟨d, hd, hspaces⟩ := hspace
        generalize EventLine.dropSpace value.chars = y at hd hy
        have hbreak : ∀ c ∈ d ++ y, isLineBreak c = false := by
          intro c hc
          rcases List.mem_append.mp hc with hc | hc
          · rw [hspaces c hc]
            rfl
          · exact hy c hc
        have hlines : breakLines value.chars = (d ++ y, []) := by
          have hall := breakLines_append hbreak []
          rw [List.append_nil] at hall
          rw [hd, hall]
          exact congrArg (·, []) (List.append_nil _)
        have hstrip : strip (d ++ y) = strip y := by
          have hall := strip_spaces (fun c hc => by rw [hspaces c hc]; rfl)
            (fun c (hc : c ∈ []) => by cases hc) y
          rwa [List.append_nil] at hall
        rw [firstData_value, hlines, hstrip]
    | event => cases value <;> cases h
    | id => cases value <;> cases h
    | retry => cases value <;> cases h

/-- The texts that are tried, one for each line of data. -/
theorem filterMap_lineData (h : ∀ e ∈ es, ∀ p ∈ e.lines, ReadableLine limits p.1) :
    (splitlines (streamText es)).filterMap lineData =
      es.flatMap fun e => e.lines.filterMap (firstData ·.1) := by
  rw [splitlines_streamText, List.filterMap_flatMap]
  refine List.flatMap_congr fun e he => ?_
  have hempty : lineData [] = none := by decide
  rw [List.filterMap_append, List.filterMap_cons_none hempty, List.filterMap_nil, List.append_nil,
    List.filterMap_flatMap]
  have hlines := h e he
  generalize e.lines = lines at hlines
  induction lines with
  | nil => rfl
  | cons p lines ih =>
    have hstray : (breakLines p.1.text).2.filterMap lineData = [] :=
      List.filterMap_eq_nil_iff.mpr (hlines p List.mem_cons_self).noStray
    rw [List.flatMap_cons, ih fun q hq => hlines q (List.mem_cons_of_mem _ hq), allLines,
      List.filterMap_cons, hstray, List.filterMap_cons]
    unfold firstData
    cases lineData (breakLines p.1.text).1 <;> rfl

/-! ## What is taken of them -/

variable {r : Option RpcMessage} {text : List Char}

/-- A text that is not nested too deeply is passed or taken. -/
theorem readCandidate_ok (h : loads limits text ≠ .error .recursion) :
    ∃ r', readCandidate limits r text = .ok r' := by
  unfold readCandidate
  split
  · next hdeep => exact absurd hdeep h
  · exact ⟨_, rfl⟩
  · exact ⟨_, rfl⟩

/-- A response is taken. -/
theorem readCandidate_response (h : loads limits text = .ok (.obj m)) (hm : m.isResponse = true) :
    readCandidate limits r text = .ok (some m) := by
  simp only [readCandidate, h, hm, if_true]

/-- Nothing is taken of an empty text. -/
theorem readCandidate_nil : readCandidate limits r [] = .ok r := by
  have hnil : loads limits [] = .error .decode := rfl
  rw [readCandidate, hnil]

theorem foldlM_ok {texts : List (List Char)} (h : ∀ t ∈ texts, loads limits t ≠ .error .recursion) :
    ∃ r', texts.foldlM (readCandidate limits) r = .ok r' := by
  induction texts generalizing r with
  | nil => exact ⟨r, rfl⟩
  | cons t texts ih =>
    obtain ⟨r', hr'⟩ := readCandidate_ok (r := r) (h t List.mem_cons_self)
    rw [List.foldlM_cons, hr']
    exact ih fun u hu => h u (List.mem_cons_of_mem _ hu)

theorem foldlM_nil {texts : List (List Char)} (h : ∀ t ∈ texts, t = []) :
    texts.foldlM (readCandidate limits) r = .ok r := by
  induction texts with
  | nil => rfl
  | cons t texts ih =>
    rw [List.foldlM_cons, h t List.mem_cons_self, readCandidate_nil]
    exact ih fun u hu => h u (List.mem_cons_of_mem _ hu)

/-- The last text that is not empty is taken if it is a response. -/
theorem foldlM_last {before after : List (List Char)}
    (hbefore : ∀ t ∈ before, loads limits t ≠ .error .recursion)
    (htext : loads limits text = .ok (.obj m)) (hm : m.isResponse = true) (hafter : ∀ t ∈ after, t = []) :
    (before ++ text :: after).foldlM (readCandidate limits) r = .ok (some m) := by
  obtain ⟨r', hr'⟩ := foldlM_ok (r := r) hbefore
  rw [List.foldlM_append, hr']
  show (text :: after).foldlM (readCandidate limits) r' = .ok (some m)
  rw [List.foldlM_cons, readCandidate_response htext hm]
  exact foldlM_nil hafter

/-! ## The event that carries the message -/

/-- Where the last event with data stands. -/
theorem lastMessage_eq_some {e : StreamEvent} (h : lastMessage es = some e) :
    ∃ before after, es = before ++ e :: after ∧ e.dataLines ≠ [] ∧ ∀ x ∈ after, x.dataLines = [] := by
  obtain ⟨kept, hkept⟩ := List.getLast?_eq_some_iff.mp h
  obtain ⟨before, rest, rfl, -, hrest⟩ := List.filter_eq_append_iff.mp hkept
  obtain ⟨skipped, after, rfl, -, he, hafter⟩ := List.filter_eq_cons_iff.mp hrest
  refine ⟨before ++ skipped, after, by simp, of_decide_eq_true he, fun x hx => ?_⟩
  simpa using List.filter_eq_nil_iff.mp hafter x hx

/-- A blank line of data has no break. -/
theorem not_isLineBreak_of_isBlank {y : List Char} (h : l.data = some y)
    (hy : ∀ c ∈ y, isBlank c = true) : ∀ c ∈ y, isLineBreak c = false := by
  intro c hc
  obtain ⟨hfeed, hreturn⟩ := EventLine.not_mem_data h
  have hblank := hy c hc
  simp only [isBlank, Bool.or_eq_true, decide_eq_true_eq] at hblank
  rcases hblank with ((rfl | rfl) | rfl) | rfl
  · rfl
  · rfl
  · exact absurd hc hfeed
  · exact absurd hc hreturn

/-- The texts of an event: the one that carries the message, and empty ones after it. -/
theorem eventTexts_eq {e : StreamEvent} (hone : OneLine limits e)
    (hdata : loads ⟨none, none⟩ e.data = .ok (.obj m)) :
    ∃ before text after, e.lines.filterMap (firstData ·.1) = before ++ text :: after ∧
      loads ⟨none, none⟩ text = .ok (.obj m) ∧ loads limits text ≠ .error .digits ∧
      ∀ t ∈ after, t = [] := by
  obtain ⟨b, x, b', hlines, hblank, hbreak, hdigits⟩ := hone
  -- stripped, the data are the line that is not blank
  have hstrip : strip e.data = strip x := by
    obtain ⟨d, d', htext, hd, hd'⟩ := intercalate_blank (p := fun c => isSpace c = true) rfl
      (fun y hy c hc => isSpace_of_isBlank (hblank y hy c hc)) x
    rw [StreamEvent.data, hlines, htext, strip_spaces hd hd']
  have hx : loads ⟨none, none⟩ (strip x) = .ok (.obj m) := hstrip ▸ loads_strip hdata
  obtain ⟨lines, rest, hsplit, hb, hrest⟩ := List.filterMap_eq_append_iff.mp hlines
  obtain ⟨skipped, p, after, rfl, hskipped, hp, hafter⟩ := List.filterMap_eq_cons_iff.mp hrest
  have hread : firstData p.1 = some (strip x) := by
    rcases firstData_whole hp hbreak with hread | ⟨-, rfl⟩
    · exact hread
    · cases hx
  refine ⟨(lines ++ skipped).filterMap (firstData ·.1), strip x, after.filterMap (firstData ·.1), ?_, hx,
    hdigits, fun t ht => ?_⟩
  · have hcons : (p :: after).filterMap (firstData ·.1) =
        strip x :: after.filterMap (firstData ·.1) := List.filterMap_cons_some hread
    rw [hsplit, ← List.append_assoc, List.filterMap_append, hcons]
  · obtain ⟨q, hq, hqt⟩ := List.mem_filterMap.mp ht
    cases hqdata : q.1.data with
    | none =>
      rw [firstData_eq_none hqdata] at hqt
      cases hqt
    | some y =>
      have hy : y ∈ b' := hafter ▸ List.mem_filterMap.mpr ⟨q, hq, hqdata⟩
      have hyblank := hblank y (List.mem_append_right _ hy)
      have hnil : strip y = [] := by
        have hall := strip_spaces (fun c hc => isSpace_of_isBlank (hyblank c hc))
          (fun c (hc : c ∈ []) => by cases hc) []
        rwa [List.append_nil, List.append_nil] at hall
      rcases firstData_whole hqdata (not_isLineBreak_of_isBlank hqdata hyblank) with hread | ⟨hread, -⟩
      · rw [hread, hnil] at hqt
        exact (Option.some.inj hqt).symm
      · rw [hread] at hqt
        cases hqt

/-- The body is read as it is meant: what the server says is what is returned. -/
theorem parseJsonRpcBody_eq {body : Body} (hm : m.isResponse = true) (hbody : body.Encodes m)
    (h : body.Readable limits) : parseJsonRpcBody limits body.bytes = .ok (some m) := by
  have htext : (decodeReplace body.bytes).toList = body.text := by
    rw [Body.bytes, decodeReplace_eq (decodeUtf8_encodeUtf8 _), String.toList_ofList]
  cases body with
  | plain text =>
    obtain ⟨hdigits, hdepth⟩ := h
    have hloads : loads limits text = .ok (.obj m) := by
      rcases loads_upToLimits limits text with heq | heq | heq
      · rw [heq]
        exact hbody
      · exact absurd heq hdigits
      · exact absurd heq hdepth
    simp only [parseJsonRpcBody, htext, Body.text, hloads]
  | stream es =>
    obtain ⟨hlines, hone⟩ := h
    obtain ⟨e, he, hdata⟩ := hbody
    obtain ⟨before, after, rfl, hsome, hnone⟩ := lastMessage_eq_some he
    obtain ⟨first, text, rest, htexts, hread, hdigits, hrest⟩ := eventTexts_eq (hone e he) hdata
    -- the whole body is no JSON text
    have hwhole : loads limits (streamText (before ++ e :: after)) = .error .decode := by
      have hmem : e ∈ before ++ e :: after := List.mem_append_right _ List.mem_cons_self
      obtain ⟨b, c, s, hs, hb, hc⟩ := streamText_head hmem fun hnil => hsome (by
        rw [StreamEvent.dataLines, hnil]
        rfl)
      rw [hs]
      have hcs : isBlank c = false ∧ c.isDigit = false ∧ c ∉ valueHeads := by
        simp only [List.mem_cons, List.not_mem_nil, or_false] at hc
        rcases hc with rfl | rfl | rfl | rfl | rfl <;> decide
      refine loads_of_head (fun x hx => ?_) hcs.1 hcs.2.1 hcs.2.2
      rcases hb x hx with rfl | rfl <;> rfl
    simp only [parseJsonRpcBody, htext, Body.text, hwhole, readLines, filterMap_lineData hlines]
    have hafter : after.flatMap (fun e => e.lines.filterMap (firstData ·.1)) = [] := by
      refine List.flatMap_eq_nil_iff.mpr fun x hx => List.filterMap_eq_nil_iff.mpr fun p hp => ?_
      exact firstData_eq_none (List.filterMap_eq_nil_iff.mp (hnone x hx) p hp)
    have hdepth : ∀ x ∈ before ++ e :: after, ∀ t ∈ x.lines.filterMap (firstData ·.1),
        loads limits t ≠ .error .recursion := by
      intro x hx t ht
      obtain ⟨p, hp, hpt⟩ := List.mem_filterMap.mp ht
      exact (hlines x hx p hp).depth t hpt
    have htextDepth : ∀ t ∈ first ++ text :: rest, loads limits t ≠ .error .recursion :=
      htexts ▸ hdepth e (by simp)
    have hloads : loads limits text = .ok (.obj m) := by
      rcases loads_upToLimits limits text with heq | heq | heq
      · rw [heq]
        exact hread
      · exact absurd heq hdigits
      · exact absurd heq (htextDepth text (by simp))
    rw [List.flatMap_append, List.flatMap_cons, hafter, List.append_nil, htexts, ← List.append_assoc]
    refine foldlM_last (fun t ht => ?_) hloads hm hrest
    rcases List.mem_append.mp ht with ht | ht
    · obtain ⟨x, hx, hxt⟩ := List.mem_flatMap.mp ht
      exact hdepth x (List.mem_append_left _ hx) t hxt
    · exact htextDepth t (List.mem_append_left _ ht)

end Streams

/-! ## Bodies of servers -/

/-- A line of data. -/
def dataLine (chars : List Char) (h : '\n' ∉ chars ∧ '\r' ∉ chars) : EventLine :=
  .field .data (some ⟨chars, h⟩)

/-- The answer to `tools/list` of a server without tools, and its text in two parts. -/
def toolsMessage : RpcMessage := [(codePoints "jsonrpc", .ofString "2.0"), (codePoints "id", .int 2),
  (codePoints "result", .obj [(codePoints "tools", .arr [])])]

def toolsHead : List Char := " \x7b\"jsonrpc\": \"2.0\", \"id\": 2,".toList

def toolsTail : List Char := " \"result\": \x7b\"tools\": []\x7d\x7d".toList

/-- A comment and a notification before the answer, with different ends of lines. -/
def toolsStream : List StreamEvent := [
  ⟨[(.comment ⟨" ping".toList, by decide⟩, .lf)], .lf⟩,
  ⟨[(.field .event (some ⟨" message".toList, by decide⟩), .crlf),
    (dataLine " \x7b\"jsonrpc\": \"2.0\", \"method\": \"ready\"\x7d".toList (by decide), .crlf)], .crlf⟩,
  ⟨[(.field .data none, .lf), (dataLine (toolsHead ++ toolsTail) (by decide), .crlf)], .lf⟩]

theorem parseJsonRpcBody_toolsStream :
    parseJsonRpcBody ⟨some 1000, some 4300⟩ (Body.stream toolsStream).bytes = .ok (some toolsMessage) := by
  refine parseJsonRpcBody_eq (by decide) ⟨_, rfl, by decide +kernel⟩ ⟨by decide +kernel, fun e he => ?_⟩
  obtain rfl := Option.some.inj he
  have hbreaks : (toolsHead ++ toolsTail).tail.all (fun c => !isLineBreak c) = true := by decide +kernel
  exact ⟨[[]], (toolsHead ++ toolsTail).tail, [], by decide +kernel, by simp,
    fun c hc => by simpa using List.all_eq_true.mp hbreaks c hc, by decide +kernel⟩

/-- The same answer with its data on two lines. -/
def foldedStream : List StreamEvent :=
  [⟨[(dataLine toolsHead (by decide), .lf), (dataLine toolsTail (by decide), .lf)], .lf⟩]

/-- An answer with a line separator in a string, which JSON lets stand for itself. -/
def separatorMessage : RpcMessage := [(codePoints "jsonrpc", .ofString "2.0"), (codePoints "id", .int 2),
  (codePoints "result", .str [0x61, 0x2028, 0x62])]

def separatorStream : List StreamEvent := [⟨[(dataLine (toolsHead ++ " \"result\": \"a".toList ++
  Char.ofNat 0x2028 :: "b\"\x7d".toList) (by decide +kernel), .lf)], .lf⟩]

/-- Neither of them is found. -/
theorem parseJsonRpcBody_loses :
    (toolsMessage.isResponse = true ∧ (Body.stream foldedStream).Encodes toolsMessage ∧
      parseJsonRpcBody ⟨some 1000, some 4300⟩ (Body.stream foldedStream).bytes = .ok none) ∧
    separatorMessage.isResponse = true ∧ (Body.stream separatorStream).Encodes separatorMessage ∧
      parseJsonRpcBody ⟨some 1000, some 4300⟩ (Body.stream separatorStream).bytes = .ok none :=
  ⟨⟨by decide, ⟨_, rfl, by decide +kernel⟩, by decide +kernel⟩,
    by decide, ⟨_, rfl, by decide +kernel⟩, by decide +kernel⟩

end AgentCraft.Requests
