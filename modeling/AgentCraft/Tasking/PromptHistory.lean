import AgentCraft.Tasking.Schema
import Mathlib.Data.List.Sort

/-!
# The prompt of a round

`_load_history` takes the newest messages of the task, and `_build_outgoing_message` keeps those that
precede the source message of the round. The first attempt of a round finds its source at the end of the
log. An attempt after a reclaim finds behind it the facts that earlier attempts have stored, and these
use up the window: `promptRight_iff` says when that does not show.
-/

namespace AgentCraft.Tasking

/-- The messages of a task, under the constraints of their table. -/
structure MessageLog where
  rows : List TaskMessage
  ids : (rows.map (·.id)).Nodup
  sequences : (rows.map (·.eventSequence)).Nodup

/-- `_ROLE_LABELS`. -/
def MessageAuthor.label : MessageAuthor → String
  | .user => "用户"
  | .assistant => "助手"
  | .tool => "工具"

/-- The line of a message of the history. -/
def TaskMessage.line (m : TaskMessage) : String := m.author.label ++ "：" ++ m.content

/-- The text that `_build_outgoing_message` makes of the history that it keeps. -/
def promptText (prior : List TaskMessage) (current : TaskMessage) : String :=
  if prior.isEmpty then current.content
  else "\n".intercalate ("[历史对话回顾]" :: prior.map TaskMessage.line ++
    ["", "[当前消息]", current.content])

/-- `_build_outgoing_message`. -/
def buildOutgoingMessage (history : List TaskMessage) (current : TaskMessage) : String :=
  promptText (history.filter (·.eventSequence < current.eventSequence)) current

/-- `ORDER BY event_sequence DESC`. -/
def newestFirst (rows : List TaskMessage) : List TaskMessage :=
  rows.insertionSort fun m m' => m'.eventSequence ≤ m.eventSequence

namespace MessageLog

/-- `_load_history`: the newest messages, oldest first, and the source message of the round. -/
def loadHistory (log : MessageLog) (window : ℕ) (source : MessageId) :
    Option (List TaskMessage × TaskMessage) :=
  let history := ((newestFirst log.rows).take window).reverse
  match history.find? (·.id = source) with
  | some current => some (history, current)
  | none => (log.rows.find? (·.id = source)).map fun current => (history, current)

/-- The message that an attempt sends to the engine. -/
def prompt (log : MessageLog) (window : ℕ) (source : MessageId) : Option String :=
  (log.loadHistory window source).map fun (history, current) =>
    buildOutgoingMessage history current

/-! ## What the prompt is meant to be -/

/-- All messages, oldest first. -/
def ascending (log : MessageLog) : List TaskMessage := (newestFirst log.rows).reverse

/-- The messages before the source, oldest first. -/
def preceding (log : MessageLog) (source : TaskMessage) : List TaskMessage :=
  log.ascending.filter (·.eventSequence < source.eventSequence)

/-- The messages that earlier attempts of the round have stored after its source. -/
def following (log : MessageLog) (source : TaskMessage) : List TaskMessage :=
  log.ascending.filter (source.eventSequence < ·.eventSequence)

/-- The log as the first attempt of the round finds it. -/
def upTo (log : MessageLog) (source : TaskMessage) : MessageLog where
  rows := log.rows.filter (·.eventSequence ≤ source.eventSequence)
  ids := log.ids.sublist (List.filter_sublist.map _)
  sequences := log.sequences.sublist (List.filter_sublist.map _)

/-- The prompt consists of the newest messages before the source, as many as fit, and the source; what
earlier attempts have stored after the source makes no difference. -/
structure PromptRight (log : MessageLog) (window : ℕ) (source : TaskMessage) : Prop where
  recent : ∃ prior, prior <:+ log.preceding source ∧ prior.length ≤ window ∧
    log.prompt window source.id = some (promptText prior source)
  stable : log.prompt window source.id = (log.upTo source).prompt window source.id

/-! ## The order of the log -/

variable {log : MessageLog} {source : TaskMessage} {window : ℕ}

theorem ascending_perm (log : MessageLog) : log.ascending.Perm log.rows :=
  (List.reverse_perm _).trans (List.perm_insertionSort _ _)

/-- The sequence numbers of the log increase. -/
theorem ascending_pairwise (log : MessageLog) :
    log.ascending.Pairwise fun m m' => m.eventSequence < m'.eventSequence := by
  have hsorted := List.pairwise_insertionSort
    (fun m m' : TaskMessage => m'.eventSequence ≤ m.eventSequence) log.rows
  have hle : log.ascending.Pairwise fun m m' => m.eventSequence ≤ m'.eventSequence :=
    List.pairwise_reverse.mpr hsorted
  have hne : log.ascending.Pairwise fun m m' => m.eventSequence ≠ m'.eventSequence :=
    List.pairwise_map.mp ((log.ascending_perm.map _).nodup_iff.mpr log.sequences)
  exact (hle.and hne).imp fun h => Nat.lt_of_le_of_ne h.1 h.2

/-- The source stands between the messages that precede it and those that follow it. -/
theorem ascending_eq (h : source ∈ log.rows) :
    log.ascending = log.preceding source ++ source :: log.following source := by
  obtain ⟨pre, post, hsplit⟩ := List.append_of_mem (log.ascending_perm.mem_iff.mpr h)
  have hsorted := log.ascending_pairwise
  rw [hsplit] at hsorted
  obtain ⟨-, hright, hpre⟩ := List.pairwise_append.mp hsorted
  obtain ⟨hpost, -⟩ := List.pairwise_cons.mp hright
  have hbefore : ∀ m ∈ pre, m.eventSequence < source.eventSequence :=
    fun m hm => hpre m hm source List.mem_cons_self
  have hpreceding : log.preceding source = pre := by
    unfold preceding
    rw [hsplit, List.filter_append, List.filter_cons_of_neg (by simp)]
    rw [List.filter_eq_self.mpr fun m hm => decide_eq_true (hbefore m hm),
      List.filter_eq_nil_iff.mpr fun m hm => by simpa using (hpost m hm).le, List.append_nil]
  have hfollowing : log.following source = post := by
    unfold following
    rw [hsplit, List.filter_append, List.filter_cons_of_neg (by simp)]
    rw [List.filter_eq_nil_iff.mpr fun m hm => by simpa using (hbefore m hm).le,
      List.filter_eq_self.mpr fun m hm => decide_eq_true (hpost m hm), List.nil_append]
  rw [hpreceding, hfollowing, hsplit]

/-- The log that the first attempt finds ends with the source. -/
theorem ascending_upTo (h : source ∈ log.rows) :
    (log.upTo source).ascending = log.preceding source ++ [source] := by
  have hfilter : (log.ascending.filter (·.eventSequence ≤ source.eventSequence)) =
      log.preceding source ++ [source] := by
    rw [ascending_eq h, List.filter_append, List.filter_cons_of_pos (by simp)]
    rw [List.filter_eq_self.mpr, List.filter_eq_nil_iff.mpr]
    · intro m hm
      simpa using (List.mem_filter.mp hm).2
    · intro m hm
      simpa using (of_decide_eq_true (List.mem_filter.mp hm).2).le
  rw [← hfilter]
  refine List.Perm.eq_of_pairwise (fun m m' _ _ hlt hlt' => absurd hlt hlt'.asymm)
    (log.upTo source).ascending_pairwise (log.ascending_pairwise.filter _) ?_
  exact (ascending_perm _).trans (log.ascending_perm.symm.filter _)

/-! ## What is sent -/

theorem eq_of_id_eq {m : TaskMessage} (hm : m ∈ log.rows) (h : source ∈ log.rows)
    (hid : m.id = source.id) : m = source :=
  List.inj_on_of_nodup_map log.ids hm h hid

/-- The window, oldest message first. -/
theorem history_eq (log : MessageLog) (window : ℕ) :
    ((newestFirst log.rows).take window).reverse = log.ascending.drop (log.ascending.length - window) := by
  rw [List.reverse_take]
  simp [ascending]

/-- An attempt finds its source, in the window or by itself. -/
theorem loadHistory_eq (h : source ∈ log.rows) (window : ℕ) :
    log.loadHistory window source.id =
      some (log.ascending.drop (log.ascending.length - window), source) := by
  unfold loadHistory
  simp only [history_eq]
  split
  · next m hfind =>
    have hid : m.id = source.id := by simpa using List.find?_some hfind
    have hm := log.ascending_perm.mem_iff.mp (List.mem_of_mem_drop (List.mem_of_find?_eq_some hfind))
    rw [eq_of_id_eq hm h hid]
  · have hfound : log.rows.find? (·.id = source.id) = some source := by
      obtain ⟨m, hfind⟩ : ∃ m, log.rows.find? (·.id = source.id) = some m :=
        Option.isSome_iff_exists.mp (List.find?_isSome.mpr ⟨source, h, by simp⟩)
      have hid : m.id = source.id := by simpa using List.find?_some hfind
      rw [hfind, eq_of_id_eq (List.mem_of_find?_eq_some hfind) h hid]
    rw [hfound]
    rfl

/-- What an attempt sends: the newest of the preceding messages, less by what follows the source. -/
theorem prompt_eq (h : source ∈ log.rows) (window : ℕ) :
    log.prompt window source.id = some (promptText ((log.preceding source).drop
      ((log.preceding source).length + 1 + (log.following source).length - window)) source) := by
  unfold prompt
  rw [loadHistory_eq h, ascending_eq h, List.drop_append, List.length_append, List.length_cons,
    Nat.add_right_comm _ 1, Nat.add_assoc _ _ 1]
  simp only [Option.map_some, buildOutgoingMessage, List.filter_append]
  congr 2
  rw [List.filter_eq_self.mpr, List.filter_eq_nil_iff.mpr, List.append_nil]
  · intro m hm
    rcases List.mem_cons.mp (List.mem_of_mem_drop hm) with rfl | hm
    · simp
    · simpa using (of_decide_eq_true (List.mem_filter.mp hm).2).le
  · intro m hm
    exact (List.mem_filter.mp (List.mem_of_mem_drop hm)).2

theorem upTo_preceding (h : source ∈ log.rows) :
    (log.upTo source).preceding source = log.preceding source := by
  rw [preceding, ascending_upTo h, List.filter_append, List.filter_cons_of_neg (by simp),
    List.filter_nil, List.append_nil]
  exact List.filter_eq_self.mpr fun m hm => (List.mem_filter.mp hm).2

theorem upTo_following (h : source ∈ log.rows) : (log.upTo source).following source = [] := by
  rw [following, ascending_upTo h]
  refine List.filter_eq_nil_iff.mpr fun m hm => ?_
  rcases List.mem_append.mp hm with hm | hm
  · simpa using (of_decide_eq_true (List.mem_filter.mp hm).2).le
  · rw [List.mem_singleton.mp hm]
    simp

theorem mem_upTo (h : source ∈ log.rows) : source ∈ (log.upTo source).rows :=
  List.mem_filter.mpr ⟨h, by simp⟩

/-! ## When it is right -/

/-- Another message of history makes the text longer. -/
theorem length_promptText_cons (m : TaskMessage) (prior : List TaskMessage) (current : TaskMessage) :
    (promptText prior current).length < (promptText (m :: prior) current).length := by
  cases prior with
  | nil =>
    simp only [promptText, List.isEmpty_nil, List.isEmpty_cons, if_true, Bool.false_eq_true, if_false,
      List.map_cons, List.map_nil, List.cons_append, List.nil_append, String.intercalate_cons_cons,
      String.intercalate_singleton, String.length_append]
    have hbreak : "\n".length = 1 := rfl
    omega
  | cons m' prior =>
    simp only [promptText, List.isEmpty_cons, Bool.false_eq_true, if_false,
      List.map_cons, List.cons_append, String.intercalate_cons_cons, String.length_append]
    have hbreak : "\n".length = 1 := rfl
    omega

theorem length_promptText_append (ms prior : List TaskMessage) (current : TaskMessage)
    (h : ms ≠ []) :
    (promptText prior current).length < (promptText (ms ++ prior) current).length := by
  induction ms with
  | nil => exact absurd rfl h
  | cons m ms ih =>
    have hstep := length_promptText_cons m (ms ++ prior) current
    by_cases hms : ms = []
    · subst hms
      exact hstep
    · exact (ih hms).trans hstep

/-- Histories that end together give one text only if they are the same. -/
theorem promptText_drop_inj {ms : List TaskMessage} {current : TaskMessage} {i j : ℕ} (hij : i ≤ j)
    (h : promptText (ms.drop j) current = promptText (ms.drop i) current) :
    ms.length ≤ i ∨ i = j := by
  by_contra hne
  push Not at hne
  have hsplit : ms.drop i = (ms.drop i).take (j - i) ++ ms.drop j := by
    conv_lhs => rw [← List.take_append_drop (j - i) (ms.drop i), List.drop_drop, Nat.add_sub_cancel' hij]
  have hlt := length_promptText_append ((ms.drop i).take (j - i)) (ms.drop j) current (by
    intro hnil
    have hlen := congrArg List.length hnil
    rw [List.length_take, List.length_drop, List.length_nil] at hlen
    omega)
  rw [← hsplit, h] at hlt
  exact absurd hlt (Nat.lt_irrefl _)

/-- The prompt is the right one if nothing follows the source, if there is no history to send, or if all
messages of the task fit into the window. -/
theorem promptRight_iff (log : MessageLog) (window : ℕ) (h : source ∈ log.rows) :
    log.PromptRight window source ↔
      log.following source = [] ∨ log.preceding source = [] ∨ window ≤ 1 ∨
        log.rows.length ≤ window := by
  have hlength : log.rows.length =
      (log.preceding source).length + 1 + (log.following source).length := by
    rw [← log.ascending_perm.length_eq, ascending_eq h, List.length_append, List.length_cons]
    omega
  have hstable : log.prompt window source.id = (log.upTo source).prompt window source.id ↔
      promptText ((log.preceding source).drop (log.rows.length - window)) source =
        promptText ((log.preceding source).drop ((log.preceding source).length + 1 - window))
          source := by
    rw [prompt_eq h, prompt_eq (mem_upTo h), upTo_preceding h, upTo_following h, ← hlength]
    exact Option.some_inj
  constructor
  · intro hright
    have heq := hstable.mp hright.stable
    by_contra hno
    push Not at hno
    obtain ⟨hfollowing, hpreceding, hwindow, hroom⟩ := hno
    have hk := List.length_pos_iff.mpr hfollowing
    have hn := List.length_pos_iff.mpr hpreceding
    rcases promptText_drop_inj (by omega) heq with hle | hle <;> omega
  · intro hcond
    refine ⟨⟨_, List.drop_suffix _ _, ?_, prompt_eq h window⟩, hstable.mpr ?_⟩
    · rw [List.length_drop]
      omega
    · rcases hcond with hnil | hnil | hone | hroom
      · rw [hlength, hnil]
        rfl
      · rw [hnil, List.drop_nil, List.drop_nil]
      · rw [List.drop_eq_nil_of_le (by omega), List.drop_eq_nil_of_le (by omega)]
      · rw [Nat.sub_eq_zero_of_le hroom, Nat.sub_eq_zero_of_le (by omega)]

/-! ## A retried round -/

/-- The source message of a second round. -/
def doubleThem : TaskMessage := ⟨3, 8, .user, "Double them."⟩

/-- A finished round and the source of the next one. -/
def twoRounds : List TaskMessage :=
  [⟨1, 1, .user, "How many apples?"⟩, ⟨2, 5, .assistant, "Seven."⟩, doubleThem]

/-- What the first attempt of the second round finds. -/
def firstAttempt : MessageLog := ⟨twoRounds, by decide, by decide⟩

/-- What the second attempt finds after the first one has stored forty tool results. -/
def secondAttempt : MessageLog where
  rows := twoRounds ++ (List.range 40).map fun i => ⟨10 + i, 10 + i, .tool, "ok"⟩
  ids := by decide +kernel
  sequences := by decide +kernel

theorem firstAttempt_promptRight : firstAttempt.PromptRight 40 doubleThem :=
  (promptRight_iff firstAttempt 40 (by decide)).mpr (.inl (by decide))

/-- The second attempt sends its source alone: the conversation is lost. -/
theorem secondAttempt_not_promptRight :
    secondAttempt.prompt 40 3 = some "Double them." ∧ ¬ secondAttempt.PromptRight 40 doubleThem := by
  have hmem : doubleThem ∈ secondAttempt.rows := by decide +kernel
  have hpreceding : secondAttempt.preceding doubleThem = twoRounds.take 2 := by decide +kernel
  have hfollowing : (secondAttempt.following doubleThem).length = 40 := by decide +kernel
  have hprompt : secondAttempt.prompt 40 3 = some "Double them." := by
    have heq := prompt_eq hmem 40
    rw [hpreceding, hfollowing] at heq
    exact heq
  refine ⟨hprompt, fun hright => ?_⟩
  have hstable := hright.stable
  rw [prompt_eq (mem_upTo hmem), upTo_preceding hmem, upTo_following hmem, hpreceding] at hstable
  have hsent := hprompt.symm.trans hstable
  have hlonger := length_promptText_append (twoRounds.take 2) [] doubleThem (by decide)
  have hlength := congrArg String.length (Option.some_inj.mp hsent)
  exact absurd hlength (Nat.ne_of_lt hlonger)

end MessageLog

end AgentCraft.Tasking
