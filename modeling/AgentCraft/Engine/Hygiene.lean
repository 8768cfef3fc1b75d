import AgentCraft.Engine.Extension
import AgentCraft.Transition.Fallible
import AgentCraft.Web.JsLiterals

/-!
# Instantiating the template

What `generate` writes, against the template with every payload put into its slot at once. The payloads of the
tools have no placeholders in them when the replacements that follow read them, or the check at the end
refuses; the task id comes before both, so a task id with one of their placeholders is rewritten
(`pendingSource_eq_render`). And a payload is an expression of the script: it has the value that was given
unless that has an integer that is no double, or an object with the key `__proto__`.
-/

namespace AgentCraft.Engine

open AgentCraft.Python AgentCraft.Web AgentCraft.Transition

/-! ## The template with its payloads -/

/-- `faux_block` as a template. -/
def providerBlock (provider : String) : Template Slot :=
  if provider = "faux" then fauxBlockTemplate else noFauxBlock

/-- The payloads that are put into the slots of the template and of its block. -/
def payload (c : Call) (tools userTools : Json) : Slot → List ℕ
  | .taskId => c.taskId.literal
  | .toolsJson => dumpsPlain tools
  | .userMcpToolsJson => dumpsPlain userTools
  | .echoMax => (intText fauxEchoMaxChars).map Char.toNat
  | .modelInput => c.inputs.text ⟨true, true⟩
  | .fauxBlock => Slot.fauxBlock.name

/-- A slot of the template with the block in its place. -/
def withBlock (block : List ℕ) (σ : Slot → List ℕ) (s : Slot) : List ℕ := if s = .fauxBlock then block else σ s

/-- The simultaneous substitution. -/
def substituted (c : Call) (tools userTools : Json) : List ℕ :=
  extensionTemplate.render
    (withBlock ((providerBlock c.provider).render (payload c tools userTools)) (payload c tools userTools))

/-- The payloads of the source, each with the value that was given. -/
def payloads (c : Call) (tools userTools : Json) : List (List ℕ × Json) :=
  [(c.taskId.literal, c.taskId.value), (dumpsPlain tools, tools), (dumpsPlain userTools, userTools)] ++
    if c.provider = "faux" then [] else [(c.inputs.text ⟨true, true⟩, c.inputs)]

/-- The source is the template with the payloads in its slots, and each of them has the value that was given. -/
structure Hygienic (h : Host) (c : Call) (source : List ℕ) : Prop where
  substitutes : ∃ registered, registeredTools c.tools = .ok registered ∧
    source = substituted c (toolEntries registered) (userEntries (userMcpRegistration h c.userMcpTools)) ∧
    ∀ p ∈ payloads c (toolEntries registered) (userEntries (userMcpRegistration h c.userMcpTools)),
      jsLiteral (chars p.1) = some (exactValue p.2)

/-- `generate` raises, or what it writes is hygienic. -/
def Instantiates (h : Host) (c : Call) : Prop := ∀ e, generate h c = .ok e → Hygienic h c e.source

/-- Texts of code points, and values of `json.loads`. -/
structure Call.WellFormed (c : Call) : Prop where
  taskId : ∀ u, c.taskId = .str u → ∀ n ∈ u, n < 0x110000
  modelInput : ∀ u ∈ c.modelInput, ∀ n ∈ u, n < 0x110000
  userMcpTools : ∀ item ∈ c.userMcpTools, item.isValue = true

/-- The task id as it stands after the tools have been put in. -/
def settledTaskId (c : Call) (tools userTools : Json) : List ℕ :=
  replaceAll Slot.userMcpToolsJson.name (dumpsPlain userTools) 0
    (replaceAll Slot.toolsJson.name (dumpsPlain tools) 0 c.taskId.literal)

/-! ## Placeholders in slots -/

theorem not_infix_names {s t : Slot} (h : s ≠ t) : ¬ s.name <:+: t.name := by
  cases s <;> cases t <;> first | exact absurd rfl h | decide

theorem replaceAll_name {s t : Slot} (new : List ℕ) :
    replaceAll s.name new 0 t.name = if t = s then new else t.name := by
  split
  · next heq =>
    rw [heq]
    exact replaceAll_self (List.ne_nil_of_length_pos (Nat.lt_of_lt_of_le (by decide) s.isToken.length))
  · next hne => exact replaceAll_of_not_infix (not_infix_names (Ne.symm hne))

theorem slots_extensionTemplate :
    extensionTemplate.rest.map Prod.fst = [.toolsJson, .userMcpToolsJson, .taskId, .fauxBlock] := rfl

theorem slots_fauxBlockTemplate : fauxBlockTemplate.rest.map Prod.fst = [.echoMax, .echoMax] := rfl

theorem slots_noFauxBlock : noFauxBlock.rest.map Prod.fst = [.modelInput] := rfl

theorem providerBlock_isSpaced (provider : String) : (providerBlock provider).isSpaced = true := by
  unfold providerBlock
  split
  · exact fauxBlockTemplate_isSpaced
  · exact noFauxBlock_isSpaced

/-- What stands in the slots of a block before the model input does. -/
def blockSlot (s : Slot) : List ℕ :=
  if s = .echoMax then (intText fauxEchoMaxChars).map Char.toNat else s.name

theorem mem_slots_providerBlock {provider : String} {s : Slot}
    (hs : s ∈ (providerBlock provider).rest.map Prod.fst) : s = .echoMax ∨ s = .modelInput := by
  unfold providerBlock at hs
  split at hs
  · rw [slots_fauxBlockTemplate] at hs
    exact .inl (by simpa using hs)
  · rw [slots_noFauxBlock, List.mem_singleton] at hs
    exact .inr hs

theorem fauxBlock_eq_render (provider : String) :
    fauxBlock provider = (providerBlock provider).render blockSlot := by
  unfold fauxBlock providerBlock placeholders
  split
  · rw [Template.replaceAll_render fauxBlockTemplate_isSpaced Slot.echoMax.isToken]
    exact Template.render_congr fun s _ => replaceAll_name _
  · refine Template.render_congr fun s hs => ?_
    rw [slots_noFauxBlock, List.mem_singleton] at hs
    rw [hs]
    rfl

/-- No other replacement than that of the model input changes the block. -/
theorem replaceAll_fauxBlock {s : Slot} (hinput : s ≠ .modelInput) (provider : String) (new : List ℕ) :
    replaceAll s.name new 0 (fauxBlock provider) = fauxBlock provider := by
  rw [fauxBlock_eq_render, Template.replaceAll_render (providerBlock_isSpaced provider) s.isToken]
  refine Template.render_congr fun t ht => ?_
  rcases mem_slots_providerBlock ht with rfl | rfl
  · exact replaceAll_of_findTokens s.isToken (by decide)
  · exact replaceAll_of_not_infix (not_infix_names hinput)

theorem findTokens_fauxBlock (provider : String) : findTokens 0 (fauxBlock provider) = expectedPending provider := by
  rw [fauxBlock_eq_render, Template.findTokens_render (providerBlock_isSpaced provider)]
  unfold providerBlock expectedPending
  split
  · exact (by decide : findTokens 0 (blockSlot .echoMax) ++ (findTokens 0 (blockSlot .echoMax) ++ []) = [])
  · exact (by decide : findTokens 0 (blockSlot .modelInput) ++ [] = [Slot.modelInput.name])

/-- The model input in the block. -/
theorem replaceAll_modelInput_fauxBlock (c : Call) (tools userTools : Json) :
    replaceAll Slot.modelInput.name (c.inputs.text ⟨true, true⟩) 0 (fauxBlock c.provider) =
      (providerBlock c.provider).render (payload c tools userTools) := by
  rw [fauxBlock_eq_render, Template.replaceAll_render (providerBlock_isSpaced c.provider) Slot.modelInput.isToken]
  refine Template.render_congr fun s hs => ?_
  rcases mem_slots_providerBlock hs with rfl | rfl
  · exact replaceAll_of_findTokens Slot.modelInput.isToken (by decide)
  · exact replaceAll_self (by decide)

/-! ## The tools -/

theorem mem_registeredTools {tools : List (String × String)} {registered : List (PlatformTool × String)}
    (h : registeredTools tools = .ok registered) {p : PlatformTool × String} (hp : p ∈ registered) :
    p.1 ∈ platformTools ∧ p.1.callbackPath = some p.2 := by
  induction tools generalizing registered with
  | nil =>
    cases h
    cases hp
  | cons selector tools ih =>
    rw [registeredTools] at h
    split at h
    · cases h
    · next tool htool =>
      obtain ⟨rest, hrest, rfl⟩ := map_eq_ok.mp h
      rcases List.mem_append.mp hp with hhead | htail
      · obtain ⟨path, hpath, rfl⟩ := Option.map_eq_some_iff.mp (Option.mem_toList.mp hhead)
        exact ⟨List.mem_of_find?_eq_some htool, hpath⟩
      · exact ih hrest htail

/-- No description or schema has a placeholder, and the entries are literals. -/
theorem platformTools_spec : ∀ t ∈ platformTools, ∀ path ∈ t.callbackPath,
    (!hasDouble (dumpsPlain (t.entry path)) && (t.entry path).isValue && isLiteral (t.entry path) &&
      (t.entry path).allStrings isEncodable) = true := by
  decide +kernel

theorem itemTexts_eq_map (o : Layout) (l : List Json) : Json.itemTexts o l = l.map (Json.text o) := by
  induction l with
  | nil => rfl
  | cons v l ih => rw [Json.itemTexts, ih, List.map_cons]

section Registered

variable {tools : List (String × String)} {registered : List (PlatformTool × String)}

/-- The registered platform tools bring no placeholder into the source. -/
theorem findTokens_toolEntries (h : registeredTools tools = .ok registered) :
    findTokens 0 (dumpsPlain (toolEntries registered)) = [] := by
  refine findTokens_of_hasDouble ?_
  rw [dumpsPlain, toolEntries, Json.text, itemTexts_eq_map]
  refine hasDouble_array fun t ht => ?_
  rw [List.map_map] at ht
  obtain ⟨p, hp, rfl⟩ := List.mem_map.mp ht
  obtain ⟨hmem, hpath⟩ := mem_registeredTools h hp
  have hspec := platformTools_spec _ hmem _ hpath
  rw [Bool.and_eq_true, Bool.and_eq_true, Bool.and_eq_true, Bool.not_eq_true'] at hspec
  exact hspec.1.1.1

end Registered

/-! ## The source -/

/-- What stands in the slots of the template before the model input does. -/
def pendingSlot (c : Call) (tools userTools : Json) : Slot → List ℕ
  | .taskId => settledTaskId c tools userTools
  | .toolsJson => dumpsPlain tools
  | .userMcpToolsJson => dumpsPlain userTools
  | s => s.name

/-- What stands in them at the end. -/
def writtenSource (c : Call) (tools userTools : Json) : List ℕ :=
  extensionTemplate.render (withBlock ((providerBlock c.provider).render (payload c tools userTools))
    (pendingSlot c tools userTools))

section Source

variable {h : Host} {c : Call} {tools userTools : Json}

/-- Only the task id is read by replacements that come later. -/
theorem pendingSource_eq_render (htools : findTokens 0 (dumpsPlain tools) = []) :
    pendingSource c tools userTools =
      extensionTemplate.render (withBlock (fauxBlock c.provider) (pendingSlot c tools userTools)) := by
  rw [pendingSource, placeholders, Template.replaceAll_render extensionTemplate_isSpaced Slot.fauxBlock.isToken,
    Template.replaceAll_render extensionTemplate_isSpaced Slot.taskId.isToken,
    Template.replaceAll_render extensionTemplate_isSpaced Slot.toolsJson.isToken,
    Template.replaceAll_render extensionTemplate_isSpaced Slot.userMcpToolsJson.isToken]
  refine Template.render_congr fun s hs => ?_
  rw [slots_extensionTemplate] at hs
  simp only [List.mem_cons, List.not_mem_nil, or_false] at hs
  rcases hs with rfl | rfl | rfl | rfl
  · rw [replaceAll_name, if_neg (by decide), replaceAll_name, if_neg (by decide), replaceAll_name, if_pos rfl]
    exact replaceAll_of_findTokens Slot.userMcpToolsJson.isToken htools
  · rw [replaceAll_name, if_neg (by decide), replaceAll_name, if_neg (by decide), replaceAll_name,
      if_neg (by decide), replaceAll_name, if_pos rfl]
    rfl
  · rw [replaceAll_name, if_neg (by decide), replaceAll_name, if_pos rfl]
    rfl
  · rw [replaceAll_name, if_pos rfl, replaceAll_fauxBlock (by decide), replaceAll_fauxBlock (by decide),
      replaceAll_fauxBlock (by decide)]
    rfl

theorem findTokens_pendingSource (htools : findTokens 0 (dumpsPlain tools) = []) :
    findTokens 0 (pendingSource c tools userTools) =
      findTokens 0 (dumpsPlain userTools) ++ (findTokens 0 (settledTaskId c tools userTools) ++
        expectedPending c.provider) := by
  have hslots (f : Slot → List (List ℕ)) : (extensionTemplate.rest.flatMap fun p => f p.1) =
      f .toolsJson ++ (f .userMcpToolsJson ++ (f .taskId ++ (f .fauxBlock ++ []))) := rfl
  rw [pendingSource_eq_render htools, Template.findTokens_render extensionTemplate_isSpaced,
    hslots fun s => findTokens 0 (withBlock (fauxBlock c.provider) (pendingSlot c tools userTools) s)]
  have hblock := findTokens_fauxBlock c.provider
  simp only [withBlock, pendingSlot, reduceCtorEq, if_false, if_true, htools, hblock, List.nil_append, List.append_nil]

/-- The check at the end is passed if there is no placeholder in the payloads. -/
theorem findTokens_pendingSource_eq_iff (htools : findTokens 0 (dumpsPlain tools) = []) :
    findTokens 0 (pendingSource c tools userTools) = expectedPending c.provider ↔
      findTokens 0 (dumpsPlain userTools) = [] ∧ findTokens 0 (settledTaskId c tools userTools) = [] := by
  rw [findTokens_pendingSource htools, ← List.append_assoc, List.append_left_eq_self, List.append_eq_nil_iff]

/-- The source that is written. -/
theorem replaceAll_modelInput_pendingSource (htools : findTokens 0 (dumpsPlain tools) = [])
    (huser : findTokens 0 (dumpsPlain userTools) = [])
    (htask : findTokens 0 (settledTaskId c tools userTools) = []) :
    replaceAll Slot.modelInput.name (c.inputs.text ⟨true, true⟩) 0 (pendingSource c tools userTools) =
      writtenSource c tools userTools := by
  rw [writtenSource, pendingSource_eq_render htools, Template.replaceAll_render extensionTemplate_isSpaced Slot.modelInput.isToken]
  refine Template.render_congr fun s hs => ?_
  rw [slots_extensionTemplate] at hs
  simp only [List.mem_cons, List.not_mem_nil, or_false] at hs
  rcases hs with rfl | rfl | rfl | rfl
  · exact replaceAll_of_findTokens Slot.modelInput.isToken htools
  · exact replaceAll_of_findTokens Slot.modelInput.isToken huser
  · exact replaceAll_of_findTokens Slot.modelInput.isToken htask
  · exact replaceAll_modelInput_fauxBlock c tools userTools

/-- It is the simultaneous substitution if the task id is still what it was. -/
theorem writtenSource_eq_substituted_iff :
    writtenSource c tools userTools = substituted c tools userTools ↔
      settledTaskId c tools userTools = c.taskId.literal := by
  have hrest : extensionTemplate.rest = extensionTemplate.rest.take 2 ++
      (.taskId, textOf contentToText) :: extensionTemplate.rest.drop 3 := rfl
  refine Template.render_eq_iff hrest fun s hs => ?_
  have hothers : (extensionTemplate.rest.take 2 ++ extensionTemplate.rest.drop 3).map Prod.fst =
      [.toolsJson, .userMcpToolsJson, .fauxBlock] := rfl
  rw [hothers] at hs
  simp only [List.mem_cons, List.not_mem_nil, or_false] at hs
  rcases hs with rfl | rfl | rfl <;> rfl

end Source

/-! ## Placeholders in a task id -/

section TaskIds

variable {c : Call} {tools userTools : Json}

/-- The task id has none of the placeholders that are replaced after its own. -/
def TaskId.isSettled : TaskId → Prop
  | .int _ => True
  | .str u => ¬ Slot.toolsJson.name <:+: u ∧ ¬ Slot.userMcpToolsJson.name <:+: u

/-- A task id that passes the check at the end is still what it was if it has none of the placeholders. -/
theorem settledTaskId_eq_iff (hpoints : ∀ u, c.taskId = .str u → ∀ n ∈ u, n < 0x110000)
    (h : findTokens 0 (settledTaskId c tools userTools) = []) :
    settledTaskId c tools userTools = c.taskId.literal ↔ c.taskId.isSettled := by
  cases htask : c.taskId with
  | int i =>
    refine iff_of_true ?_ trivial
    have hnone (s : Slot) (new : List ℕ) : replaceAll s.name new 0 ((intText i).map Char.toNat) =
        (intText i).map Char.toNat := replaceAll_of_findTokens s.isToken (findTokens_intText i)
    rw [settledTaskId, htask, TaskId.literal, hnone, hnone]
  | str u =>
    have hinfix (s : Slot) : s.name <:+: TaskId.literal (.str u) ↔ s.name <:+: u :=
      infix_quoted_iff s.isToken (hpoints u htask)
    rw [TaskId.isSettled, ← hinfix, ← hinfix]
    constructor
    · intro heq
      rw [heq] at h
      exact ⟨not_infix_of_findTokens Slot.toolsJson.isToken h, not_infix_of_findTokens Slot.userMcpToolsJson.isToken h⟩
    · rintro ⟨htools, huser⟩
      rw [settledTaskId, htask, replaceAll_of_not_infix htools, replaceAll_of_not_infix huser]

end TaskIds

/-! ## Encoding -/

theorem isEncodable_textOf (lines : List String) : isEncodable (textOf lines) = true := by
  rw [textOf, isEncodable_intercalate (by decide), List.all_map]
  exact List.all_eq_true.mpr fun l _ => isEncodable_codePoints l

/-- A text is encodable if its parts are. -/
theorem isEncodable_render (t : Template Slot) (σ : Slot → List ℕ) :
    isEncodable (t.render σ) =
      (isEncodable t.head && t.rest.all fun p => isEncodable (σ p.1) && isEncodable p.2) := by
  have hrest (parts : List (Slot × List ℕ)) : isEncodable (renderRest σ parts) =
      parts.all fun p => isEncodable (σ p.1) && isEncodable p.2 := by
    induction parts with
    | nil => rfl
    | cons p parts ih =>
      rw [renderRest, List.flatMap_cons, isEncodable_append, isEncodable_append, List.all_cons, ← ih]
      rfl
  rw [Template.render, isEncodable_append, hrest]

theorem isEncodable_itemTexts_ascii {us : List (List ℕ)} (hu : ∀ u ∈ us, ∀ n ∈ u, n < 0x110000) :
    isEncodable (Json.text ⟨true, true⟩ (.arr (us.map .str))) = true := by
  have hitems : ((Json.itemTexts ⟨true, true⟩ (us.map .str)).all isEncodable) = true := by
    rw [itemTexts_eq_map, List.map_map, List.all_map]
    exact List.all_eq_true.mpr fun u hmem => isEncodable_quoted_true (hu u hmem)
  rw [Json.text, isEncodable_enclosed (by decide) (by decide), isEncodable_intercalate (by decide), hitems]

theorem isEncodable_intText (i : ℤ) : isEncodable ((intText i).map Char.toNat) = true := isEncodable_map_toNat _

theorem mem_replaceAll {old new : List ℕ} {k : ℕ} {s : List ℕ} {n : ℕ} (h : n ∈ replaceAll old new k s) :
    n ∈ new ∨ n ∈ s := by
  fun_induction replaceAll old new k s with
  | case1 => cases h
  | case2 k c s ih => exact (ih h).imp_right (List.mem_cons_of_mem c)
  | case3 c s hprefix ih =>
    rcases List.mem_append.mp h with hnew | hrest
    · exact .inl hnew
    · exact (ih hrest).imp_right (List.mem_cons_of_mem c)
  | case4 c s hprefix ih =>
    rcases List.mem_cons.mp h with rfl | hrest
    · exact .inr List.mem_cons_self
    · exact (ih hrest).imp_right (List.mem_cons_of_mem c)

theorem isEncodable_replaceAll {old new s : List ℕ} (hnew : isEncodable new = true) (hs : isEncodable s = true) :
    isEncodable (replaceAll old new 0 s) = true := by
  refine List.all_eq_true.mpr fun n hn => ?_
  rcases mem_replaceAll hn with hmem | hmem
  · exact List.all_eq_true.mp hnew n hmem
  · exact List.all_eq_true.mp hs n hmem

/-- The texts of the templates. -/
theorem isEncodable_templates :
    (isEncodable extensionTemplate.head && extensionTemplate.rest.all fun p => isEncodable p.2) = true ∧
    ∀ provider, (isEncodable (providerBlock provider).head &&
      (providerBlock provider).rest.all fun p => isEncodable p.2) = true := by
  refine ⟨?_, fun provider => ?_⟩
  · simp only [extensionTemplate, List.all_cons, List.all_nil, isEncodable_textOf, Bool.and_self]
  · unfold providerBlock
    split
    · simp only [fauxBlockTemplate, List.all_cons, List.all_nil, isEncodable_textOf, Bool.and_self]
    · simp only [noFauxBlock, List.all_cons, List.all_nil, isEncodable_textOf, Bool.and_self]

theorem isEncodable_render_of {t : Template Slot} {σ : Slot → List ℕ}
    (ht : (isEncodable t.head && t.rest.all fun p => isEncodable p.2) = true)
    (hσ : ∀ s ∈ t.rest.map Prod.fst, isEncodable (σ s) = true) : isEncodable (t.render σ) = true := by
  rw [Bool.and_eq_true, List.all_eq_true] at ht
  rw [isEncodable_render, Bool.and_eq_true, List.all_eq_true]
  refine ⟨ht.1, fun p hp => ?_⟩
  rw [hσ p.1 (List.mem_map_of_mem hp), ht.2 p hp]
  rfl

section Accepting

variable {h : Host} {c : Call} {registered : List (PlatformTool × String)}

theorem toolEntries_spec (hreg : registeredTools c.tools = .ok registered) :
    (toolEntries registered).isValue = true ∧ isLiteral (toolEntries registered) = true ∧
      (toolEntries registered).allStrings isEncodable = true := by
  have hspec : ∀ p ∈ registered, (p.1.entry p.2).isValue = true ∧ isLiteral (p.1.entry p.2) = true ∧
      (p.1.entry p.2).allStrings isEncodable = true := by
    intro p hp
    obtain ⟨hmem, hpath⟩ := mem_registeredTools hreg hp
    have h := platformTools_spec _ hmem _ hpath
    rw [Bool.and_eq_true, Bool.and_eq_true, Bool.and_eq_true] at h
    exact ⟨h.1.1.2, h.1.2, h.2⟩
  clear hreg
  rw [toolEntries, Json.isValue, isLiteral, Json.allStrings]
  induction registered with
  | nil => exact ⟨rfl, rfl, rfl⟩
  | cons p registered ih =>
    obtain ⟨hp, hrest⟩ := List.forall_mem_cons.mp hspec
    obtain ⟨hvalue, hliteral, hstrings⟩ := ih hrest
    rw [List.map_cons, Json.itemsAreValues, itemsAreLiterals, Json.allItems, hp.1, hp.2.1, hp.2.2, hvalue,
      hliteral, hstrings]
    exact ⟨rfl, rfl, rfl⟩

/-- The arguments that are not refused. -/
structure Accepted (h : Host) (c : Call) : Prop where
  known : ∀ selector ∈ c.tools, (platformTool? selector).isSome
  prints : h.prints c.taskId.value = true ∧
    h.prints (userEntries (userMcpRegistration h c.userMcpTools)) = true
  userTools : findTokens 0 (dumpsPlain (userEntries (userMcpRegistration h c.userMcpTools))) = []
  taskId : ∀ registered, registeredTools c.tools = .ok registered →
    findTokens 0 (settledTaskId c (toolEntries registered)
      (userEntries (userMcpRegistration h c.userMcpTools))) = []
  writes : h.writes (codePoints "task-" ++ c.taskId.text ++ codePoints ".ts") = true
  encodable : isEncodable (dumpsPlain (userEntries (userMcpRegistration h c.userMcpTools))) = true

theorem registeredTools_isOk_iff (tools : List (String × String)) :
    (∃ registered, registeredTools tools = .ok registered) ↔ ∀ selector ∈ tools, (platformTool? selector).isSome := by
  induction tools with
  | nil => exact iff_of_true ⟨[], rfl⟩ fun selector hs => by cases hs
  | cons selector tools ih =>
    rw [List.forall_mem_cons, ← ih]
    constructor
    · rintro ⟨registered, hreg⟩
      rw [registeredTools] at hreg
      split at hreg
      · cases hreg
      · next tool htool =>
        obtain ⟨rest, hrest, -⟩ := map_eq_ok.mp hreg
        exact ⟨by rw [htool]; rfl, rest, hrest⟩
    · rintro ⟨hsome, rest, hrest⟩
      obtain ⟨tool, htool⟩ := Option.isSome_iff_exists.mp hsome
      refine ⟨(tool.callbackPath.map fun path => (tool, path)).toList ++ rest, ?_⟩
      rw [registeredTools, htool, hrest]
      rfl

theorem isEncodable_dumpsPlain {v : Json} (hv : v.allStrings isEncodable = true) :
    isEncodable (dumpsPlain v) = true :=
  (Json.isEncodable_text true v).trans hv

/-- The tools of the user decide whether the source can be encoded. -/
theorem isEncodable_writtenSource_iff (hc : c.WellFormed) (hreg : registeredTools c.tools = .ok registered)
    (userTools : Json) : isEncodable (writtenSource c (toolEntries registered) userTools) = true ↔
      isEncodable (dumpsPlain userTools) = true := by
  have htools := isEncodable_dumpsPlain (toolEntries_spec hreg).2.2
  constructor
  · intro hsource
    rw [writtenSource, isEncodable_render, Bool.and_eq_true, List.all_eq_true] at hsource
    have hslot : ∃ x, (Slot.userMcpToolsJson, x) ∈ extensionTemplate.rest :=
      ⟨_, List.mem_cons_of_mem _ List.mem_cons_self⟩
    obtain ⟨x, hx⟩ := hslot
    have huser := hsource.2 _ hx
    rw [Bool.and_eq_true] at huser
    exact huser.1
  · intro huser
    have hliteral : isEncodable c.taskId.literal = true := by
      cases htask : c.taskId with
      | int i => exact isEncodable_map_toNat _
      | str u => exact isEncodable_quoted_true (hc.taskId u htask)
    refine isEncodable_render_of isEncodable_templates.1 fun s hs => ?_
    rw [slots_extensionTemplate] at hs
    simp only [List.mem_cons, List.not_mem_nil, or_false] at hs
    rcases hs with rfl | rfl | rfl | rfl
    · exact htools
    · exact huser
    · exact isEncodable_replaceAll huser (isEncodable_replaceAll htools hliteral)
    · refine isEncodable_render_of (isEncodable_templates.2 c.provider) fun s hs => ?_
      rcases mem_slots_providerBlock hs with rfl | rfl
      · exact isEncodable_map_toNat _
      · exact isEncodable_itemTexts_ascii hc.modelInput

/-- Exactly the arguments that are accepted lead to a file. -/
theorem generate_eq_ok_iff (hc : c.WellFormed) (hreg : registeredTools c.tools = .ok registered) {e : Extension} :
    generate h c = .ok e ↔ Accepted h c ∧
      e = ⟨codePoints "task-" ++ c.taskId.text ++ codePoints ".ts",
        writtenSource c (toolEntries registered) (userEntries (userMcpRegistration h c.userMcpTools))⟩ := by
  have htools := findTokens_toolEntries hreg
  have hknown := (registeredTools_isOk_iff c.tools).mp ⟨registered, hreg⟩
  have hencodable := isEncodable_writtenSource_iff hc hreg (userEntries (userMcpRegistration h c.userMcpTools))
  rw [generate, hreg]
  change (if _ then _ else _) = _ ↔ _
  constructor
  · intro hok
    split at hok
    · cases hok
    · next hprints =>
      dsimp only at hok
      split at hok
      · cases hok
      · next htokens =>
        obtain ⟨huser, htask⟩ := (findTokens_pendingSource_eq_iff htools).mp (not_not.mp htokens)
        rw [replaceAll_modelInput_pendingSource htools huser htask] at hok
        split at hok
        · cases hok
        · next hwrites =>
          split at hok
          · cases hok
          · next hsource =>
            cases hok
            rw [Bool.or_eq_true, not_or, Bool.not_eq_true', Bool.not_eq_true', Bool.not_eq_false,
              Bool.not_eq_false] at hprints
            rw [Bool.not_eq_true', Bool.not_eq_false] at hwrites hsource
            refine ⟨⟨hknown, hprints, huser, fun r hr => ?_, hwrites, hencodable.mp hsource⟩, rfl⟩
            rw [hreg] at hr
            cases hr
            exact htask
  · rintro ⟨hacc, rfl⟩
    have htask := hacc.taskId registered hreg
    rw [if_neg (by simp [hacc.prints.1, hacc.prints.2])]
    dsimp only
    rw [if_neg (not_not.mpr ((findTokens_pendingSource_eq_iff htools).mpr ⟨hacc.userTools, htask⟩)),
      replaceAll_modelInput_pendingSource htools hacc.userTools htask, if_neg (by rw [hacc.writes]; decide),
      if_neg (by rw [hencodable.mpr hacc.encodable]; decide)]

/-! ## Values of the payloads -/

/-- The task id has none of the placeholders that follow, and is a double if it is a number; in the schemas, all
integers are doubles and no object has the key `__proto__`. -/
structure Portable (h : Host) (c : Call) : Prop where
  settled : c.taskId.isSettled
  taskId : isLiteral c.taskId.value = true
  schemas : ∀ t ∈ userMcpRegistration h c.userMcpTools, isLiteral (.obj t.schema) = true

theorem jsLiteral_taskId_iff (hc : c.WellFormed) :
    jsLiteral (chars c.taskId.literal) = some (exactValue c.taskId.value) ↔ isLiteral c.taskId.value = true := by
  cases htask : c.taskId with
  | int i =>
    rw [← literal_eq_iff, TaskId.literal, chars_map_toNat, jsLiteral, (reads_int i).loads_eq]
    exact ⟨fun h => Option.some.inj h, fun h => congrArg some h⟩
  | str u =>
    refine iff_of_true (jsLiteral_quoted (hc.taskId u htask)) ?_
    simp [TaskId.value, isLiteral]

/-- A schema that was given is a value. -/
theorem isValue_schemaOf {v : Json} (hv : v.isValue = true) : (Json.obj (schemaOf v)).isValue = true := by
  cases v with
  | obj l => exact hv
  | _ => exact (by decide +kernel : (Json.obj (schemaOf .null)).isValue = true)

theorem isValue_get {item : List (List ℕ × Json)} (hv : Json.fieldsAreValues item = true) (k : String) :
    (Items.get item k).isValue = true := by
  unfold Items.get
  induction item with
  | nil => exact (by simp [Json.isValue] : (Json.null).isValue = true)
  | cons p item ih =>
    obtain ⟨k', v⟩ := p
    rw [Json.fieldsAreValues, Bool.and_eq_true] at hv
    rw [List.lookup_cons]
    split
    · exact hv.1
    · exact ih hv.2

theorem isValue_userTool {item : Json} (hv : item.isValue = true) {t : UserTool} (ht : userTool h item = some t) :
    (Json.obj t.schema).isValue = true := by
  cases item with
  | obj item =>
    rw [Json.isValue, Bool.and_eq_true] at hv
    rw [userTool] at ht
    obtain ⟨toolName, -, ht⟩ := Option.bind_eq_some_iff.mp ht
    obtain ⟨serverId, -, ht⟩ := Option.bind_eq_some_iff.mp ht
    cases ht
    exact isValue_schemaOf (isValue_get hv.2 "schema")
  | _ => simp [userTool] at ht

theorem entry_spec {t : UserTool} (hv : (Json.obj t.schema).isValue = true) :
    t.entry.isValue = true ∧ isLiteral t.entry = isLiteral (.obj t.schema) := by
  have hstr (u : List ℕ) : (Json.str u).isValue = true ∧ isLiteral (.str u) = true := by
    simp [Json.isValue, isLiteral]
  have hkeys : (["name", "label", "description", "schema", "serverId", "toolName"].map codePoints).Nodup := by
    decide +kernel
  have hkey : ∀ k ∈ ["name", "label", "description", "schema", "serverId", "toolName"],
      decide (codePoints k ≠ protoKey) = true := by
    decide +kernel
  simp only [List.forall_mem_cons] at hkey
  obtain ⟨hname, hlabel, hdescription, hschema, hserver, htool, -⟩ := hkey
  have hfields : t.entry = .obj [(codePoints "name", .str t.name), (codePoints "label", .str t.label),
      (codePoints "description", .str t.description), (codePoints "schema", .obj t.schema),
      (codePoints "serverId", .str t.serverId), (codePoints "toolName", .str t.toolName)] := rfl
  rw [hfields]
  constructor
  · rw [Json.isValue, Bool.and_eq_true]
    refine ⟨decide_eq_true hkeys, ?_⟩
    simp only [Json.fieldsAreValues, (hstr _).1, hv, Bool.and_self]
  · rw [isLiteral]
    simp only [fieldsAreLiterals, (hstr _).2, hname, hlabel, hdescription, hschema, hserver, htool, Bool.true_and,
      Bool.and_true]

/-- The entries of the user's tools. -/
theorem userEntries_spec {registered : List UserTool} (hv : ∀ t ∈ registered, (Json.obj t.schema).isValue = true) :
    (userEntries registered).isValue = true ∧
      (isLiteral (userEntries registered) = true ↔ ∀ t ∈ registered, isLiteral (.obj t.schema) = true) := by
  rw [userEntries, Json.isValue, isLiteral]
  induction registered with
  | nil => exact ⟨rfl, iff_of_true rfl fun t ht => by cases ht⟩
  | cons t registered ih =>
    obtain ⟨ht, hrest⟩ := List.forall_mem_cons.mp hv
    obtain ⟨hvalue, hliteral⟩ := entry_spec ht
    obtain ⟨hvalues, hliterals⟩ := ih hrest
    rw [List.map_cons, Json.itemsAreValues, itemsAreLiterals, hvalue, hvalues, hliteral, List.forall_mem_cons,
      ← hliterals]
    exact ⟨rfl, Bool.and_eq_true _ _ ▸ Iff.rfl⟩

/-- What is written for arguments that are accepted is hygienic exactly if they are portable. -/
theorem Accepted.instantiates_iff (hacc : Accepted h c) (hc : c.WellFormed) : Instantiates h c ↔ Portable h c := by
  obtain ⟨registered, hreg⟩ := (registeredTools_isOk_iff c.tools).mpr hacc.known
  have hvalues : ∀ t ∈ userMcpRegistration h c.userMcpTools, (Json.obj t.schema).isValue = true := by
    intro t ht
    obtain ⟨item, hitem, hsome⟩ := List.mem_filterMap.mp ht
    exact isValue_userTool (hc.userMcpTools item hitem) hsome
  obtain ⟨hvalue, hliteral⟩ := userEntries_spec hvalues
  have hsettled := settledTaskId_eq_iff hc.taskId (hacc.taskId registered hreg)
  have huser := jsLiteral_text_eq_iff hvalue hacc.encodable
  constructor
  · intro hinst
    obtain ⟨⟨r, hr, hsource, hdecodes⟩⟩ := hinst _ ((generate_eq_ok_iff hc hreg).mpr ⟨hacc, rfl⟩)
    obtain rfl : registered = r := Except.ok.inj (hreg.symm.trans hr)
    refine ⟨hsettled.mp (writtenSource_eq_substituted_iff.mp hsource),
      (jsLiteral_taskId_iff hc).mp (hdecodes (c.taskId.literal, c.taskId.value) (by simp [payloads])),
      hliteral.mp (huser.mp ?_)⟩
    exact hdecodes (dumpsPlain (userEntries (userMcpRegistration h c.userMcpTools)),
      userEntries (userMcpRegistration h c.userMcpTools)) (by simp [payloads])
  · intro hp e he
    obtain ⟨-, rfl⟩ := (generate_eq_ok_iff hc hreg).mp he
    refine ⟨registered, hreg, writtenSource_eq_substituted_iff.mpr (hsettled.mpr hp.settled), ?_⟩
    obtain ⟨hvalue', hliteral', hstrings'⟩ := toolEntries_spec hreg
    intro p hmem
    rw [payloads, List.mem_append] at hmem
    rcases hmem with hmem | hmem
    · simp only [List.mem_cons, List.not_mem_nil, or_false] at hmem
      rcases hmem with rfl | rfl | rfl
      · exact (jsLiteral_taskId_iff hc).mpr hp.taskId
      · exact (jsLiteral_text_eq_iff hvalue' (isEncodable_dumpsPlain hstrings')).mpr hliteral'
      · exact huser.mpr (hliteral.mpr hp.schemas)
    · split at hmem
      · cases hmem
      · rw [List.mem_singleton.mp hmem]
        exact jsLiteral_strings hc.modelInput

/-- Only arguments that are accepted lead to a file. -/
theorem Accepted.of_generate (hc : c.WellFormed) {e : Extension} (he : generate h c = .ok e) : Accepted h c := by
  obtain ⟨registered, hreg⟩ : ∃ registered, registeredTools c.tools = .ok registered := by
    rw [generate] at he
    cases hreg : registeredTools c.tools with
    | ok registered => exact ⟨registered, rfl⟩
    | error _ =>
      rw [hreg] at he
      cases he
  exact ((generate_eq_ok_iff hc hreg).mp he).1

/-- What is written is hygienic exactly if the arguments are portable, or they are refused. -/
theorem generate_hygienic_iff (hc : c.WellFormed) : Instantiates h c ↔ (Accepted h c → Portable h c) := by
  by_cases hacc : Accepted h c
  · rw [hacc.instantiates_iff hc]
    exact ⟨fun hp _ => hp, fun hp => hp hacc⟩
  · exact iff_of_true (fun e he => absurd (.of_generate hc he) hacc) fun h => absurd h hacc

end Accepting

/-- A host on which every value is printed and every file can be written. -/
def plainHost : Host := ⟨fun _ => [], fun _ => true, fun _ => true⟩

/-- One tool of one server, for a task. -/
def oneToolCall (taskId : String) (description : List ℕ) (schema : Json) : Call where
  taskId := .str (codePoints taskId)
  tools := [("read_task_file", "1")]
  provider := "openai"
  modelInput := [codePoints "text", codePoints "__TASK_ID__\"\\"]
  userMcpTools := [dict [("server_id", .ofString "7"), ("tool_name", .ofString "search"), ("label", .ofString ""),
    ("description", .str description), ("schema", schema)]]

/-- Quotes, backslashes, a line separator and the end of a script in a description. -/
def scriptDescription : List ℕ := codePoints "</script>\"\\`$\x7b1\x7d" ++ [0x2028, 0x0A]

theorem generate_hygienic_scriptDescription :
    Instantiates plainHost (oneToolCall "task" scriptDescription (objectSchema ["q"] [])) := by
  refine (generate_hygienic_iff ⟨?_, by decide +kernel, by decide +kernel⟩).mpr fun _ => ⟨?_, ?_, by decide +kernel⟩
  · rintro u ⟨⟩
    decide +kernel
  · exact ⟨by decide +kernel, by decide +kernel⟩
  · decide +kernel

/-- Payloads that are lost: a task id that names the placeholder of the tools, a schema with a property of the name
`__proto__`, and one with an integer that is no double. -/
theorem not_generate_hygienic :
    ¬ Instantiates plainHost (oneToolCall "__TOOLS_JSON__" [] (objectSchema ["q"] [])) ∧
    ¬ Instantiates plainHost (oneToolCall "task" [] (objectSchema ["__proto__"] [])) ∧
    ¬ Instantiates plainHost (oneToolCall "task" [] (dict [("maximum", .int 9007199254740993)])) := by
  have hreg : registeredTools [("read_task_file", "1")] =
      .ok [(platformTools[1], "/internal/tools/read-task-file")] := by rfl
  have haccepted (taskId : String) (schema : Json)
      (huser : findTokens 0 (dumpsPlain (userEntries (userMcpRegistration plainHost
        (oneToolCall taskId [] schema).userMcpTools))) = [])
      (htask : findTokens 0 (settledTaskId (oneToolCall taskId [] schema)
        (toolEntries [(platformTools[1], "/internal/tools/read-task-file")])
        (userEntries (userMcpRegistration plainHost (oneToolCall taskId [] schema).userMcpTools))) = [])
      (hencodable : isEncodable (dumpsPlain (userEntries (userMcpRegistration plainHost
        (oneToolCall taskId [] schema).userMcpTools))) = true) :
      Accepted plainHost (oneToolCall taskId [] schema) := by
    refine ⟨(registeredTools_isOk_iff _).mp ⟨_, hreg⟩, ⟨rfl, rfl⟩, huser, fun registered hr => ?_, rfl, hencodable⟩
    obtain rfl := Except.ok.inj (hreg.symm.trans hr)
    exact htask
  have hwf (taskId : String) (schema : Json) (hid : ((codePoints taskId).all fun n => n < 0x110000) = true)
      (hitems : ((oneToolCall taskId [] schema).userMcpTools.all Json.isValue) = true) :
      (oneToolCall taskId [] schema).WellFormed := by
    have hinput : ∀ u ∈ [codePoints "text", codePoints "__TASK_ID__\"\\"], ∀ n ∈ u, n < 0x110000 := by decide +kernel
    refine ⟨?_, hinput, List.all_eq_true.mp hitems⟩
    rintro u ⟨⟩
    simpa using hid
  refine ⟨?_, ?_, ?_⟩
  · rw [(haccepted _ _ (by decide +kernel) (by decide +kernel) (by decide +kernel)).instantiates_iff
      (hwf _ _ (by decide +kernel) (by decide +kernel))]
    rintro ⟨hsettled, -, -⟩
    exact hsettled.1 (by decide +kernel)
  · rw [(haccepted _ _ (by decide +kernel) (by decide +kernel) (by decide +kernel)).instantiates_iff
      (hwf _ _ (by decide +kernel) (by decide +kernel))]
    rintro ⟨-, -, hschemas⟩
    revert hschemas
    decide +kernel
  · rw [(haccepted _ _ (by decide +kernel) (by decide +kernel) (by decide +kernel)).instantiates_iff
      (hwf _ _ (by decide +kernel) (by decide +kernel))]
    rintro ⟨-, -, hschemas⟩
    revert hschemas
    decide +kernel

end AgentCraft.Engine
