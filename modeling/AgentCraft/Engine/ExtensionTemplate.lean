import AgentCraft.Python.JsonLoads
import AgentCraft.Python.Placeholders

/-!
# The text of an extension

The template of `task.ts` and the two blocks that register a provider, each cut at its placeholders: a
`Template` whose slots are the placeholders. With their names in the slots they are the texts of the
generator. All of them are spaced, so every replacement takes place in the slots alone.
-/

namespace AgentCraft.Engine

open AgentCraft.Python

/-- The placeholders of the generator. -/
inductive Slot
  | fauxBlock
  | taskId
  | toolsJson
  | userMcpToolsJson
  | echoMax
  | modelInput
deriving DecidableEq, Repr

/-- A placeholder as it stands in the text. -/
def Slot.name : Slot → List ℕ
  | .fauxBlock => codePoints "__FAUX_BLOCK__"
  | .taskId => codePoints "__TASK_ID__"
  | .toolsJson => codePoints "__TOOLS_JSON__"
  | .userMcpToolsJson => codePoints "__USER_MCP_TOOLS_JSON__"
  | .echoMax => codePoints "__ECHO_MAX__"
  | .modelInput => codePoints "__MODEL_INPUT__"

/-- Lines with line feeds between them. -/
def textOf (lines : List String) : List ℕ := [0x0A].intercalate (lines.map codePoints)

/-- The middle of `_EXTENSION_TEMPLATE`, after the task id. -/
def contentToText : List String := [
  ";",
  "const OPENAI_BASE_URL = process.env.OPENAI_BASE_URL!;",
  "const PROVIDER_MODEL = process.env.AGENTCRAFT_PROVIDER_MODEL!;",
  "",
  "function contentToText(content: unknown): string \x7b",
  "  if (typeof content === \"string\") return content;",
  "  if (!Array.isArray(content)) return \"\";",
  "  return content",
  "    .map((block: any) => \x7b",
  "      if (block?.type === \"text\") return block.text;",
  "      if (block?.type === \"thinking\") return block.thinking;",
  "      if (block?.type === \"toolCall\") return `$\x7bblock.name\x7d($\x7bJSON.stringify(block.arguments)\x7d)`;",
  "      if (block?.type === \"image\") return \"[image]\";",
  "      return \"\";",
  "    \x7d)",
  "    .filter(Boolean)",
  "    .join(\"\\n\");",
  "\x7d",
  "",
  "export default function (pi: ExtensionAPI) \x7b",
  ""]

/-- The end of `_EXTENSION_TEMPLATE`: the loops that register the tools. -/
def registerTools : List String := [
  "",
  "  for (const t of TOOLS) \x7b",
  "    pi.registerTool(\x7b",
  "      name: t.name,",
  "      label: t.label,",
  "      description: t.description,",
  "      parameters: t.schema as never,",
  "      execute: async (callId: string, args: Record<string, unknown>, signal: AbortSignal) => \x7b",
  "        const res = await fetch(`$\x7bBACKEND\x7d$\x7bt.callbackPath\x7d`, \x7b",
  "          method: \"POST\",",
  "          headers: \x7b \"X-Task-Token\": TASK_TOKEN, \"Content-Type\": \"application/json\" \x7d,",
  "          body: JSON.stringify(\x7b task_id: TASK_ID, ...args \x7d),",
  "          signal,",
  "        \x7d);",
  "        if (!res.ok) \x7b",
  "          let message = `平台工具调用失败: HTTP $\x7bres.status\x7d`;",
  "          try \x7b",
  "            const err = await res.json();",
  "            if (err?.error?.message) message = err.error.message;",
  "          \x7d catch \x7b\x7d",
  "          throw new Error(message);",
  "        \x7d",
  "        const data = await res.json();",
  "        return \x7b",
  "          content: [\x7b type: \"text\", text: JSON.stringify(data.data) \x7d],",
  "          details: \x7b tool: t.name, version: t.version \x7d,",
  "        \x7d;",
  "      \x7d,",
  "    \x7d);",
  "  \x7d",
  "  for (const t of USER_MCP_TOOLS) \x7b",
  "    pi.registerTool(\x7b",
  "      name: t.name,",
  "      label: t.label,",
  "      description: t.description,",
  "      parameters: t.schema as never,",
  "      execute: async (callId: string, args: Record<string, unknown>, signal: AbortSignal) => \x7b",
  "        const res = await fetch(`$\x7bBACKEND\x7d/internal/mcp/call`, \x7b",
  "          method: \"POST\",",
  "          headers: \x7b \"X-Task-Token\": TASK_TOKEN, \"Content-Type\": \"application/json\" \x7d,",
  "          body: JSON.stringify(\x7b",
  "            task_id: TASK_ID,",
  "            server_id: t.serverId,",
  "            tool_name: t.toolName,",
  "            arguments: args,",
  "          \x7d),",
  "          signal,",
  "        \x7d);",
  "        if (!res.ok) \x7b",
  "          let message = `MCP 工具调用失败: HTTP $\x7bres.status\x7d`;",
  "          try \x7b",
  "            const err = await res.json();",
  "            if (err?.error?.message) message = err.error.message;",
  "          \x7d catch \x7b\x7d",
  "          throw new Error(message);",
  "        \x7d",
  "        const data = await res.json();",
  "        return \x7b",
  "          content: [\x7b type: \"text\", text: JSON.stringify(data.data) \x7d],",
  "          details: \x7b tool: t.name, serverId: t.serverId, toolName: t.toolName \x7d,",
  "        \x7d;",
  "      \x7d,",
  "    \x7d);",
  "  \x7d",
  "\x7d",
  ""]

/-- `_EXTENSION_TEMPLATE`. -/
def extensionTemplate : Template Slot where
  head := textOf [
    "import \x7b createAssistantMessageEventStream \x7d from \"@earendil-works/pi-ai\";",
    "import type \x7b ExtensionAPI \x7d from \"@earendil-works/pi-coding-agent\";",
    "",
    "// 生成时写死：该任务允许使用的平台工具（常量描述符表 × 选择子，§4.6）。",
    "// label/description/schema 全部为控制面常量——数据原文不进模板。",
    "const TOOLS: Array<\x7b",
    "  name: string; version: string; label: string; description: string;",
    "  schema: Record<string, unknown>; callbackPath: string;",
    "\x7d> = "]
  rest := [(.toolsJson, textOf [
      " as never;",
      "",
      "// Phase 10 M6：用户挂载的 MCP 工具（快照冻结；全部经 /internal/mcp/call",
      "// 回调治理链执行）。工具名统一加 user_ 前缀防与平台工具撞名。",
      "const USER_MCP_TOOLS: Array<\x7b",
      "  name: string; label: string; description: string;",
      "  schema: Record<string, unknown>; serverId: string; toolName: string;",
      "\x7d> = "]),
    (.userMcpToolsJson, textOf [
      " as never;",
      "",
      "const BACKEND = process.env.AGENTCRAFT_BACKEND_URL!;",
      "const TASK_TOKEN = process.env.AGENTCRAFT_TASK_TOKEN!;",
      "const TASK_ID = "]),
    (.taskId, textOf contentToText),
    (.fauxBlock, textOf registerTools)]

/-- `_FAUX_BLOCK_TEMPLATE`. -/
def fauxBlockTemplate : Template Slot where
  head := textOf [
    "  // faux Provider：CLI 无内置 faux，经扩展注册（PI_PROVIDER=faux 时由",
    "  // AGENTCRAFT_PROVIDER=faux 启用）。回显对话上下文供无 Key 联调：",
    "  // 回复 = 末条用户消息 + 完整上下文尾部，重播种后仍含历史事实，",
    "  // 因此「回复中出现第 1 轮内容」即上下文连续性的确定性证据。",
    "  pi.registerProvider(\"faux\", \x7b",
    "    name: \"Faux\",",
    "    baseUrl: \"http://localhost:0\",",
    "    apiKey: \"faux-no-key\",",
    "    api: \"faux-echo\",",
    "    models: [\x7b",
    "      id: \"faux-1\",",
    "      name: \"Faux Echo\",",
    "      reasoning: false,",
    "      input: [\"text\"],",
    "      cost: \x7b input: 0, output: 0, cacheRead: 0, cacheWrite: 0 \x7d,",
    "      contextWindow: 128000,",
    "      maxTokens: 16384,",
    "    \x7d],",
    "    streamSimple(model, context, options) \x7b",
    "      const stream = createAssistantMessageEventStream();",
    "      const CHUNK_DELAY = Number(process.env.AGENTCRAFT_FAUX_CHUNK_DELAY_MS || 0);",
    "      void (async () => \x7b",
    "        const output = \x7b",
    "          role: \"assistant\",",
    "          content: [],",
    "          api: model.api,",
    "          provider: model.provider,",
    "          model: model.id,",
    "          usage: \x7b input: 0, output: 0, cacheRead: 0, cacheWrite: 0, totalTokens: 0,",
    "                   cost: \x7b input: 0, output: 0, cacheRead: 0, cacheWrite: 0, total: 0 \x7d \x7d,",
    "          stopReason: \"pending\",",
    "          timestamp: Date.now(),",
    "        \x7d;",
    "        try \x7b",
    "          stream.push(\x7b type: \"start\", partial: output \x7d);",
    "          const messages = context.messages ?? [];",
    "          const lastUser = [...messages].reverse().find((m) => m.role === \"user\");",
    "          const transcript = messages",
    "            .map((m) => `$\x7bm.role\x7d:$\x7bcontentToText(m.content)\x7d`)",
    "            .join(\"\\n\");",
    "          const tail = transcript.length > "]
  rest := [(.echoMax, textOf [
      "",
      "            ? transcript.slice(-"]),
    (.echoMax, textOf [
      ")",
      "            : transcript;",
      "          const text = `ECHO:$\x7bcontentToText(lastUser?.content)\x7d\\n---CTX---\\n$\x7btail\x7d`;",
      "          output.content = [\x7b type: \"text\", text: \"\" \x7d];",
      "          const index = 0;",
      "          stream.push(\x7b type: \"text_start\", contentIndex: index, partial: output \x7d);",
      "          const CHUNK = 24;",
      "          for (let i = 0; i < text.length; i += CHUNK) \x7b",
      "            if (options?.signal?.aborted) throw new Error(\"Request was aborted\");",
      "            if (CHUNK_DELAY > 0) await new Promise((r) => setTimeout(r, CHUNK_DELAY));",
      "            const delta = text.slice(i, i + CHUNK);",
      "            output.content[index].text += delta;",
      "            stream.push(\x7b type: \"text_delta\", contentIndex: index, delta, partial: output \x7d);",
      "          \x7d",
      "          stream.push(\x7b type: \"text_end\", contentIndex: index, content: text, partial: output \x7d);",
      "          output.stopReason = \"stop\";",
      "          stream.push(\x7b type: \"done\", reason: output.stopReason, message: output \x7d);",
      "          stream.end(output);",
      "        \x7d catch (error) \x7b",
      "          output.stopReason = options?.signal?.aborted ? \"aborted\" : \"error\";",
      "          output.errorMessage = error instanceof Error ? error.message : String(error);",
      "          stream.push(\x7b type: \"error\", reason: output.stopReason, error: output \x7d);",
      "          stream.end(output);",
      "        \x7d",
      "      \x7d)();",
      "      return stream;",
      "    \x7d,",
      "  \x7d);"])]

/-- `_NO_FAUX_BLOCK`. -/
def noFauxBlock : Template Slot where
  head := textOf [
    "  // OpenAI 兼容上游走 chat/completions 协议：经扩展注册覆盖内置 openai",
    "  // provider（内置实现使用新版 Responses API，DeepSeek/Ollama 等第三方",
    "  // 端点普遍未实现，直连会 404）。Base URL 指向 provider-proxy，真实",
    "  // Key 由 proxy 按任务令牌侧解密注入，容器内只有任务令牌（§7.7）。",
    "  pi.registerProvider(\"openai\", \x7b",
    "    name: \"AgentCraft Provider\",",
    "    baseUrl: OPENAI_BASE_URL,",
    "    apiKey: TASK_TOKEN,",
    "    api: \"openai-completions\",",
    "    models: [",
    "      \x7b",
    "        id: PROVIDER_MODEL,",
    "        name: PROVIDER_MODEL,",
    "        reasoning: false,",
    "        // 声明图像输入：Pi read 工具按 model.input 决定是否剥离图像块",
    "        // （getNonVisionImageNote）；V1 无能力目录，统一声明支持，",
    "        // 纯文本模型读图将收到 provider 侧报错（可观察错误，不崩溃）。",
    "        // V2 BYOK 目录化（阶段3）改为按模型能力声明。",
    "        input: "]
  rest := [(.modelInput, textOf [
      ",",
      "        cost: \x7b input: 0, output: 0, cacheRead: 0, cacheWrite: 0 \x7d,",
      "        contextWindow: 128000,",
      "        maxTokens: 16384,",
      "      \x7d,",
      "    ],",
      "  \x7d);"])]

/-! ## Placeholders stand apart -/

theorem Slot.isToken (s : Slot) : IsToken s.name := by
  cases s <;> exact ⟨by decide, by decide, by decide, by decide⟩

/-- Lines without two underscores, given by their characters. -/
inductive PlainLines : List String → Prop
  | nil : PlainLines []
  | cons {l : List Char} {lines : List String} (h : hasDouble (l.map Char.toNat) = false)
      (hlines : PlainLines lines) : PlainLines (String.ofList l :: lines)

theorem codePoints_ofList (l : List Char) : codePoints (String.ofList l) = l.map Char.toNat := by
  rw [codePoints, String.toList_ofList]

theorem textOf_cons_cons (l l' : String) (lines : List String) :
    textOf (l :: l' :: lines) = codePoints l ++ (0x0A :: textOf (l' :: lines)) := by
  rw [textOf, List.map_cons, List.map_cons, List.intercalate_cons_cons, List.append_assoc]
  rfl

theorem hasDouble_textOf {lines : List String} (h : PlainLines lines) : hasDouble (textOf lines) = false := by
  induction h with
  | nil => rfl
  | @cons l lines hl hlines ih =>
    rw [← codePoints_ofList] at hl
    cases lines with
    | nil => rwa [textOf, List.map_singleton, List.intercalate_singleton]
    | cons l' lines =>
      rw [textOf_cons_cons]
      exact hasDouble_append hl ih (by simp)

/-- Lines of which the first and the last end apart from a placeholder. -/
theorem isSpacer_textOf {lines : List String} {first last : List Char}
    (h : PlainLines lines) (hfirst : lines.head? = some (String.ofList first))
    (hlast : lines.getLast? = some (String.ofList last))
    (hstarts : (first.head?.all fun c => !isTokenChar c.toNat) = true)
    (hends : (last.getLast?.all fun c => !isTokenChar c.toNat) = true)
    (hne : (lines.tail.isEmpty && first.isEmpty) = false) : isSpacer (textOf lines) = true := by
  have hstart : ∃ c, (textOf lines).head? = some c ∧ isTokenChar c = false := by
    cases lines with
    | nil => cases hfirst
    | cons l lines =>
      cases hfirst
      have hl : (codePoints (String.ofList first)).head? = first.head?.map Char.toNat := by
        rw [codePoints_ofList, List.head?_map]
      cases lines with
      | nil =>
        rw [textOf, List.map_singleton, List.intercalate_singleton, hl]
        cases first with
        | nil => cases hne
        | cons c first => exact ⟨c.toNat, rfl, Bool.not_eq_true' _ |>.mp hstarts⟩
      | cons l' lines =>
        rw [textOf_cons_cons, List.head?_append, hl]
        cases first with
        | nil => exact ⟨0x0A, rfl, rfl⟩
        | cons c first => exact ⟨c.toNat, rfl, Bool.not_eq_true' _ |>.mp hstarts⟩
  have hend : ∀ c ∈ (textOf lines).getLast?, isTokenChar c = false := by
    clear hne hfirst hstarts hstart h
    induction lines with
    | nil => cases hlast
    | cons l lines ih =>
      cases lines with
      | nil =>
        obtain rfl : l = String.ofList last := Option.some.inj hlast
        rw [textOf, List.map_singleton, List.intercalate_singleton, codePoints_ofList, List.getLast?_map]
        intro c hc
        obtain ⟨d, hd, rfl⟩ := Option.map_eq_some_iff.mp hc
        rw [hd, Option.all_some, Bool.not_eq_true'] at hends
        exact hends
      | cons l' lines =>
        have hrest := ih ((List.getLast?_cons_cons ..).symm.trans hlast)
        intro c hc
        rw [textOf_cons_cons, List.getLast?_append, ← List.singleton_append, List.getLast?_append] at hc
        cases hlines : (textOf (l' :: lines)).getLast? with
        | none =>
          rw [hlines] at hc
          cases hc
          rfl
        | some d =>
          rw [hlines] at hc
          cases hc
          exact hrest _ hlines
  obtain ⟨c, hc, hplain⟩ := hstart
  have hd := List.getLast?_eq_some_getLast (List.ne_nil_of_mem (List.mem_of_head? hc))
  rw [isSpacer, hasDouble_textOf h, hc, hd, Option.any_some, Option.any_some, hplain, hend _ hd]
  rfl

theorem registerTools_isSpacer : isSpacer (textOf registerTools) = true := by
  refine isSpacer_textOf ?_ rfl rfl (by decide) (by decide) (by decide)
  rw [registerTools]
  repeat refine .cons (by decide +kernel) ?_
  exact .nil

theorem contentToText_isSpacer : isSpacer (textOf contentToText) = true := by
  refine isSpacer_textOf ?_ rfl rfl (by decide) (by decide) (by decide)
  rw [contentToText]
  repeat refine .cons (by decide +kernel) ?_
  exact .nil

theorem extensionTemplate_isSpaced : extensionTemplate.isSpaced = true := by
  simp only [Template.isSpaced, extensionTemplate, contentToText_isSpacer, registerTools_isSpacer,
    List.all_cons, List.all_nil, Bool.and_true, Bool.and_eq_true]
  refine ⟨?_, ?_, ?_⟩
  all_goals
    refine isSpacer_textOf ?_ rfl rfl (by decide) (by decide) (by decide)
    repeat refine .cons (by decide +kernel) ?_
    exact .nil

theorem fauxBlockTemplate_isSpaced : fauxBlockTemplate.isSpaced = true := by
  simp only [Template.isSpaced, fauxBlockTemplate, List.all_cons, List.all_nil, Bool.and_true, Bool.and_eq_true]
  refine ⟨?_, ?_, ?_⟩
  all_goals
    refine isSpacer_textOf ?_ rfl rfl (by decide) (by decide) (by decide)
    repeat refine .cons (by decide +kernel) ?_
    exact .nil

theorem noFauxBlock_isSpaced : noFauxBlock.isSpaced = true := by
  simp only [Template.isSpaced, noFauxBlock, List.all_cons, List.all_nil, Bool.and_true, Bool.and_eq_true]
  refine ⟨?_, ?_⟩
  all_goals
    refine isSpacer_textOf ?_ rfl rfl (by decide) (by decide) (by decide)
    repeat refine .cons (by decide +kernel) ?_
    exact .nil

end AgentCraft.Engine
