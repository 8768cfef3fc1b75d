import AgentCraft.Engine.ExtensionTemplate
import AgentCraft.Python.JsonDumps
import AgentCraft.Python.JsonNumbers

/-!
# The generator of extensions

`ExtensionGenerator.generate` writes `task.ts`: the platform tools of the expert and the tools of the user's
MCP servers as JSON, put into the template by one replacement after the other, and a check at the end that no
other placeholder is left. `generate_eq_ok_iff` says for which arguments it writes a file, and which.
-/

namespace AgentCraft.Engine

open AgentCraft.Python

/-! ## Platform tools -/

/-- `PlatformTool`. -/
structure PlatformTool where
  toolId : String
  version : String
  label : String
  description : String
  parameters : Json
  callbackPath : Option String

/-- A dictionary whose keys are written out. -/
def dict (items : List (String × Json)) : Json := .obj (items.map fun p => (codePoints p.1, p.2))

/-- The JSON schema of an object. -/
def objectSchema (properties : List String) (required : List String) : Json :=
  dict [("type", .ofString "object"),
    ("properties", dict (properties.map fun p => (p, dict [("type", .ofString "string")]))),
    ("required", .arr (required.map .ofString))]

/-- `PLATFORM_TOOLS`. -/
def platformTools : List PlatformTool := [
  { toolId := "check_code_style", version := "1", label := "check_code_style"
    description := "Run ruff format --check and ruff check on a path inside /workspace"
    parameters := objectSchema ["path"] []
    callbackPath := some "/internal/harness/check-code-style" },
  { toolId := "read_task_file", version := "1", label := "read_task_file"
    description := "Read a task input file by name via the control-plane callback."
    parameters := objectSchema ["file_name"] ["file_name"]
    callbackPath := some "/internal/tools/read-task-file" },
  { toolId := "write_output_file", version := "1", label := "write_output_file"
    description :=
      "Write a file as a task output artifact via the control-plane callback (collected as deliverables)."
    parameters := objectSchema ["file_name", "content_base64"] ["file_name", "content_base64"]
    callbackPath := some "/internal/tools/write-output-file" },
  { toolId := "list_task_files", version := "1", label := "list_task_files"
    description := "List the task's input files (name/sha256/size metadata)."
    parameters := objectSchema [] []
    callbackPath := some "/internal/tools/list-task-files" },
  { toolId := "query_task_state", version := "1", label := "query_task_state"
    description := "Query the current task state summary (lease internals excluded)."
    parameters := objectSchema [] []
    callbackPath := some "/internal/tools/query-task-state" }]

/-- `PLATFORM_TOOLS.get((tool_id, version))`. -/
def platformTool? (selector : String × String) : Option PlatformTool :=
  platformTools.find? fun t => t.toolId == selector.1 && t.version == selector.2

/-- What the template reads of a platform tool. -/
def PlatformTool.entry (t : PlatformTool) (callbackPath : String) : Json :=
  dict [("name", .ofString t.toolId), ("version", .ofString t.version), ("label", .ofString t.label),
    ("description", .ofString t.description), ("schema", t.parameters), ("callbackPath", .ofString callbackPath)]

/-! ## Tools of the user's servers -/

/-- `bool(v)`. -/
def isTruthy : Json → Bool
  | .null => false
  | .bool b => b
  | .int i => i != 0
  | .float literal => floatValue literal != some 0
  | .str u => !u.isEmpty
  | .arr l => !l.isEmpty
  | .obj l => !l.isEmpty

/-- `item.get(k)`. -/
def Items.get (item : List (List ℕ × Json)) (k : String) : Json := (item.lookup (codePoints k)).getD .null

/-- What the generator does not decide: `str` of values that are no strings, whether the interpreter prints a
value within its limits, and whether a file of the name can be written. -/
structure Host where
  str : Json → List ℕ
  prints : Json → Bool
  writes : List ℕ → Bool

/-- `str(v)`. -/
def Host.text (h : Host) : Json → List ℕ
  | .str u => u
  | v => h.str v

/-- An entry of `_user_mcp_registration`. -/
structure UserTool where
  label : List ℕ
  description : List ℕ
  schema : List (List ℕ × Json)
  serverId : List ℕ
  toolName : List ℕ

/-- `f"user_{tool_name}"`. -/
def UserTool.name (t : UserTool) : List ℕ := codePoints "user_" ++ t.toolName

def UserTool.entry (t : UserTool) : Json :=
  dict [("name", .str t.name), ("label", .str t.label), ("description", .str t.description),
    ("schema", .obj t.schema), ("serverId", .str t.serverId), ("toolName", .str t.toolName)]

/-- `v` if it is a string that is not empty. -/
def nonEmpty : Json → Option (List ℕ)
  | .str u => if u = [] then none else some u
  | _ => none

/-- `schema if isinstance(schema, dict) else {"type": "object"}`. -/
def schemaOf : Json → List (List ℕ × Json)
  | .obj l => l
  | _ => [(codePoints "type", .ofString "object")]

/-- `item.get(k) or default`. -/
def orElse (v default : Json) : Json := if isTruthy v then v else default

/-- An item; one without tool name or server is skipped. -/
def userTool (h : Host) : Json → Option UserTool
  | .obj item => do
    let toolName ← nonEmpty (Items.get item "tool_name")
    let serverId ← nonEmpty (Items.get item "server_id")
    some {
      label := h.text (orElse (Items.get item "label") (.str toolName))
      description := h.text (orElse (Items.get item "description") (.str []))
      schema := schemaOf (Items.get item "schema")
      serverId := serverId
      toolName := toolName }
  | _ => none

/-- `_user_mcp_registration`. -/
def userMcpRegistration (h : Host) (userMcpTools : List Json) : List UserTool := userMcpTools.filterMap (userTool h)

/-! ## Generating -/

/-- `task_id: int | str`. -/
inductive TaskId
  | int (i : ℤ)
  | str (u : List ℕ)
deriving DecidableEq, Repr

/-- `task_id_text`. -/
def TaskId.text : TaskId → List ℕ
  | .int i => (intText i).map Char.toNat
  | .str u => u

/-- `task_id_literal`. -/
def TaskId.literal : TaskId → List ℕ
  | .int i => (intText i).map Char.toNat
  | .str u => quoted true u

/-- The task id as a value. -/
def TaskId.value : TaskId → Json
  | .int i => .int i
  | .str u => .str u

/-- The arguments of `generate`. -/
structure Call where
  taskId : TaskId
  tools : List (String × String)
  provider : String
  modelInput : List (List ℕ)
  userMcpTools : List Json

/-- What `generate` raises. -/
inductive GenerateError
  | value (message : String)
  /-- `ValueError` or `RecursionError` of the interpreter. -/
  | limit
  | os
  | unicodeEncode
deriving DecidableEq, Repr

/-- The file that is written. -/
structure Extension where
  name : List ℕ
  source : List ℕ
deriving DecidableEq, Repr

/-- The registered platform tools, or the first selector that is unknown; a tool without callback is left out. -/
@[grind] def registeredTools : List (String × String) → Except GenerateError (List (PlatformTool × String))
  | [] => .ok []
  | selector :: tools =>
    match platformTool? selector with
    | none => .error (.value ("未知平台工具: " ++ selector.1 ++ "@" ++ selector.2))
    | some tool => (registeredTools tools).map fun rest => (tool.callbackPath.map fun path => (tool, path)).toList ++ rest

/-- `json.dumps(v, ensure_ascii=False)`. -/
def dumpsPlain (v : Json) : List ℕ := v.text ⟨false, true⟩

/-- `TOOLS`. -/
def toolEntries (registered : List (PlatformTool × String)) : Json := .arr (registered.map fun p => p.1.entry p.2)

/-- `USER_MCP_TOOLS`. -/
def userEntries (registered : List UserTool) : Json := .arr (registered.map UserTool.entry)

/-- `list(model_input)`. -/
def Call.inputs (c : Call) : Json := .arr (c.modelInput.map .str)

/-- `_FAUX_ECHO_MAX_CHARS`. -/
def fauxEchoMaxChars : ℤ := 2000

/-- A template with its placeholders. -/
def placeholders (t : Template Slot) : List ℕ := t.render Slot.name

/-- `faux_block`. -/
def fauxBlock (provider : String) : List ℕ :=
  if provider = "faux" then
    replaceAll Slot.echoMax.name ((intText fauxEchoMaxChars).map Char.toNat) 0 (placeholders fauxBlockTemplate)
  else placeholders noFauxBlock

/-- The source before the last replacement. -/
def pendingSource (c : Call) (tools : Json) (userTools : Json) : List ℕ :=
  replaceAll Slot.userMcpToolsJson.name (dumpsPlain userTools) 0
    (replaceAll Slot.toolsJson.name (dumpsPlain tools) 0
      (replaceAll Slot.taskId.name c.taskId.literal 0
        (replaceAll Slot.fauxBlock.name (fauxBlock c.provider) 0 (placeholders extensionTemplate))))

/-- `expected_pending`. -/
def expectedPending (provider : String) : List (List ℕ) :=
  if provider = "faux" then [] else [Slot.modelInput.name]

/-- `ExtensionGenerator.generate`. -/
def generate (h : Host) (c : Call) : Except GenerateError Extension := do
  let registered ← registeredTools c.tools
  let userTools := userEntries (userMcpRegistration h c.userMcpTools)
  if !h.prints c.taskId.value || !h.prints userTools then .error .limit
  else
    let source := pendingSource c (toolEntries registered) userTools
    if findTokens 0 source ≠ expectedPending c.provider then
      .error (.value "生成产物含未替换/非法模板占位 token，拒绝写盘")
    else
      let source := replaceAll Slot.modelInput.name (c.inputs.text ⟨true, true⟩) 0 source
      let name := codePoints "task-" ++ c.taskId.text ++ codePoints ".ts"
      if !h.writes name then .error .os
      else if !isEncodable source then .error .unicodeEncode
      else .ok ⟨name, source⟩

end AgentCraft.Engine
