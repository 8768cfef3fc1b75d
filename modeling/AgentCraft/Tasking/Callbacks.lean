import AgentCraft.Python.Uuid
import AgentCraft.Tasking.CatalogFrame
import AgentCraft.Tasking.ProviderProxy
import AgentCraft.Tasking.ToolSwitch
import AgentCraft.Transition.Trace

/-!
# The callbacks of a sandbox

`/internal/tools/*` and `/internal/mcp/call` of `internal.py`. A callback carries the token of its round,
and passes a chain of checks before it does anything: the table of registered tokens, the fence of the
round, the grants of the task, the switches. The checks are statements of their own, so anything can happen
between them. The platform tools differ from the MCP servers in one link: nobody asks whether the expert
mounts them.
-/

namespace AgentCraft.Tasking

open AgentCraft.Python AgentCraft.Relational AgentCraft.Transition

abbrev CallbackId := ℕ

/-- The endpoints, with what they take from the body; `content` is what `content_base64` decodes to. -/
inductive ToolEndpoint
  | readTaskFile (fileName : String)
  | writeOutputFile (fileName : String) (content : Option FileContent)
  | listTaskFiles
  | queryTaskState
  | mcpCall (serverId toolName arguments : String)
deriving DecidableEq, Repr

/-- What a callback wants to use; the server as it has been spelled in the body. -/
inductive ToolTarget
  | platform (key : ToolKey)
  | mcp (server : ServerId) (spelling toolName : String)
deriving DecidableEq, Repr

/-- The endpoint's tool; no server without a valid UUID. -/
def ToolEndpoint.target (ud : UnicodeData) : ToolEndpoint → Option ToolTarget
  | .readTaskFile _ => some (.platform ("read_task_file", "1"))
  | .writeOutputFile _ _ => some (.platform ("write_output_file", "1"))
  | .listTaskFiles => some (.platform ("list_task_files", "1"))
  | .queryTaskState => some (.platform ("query_task_state", "1"))
  | .mcpCall serverId toolName _ => (parseUuid ud serverId).map fun sid => .mcp sid serverId toolName

/-- How far a callback has come. -/
inductive CallbackPhase
  /-- `_require_v2_task_token` has passed. -/
  | admitted
  /-- `_assert_round_live` has passed. -/
  | fenced
  /-- The server is among the `mcp_servers` of the task. -/
  | granted
  /-- The row of the server has been read, and it is enabled. -/
  | served (row : UserMcpServer)
  /-- All checks have passed. -/
  | cleared (row : Option UserMcpServer)
  | ended
deriving DecidableEq, Repr

/-- A callback in progress. -/
structure Callback where
  token : String
  claims : Claims
  endpoint : ToolEndpoint
  target : ToolTarget
  phase : CallbackPhase
deriving DecidableEq, Repr

/-- The task domain, the token table of the executor, and the callbacks. -/
structure CallbackWorld where
  base : World
  /-- `executor.tokens`. -/
  tokens : Table RoundId String
  /-- `enabled` of `user_mcp_tools`. -/
  mcpTools : Table (ServerId × String) Bool
  callbacks : Table CallbackId Callback

/-- The labels of the system. -/
inductive CallbackAction
  | base (a : Action)
  | setMcpTools (tools : Table (ServerId × String) Bool)
  /-- A container of the round is assembled. -/
  | register (round : RoundId) (token : String)
  /-- The resources of the round are released. -/
  | release (round : RoundId)
  | receive (id : CallbackId) (token : String) (task : TaskId) (endpoint : ToolEndpoint)
  /-- The next check of the chain. -/
  | check (id : CallbackId)
  /-- The work itself; whether the stored copy of a file can be read. -/
  | answer (id : CallbackId) (stored : Bool)

/-- The callback that an action belongs to. -/
def CallbackAction.callback? : CallbackAction → Option CallbackId
  | .receive id .. | .check id | .answer id _ => some id
  | _ => none

/-- `_mcp_revoked`. -/
def mcpRevoked : Failure := agentCraftError .toolRevoked "MCP 工具已停用或未挂载" 403

/-! ## The platform tools -/

/-- `permissions` of a descriptor. -/
structure ToolPermissions where
  paths : List String := []
  exclude : List String := []
  network : Option Bool
deriving DecidableEq, Repr

/-- `PLATFORM_TOOLS`, of which the callbacks read the permissions. -/
def platformTools : List (ToolKey × ToolPermissions) :=
  [(("check_code_style", "1"), { paths := ["/task-files", "/outputs"], network := some false }),
    (("read_task_file", "1"), { paths := ["/task-files"], network := some false }),
    (("write_output_file", "1"), { paths := ["/outputs"], network := some false }),
    (("list_task_files", "1"), { paths := ["/task-files", "/outputs"], network := some false }),
    (("query_task_state", "1"), { exclude := ["lease_owner", "lease_epoch"], network := some false })]

/-- `_assert_tool_permissions`. -/
def assertToolPermissions (toolId : String) (needsPaths : List String) : Except Failure Unit :=
  match platformTools.find? fun e => e.1.1 == toolId && e.1.2 == "1" with
  | none => .error (toolCallRejected "工具权限声明缺失或形态非法")
  | some (_, perms) =>
    if perms.network ≠ some false then .error (toolCallRejected "工具权限声明缺失或形态非法")
    else
      match needsPaths.find? fun needed => !perms.paths.contains needed with
      | some needed => .error (toolCallRejected ("工具权限未声明路径 " ++ needed))
      | none => .ok ()

/-- `_reject_traversal`. -/
def rejectTraversal (fileName : String) : Except Failure Unit :=
  if fileName.toList = [] ∨ '/' ∈ fileName.toList ∨ '\\' ∈ fileName.toList ∨ fileName = "." ∨
      fileName = ".." then
    .error (toolCallRejected "文件名路径形态非法")
  else .ok ()

/-- `read_input_bytes`, over the row that the session sees. -/
def readInputBytes (t? : Option Task) (fileName : String) (stored : Bool) : Except Failure TaskFile :=
  match (t?.map (·.files)).getD [] |>.filter fun f =>
      f.direction = .input && f.fileName = fileName && f.state ≠ .deleted with
  | [] => .error fileNotFound
  | [f] => if stored then .ok f else .error fileNotFound
  | _ => .error (.http 500 "" "MultipleResultsFound")

/-- An entry of `list_input_meta`. -/
structure InputMeta where
  id : FileId
  fileName : String
  sha256 : String
  sizeBytes : ℕ
deriving DecidableEq, Repr

def TaskFile.inputMeta (f : TaskFile) : InputMeta := ⟨f.id, f.fileName, f.sha256, f.sizeBytes⟩

/-- `list_input_meta`. -/
def listInputMeta (t? : Option Task) : List InputMeta :=
  ((t?.map (·.files)).getD [] |>.filter fun f => f.direction = .input && f.state ≠ .deleted).map
    TaskFile.inputMeta

/-- `_strip_lease_fields`, over the row that `get_task_view` renders. -/
def Task.stripLeaseFields (t : Task) : Task :=
  { t with rounds := t.rounds.map fun r =>
      { r with leaseOwner := none, leaseEpoch := 0, leaseExpiresAt := none } }

/-- `get_task_view`. -/
def getTaskView (t? : Option Task) : Except Failure Task :=
  match t?.filter (·.status ≠ .deleted) with
  | none => .error taskNotFound
  | some t => .ok t

/-- What a callback answers, with what it has read, written or executed. -/
inductive ToolReply
  | file (f : TaskFile)
  | registered (file : FileId)
  | files (l : List InputMeta)
  | view (t : Task)
  | called (row : UserMcpServer) (toolName arguments : String)
deriving DecidableEq, Repr

/-- What follows the checks. -/
def Callback.work (nfc : String → String) (db : Db) (q : Callback) (row : Option UserMcpServer)
    (stored : Bool) : Except Failure (Db × ToolReply) :=
  match q.endpoint with
  | .readTaskFile fileName => do
    assertToolPermissions "read_task_file" ["/task-files"]
    rejectTraversal fileName
    let f ← readInputBytes (db.visibleTask q.claims.owner q.claims.task) fileName stored
    return (db, .file f)
  | .writeOutputFile fileName content => do
    assertToolPermissions "write_output_file" ["/outputs"]
    rejectTraversal fileName
    match content with
    | none => .error (toolCallRejected "content_base64 非法")
    | some content =>
      let (db, fid) ← registerOutput nfc db q.claims.owner q.claims.task fileName content q.claims.round
        q.claims.epoch
      return (db, .registered fid)
  | .listTaskFiles => do
    assertToolPermissions "list_task_files" ["/task-files", "/outputs"]
    return (db, .files (listInputMeta (db.visibleTask q.claims.owner q.claims.task)))
  | .queryTaskState => do
    assertToolPermissions "query_task_state" []
    let t ← getTaskView (db.visibleTask q.claims.owner q.claims.task)
    return (db, .view t.stripLeaseFields)
  | .mcpCall _ toolName arguments =>
    match row with
    | none => .error mcpRevoked
    | some row => .ok (db, .called row toolName arguments)

/-! ## The chain of checks -/

/-- The next check, and where it leads. -/
def CallbackWorld.next (w : CallbackWorld) (q : Callback) : Except Failure CallbackPhase :=
  match q.phase, q.target with
  | .admitted, _ =>
    if assertRoundLive w.base.db q.claims.toRoundContext then .ok .fenced
    else .error taskTokenUnauthorized
  | .fenced, .platform key => do
    assertToolEnabled w.base.db key 403
    return .cleared none
  | .fenced, .mcp _ spelling _ =>
    match w.base.db.visibleTask q.claims.owner q.claims.task with
    | none => .error mcpRevoked
    | some t =>
      if t.mcpServers.any (formatUuid ·.serverId = spelling) then .ok .granted else .error mcpRevoked
  | .granted, .mcp sid _ _ =>
    match (w.base.db.catalog.mcpServers.get? sid).filter (·.ownerId = q.claims.owner) with
    | none => .error mcpRevoked
    | some row => if row.enabled then .ok (.served row) else .error mcpRevoked
  | .served row, .mcp sid _ toolName =>
    if w.mcpTools.get? (sid, toolName) = some true then .ok (.cleared (some row)) else .error mcpRevoked
  | _, _ => .error .notEnabled

/-- A callback moves on. -/
def CallbackWorld.setPhase (w : CallbackWorld) (id : CallbackId) (q : Callback) (phase : CallbackPhase) :
    CallbackWorld :=
  { w with callbacks := w.callbacks.set id { q with phase := phase } }

/-- `_require_v2_task_token`, and the identifier of an MCP server. -/
def CallbackWorld.admitted (decode : Time → String → Option Claims) (ud : UnicodeData) (w : CallbackWorld)
    (token : String) (task : TaskId) (endpoint : ToolEndpoint) : Except Failure Callback :=
  match decode w.base.db.now token with
  | none => .error taskTokenUnauthorized
  | some claims =>
    if claims.task ≠ task then .error taskTokenUnauthorized
    else if w.tokens.get? claims.round ≠ some token then .error taskTokenUnauthorized
    else
      match endpoint.target ud with
      | none => .error mcpRevoked
      | some target => .ok ⟨token, claims, endpoint, target, .admitted⟩

variable (cfg : Settings) (nfc : String → String) (decode : Time → String → Option Claims)
  (ud : UnicodeData)

/-- What an answer does: the callback, the database after it, and the reply. -/
def CallbackWorld.work (w : CallbackWorld) : CallbackAction → Option (Callback × Db × ToolReply)
  | .answer id stored =>
    match w.callbacks.get? id with
    | none => none
    | some q =>
      match q.phase with
      | .cleared row =>
        match q.work nfc w.base.db row stored with
        | .ok (db, reply) => some (q, db, reply)
        | .error _ => none
      | _ => none
  | _ => none

/-- The step function. -/
def CallbackWorld.step (w : CallbackWorld) (a : CallbackAction) : Except Failure CallbackWorld :=
  match a with
  | .base a => do
    let base ← Tasking.step cfg nfc w.base a
    return { w with base := base }
  | .setMcpTools tools => .ok { w with mcpTools := tools }
  | .register round token =>
    .ok { w with tokens := (w.tokens.insert round token).set round token }
  | .release round => .ok { w with tokens := w.tokens.filter fun r _ => r ≠ round }
  | .receive id token task endpoint =>
    match w.callbacks.get? id with
    | some _ => .error .notEnabled
    | none => do
      let q ← w.admitted decode ud token task endpoint
      return { w with callbacks := w.callbacks.insert id q }
  | .check id =>
    match w.callbacks.get? id with
    | none => .error .notEnabled
    | some q =>
      match w.next q with
      | .ok phase => .ok (w.setPhase id q phase)
      | .error _ => .ok (w.setPhase id q .ended)
  | .answer id stored =>
    match w.callbacks.get? id with
    | none => .error .notEnabled
    | some q =>
      match w.work nfc (.answer id stored) with
      | some (_, db, _) => .ok { w.setPhase id q .ended with base := { w.base with db := db } }
      | none => .ok (w.setPhase id q .ended)

/-- The task domain with the callbacks. -/
def callbackSystem : System CallbackWorld CallbackAction Failure := ⟨CallbackWorld.step cfg nfc decode ud⟩

/-- The steps that take effect, with the states in which they are taken. -/
def callbackHistory (w₀ : CallbackWorld) (as : List CallbackAction) : List (CallbackWorld × CallbackAction) :=
  (callbackSystem cfg nfc decode ud).trace (fun w a => [(w, a)]) w₀ as

/-- A fresh installation, and no callbacks. -/
structure CallbackWorld.Initial (w : CallbackWorld) : Prop where
  base : w.base.Initial
  callbacks : w.callbacks = .empty

/-! ## Authorisation -/

/-- What can be switched off. -/
inductive Switch
  | tool (key : ToolKey)
  | server (server : ServerId)
  | serverTool (server : ServerId) (toolName : String)
deriving DecidableEq, Repr

/-- What a callback has to be checked for. -/
inductive ToolCheck
  /-- The token is the registered one. -/
  | token
  /-- The round runs at the epoch of the token. -/
  | live
  /-- The target belongs to the capabilities of the task. -/
  | capability
  | switch (s : Switch)
deriving DecidableEq, Repr

/-- Everything that the use of a target requires. -/
def ToolTarget.required : ToolTarget → List ToolCheck
  | .platform key => [.token, .live, .capability, .switch (.tool key)]
  | .mcp sid _ toolName =>
    [.token, .live, .capability, .switch (.server sid), .switch (.serverTool sid toolName)]

/-- The target is among the `revision_tools` of the task's revision, or its server among the
`mcp_servers` of the task. -/
def Db.Capable (db : Db) (c : RoundContext) (target : ToolTarget) : Prop :=
  ∃ t, db.visibleTask c.owner c.task = some t ∧
    match target with
    | .platform key => db.MountsTool t key
    | .mcp sid _ _ => ∃ d ∈ t.mcpServers, formatUuid d.serverId = formatUuid sid

/-- The switch is on; servers are looked for among those of the owner. -/
def CallbackWorld.IsOn (w : CallbackWorld) (owner : UserId) : Switch → Prop
  | .tool key => w.base.db.catalog.toolEnabled.get? key = some true
  | .server sid => ∃ row, w.base.db.catalog.mcpServers.get? sid = some row ∧ row.ownerId = owner ∧
      row.enabled = true
  | .serverTool sid toolName => w.mcpTools.get? (sid, toolName) = some true

/-- The callback would pass the check. -/
def ToolCheck.Holds (w : CallbackWorld) (q : Callback) : ToolCheck → Prop
  | .token => decode w.base.db.now q.token = some q.claims ∧
      w.tokens.get? q.claims.round = some q.token
  | .live => assertRoundLive w.base.db q.claims.toRoundContext = true
  | .capability => w.base.db.Capable q.claims.toRoundContext q.target
  | .switch s => w.IsOn q.claims.owner s

/-- It was so at a step of the callback. -/
def During (h : List (CallbackWorld × CallbackAction)) (id : CallbackId) (P : CallbackWorld → Prop) :
    Prop :=
  ∃ x ∈ h, x.2.callback? = some id ∧ P x.1

/-- What the reply has been made of: the task and the server of the claims. -/
def ToolReply.IsOf (db : Db) (c : RoundContext) : ToolReply → Prop
  | .file f => ∃ t, db.visibleTask c.owner c.task = some t ∧ f ∈ t.files
  | .registered _ => ∃ t, db.visibleTask c.owner c.task = some t
  | .files l => ∀ m ∈ l, ∃ t, db.visibleTask c.owner c.task = some t ∧ ∃ f ∈ t.files, m = f.inputMeta
  | .view v => ∃ t, db.visibleTask c.owner c.task = some t ∧ v = t.stripLeaseFields
  | .called row _ _ => row.ownerId = c.owner

/-- What a callback does is authorised. -/
structure CallbackAuthorised (h : List (CallbackWorld × CallbackAction)) (id : CallbackId) (db : Db)
    (q : Callback) (db' : Db) (reply : ToolReply) : Prop where
  checks : ∀ k ∈ q.target.required, During h id fun w => k.Holds decode w q
  /-- It reads from the task and the owner of the token. -/
  reads : reply.IsOf db q.claims.toRoundContext
  /-- Nor does it write anything else. -/
  tasks : ∀ tid ≠ q.claims.task, db'.tasks.get? tid = db.tasks.get? tid
  usage : ∀ u ≠ q.claims.owner, db'.usage.get? u = db.usage.get? u

/-- Whatever callbacks do is authorised. -/
def AllAuthorised (h : List (CallbackWorld × CallbackAction)) : Prop :=
  ∀ pre w id stored post q db' reply, h = pre ++ (w, .answer id stored) :: post →
    w.work nfc (.answer id stored) = some (q, db', reply) →
    CallbackAuthorised decode pre id w.base.db q db' reply

/-- The condition: a sandbox asks for a platform tool only if the expert of its task mounts it. -/
def AsksForMounted (w : CallbackWorld) : CallbackAction → Prop
  | .receive _ token _ endpoint => ∀ claims key, decode w.base.db.now token = some claims →
      endpoint.target ud = some (.platform key) →
      w.base.db.Capable claims.toRoundContext (.platform key)
  | _ => True

/-! ## What the work touches -/

section Work

variable {nfc : String → String} {db db' : Db} {q : Callback} {c : RoundContext} {u : UserId}

theorem updateUsage_other {p f} (hu : u ≠ c.owner) :
    (db.updateUsage c.owner p f).usage.get? u = db.usage.get? u := by
  simp only [Db.updateUsage, Table.get?_map]
  cases db.usage.get? u <;> simp [hu]

theorem addPlatformStorage_usage (p : PlatformStorage → Bool) (n : ℤ) :
    (db.addPlatformStorage p n).usage = db.usage := by
  unfold Db.addPlatformStorage
  split <;> rfl

theorem refundStorage_other (n : ℕ) (hu : u ≠ c.owner) :
    (db.refundStorage c.owner n).usage.get? u = db.usage.get? u := by
  rw [Db.refundStorage, addPlatformStorage_usage, updateUsage_other hu]

theorem chargeStorage_other {n : ℕ} {e e' : Failure} (h : db.chargeStorage c.owner n e e' = .ok db')
    (hu : u ≠ c.owner) : db'.usage.get? u = db.usage.get? u := by
  obtain ⟨db₁, h₁, h⟩ := bind_eq_ok.mp h
  obtain ⟨-, h₁⟩ := ite_ok_else_error.mp h₁
  obtain ⟨-, h⟩ := ite_ok_else_error.mp h
  cases h₁
  cases h
  rw [addPlatformStorage_usage, updateUsage_other hu]

/-- An output is registered for a task of the owner, and charged to the owner. -/
theorem registerOutput_scope {fileName : String} {content : FileContent} {fid : FileId}
    (h : registerOutput nfc db c.owner c.task fileName content c.round c.epoch = .ok (db', fid)) :
    (∃ t, db.visibleTask c.owner c.task = some t) ∧
      (∀ tid ≠ c.task, db'.tasks.get? tid = db.tasks.get? tid) ∧
      ∀ u ≠ c.owner, db'.usage.get? u = db.usage.get? u := by
  obtain ⟨t, t', -, hm⟩ := registerOutput_moved h
  unfold registerOutput at h
  obtain ⟨t₀, ht₀, h⟩ := bind_eq_ok.mp h
  obtain ⟨⟨t₁, refunded⟩, ht₁, h⟩ := bind_eq_ok.mp h
  obtain ⟨charged, hcharged, h⟩ := bind_eq_ok.mp h
  obtain ⟨hdb, -⟩ := Prod.mk.inj (Except.ok.inj h)
  refine ⟨⟨t₀, (lockTask_eq_ok ht₀).1⟩, fun tid htid => ?_, fun u hu => ?_⟩
  · rw [hm.written, Table.get?_set, if_neg htid]
  · have husage : db'.usage = charged.usage := by
      rw [← hdb]
      rfl
    rw [husage, chargeStorage_other hcharged hu]
    split
    · rfl
    · exact refundStorage_other refunded hu

theorem mem_of_readInputBytes {t? : Option Task} {fileName : String} {stored : Bool} {f : TaskFile}
    (h : readInputBytes t? fileName stored = .ok f) : ∃ t, t? = some t ∧ f ∈ t.files := by
  cases t? with
  | none => cases h
  | some t =>
    refine ⟨t, rfl, ?_⟩
    unfold readInputBytes at h
    split at h
    · cases h
    · next g hg =>
      split at h <;> cases h
      have hmem := List.mem_of_mem_filter (hg ▸ List.mem_singleton_self f)
      exact hmem
    · cases h

/-- The work of a callback stays with the task and the owner of its token. -/
theorem Callback.work_scope {row : Option UserMcpServer} {stored : Bool} {reply : ToolReply}
    (hrow : ∀ r, row = some r → r.ownerId = q.claims.owner)
    (h : q.work nfc db row stored = .ok (db', reply)) :
    reply.IsOf db q.claims.toRoundContext ∧
      (∀ tid ≠ q.claims.task, db'.tasks.get? tid = db.tasks.get? tid) ∧
      ∀ u ≠ q.claims.owner, db'.usage.get? u = db.usage.get? u := by
  unfold Callback.work at h
  split at h
  · obtain ⟨-, -, h⟩ := bind_eq_ok.mp h
    obtain ⟨-, -, h⟩ := bind_eq_ok.mp h
    obtain ⟨f, hf, h⟩ := bind_eq_ok.mp h
    cases h
    exact ⟨mem_of_readInputBytes hf, fun _ _ => rfl, fun _ _ => rfl⟩
  · obtain ⟨-, -, h⟩ := bind_eq_ok.mp h
    obtain ⟨-, -, h⟩ := bind_eq_ok.mp h
    split at h
    · cases h
    · obtain ⟨⟨db₁, fid⟩, hregister, h⟩ := bind_eq_ok.mp h
      cases h
      exact registerOutput_scope hregister
  · obtain ⟨-, -, h⟩ := bind_eq_ok.mp h
    cases h
    refine ⟨fun m hm => ?_, fun _ _ => rfl, fun _ _ => rfl⟩
    obtain ⟨f, hf, rfl⟩ := List.mem_map.mp hm
    cases ht : db.visibleTask q.claims.owner q.claims.task with
    | none =>
      rw [ht] at hf
      cases hf
    | some t =>
      rw [ht] at hf
      exact ⟨t, rfl, f, List.mem_of_mem_filter hf, rfl⟩
  · obtain ⟨-, -, h⟩ := bind_eq_ok.mp h
    obtain ⟨t, ht, h⟩ := bind_eq_ok.mp h
    cases h
    unfold getTaskView at ht
    split at ht <;> cases ht
    next hget => exact ⟨⟨t, (Option.filter_eq_some_iff.mp hget).1, rfl⟩, fun _ _ => rfl, fun _ _ => rfl⟩
  · split at h <;> cases h
    next r => exact ⟨hrow r rfl, fun _ _ => rfl, fun _ _ => rfl⟩

end Work

/-! ## What has been checked -/

/-- The checks behind a callback. That a platform tool is mounted is the condition on its request. -/
def CallbackPhase.passed : CallbackPhase → ToolTarget → List ToolCheck
  | .admitted, .platform _ => [.token, .capability]
  | .admitted, .mcp .. => [.token]
  | .fenced, .platform _ => [.token, .capability, .live]
  | .fenced, .mcp .. => [.token, .live]
  | .granted, .mcp .. => [.token, .live, .capability]
  | .served _, .mcp sid _ _ => [.token, .live, .capability, .switch (.server sid)]
  | .cleared _, target => target.required
  | _, _ => []

/-- The row of the server that a callback has read. -/
def CallbackPhase.row? : CallbackPhase → Option UserMcpServer
  | .served row => some row
  | .cleared row => row
  | _ => none

section Checks

variable {nfc : String → String} {decode : Time → String → Option Claims} {ud : UnicodeData}
  {w w' : CallbackWorld} {q : Callback} {h : List (CallbackWorld × CallbackAction)} {id : CallbackId}
  {x : CallbackWorld × CallbackAction}

theorem During.append {P : CallbackWorld → Prop} (hd : During h id P)
    (h' : List (CallbackWorld × CallbackAction)) : During (h ++ h') id P := by
  obtain ⟨x, hx, hid, hP⟩ := hd
  exact ⟨x, List.mem_append_left _ hx, hid, hP⟩

theorem During.last {P : CallbackWorld → Prop} (hid : x.2.callback? = some id) (hP : P x.1) :
    During (h ++ [x]) id P :=
  ⟨x, List.mem_append_right _ (List.mem_singleton_self x), hid, hP⟩

theorem ToolEndpoint.parse_of_target {endpoint : ToolEndpoint} {sid : ServerId} {spelling toolName : String}
    (ht : endpoint.target ud = some (.mcp sid spelling toolName)) : parseUuid ud spelling = some sid := by
  cases endpoint with
  | mcpCall serverId toolName' arguments =>
    obtain ⟨sid', hsid, heq⟩ := Option.map_eq_some_iff.mp ht
    cases heq
    exact hsid
  | readTaskFile | writeOutputFile | listTaskFiles | queryTaskState => cases ht

/-- A check adds itself to those that have been passed. -/
theorem CallbackWorld.next_passed {phase : CallbackPhase} (htarget : q.endpoint.target ud = some q.target)
    (hnext : w.next q = .ok phase) :
    (∀ k ∈ phase.passed q.target, k ∈ q.phase.passed q.target ∨ k.Holds decode w q) ∧
      ∀ row, phase.row? = some row → q.phase.row? = some row ∨ row.ownerId = q.claims.owner := by
  unfold CallbackWorld.next at hnext
  split at hnext
  · next hphase =>
    obtain ⟨hlive, hnext⟩ := ite_ok_else_error.mp hnext
    cases hnext
    refine ⟨fun k hk => ?_, fun row hrow => by cases hrow⟩
    cases ht : q.target with
    | platform key | mcp sid spelling toolName =>
      simp only [ht, CallbackPhase.passed, List.mem_cons, List.not_mem_nil, or_false] at hk
      rcases hk with rfl | rfl | rfl <;> simp [CallbackPhase.passed, hphase, ToolCheck.Holds, hlive]
  · next key hphase ht =>
    obtain ⟨_, henabled, hnext⟩ := bind_eq_ok.mp hnext
    obtain ⟨hon, -⟩ := ite_ok_else_error.mp henabled
    cases hnext
    refine ⟨fun k hk => ?_, fun row hrow => by cases hrow⟩
    simp only [ht, CallbackPhase.passed, ToolTarget.required, List.mem_cons, List.not_mem_nil, or_false] at hk
    rcases hk with rfl | rfl | rfl | rfl <;>
      simp [CallbackPhase.passed, hphase, ht, ToolCheck.Holds, CallbackWorld.IsOn, hon]
  · next sid spelling toolName hphase ht =>
    split at hnext
    · cases hnext
    · next t hvisible =>
      obtain ⟨hany, hnext⟩ := ite_ok_else_error.mp hnext
      cases hnext
      have hcapable : ToolCheck.capability.Holds decode w q := by
        obtain ⟨d, hd, hspelling⟩ := List.any_eq_true.mp hany
        rw [decide_eq_true_eq] at hspelling
        have hparse := ToolEndpoint.parse_of_target (ht ▸ htarget)
        rw [← hspelling] at hparse
        refine ⟨t, hvisible, ?_⟩
        rw [ht]
        exact ⟨d, hd, (formatUuid_of_parseUuid hparse).symm⟩
      refine ⟨fun k hk => ?_, fun row hrow => by cases hrow⟩
      simp only [ht, CallbackPhase.passed, List.mem_cons, List.not_mem_nil, or_false] at hk
      rcases hk with rfl | rfl | rfl
      · simp [CallbackPhase.passed, hphase, ht]
      · simp [CallbackPhase.passed, hphase, ht]
      · exact .inr hcapable
  · next sid spelling toolName hphase ht =>
    split at hnext
    · cases hnext
    · next row hrow =>
      obtain ⟨henabled, hnext⟩ := ite_ok_else_error.mp hnext
      cases hnext
      obtain ⟨hget, howner⟩ := Option.filter_eq_some_iff.mp hrow
      rw [decide_eq_true_eq] at howner
      refine ⟨fun k hk => ?_, fun row' hrow' => ?_⟩
      · simp only [ht, CallbackPhase.passed, List.mem_cons, List.not_mem_nil, or_false] at hk
        rcases hk with rfl | rfl | rfl | rfl
        · simp [CallbackPhase.passed, hphase, ht]
        · simp [CallbackPhase.passed, hphase, ht]
        · simp [CallbackPhase.passed, hphase, ht]
        · exact .inr ⟨row, hget, howner, henabled⟩
      · cases hrow'
        exact .inr howner
  · next row sid spelling toolName hphase ht =>
    obtain ⟨hon, hnext⟩ := ite_ok_else_error.mp hnext
    cases hnext
    refine ⟨fun k hk => ?_, fun row' hrow' => ?_⟩
    · simp only [ht, CallbackPhase.passed, ToolTarget.required, List.mem_cons, List.not_mem_nil,
        or_false] at hk
      rcases hk with rfl | rfl | rfl | rfl | rfl <;>
        simp [CallbackPhase.passed, hphase, ht, ToolCheck.Holds, CallbackWorld.IsOn, hon]
    · cases hrow'
      exact .inl (by rw [hphase]; rfl)
  · cases hnext

/-- What is known of a callback that is not over. -/
structure Callback.Vetted (decode : Time → String → Option Claims) (ud : UnicodeData)
    (h : List (CallbackWorld × CallbackAction)) (id : CallbackId) (q : Callback) : Prop where
  target : q.endpoint.target ud = some q.target
  checks : ∀ k ∈ q.phase.passed q.target, During h id fun w => k.Holds decode w q
  owner : ∀ row, q.phase.row? = some row → row.ownerId = q.claims.owner

theorem Callback.Vetted.append (hv : q.Vetted decode ud h id) (h' : List (CallbackWorld × CallbackAction)) :
    q.Vetted decode ud (h ++ h') id :=
  ⟨hv.target, fun k hk => (hv.checks k hk).append h', hv.owner⟩

theorem Callback.Vetted.ended (hv : q.Vetted decode ud h id) :
    { q with phase := .ended }.Vetted decode ud h id := by
  refine ⟨hv.target, fun k hk => ?_, fun row hrow => by cases hrow⟩
  cases ht : q.target with
  | platform | mcp =>
    rw [ht] at hk
    cases hk

/-- The next check of the chain. -/
theorem Callback.Vetted.next {phase : CallbackPhase} (hv : q.Vetted decode ud h id)
    (hnext : w.next q = .ok phase) (hid : x.2.callback? = some id) (hx : x.1 = w) :
    { q with phase := phase }.Vetted decode ud (h ++ [x]) id := by
  obtain ⟨hpassed, howner⟩ : (∀ k ∈ phase.passed q.target,
      k ∈ q.phase.passed q.target ∨ k.Holds decode w q) ∧ ∀ row, phase.row? = some row →
        q.phase.row? = some row ∨ row.ownerId = q.claims.owner := w.next_passed hv.target hnext
  refine ⟨hv.target, fun k hk => ?_, fun row hrow => (howner row hrow).elim (hv.owner row) fun h => h⟩
  rcases hpassed k hk with hk | hholds
  · have hd := (hv.checks k hk).append [x]
    cases k <;> exact hd
  · cases k <;> exact .last hid (hx ▸ hholds)

/-- A request that is admitted has a registered token, and asks for a tool that is mounted. -/
theorem CallbackWorld.admitted_vetted {token : String} {task : TaskId} {endpoint : ToolEndpoint}
    (hG : AsksForMounted decode ud w (.receive id token task endpoint))
    (hq : w.admitted decode ud token task endpoint = .ok q) :
    q.Vetted decode ud (h ++ [(w, .receive id token task endpoint)]) id := by
  unfold CallbackWorld.admitted at hq
  split at hq
  · cases hq
  · next claims hdecode =>
    obtain ⟨-, hq⟩ := ite_error_eq_ok.mp hq
    obtain ⟨hregistered, hq⟩ := ite_error_eq_ok.mp hq
    rw [not_not] at hregistered
    split at hq
    · cases hq
    · next target htarget =>
      cases hq
      refine ⟨htarget, fun k hk => .last rfl ?_, fun row hrow => by cases hrow⟩
      cases target with
      | platform key =>
        simp only [CallbackPhase.passed, List.mem_cons, List.not_mem_nil, or_false] at hk
        rcases hk with rfl | rfl
        · exact ⟨hdecode, hregistered⟩
        · exact hG claims key hdecode htarget
      | mcp =>
        rw [List.mem_singleton.mp hk]
        exact ⟨hdecode, hregistered⟩

end Checks

/-! ## Runs -/

section Runs

variable {cfg : Settings} {nfc : String → String} {decode : Time → String → Option Claims} {ud : UnicodeData}
  {w w' w₀ : CallbackWorld} {h : List (CallbackWorld × CallbackAction)} {a : CallbackAction}
  {as : List CallbackAction}

/-- All callbacks in progress are vetted. -/
def CallbackWorld.Vetted (decode : Time → String → Option Claims) (ud : UnicodeData) (w : CallbackWorld)
    (h : List (CallbackWorld × CallbackAction)) : Prop :=
  ∀ id q, w.callbacks.get? id = some q → q.Vetted decode ud h id

/-- They were when a step was taken. -/
def VettedBefore (decode : Time → String → Option Claims) (ud : UnicodeData)
    (pre : List (CallbackWorld × CallbackAction)) (x : CallbackWorld × CallbackAction) : Prop :=
  x.1.Vetted decode ud pre

theorem CallbackWorld.Vetted.setPhase {id : CallbackId} {q : Callback} {phase : CallbackPhase}
    {x : CallbackWorld × CallbackAction} (hw : w.Vetted decode ud h)
    (hcallbacks : w'.callbacks = w.callbacks.set id { q with phase := phase })
    (hq : { q with phase := phase }.Vetted decode ud (h ++ [x]) id) : w'.Vetted decode ud (h ++ [x]) := by
  intro id' q' hq'
  rw [hcallbacks, Table.get?_set] at hq'
  split at hq'
  · next heq =>
    obtain ⟨_, -, rfl⟩ := Option.map_eq_some_iff.mp hq'
    rw [heq]
    exact hq
  · exact (hw id' q' hq').append _

theorem CallbackWorld.Vetted.step (hw : w.Vetted decode ud h) (hG : AsksForMounted decode ud w a)
    (hs : w.step cfg nfc decode ud a = .ok w') : w'.Vetted decode ud (h ++ [(w, a)]) := by
  have hkeep (hcallbacks : w'.callbacks = w.callbacks) : w'.Vetted decode ud (h ++ [(w, a)]) :=
    fun id q hq => (hw id q (hcallbacks ▸ hq)).append _
  cases a with
  | base a =>
    obtain ⟨base, -, hs⟩ := bind_eq_ok.mp hs
    cases hs
    exact hkeep rfl
  | setMcpTools | register | release =>
    cases hs
    exact hkeep rfl
  | receive id token task endpoint =>
    simp only [CallbackWorld.step] at hs
    split at hs
    · cases hs
    · next hnone =>
      obtain ⟨q, hq, hs⟩ := bind_eq_ok.mp hs
      cases hs
      intro id' q' hq'
      rw [Table.get?_insert hnone] at hq'
      split at hq'
      · next heq =>
        cases hq'
        rw [heq]
        exact CallbackWorld.admitted_vetted hG hq
      · exact (hw id' q' hq').append _
  | check id =>
    simp only [CallbackWorld.step] at hs
    split at hs
    · cases hs
    · next q hq =>
      split at hs
      · next phase hnext =>
        cases hs
        exact hw.setPhase rfl ((hw id q hq).next hnext rfl rfl)
      · cases hs
        exact hw.setPhase rfl ((hw id q hq).ended.append _)
  | answer id stored =>
    simp only [CallbackWorld.step] at hs
    split at hs
    · cases hs
    · next q hq =>
      split at hs <;> cases hs
      · exact hw.setPhase rfl ((hw id q hq).ended.append _)
      · exact hw.setPhase rfl ((hw id q hq).ended.append _)

/-- The work of a vetted callback is authorised. -/
theorem CallbackWorld.Vetted.authorised {id : CallbackId} {stored : Bool} {q : Callback} {db' : Db}
    {reply : ToolReply} (hw : w.Vetted decode ud h) (hwork : w.work nfc (.answer id stored) = some (q, db', reply)) :
    CallbackAuthorised decode h id w.base.db q db' reply := by
  simp only [CallbackWorld.work] at hwork
  split at hwork
  · cases hwork
  · next q' hq =>
    split at hwork
    · next row hphase =>
      split at hwork
      · next db'' reply' hdone =>
        cases hwork
        have hv := hw id q hq
        have hrow (r : UserMcpServer) (hr : row = some r) : r.ownerId = q.claims.owner :=
          hv.owner r (by rw [hphase]; exact hr)
        obtain ⟨hreads, htasks, husage⟩ := Callback.work_scope hrow hdone
        refine ⟨fun k hk => hv.checks k ?_, hreads, htasks, husage⟩
        rw [hphase]
        cases htarget : q.target <;> simpa only [CallbackPhase.passed, htarget] using hk
      · cases hwork
    · cases hwork

/-- Whatever callbacks do is authorised, as long as sandboxes ask only for platform tools that their experts
mount. -/
theorem allAuthorised_of_run (h₀ : w₀.Initial)
    (hG : (callbackSystem cfg nfc decode ud).Guarded (AsksForMounted decode ud) w₀ as) :
    AllAuthorised nfc decode (callbackHistory cfg nfc decode ud w₀ as) := by
  have hinv : CallbackWorld.Vetted decode ud ((callbackSystem cfg nfc decode ud).run w₀ as)
        (callbackHistory cfg nfc decode ud w₀ as) ∧
      Orderly (VettedBefore decode ud) (callbackHistory cfg nfc decode ud w₀ as) :=
    System.trace_invariant_of_guarded (S := callbackSystem cfg nfc decode ud)
    (I := fun w h => w.Vetted decode ud h ∧ Orderly (VettedBefore decode ud) h)
    (fun w h a w' hi hG hs => ⟨hi.1.step hG hs, hi.2.concat hi.1⟩)
    (s := w₀) ⟨fun id q hq => (by rw [h₀.callbacks] at hq; cases hq), orderly_nil⟩ hG
  intro pre w id stored post q db' reply heq hwork
  exact (hinv.2 pre (w, .answer id stored) post heq).authorised hwork

/-- Whether the expert of the task mounts the tool. -/
def Db.mounts (db : Db) (c : RoundContext) (key : ToolKey) : Bool :=
  (db.visibleTask c.owner c.task).any fun t =>
    (db.catalog.revisions.get? t.expertRevisionId).any (·.tools.contains key)

theorem Db.capable_platform_iff {db : Db} {c : RoundContext} {key : ToolKey} :
    db.Capable c (.platform key) ↔ db.mounts c key = true := by
  simp only [Capable, MountsTool, mounts, Option.any_eq_true, List.contains_iff_mem]

/-- The callbacks beside the small installation. -/
def CallbackWorld.small : CallbackWorld := ⟨.small, .empty, .empty, .empty⟩

theorem CallbackWorld.small_initial : CallbackWorld.small.Initial := ⟨World.small_initial, rfl⟩

/-- No letters beyond ASCII. -/
def plainUnicode : UnicodeData := ⟨fun _ => false, fun _ => none⟩

/-- There is one token, that of the round that `claimedRun` claims. -/
def decodeClaimed (now : Time) (token : String) : Option Claims :=
  if token = "token" ∧ now ≤ claimedToken.expiry then some claimedToken else none

/-- `list_task_files` is enabled, and the revision 5 mounts `tools`. -/
def listingCatalog (tools : List ToolKey) : Catalog :=
  ⟨Table.empty.insert 5 ⟨true, tools⟩, Table.empty.insert ("list_task_files", "1") true, .empty⟩

/-- The sandbox of the round asks for the files of its task, up to the last check. -/
def listingRun (tools : List ToolKey) : List CallbackAction :=
  .base (.setCatalog (listingCatalog tools)) :: claimedRun.map .base ++
    [.register 12 "token", .receive 0 "token" 10 .listTaskFiles, .check 0, .check 0]

/-- The sandbox of an expert that mounts the tool. -/
theorem allAuthorised_of_run_mounted : AllAuthorised id decodeClaimed
    (callbackHistory {} id decodeClaimed plainUnicode .small
      (listingRun [("list_task_files", "1")] ++ [.answer 0 true])) := by
  refine allAuthorised_of_run CallbackWorld.small_initial ?_
  refine ⟨trivial, trivial, trivial, trivial, trivial, trivial, fun claims key hdecode htarget => ?_, trivial,
    trivial, trivial, trivial⟩
  cases htarget
  obtain ⟨-, hclaims⟩ := Option.ite_none_right_eq_some.mp hdecode
  cases hclaims
  exact Db.capable_platform_iff.mpr (by decide +kernel)

/-- The sandbox of an expert without tools lists the files all the same. -/
theorem not_allAuthorised_of_unmounted : ¬ AllAuthorised id decodeClaimed
    (callbackHistory {} id decodeClaimed plainUnicode .small (listingRun [] ++ [.answer 0 true])) := by
  intro h
  rw [callbackHistory, System.trace_concat rfl] at h
  have hauthorised := h _ _ 0 true []
    ⟨"token", claimedToken, .listTaskFiles, .platform ("list_task_files", "1"), .cleared none⟩ _ (.files [])
    rfl rfl
  obtain ⟨x, hx, -, hcapable⟩ := hauthorised.checks .capability (by decide +kernel)
  -- the task mounts nothing at any time
  have hnever : (callbackHistory {} id decodeClaimed plainUnicode .small (listingRun [])).all
      (fun x => !x.1.base.db.mounts claimedToken.toRoundContext ("list_task_files", "1")) = true := by
    decide +kernel
  have hmounts : x.1.base.db.mounts claimedToken.toRoundContext ("list_task_files", "1") = true :=
    Db.capable_platform_iff.mp hcapable
  have hnot := List.all_eq_true.mp hnever x hx
  rw [hmounts] at hnot
  cases hnot

end Runs

end AgentCraft.Tasking
