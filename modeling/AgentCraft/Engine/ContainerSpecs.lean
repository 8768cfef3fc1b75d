import AgentCraft.Engine.ContainerForms
import AgentCraft.Transition.Fallible

/-!
# Containers that are started

The sandbox of an MCP server runs what a user has stored, the container of a round what the executor puts
together. Whatever these hold, no string of a user is read as an option, and the two forms denote the same
container unless the path of the extension has a comma or a colon (`builtForms_agree_iff`).
-/

namespace AgentCraft.Engine.Containers

open AgentCraft.Streams AgentCraft.Transition

/-! ## Sandboxes -/

/-- Launch material, as it is stored. -/
structure Launch where
  command : Text
  args : Option (List Text)
  env : Option (List (Text × Text))
deriving DecidableEq

/-- Launch material with its defaults. -/
structure Material where
  command : Text
  args : List Text
  env : List (Text × Text)
deriving DecidableEq

/-- `McpSandboxError`, by its message. -/
inductive SandboxError
  /-- "mcp-sandbox 镜像未配置". -/
  | noImage
  /-- "非法 MCP 启动材料". -/
  | badLaunch
deriving DecidableEq

/-- `validate_launch`; the types of the fields are checked where they are stored. -/
def validateLaunch (launch : Launch) : Except SandboxError Material :=
  let args := launch.args.getD []
  let env := launch.env.getD []
  if launch.command = [] ∨ launch.command.contains '\x00' then .error .badLaunch
  else if args.any (·.contains '\x00') then .error .badLaunch
  else if env.any (fun p => p.1.isEmpty || (p.1 ++ p.2).contains '\x00') then .error .badLaunch
  else .ok ⟨launch.command, args, env⟩

/-- What `build_sandbox_spec` is given, and the random part of the name. -/
structure SandboxRequest where
  image : Text
  networkName : Text
  launch : Launch
  taskId : Text
  serverId : Text
  session : Text
deriving DecidableEq

def sandboxTmpfs : List (Text × Text) := [
  ("/tmp".toList, "rw,size=64m,nosuid,nodev,noexec".toList),
  ("/home/mcpworker".toList, "rw,size=32m,nosuid,nodev,noexec".toList)]

/-- `build_sandbox_spec`. -/
def buildSandboxSpec (r : SandboxRequest) : Except SandboxError ContainerSpec :=
  if r.image = [] then .error .noImage
  else (validateLaunch r.launch).map fun material =>
    { containerName := "mcp-sandbox-".toList ++ r.taskId ++ '-' :: r.serverId.take 8 ++ '-' :: r.session
      image := r.image
      argv := material.command :: material.args
      env := material.env
      mounts := []
      networkName := r.networkName
      labels := [
        ("agentcraft.component".toList, "mcp-sandbox".toList),
        ("agentcraft.task_id".toList, r.taskId),
        ("agentcraft.mcp_server_id".toList, r.serverId)]
      workdir := "/workspace".toList
      user := "mcpworker".toList
      tmpfs := sandboxTmpfs }

/-! ## Rounds -/

/-- A path that begins at a root or at a drive. -/
def isAbsolutePath : Text → Bool
  | '/' :: _ => true
  | c :: ':' :: s :: _ => c.isAlpha && (s == '\\' || s == '/')
  | _ => false

/-- An absolute path of the host. -/
structure HostPath where
  text : Text
  absolute : isAbsolutePath text = true
deriving DecidableEq

/-- What `_build_container_spec` is given, and what it takes from the settings. -/
structure RoundRequest where
  taskId : Text
  backendUrl : Text
  image : Text
  networkName : Text
  systemPrompt : Text
  extensionPath : HostPath
  taskToken : Text
  modelId : Text
  mcpEnv : List (Text × Text)
deriving DecidableEq

/-- `_V2_PROVIDER`. -/
def v2Provider : Text := "openai".toList

/-- An item is put into a dictionary. -/
def setItem (items : List (Text × Text)) (p : Text × Text) : List (Text × Text) :=
  if items.any (·.1 = p.1) then items.map fun q => if q.1 = p.1 then p else q else items ++ [p]

/-- `_build_container_spec`. -/
def buildContainerSpec (r : RoundRequest) : ContainerSpec where
  containerName := "pi-task-".toList ++ r.taskId
  image := r.image
  argv := [
    "pi".toList, "--mode".toList, "rpc".toList, "--no-session".toList, "--system-prompt".toList, r.systemPrompt,
    "--approve".toList, "--provider".toList, v2Provider, "--model".toList, r.modelId, "-e".toList,
    "/extension/task.ts".toList]
  env := r.mcpEnv.foldl setItem [
    ("AGENTCRAFT_BACKEND_URL".toList, r.backendUrl),
    ("AGENTCRAFT_TASK_TOKEN".toList, r.taskToken),
    ("AGENTCRAFT_PROVIDER".toList, v2Provider),
    ("AGENTCRAFT_PROVIDER_MODEL".toList, r.modelId),
    ("NODE_ENV".toList, "production".toList),
    ("OPENAI_BASE_URL".toList, "http://provider-proxy:8080/v1".toList),
    ("OPENAI_API_KEY".toList, r.taskToken)]
  mounts := [⟨r.extensionPath.text, "/extension/task.ts".toList, "ro".toList⟩]
  networkName := r.networkName
  labels := [("agentcraft.task_id".toList, r.taskId)]
  workdir := "/tmp".toList

/-! ## Both are regular -/

theorem readCpus_one : readCpus (cpusText 1000000000) = some 1000000000 := by
  decide +kernel

/-- The keys of the labels. -/
theorem not_mem_labelKeys : '=' ∉ "agentcraft.component".toList ∧ '=' ∉ "agentcraft.task_id".toList ∧
    '=' ∉ "agentcraft.mcp_server_id".toList := by
  decide +kernel

theorem not_mem_tmpfsTargets : ':' ∉ "/tmp".toList ∧ ':' ∉ "/home/mcpworker".toList ∧
    ':' ∉ "/home/piworker/.pi".toList := by
  decide +kernel

theorem tmpfsTargets_ne : "/tmp".toList ≠ "/home/mcpworker".toList ∧ "/tmp".toList ≠ "/home/piworker/.pi".toList := by
  decide +kernel

theorem not_mem_mountTarget : ',' ∉ "/extension/task.ts".toList ∧ ':' ∉ "/extension/task.ts".toList := by
  decide +kernel

theorem regular_mount (source : Text) : Mount.Regular ⟨source, "/extension/task.ts".toList, "ro".toList⟩ where
  comma := not_mem_mountTarget.1
  colon := not_mem_mountTarget.2
  mode := .inl rfl

theorem regular_of_buildSandboxSpec {r : SandboxRequest} {s : ContainerSpec} (h : buildSandboxSpec r = .ok s) :
    s.Regular ∧ s.image = r.image ∧ s.mounts = [] := by
  rw [buildSandboxSpec] at h
  split at h
  · cases h
  · obtain ⟨material, -, rfl⟩ := map_eq_ok.mp h
    obtain ⟨hcomponent, htask, hserver⟩ := not_mem_labelKeys
    obtain ⟨htmp, hhome, -⟩ := not_mem_tmpfsTargets
    refine ⟨⟨?_, ?_, ?_, readCpus_one, fun m hm => by cases hm⟩, rfl, rfl⟩
    · exact List.forall_mem_cons.mpr ⟨hcomponent, List.forall_mem_cons.mpr ⟨htask,
        List.forall_mem_singleton.mpr hserver⟩⟩
    · exact List.forall_mem_cons.mpr ⟨htmp, List.forall_mem_singleton.mpr hhome⟩
    · exact List.nodup_cons.mpr ⟨fun hmem => tmpfsTargets_ne.1 (List.mem_singleton.mp hmem), List.nodup_singleton _⟩

theorem regular_buildContainerSpec (r : RoundRequest) : (buildContainerSpec r).Regular where
  labels := List.forall_mem_singleton.mpr not_mem_labelKeys.2.1
  tmpfs := List.forall_mem_cons.mpr ⟨not_mem_tmpfsTargets.1, List.forall_mem_singleton.mpr not_mem_tmpfsTargets.2.2⟩
  tmpfs_nodup :=
    List.nodup_cons.mpr ⟨fun hmem => tmpfsTargets_ne.2 (List.mem_singleton.mp hmem), List.nodup_singleton _⟩
  nanoCpus := readCpus_one
  mounts := List.forall_mem_singleton.mpr (regular_mount r.extensionPath.text)

/-- **The two forms of a sandbox agree if its image begins with no dash, those of a round if besides the path
of the extension has neither a comma nor a colon.** -/
theorem builtForms_agree_iff (r : SandboxRequest) (t : RoundRequest) :
    (∀ s : ContainerSpec, buildSandboxSpec r = .ok s → (FormsAgree s ↔ isPositional r.image = true)) ∧
    (FormsAgree (buildContainerSpec t) ↔
      isPositional t.image = true ∧ ',' ∉ t.extensionPath.text ∧ ':' ∉ t.extensionPath.text) := by
  constructor
  · intro s h
    obtain ⟨hregular, himage, hmounts⟩ := regular_of_buildSandboxSpec h
    rw [formsAgree_iff_of_regular hregular, himage, hmounts]
    exact and_iff_left fun m hm => by cases hm
  · rw [formsAgree_iff_of_regular (regular_buildContainerSpec t)]
    exact and_congr_right' (List.forall_mem_singleton (p := fun m : Mount => ',' ∉ m.source ∧ ':' ∉ m.source))

/-! ## Examples -/

/-- A round whose extension lies at this path. -/
def sampleRound (path : HostPath) : RoundRequest where
  taskId := "7d444840-9dc0-11d1-b245-5ffdce74fad2".toList
  backendUrl := "http://backend:8000".toList
  image := "pi-worker".toList
  networkName := "agentcraft".toList
  systemPrompt := "--privileged".toList
  extensionPath := path
  taskToken := "token".toList
  modelId := "gpt-4o".toList
  mcpEnv := []

/-- A command that looks like an option. -/
def sampleSandbox : SandboxRequest where
  image := "mcp-sandbox".toList
  networkName := "mcp".toList
  launch := ⟨"--privileged".toList, some ["-v".toList], some [("A=B".toList, "--rm".toList)]⟩
  taskId := "7d444840-9dc0-11d1-b245-5ffdce74fad2".toList
  serverId := "9f".toList
  session := "00".toList

theorem builtForms_agree_dashes : (∃ s, buildSandboxSpec sampleSandbox = .ok s ∧ FormsAgree s) ∧
    FormsAgree (buildContainerSpec (sampleRound ⟨"/srv/task.ts".toList, rfl⟩)) :=
  ⟨⟨_, rfl, ((builtForms_agree_iff sampleSandbox (sampleRound ⟨"/srv/task.ts".toList, rfl⟩)).1 _ rfl).mpr rfl⟩,
    (builtForms_agree_iff sampleSandbox _).2.mpr ⟨rfl, by decide, by decide⟩⟩

/-- A comma is a separator of the command line, a colon one of the API. -/
theorem not_builtForms_agree :
    ¬ FormsAgree (buildContainerSpec (sampleRound ⟨"/srv/a,b/task.ts".toList, rfl⟩)) ∧
    ¬ FormsAgree (buildContainerSpec (sampleRound ⟨"C:\\srv\\task.ts".toList, rfl⟩)) := by
  constructor <;> intro hagree
  · obtain ⟨-, hmounts⟩ := (formsAgree_iff_of_regular (regular_buildContainerSpec _)).mp hagree
    exact absurd (hmounts _ List.mem_cons_self).1 (by decide)
  · obtain ⟨-, hmounts⟩ := (formsAgree_iff_of_regular (regular_buildContainerSpec _)).mp hagree
    exact absurd (hmounts _ List.mem_cons_self).2 (by decide)

end AgentCraft.Engine.Containers
