import AgentCraft.Engine.Hygiene
import AgentCraft.Tasking.Service

/-!
# The tools of an extension

What a round registers: the platform tools of its expert revision and, of every mounted MCP server that is
still there and enabled, the enabled tools in the cache of its discovery. The name of a user's tool is
`user_` and the name that its server gave it. A server has no name twice, but two servers may have the same
(`registeredNames_nodup_iff`).
-/

namespace AgentCraft.Engine

open AgentCraft.Python AgentCraft.Relational AgentCraft.Transition
open AgentCraft.Tasking (Db UserId ServerId McpDescriptor UserMcpServer snapshotRefsForTask)

/-! ## From the mounted servers to the generator -/

/-- A row of `user_mcp_tools`. -/
structure UserMcpTool where
  name : Option (List ℕ)
  description : Option (List ℕ)
  schemaJson : Option (List (List ℕ × Json))
  enabled : Bool

/-- `user_mcp_tools`, by server and name. -/
abbrev ToolCache := Table (ServerId × List ℕ) UserMcpTool

/-- A column as a value. -/
def orNull {α : Type*} (value : α → Json) (column : Option α) : Json := column.elim .null value

/-- An item of `tools` in an entry. -/
def toolItem (row : List ℕ × UserMcpTool) : Json :=
  dict [("tool_name", .str row.1), ("name", orNull .str row.2.name), ("description", orNull .str row.2.description),
    ("schema_json", orNull .obj row.2.schemaJson)]

/-- The enabled tools of a server, ordered by name. -/
def toolRows (le : List ℕ → List ℕ → Bool) (cache : ToolCache) (sid : ServerId) : List (List ℕ × UserMcpTool) :=
  ((cache.rows.filter fun r => r.1.1 = sid && r.2.enabled).map fun r => (r.1.2, r.2)).insertionSort
    fun r r' => le r.1 r'.1 = true

/-- The server behind a descriptor, if it is still there and enabled. -/
def mountedServer (db : Db) (owner : UserId) (sid : ServerId) : Option UserMcpServer :=
  (db.catalog.mcpServers.get? sid).filter fun row => row.ownerId = owner && row.enabled

/-- An entry of `_resolve_mcp_entries`. -/
def mcpEntry (sid : ServerId) (row : UserMcpServer) (tools : List (List ℕ × UserMcpTool)) : Json :=
  dict [("server_id", .ofString (formatUuid sid)), ("name", .ofString row.name),
    ("transport_kind", .ofString row.transportKind), ("tools", .arr (tools.map toolItem))]

/-- `_resolve_mcp_entries`. -/
def resolveMcpEntries (le : List ℕ → List ℕ → Bool) (cache : ToolCache) (db : Db) (owner : UserId)
    (snapshot : List McpDescriptor) : List Json :=
  snapshot.filterMap fun d =>
    (mountedServer db owner d.serverId).map fun row => mcpEntry d.serverId row (toolRows le cache d.serverId)

/-- The descriptor of a tool; one without name is skipped. -/
def toolDescriptor (serverId : List ℕ) : Json → Option Json
  | .obj tool => do
    let toolName ← nonEmpty (Items.get tool "tool_name")
    some (dict [("server_id", .str serverId), ("tool_name", .str toolName),
      ("label", orElse (Items.get tool "name") (.str toolName)),
      ("description", orElse (Items.get tool "description") (.str [])),
      ("schema", .obj (schemaOf (Items.get tool "schema_json")))])
  | _ => none

/-- The descriptors of an entry. -/
def entryDescriptors : Json → List Json
  | .obj entry =>
    match nonEmpty (Items.get entry "server_id"), Items.get entry "tools" with
    | some serverId, .arr tools => tools.filterMap (toolDescriptor serverId)
    | _, _ => []
  | _ => []

/-- `_user_mcp_tool_descriptors`. -/
def userMcpToolDescriptors (entries : List Json) : List Json := entries.flatMap entryDescriptors

/-! ## What is registered -/

/-- A tool that the extension registers. -/
inductive Registration
  | platform (tool : PlatformTool) (callbackPath : String)
  | user (tool : UserTool)

def Registration.name : Registration → List ℕ
  | .platform tool _ => codePoints tool.toolId
  | .user tool => tool.name

/-- The tools that the two loops of the template register. -/
def registrations (h : Host) (registered : List (PlatformTool × String)) (userMcpTools : List Json) :
    List Registration :=
  (registered.map fun p => .platform p.1 p.2) ++ (userMcpRegistration h userMcpTools).map .user

/-! ## Names of the user's tools -/

theorem codePoints_injective : Function.Injective codePoints := by
  intro s t h
  exact String.toList_injective ((List.map_injective_iff.mpr fun a b => Char.toNat_inj.mp) h)

@[simp] theorem get_cons (k k' : String) (v : Json) (l : List (String × Json)) :
    Items.get (((k', v) :: l).map fun p => (codePoints p.1, p.2)) k =
      if k = k' then v else Items.get (l.map fun p => (codePoints p.1, p.2)) k := by
  unfold Items.get
  rw [List.map_cons, List.lookup_cons]
  by_cases h : k = k'
  · rw [h, if_pos rfl, beq_self_eq_true]
    rfl
  · rw [if_neg h, beq_eq_false_iff_ne.mpr fun heq => h (codePoints_injective heq)]

theorem nonEmpty_str (u : List ℕ) : nonEmpty (.str u) = if u = [] then none else some u := rfl

theorem codePoints_formatUuid_ne (sid : ServerId) : codePoints (formatUuid sid) ≠ [] := by
  intro h
  have hmem : '-' ∈ (formatUuid sid).toList := by simp [formatUuid, hyphenate]
  have hcode := List.mem_map_of_mem (f := Char.toNat) hmem
  rw [codePoints] at h
  rw [h] at hcode
  cases hcode

/-- The name under which a row of the cache is registered. -/
theorem name_toolItem (h : Host) {serverId : List ℕ} (hid : serverId ≠ []) (row : List ℕ × UserMcpTool) :
    ((toolDescriptor serverId (toolItem row)).bind (userTool h)).map UserTool.name =
      if row.1 = [] then none else some (codePoints "user_" ++ row.1) := by
  rw [toolItem, dict, toolDescriptor, get_cons, if_pos rfl, nonEmpty_str]
  by_cases hname : row.1 = []
  · rw [if_pos hname, if_pos hname]
    rfl
  · rw [if_neg hname, if_neg hname, Option.bind_eq_bind, Option.bind_some, Option.bind_some, dict, userTool]
    simp only [get_cons, String.reduceEq, if_true, if_false, nonEmpty_str, hname, hid, Option.bind_eq_bind,
      Option.bind_some, Option.map_some, UserTool.name]

/-- The names under which the tools of an entry are registered. -/
theorem names_entryDescriptors (h : Host) (sid : ServerId) (row : UserMcpServer)
    (tools : List (List ℕ × UserMcpTool)) :
    (userMcpRegistration h (entryDescriptors (mcpEntry sid row tools))).map UserTool.name =
      ((tools.map Prod.fst).filter (· ≠ [])).map (codePoints "user_" ++ ·) := by
  have hid := codePoints_formatUuid_ne sid
  have hentry : entryDescriptors (mcpEntry sid row tools) =
      (tools.map toolItem).filterMap (toolDescriptor (codePoints (formatUuid sid))) := by
    rw [mcpEntry, dict, entryDescriptors]
    simp only [get_cons, String.reduceEq, if_true, if_false, Json.ofString, nonEmpty_str, hid]
  rw [hentry, userMcpRegistration, List.filterMap_filterMap, List.map_filterMap, List.filterMap_map]
  clear hentry
  induction tools with
  | nil => rfl
  | cons row tools ih =>
    rw [List.map_cons, List.filterMap_cons, Function.comp_apply, name_toolItem h hid row, List.filter_cons, ih]
    by_cases hname : row.1 = []
    · rw [if_pos hname, if_neg (by simpa using hname)]
    · rw [if_neg hname, if_pos (by simpa using hname), List.map_cons]

/-- The names that a mounted server offers. -/
def offeredNames (le : List ℕ → List ℕ → Bool) (cache : ToolCache) (db : Db) (owner : UserId) (sid : ServerId) :
    List (List ℕ) :=
  if (mountedServer db owner sid).isSome then ((toolRows le cache sid).map Prod.fst).filter (· ≠ []) else []

section Names

variable {le : List ℕ → List ℕ → Bool} {cache : ToolCache} {db : Db} {owner : UserId}

theorem names_userMcpToolDescriptors (h : Host) (snapshot : List McpDescriptor) :
    (userMcpRegistration h (userMcpToolDescriptors (resolveMcpEntries le cache db owner snapshot))).map
        UserTool.name =
      ((snapshot.map McpDescriptor.serverId).flatMap (offeredNames le cache db owner)).map
        (codePoints "user_" ++ ·) := by
  induction snapshot with
  | nil => rfl
  | cons d snapshot ih =>
    rw [List.map_cons, List.flatMap_cons, List.map_append, ← ih, resolveMcpEntries, List.filterMap_cons,
      offeredNames]
    cases hrow : mountedServer db owner d.serverId with
    | none => rfl
    | some row =>
      rw [Option.map_some, Option.isSome_some, if_pos rfl, ← names_entryDescriptors h d.serverId row,
        userMcpToolDescriptors, List.flatMap_cons, userMcpRegistration, List.filterMap_append, List.map_append]
      rfl

/-- A server offers an enabled tool of its cache, under a name that is not empty. -/
def Offers (cache : ToolCache) (db : Db) (owner : UserId) (sid : ServerId) (name : List ℕ) : Prop :=
  (∃ row, mountedServer db owner sid = some row) ∧
    ∃ tool, cache.get? (sid, name) = some tool ∧ tool.enabled = true ∧ name ≠ []

theorem mem_offeredNames_iff {sid : ServerId} {name : List ℕ} :
    name ∈ offeredNames le cache db owner sid ↔ Offers cache db owner sid name := by
  rw [offeredNames, Offers, ← Option.isSome_iff_exists]
  split
  · next hsome =>
    simp only [toolRows, List.mem_filter, List.mem_map, List.mem_insertionSort, hsome, true_and, decide_eq_true_eq,
      Bool.and_eq_true, Table.get?_eq_some_iff]
    constructor
    · rintro ⟨⟨_, ⟨⟨⟨sid', name'⟩, tool⟩, ⟨hrow, rfl, hon⟩, rfl⟩, rfl⟩, hne⟩
      exact ⟨tool, hrow, hon, hne⟩
    · rintro ⟨tool, hrow, hon, hne⟩
      exact ⟨⟨_, ⟨_, ⟨hrow, rfl, hon⟩, rfl⟩, rfl⟩, hne⟩
  · next hnone => simp [hnone]

/-- A server offers no name twice. -/
theorem offeredNames_nodup (sid : ServerId) : (offeredNames le cache db owner sid).Nodup := by
  have hkeys : ((cache.rows.filter fun r => r.1.1 = sid && r.2.enabled).map Prod.fst).Nodup :=
    cache.nodup.sublist (List.filter_sublist.map Prod.fst)
  have hnames : (((cache.rows.filter fun r => r.1.1 = sid && r.2.enabled).map Prod.fst).map Prod.snd).Nodup := by
    refine hkeys.map_on fun k hk k' hk' heq => Prod.ext ?_ heq
    simp only [List.mem_map, List.mem_filter, Bool.and_eq_true, decide_eq_true_eq] at hk hk'
    obtain ⟨r, ⟨-, hr, -⟩, rfl⟩ := hk
    obtain ⟨r', ⟨-, hr', -⟩, rfl⟩ := hk'
    rw [hr, hr']
  unfold offeredNames
  split
  · refine List.Nodup.filter _ (((List.perm_insertionSort _ _).map Prod.fst).nodup_iff.mpr ?_)
    rw [List.map_map] at hnames ⊢
    exact hnames
  · exact List.nodup_nil

end Names

/-! ## Distinct names -/

/-- No two registrations have one name, so each name leads to what was registered under it. -/
structure DistinctNames (rs : List Registration) : Prop where
  nodup : (rs.map Registration.name).Nodup
  routes : ∀ r ∈ rs, ∀ r' ∈ rs, r'.name = r.name → r' = r

/-- The tools of the extension, if there is one, have distinct names. -/
def RegistersDistinct (h : Host) (c : Call) : Prop :=
  ∀ e, generate h c = .ok e → ∃ registered, registeredTools c.tools = .ok registered ∧
    DistinctNames (registrations h registered c.userMcpTools)

theorem distinctNames_iff {rs : List Registration} : DistinctNames rs ↔ (rs.map Registration.name).Nodup := by
  refine ⟨fun h => h.nodup, fun h => ⟨h, fun r hr r' hr' heq => ?_⟩⟩
  exact List.inj_on_of_nodup_map h hr' hr heq

section Selectors

variable {tools : List (String × String)} {registered : List (PlatformTool × String)}

theorem selectors_sublist (hreg : registeredTools tools = .ok registered) :
    (registered.map fun p => (p.1.toolId, p.1.version)).Sublist tools := by
  induction tools generalizing registered with
  | nil =>
    cases hreg
    exact List.Sublist.slnil
  | cons selector tools ih =>
    rw [registeredTools] at hreg
    split at hreg
    · cases hreg
    · next tool htool =>
      obtain ⟨rest, hrest, rfl⟩ := map_eq_ok.mp hreg
      have hselector := List.find?_some htool
      rw [Bool.and_eq_true, beq_iff_eq, beq_iff_eq] at hselector
      cases tool.callbackPath with
      | none => exact (ih hrest).trans (List.sublist_cons_self _ _)
      | some path =>
        have hself : (tool.toolId, tool.version) = selector := Prod.ext hselector.1 hselector.2
        rw [Option.map_some, Option.toList_some, List.map_append, List.map_singleton, hself]
        exact (ih hrest).cons_cons selector

/-- Every tool of the platform has one version. -/
theorem platformTools_version : ∀ t ∈ platformTools, t.version = "1" := by decide

/-- No tool of the platform has a name of the user's tools. -/
theorem platformTools_prefix : ∀ t ∈ platformTools, ¬ codePoints "user_" <+: codePoints t.toolId := by decide +kernel

theorem platformNames_nodup (hreg : registeredTools tools = .ok registered) (htools : tools.Nodup) :
    (registered.map fun p => codePoints p.1.toolId).Nodup := by
  have hselectors := htools.sublist (selectors_sublist hreg)
  have hids : ((registered.map fun p => (p.1.toolId, p.1.version)).map Prod.fst).Nodup := by
    refine hselectors.map_on fun s hs s' hs' heq => Prod.ext heq ?_
    obtain ⟨p, hp, rfl⟩ := List.mem_map.mp hs
    obtain ⟨p', hp', rfl⟩ := List.mem_map.mp hs'
    rw [platformTools_version _ (mem_registeredTools hreg hp).1, platformTools_version _ (mem_registeredTools hreg hp').1]
  rw [List.map_map] at hids
  have hnames := hids.map codePoints_injective
  rwa [List.map_map] at hnames

end Selectors

/-- The servers of a snapshot are distinct. -/
theorem snapshotRefsForTask_nodup {db : Db} {owner : UserId} {refs : List ServerId} {snapshot : List McpDescriptor}
    (h : snapshotRefsForTask db owner refs = .ok snapshot) : (snapshot.map McpDescriptor.serverId).Nodup := by
  have hids : ∀ (sids : List ServerId) (snapshot : List McpDescriptor),
      sids.mapM (Tasking.snapshotRef db owner) = .ok snapshot → snapshot.map McpDescriptor.serverId = sids := by
    intro sids
    induction sids with
    | nil =>
      intro snapshot h
      cases h
      rfl
    | cons sid sids ih =>
      intro snapshot h
      rw [List.mapM_cons] at h
      obtain ⟨d, hd, h⟩ := bind_eq_ok.mp h
      obtain ⟨rest, hrest, h⟩ := bind_eq_ok.mp h
      cases h
      have hsid : d.serverId = sid := by
        unfold Tasking.snapshotRef at hd
        split at hd
        · cases hd
        · obtain ⟨-, hd⟩ := ite_error_eq_ok.mp hd
          obtain ⟨-, hd⟩ := ite_error_eq_ok.mp hd
          cases hd
          rfl
      rw [List.map_cons, ih rest hrest, hsid]
  unfold snapshotRefsForTask at h
  obtain ⟨-, h⟩ := ite_error_eq_ok.mp h
  rw [hids _ _ h, List.nodup_reverse]
  exact List.nodup_dedup _

section Registered

variable {le : List ℕ → List ℕ → Bool} {cache : ToolCache} {db₀ db : Db} {owner : UserId} {refs : List ServerId}
  {snapshot : List McpDescriptor} {h : Host} {c : Call}

/-- No two mounted servers offer one name. -/
def NoSharedName (cache : ToolCache) (db : Db) (owner : UserId) (snapshot : List McpDescriptor) : Prop :=
  ∀ d ∈ snapshot, ∀ d' ∈ snapshot, ∀ name, Offers cache db owner d.serverId name →
    Offers cache db owner d'.serverId name → d.serverId = d'.serverId

theorem userNames_nodup_iff (hsnap : (snapshot.map McpDescriptor.serverId).Nodup) :
    ((snapshot.map McpDescriptor.serverId).flatMap (offeredNames le cache db owner)).Nodup ↔
      NoSharedName cache db owner snapshot := by
  rw [List.nodup_flatMap, and_iff_right fun sid _ => offeredNames_nodup sid]
  constructor
  · intro hpair d hd d' hd' name hname hname'
    by_contra hne
    have : Std.Symm (Function.onFun List.Disjoint (offeredNames le cache db owner)) :=
      ⟨fun _ _ hdisjoint => List.Disjoint.symm hdisjoint⟩
    have hdisjoint := hpair.forall (List.mem_map_of_mem hd) (List.mem_map_of_mem hd') hne
    exact hdisjoint (mem_offeredNames_iff.mpr hname) (mem_offeredNames_iff.mpr hname')
  · intro hshared
    refine hsnap.pairwise_of_forall_ne fun sid hsid sid' hsid' hne => ?_
    obtain ⟨d, hd, rfl⟩ := List.mem_map.mp hsid
    obtain ⟨d', hd', rfl⟩ := List.mem_map.mp hsid'
    exact fun name hname hname' => hne (hshared d hd d' hd' name (mem_offeredNames_iff.mp hname)
      (mem_offeredNames_iff.mp hname'))

/-- The names are distinct if no two mounted servers offer one name. -/
theorem registrations_nodup_iff (hsnap : (snapshot.map McpDescriptor.serverId).Nodup) {tools : List (String × String)}
    (htools : tools.Nodup) {registered : List (PlatformTool × String)} (hreg : registeredTools tools = .ok registered) :
    ((registrations h registered (userMcpToolDescriptors (resolveMcpEntries le cache db owner snapshot))).map
      Registration.name).Nodup ↔ NoSharedName cache db owner snapshot := by
  have hnames : (registrations h registered
      (userMcpToolDescriptors (resolveMcpEntries le cache db owner snapshot))).map Registration.name =
      (registered.map fun p => codePoints p.1.toolId) ++
        ((snapshot.map McpDescriptor.serverId).flatMap (offeredNames le cache db owner)).map
          (codePoints "user_" ++ ·) := by
    rw [← names_userMcpToolDescriptors h snapshot, registrations, List.map_append, List.map_map, List.map_map]
    rfl
  have hdisjoint : ∀ (names : List (List ℕ)),
      List.Disjoint (registered.map fun p => codePoints p.1.toolId) (names.map (codePoints "user_" ++ ·)) := by
    intro names name hname hname'
    obtain ⟨p, hp, rfl⟩ := List.mem_map.mp hname
    obtain ⟨toolName, -, heq⟩ := List.mem_map.mp hname'
    exact platformTools_prefix _ (mem_registeredTools hreg hp).1 ⟨toolName, heq⟩
  rw [hnames, List.nodup_append', and_iff_right (platformNames_nodup hreg htools), and_iff_left (hdisjoint _),
    List.nodup_map_iff fun a b heq => List.append_cancel_left heq, userNames_nodup_iff hsnap]

/-- The tools of an extension have distinct names exactly if no two mounted servers offer one name. -/
theorem registeredNames_distinct_iff (hsnap : snapshotRefsForTask db₀ owner refs = .ok snapshot)
    (htools : c.tools.Nodup)
    (hmcp : c.userMcpTools = userMcpToolDescriptors (resolveMcpEntries le cache db owner snapshot))
    (hc : c.WellFormed) :
    RegistersDistinct h c ↔ (Accepted h c → NoSharedName cache db owner snapshot) := by
  have hiff {registered : List (PlatformTool × String)} (hreg : registeredTools c.tools = .ok registered) :
      DistinctNames (registrations h registered c.userMcpTools) ↔ NoSharedName cache db owner snapshot := by
    rw [distinctNames_iff, hmcp, registrations_nodup_iff (snapshotRefsForTask_nodup hsnap) htools hreg]
  constructor
  · intro hdistinct hacc
    obtain ⟨registered, hreg⟩ := (registeredTools_isOk_iff c.tools).mpr hacc.known
    obtain ⟨registered', hreg', hnames⟩ := hdistinct _ ((generate_eq_ok_iff hc hreg).mpr ⟨hacc, rfl⟩)
    exact (hiff hreg').mp hnames
  · intro hshared e he
    have hacc := Accepted.of_generate hc he
    obtain ⟨registered, hreg⟩ := (registeredTools_isOk_iff c.tools).mpr hacc.known
    exact ⟨registered, hreg, (hiff hreg).mpr (hshared hacc)⟩

end Registered

/-- A user with two servers. -/
def twoServers : Db where
  tasks := .empty
  usage := .empty
  quotas := .empty
  usageDaily := .empty
  slots := .empty
  storage := ⟨0, 64424509440⟩
  providers := .empty
  catalog := ⟨.empty, .empty, ⟨[(21, ⟨1, "files", "http", true⟩), (22, ⟨1, "web", "http", true⟩)], by decide⟩⟩
  now := 10
  nextId := 300

/-- Each of them offers one tool. -/
def oneToolEach (name name' : String) : ToolCache :=
  (Table.empty.insert (21, codePoints name) ⟨none, none, none, true⟩).insert (22, codePoints name')
    ⟨none, none, none, true⟩

/-- The two servers in the snapshot of a task. -/
def bothMounted : List McpDescriptor := [⟨21, "files", "http"⟩, ⟨22, "web", "http"⟩]

/-- A round of a task with both servers. -/
def bothMountedCall (cache : ToolCache) : Call where
  taskId := .str (codePoints (formatUuid 7))
  tools := [("read_task_file", "1"), ("write_output_file", "1")]
  provider := "openai"
  modelInput := [codePoints "text"]
  userMcpTools := userMcpToolDescriptors (resolveMcpEntries (· ≤ ·) cache twoServers 1 bothMounted)

theorem wellFormed_bothMountedCall {cache : ToolCache}
    (hitems : ((bothMountedCall cache).userMcpTools.all Json.isValue) = true) : (bothMountedCall cache).WellFormed := by
  have htask : ∀ n ∈ codePoints (formatUuid 7), n < 0x110000 := by decide +kernel
  have hinput : ∀ u ∈ [codePoints "text"], ∀ n ∈ u, n < 0x110000 := by decide +kernel
  refine ⟨?_, hinput, List.all_eq_true.mp hitems⟩
  rintro u ⟨⟩
  exact htask

theorem registeredNames_distinct_oneToolEach :
    RegistersDistinct plainHost (bothMountedCall (oneToolEach "read" "search")) := by
  have hsnap : snapshotRefsForTask twoServers 1 [21, 22, 21] = .ok bothMounted := by decide +kernel
  refine (registeredNames_distinct_iff hsnap (by decide) rfl
    (wellFormed_bothMountedCall (by decide +kernel))).mpr fun _ => ?_
  have hrows : (oneToolEach "read" "search").rows = [((21, codePoints "read"), ⟨none, none, none, true⟩),
      ((22, codePoints "search"), ⟨none, none, none, true⟩)] := rfl
  have hnames (sid : ServerId) (name : List ℕ) (h : Offers (oneToolEach "read" "search") twoServers 1 sid name) :
      (sid, name) = (21, codePoints "read") ∨ (sid, name) = (22, codePoints "search") := by
    obtain ⟨-, tool, htool, -⟩ := h
    rw [Table.get?_eq_some_iff, hrows] at htool
    simp only [List.mem_cons, List.not_mem_nil, or_false, Prod.mk.injEq] at htool
    exact htool.imp (fun h => Prod.ext h.1.1 h.1.2) fun h => Prod.ext h.1.1 h.1.2
  have hne : codePoints "read" ≠ codePoints "search" := by decide
  intro d _ d' _ name hname hname'
  rcases hnames _ _ hname with h | h
  · rcases hnames _ _ hname' with h' | h'
    · exact (congrArg Prod.fst h).trans (congrArg Prod.fst h').symm
    · have hread : name = codePoints "read" := congrArg Prod.snd h
      have hsearch : name = codePoints "search" := congrArg Prod.snd h'
      exact absurd (hread.symm.trans hsearch) hne
  · rcases hnames _ _ hname' with h' | h'
    · have hread : name = codePoints "read" := congrArg Prod.snd h'
      have hsearch : name = codePoints "search" := congrArg Prod.snd h
      exact absurd (hread.symm.trans hsearch) hne
    · exact (congrArg Prod.fst h).trans (congrArg Prod.fst h').symm

/-- Both servers have a tool of one name, and the extension registers it twice. -/
theorem not_registeredNames_distinct :
    snapshotRefsForTask twoServers 1 [21, 22] = .ok bothMounted ∧
      ¬ RegistersDistinct plainHost (bothMountedCall (oneToolEach "search" "search")) := by
  refine ⟨by decide +kernel, fun hdistinct => ?_⟩
  have hreg : registeredTools [("read_task_file", "1"), ("write_output_file", "1")] =
      .ok [(platformTools[1], "/internal/tools/read-task-file"),
        (platformTools[2], "/internal/tools/write-output-file")] := rfl
  have hacc : Accepted plainHost (bothMountedCall (oneToolEach "search" "search")) := by
    refine ⟨(registeredTools_isOk_iff _).mp ⟨_, hreg⟩, ⟨rfl, rfl⟩, by decide +kernel, fun registered hr => ?_, rfl,
      by decide +kernel⟩
    obtain rfl := Except.ok.inj (hreg.symm.trans hr)
    decide +kernel
  have hc : (bothMountedCall (oneToolEach "search" "search")).WellFormed :=
    wellFormed_bothMountedCall (by decide +kernel)
  obtain ⟨registered, hr, hnames⟩ := hdistinct _ ((generate_eq_ok_iff hc hreg).mpr ⟨hacc, rfl⟩)
  obtain rfl := Except.ok.inj (hreg.symm.trans hr)
  have htwice : ¬ ((registrations plainHost [(platformTools[1], "/internal/tools/read-task-file"),
      (platformTools[2], "/internal/tools/write-output-file")]
      (bothMountedCall (oneToolEach "search" "search")).userMcpTools).map Registration.name).Nodup := by
    decide +kernel
  exact htwice hnames.nodup

end AgentCraft.Engine
