import AgentCraft.Tasking.CatalogFrame

/-!
# The kill switch of platform tools

`POST /tools/{tool_id}/kill-switch` disables the version of the tool and stores its idempotency record in
one transaction; after the commit it scans the queued and running tasks whose revision mounts the tool and
aborts them one by one. The record is there before the scan: a repetition of the request is answered from
it, whatever has become of the terminator. `commit_input` and `send_message` queue tasks without looking at
their tools.
-/

namespace AgentCraft.Tasking

open AgentCraft.Relational AgentCraft.Transition

/-- The request. The tool is in the path, its version and the reason are in the body. -/
structure KillRequest where
  admin : UserId
  key : String
  tool : ToolKey
  reason : String
deriving DecidableEq, Repr

/-- Subject, route and key of its idempotency record. -/
def KillRequest.idem (r : KillRequest) : UserId × String × String :=
  (r.admin, "/api/admin/tools/" ++ r.tool.1 ++ "/kill-switch", r.key)

/-- What is hashed: `version` and `reason`. -/
def KillRequest.body (r : KillRequest) : String × String := (r.tool.2, r.reason)

/-- A row of `idempotency_records`. The last two fields are not in the source: the tool of the request, and
that it has not been enabled since. -/
structure KillRecord where
  requestHash : String
  expiresAt : Time
  tool : ToolKey
  current : Bool
deriving DecidableEq, Repr

/-- What the terminator does next. -/
inductive KillPhase
  | scan
  /-- Visit the candidates that the scan has returned. -/
  | visit (tasks : List TaskCandidate)
deriving DecidableEq, Repr

/-- A request whose transaction has committed. -/
structure ToolKill where
  tool : ToolKey
  phase : KillPhase
  /-- The tool has not been enabled since. -/
  current : Bool
deriving DecidableEq, Repr

/-- The domain with the requests of administrators about tools. -/
structure ToolWorld where
  world : World
  executor : Bool
  records : Table (UserId × String × String) KillRecord
  kills : List ToolKill
  /-- The tools with a success reply since which they have stayed disabled. -/
  replied : List ToolKey

/-- The labels of the system. -/
inductive ToolAction
  /-- Any transaction of the domain but a change of the catalogue. -/
  | other (a : Action)
  /-- Revisions and MCP servers change. -/
  | setCatalog (revisions : Table RevisionId ExpertRevision) (mcpServers : Table ServerId UserMcpServer)
  /-- `PUT /catalog/tools`. -/
  | setTool (tool : ToolKey) (enabled : Bool)
  | kill (r : KillRequest)
  /-- The next transaction of the terminator; without one left, the request is answered. -/
  | advance (k : ToolKill)
  /-- An exception, or a crash: the request has no success reply. -/
  | fail (k : ToolKill)

/-- The catalogue has no such row. -/
def toolNotFound : Failure := .http 404 "NOT_FOUND" "工具目录行不存在"

def idempotencyConflict : Failure :=
  .http 409 "IDEMPOTENCY_CONFLICT" "请求体与已记录的幂等请求不一致"

def Action.setsCatalog : Action → Bool
  | .setCatalog _ => true
  | _ => false

/-- `set_tool_enabled`: the row of the tool. -/
def Db.setToolEnabled (db : Db) (tool : ToolKey) (enabled : Bool) : Db :=
  { db with catalog := { db.catalog with toolEnabled := db.catalog.toolEnabled.set tool enabled } }

/-- The tools of a submitted revision are frozen (migration 0007), and those of the tasks are submitted. -/
def Db.keepsTools (db : Db) (revisions : Table RevisionId ExpertRevision) : Bool :=
  db.tasks.rows.all fun x =>
    (revisions.get? x.2.expertRevisionId).map (·.tools) ==
      (db.catalog.revisions.get? x.2.expertRevisionId).map (·.tools)

namespace ToolWorld

variable (w : ToolWorld)

/-- Enabling the tool outdates what its kill switches have done. -/
def enabled (tool : ToolKey) : ToolWorld :=
  { w with
    records := w.records.map fun _ x => { x with current := x.current && x.tool != tool }
    kills := w.kills.map fun k => { k with current := k.current && k.tool != tool }
    replied := w.replied.filter (· != tool) }

def setTool (tool : ToolKey) (enabled : Bool) : Except Failure ToolWorld :=
  match w.world.db.catalog.toolEnabled.get? tool with
  | none => .error toolNotFound
  | some _ =>
    let w := { w with world := { w.world with db := w.world.db.setToolEnabled tool enabled } }
    .ok (if enabled then w.enabled tool else w)

/-- `_lookup`, its `SELECT`. -/
def lookup (idem : UserId × String × String) : Option KillRecord :=
  (w.records.get? idem).filter (w.world.db.now < ·.expiresAt)

/-- `kill_switch` up to its commit, and its reply if nothing follows. A lookup that finds nothing purges
what has expired. -/
def kill (requestHash : String × String → String) (r : KillRequest) : Except Failure ToolWorld :=
  match w.lookup r.idem with
  | some record =>
    if record.requestHash ≠ requestHash r.body then .error idempotencyConflict
    else .ok { w with replied := if record.current then r.tool :: w.replied else w.replied }
  | none =>
    match w.world.db.catalog.toolEnabled.get? r.tool with
    | none => .error toolNotFound
    | some _ =>
      let records := w.records.filter fun _ x => w.world.db.now < x.expiresAt
      let w := { w with
        world := { w.world with db := w.world.db.setToolEnabled r.tool false }
        records := records.insert r.idem ⟨requestHash r.body, w.world.db.now + 86400, r.tool, true⟩ }
      .ok (if w.executor then { w with kills := ⟨r.tool, .scan, true⟩ :: w.kills }
        else { w with replied := r.tool :: w.replied })

/-- A step of `build_terminator`. -/
def advance (k : ToolKill) : ToolWorld :=
  let others := w.kills.erase k
  match k.phase with
  | .scan => { w with
      kills := { k with phase := .visit (toolTerminatorCandidates w.world.db k.tool) } :: others }
  | .visit (c :: cs) => { w with
      world := { w.world with db := terminateOne .toolRevoked w.world.db c }
      kills := { k with phase := .visit cs } :: others }
  | .visit [] => { w with
      kills := others
      replied := if k.current then k.tool :: w.replied else w.replied }

/-- The step function. -/
def step (cfg : Settings) (nfc : String → String) (requestHash : String × String → String) :
    ToolAction → Except Failure ToolWorld
  | .other a =>
    if a.setsCatalog then .error .notEnabled
    else do
      let world ← Tasking.step cfg nfc w.world a
      return { w with world := world }
  | .setCatalog revisions mcpServers =>
    if w.world.db.keepsTools revisions then
      let catalog : Catalog := ⟨revisions, w.world.db.catalog.toolEnabled, mcpServers⟩
      .ok { w with world := { w.world with db := { w.world.db with catalog := catalog } } }
    else .error .notEnabled
  | .setTool tool enabled => w.setTool tool enabled
  | .kill r => w.kill requestHash r
  | .advance k => if k ∈ w.kills then .ok (w.advance k) else .error .notEnabled
  | .fail k => .ok { w with kills := w.kills.erase k }

end ToolWorld

/-- The domain with the kill switch. -/
def toolSystem (cfg : Settings) (nfc : String → String) (requestHash : String × String → String) :
    System ToolWorld ToolAction Failure :=
  ⟨fun w a => w.step cfg nfc requestHash a⟩

/-- No kill switch has been used yet. -/
structure ToolWorld.Initial (w : ToolWorld) : Prop where
  records : w.records = .empty
  kills : w.kills = []
  replied : w.replied = []

/-- The revision of the task mounts the tool. -/
def Db.MountsTool (db : Db) (t : Task) (tool : ToolKey) : Prop :=
  ∃ rev, db.catalog.revisions.get? t.expertRevisionId = some rev ∧ tool ∈ rev.tools

/-- The switch is complete: after a success reply, and while the tool stays disabled, no task that mounts it
is queued or running. -/
def ToolWorld.Complete (w : ToolWorld) : Prop :=
  ∀ tool ∈ w.replied, w.world.db.catalog.toolEnabled.get? tool = some false ∧
    ∀ tid t, w.world.db.tasks.get? tid = some t → w.world.db.MountsTool t tool →
      t.status.isTerminable = false

/-- The condition. A message or the commit of an input does not queue a task that mounts a tool after the
scan of its kill switch, unless the terminator is still going to visit it; a request is answered from a record
only if a request for the tool has been completed; and an executor is wired. -/
def KillInTime (w : ToolWorld) : ToolAction → Prop
  | .other (.request r) => ∀ tid ∈ r.queues w.world.db, ∀ t, w.world.db.tasks.get? tid = some t →
      ∀ tool, w.world.db.MountsTool t tool →
        tool ∉ w.replied ∧ ∀ k ∈ w.kills, k.current = true → k.tool = tool →
          ∀ cs, k.phase = .visit cs → ⟨tid, r.owner⟩ ∈ cs
  | .kill r =>
    match w.lookup r.idem with
    | some record => record.current = true → r.tool ∈ w.replied
    | none => w.executor = true
  | _ => True

section ToolSwitch

variable {cfg : Settings} {nfc : String → String} {requestHash : String × String → String}
  {w w' w₀ : ToolWorld} {tool : ToolKey} {k : ToolKill} {tid : TaskId} {t t' : Task}

/-- What the terminators have left to do. -/
structure ToolWorld.Swept (w : ToolWorld) : Prop where
  disabled : ∀ k ∈ w.kills, k.current = true →
    w.world.db.catalog.toolEnabled.get? k.tool = some false
  remaining : ∀ k ∈ w.kills, k.current = true → ∀ cs, k.phase = .visit cs →
    ∀ tid t, w.world.db.tasks.get? tid = some t → w.world.db.MountsTool t k.tool →
      t.status.isTerminable = true → ⟨tid, t.ownerId⟩ ∈ cs
  complete : w.Complete

/-! ## The tools of a task -/

/-- Rows with the same frozen columns mount the same tools while the catalogue keeps those of their revision. -/
theorem Db.MountsTool.of_frozen {db db' : Db} (h : db'.MountsTool t' tool) (hf : t'.frozen = t.frozen)
    (hc : (db'.catalog.revisions.get? t.expertRevisionId).map (·.tools) =
      (db.catalog.revisions.get? t.expertRevisionId).map (·.tools)) : db.MountsTool t tool := by
  obtain ⟨rev, hrev, hmem⟩ := h
  have hid : t'.expertRevisionId = t.expertRevisionId := congrArg Frozen.expertRevisionId hf
  rw [hid] at hrev
  rw [hrev] at hc
  obtain ⟨rev', hrev', htools⟩ := Option.map_eq_some_iff.mp hc.symm
  exact ⟨rev', hrev', htools ▸ hmem⟩

theorem keepsTools_of_row {db : Db} {revisions : Table RevisionId ExpertRevision}
    (h : db.keepsTools revisions = true) (ht : db.tasks.get? tid = some t) :
    (revisions.get? t.expertRevisionId).map (·.tools) =
      (db.catalog.revisions.get? t.expertRevisionId).map (·.tools) := by
  have hrow := List.all_eq_true.mp h _ (Table.get?_eq_some_iff.mp ht)
  exact beq_iff_eq.mp hrow

/-! ## Steps -/

/-- A step that leaves the flags and the kill switches alone, and queues at most what is still to be
visited. -/
theorem ToolWorld.Swept.of_terminable (hw : w.Swept)
    (hflags : w'.world.db.catalog.toolEnabled = w.world.db.catalog.toolEnabled)
    (hkills : ∀ k ∈ w'.kills, k ∈ w.kills) (hreplied : ∀ tool ∈ w'.replied, tool ∈ w.replied)
    (hrows : ∀ tid t', w'.world.db.tasks.get? tid = some t' → t'.status.isTerminable = true →
      ∀ tool, w'.world.db.MountsTool t' tool →
        (∃ t, w.world.db.tasks.get? tid = some t ∧ t.ownerId = t'.ownerId ∧
          w.world.db.MountsTool t tool ∧ t.status.isTerminable = true) ∨
        tool ∉ w.replied ∧ ∀ k ∈ w.kills, k.current = true → k.tool = tool →
          ∀ cs, k.phase = .visit cs → ⟨tid, t'.ownerId⟩ ∈ cs) : w'.Swept where
  disabled := by
    rw [hflags]
    exact fun k hk => hw.disabled k (hkills k hk)
  remaining := by
    intro k hk hcur cs hcs tid t' ht' hm hst'
    rcases hrows tid t' ht' hst' k.tool hm with ⟨t, ht, howner, hm, hst⟩ | ⟨-, hnew⟩
    · rw [← howner]
      exact hw.remaining k (hkills k hk) hcur cs hcs tid t ht hm hst
    · exact hnew k (hkills k hk) hcur rfl cs hcs
  complete := by
    intro tool htool
    rw [hflags]
    refine ⟨(hw.complete tool (hreplied tool htool)).1, fun tid t' ht' hm => ?_⟩
    by_contra hst'
    rcases hrows tid t' ht' (Bool.eq_true_of_not_eq_false hst') tool hm with
      ⟨t, ht, -, hm, hst⟩ | ⟨hno, -⟩
    · rw [(hw.complete tool (hreplied tool htool)).2 tid t ht hm] at hst
      cases hst
    · exact hno (hreplied tool htool)

/-- A transaction of the domain. -/
theorem ToolWorld.Swept.other (hw : w.Swept) {a : Action} {world : World} (ha : a.setsCatalog = false)
    (hG : KillInTime w (.other a)) (h : Tasking.step cfg nfc w.world a = .ok world) :
    ToolWorld.Swept { w with world := world } := by
  have hcat : world.db.catalog = w.world.db.catalog := step_catalog (by rintro c rfl; cases ha) h
  refine hw.of_terminable (congrArg Catalog.toolEnabled hcat) (fun _ => id) (fun _ => id) ?_
  intro tid t' ht' hst' tool hm
  obtain ⟨t, ht, hfrozen, hcase⟩ := step_terminable h ht' hst'
  have hm₀ : w.world.db.MountsTool t tool := hm.of_frozen hfrozen (by
    show (world.db.catalog.revisions.get? _).map _ = _
    rw [hcat])
  rcases hcase with hst | ⟨r, rfl, hq, howner⟩
  · exact .inl ⟨t, ht, (congrArg Frozen.ownerId hfrozen).symm, hm₀, hst⟩
  · rw [← howner]
    exact .inr (hG tid hq t ht tool hm₀)

/-- Enabling a tool. -/
theorem ToolWorld.Swept.enabled (hw : w.Swept) (tool : ToolKey) :
    ToolWorld.Swept ({ w with world := { w.world with db := w.world.db.setToolEnabled tool true } }.enabled
      tool) := by
  have hold {k' : ToolKill} (hk' : k' ∈ w.kills.map fun k => { k with current := k.current && k.tool != tool })
      (hcur : k'.current = true) : k' ∈ w.kills ∧ k'.tool ≠ tool := by
    obtain ⟨k, hk, rfl⟩ := List.mem_map.mp hk'
    simp only [Bool.and_eq_true, bne_iff_ne, ne_eq] at hcur
    refine ⟨?_, hcur.2⟩
    have hk₀ : ({ k with current := k.current && k.tool != tool } : ToolKill) = k := by
      cases k
      simp_all
    rwa [hk₀]
  constructor
  · intro k hk hcur
    obtain ⟨hk, hne⟩ := hold hk hcur
    show (w.world.db.catalog.toolEnabled.set tool true).get? k.tool = _
    rw [Table.get?_set_ne _ hne]
    exact hw.disabled k hk hcur
  · intro k hk hcur
    exact hw.remaining k (hold hk hcur).1 hcur
  · intro tool' htool'
    obtain ⟨hmem, hne⟩ := List.mem_filter.mp htool'
    refine ⟨?_, (hw.complete tool' hmem).2⟩
    show (w.world.db.catalog.toolEnabled.set tool true).get? tool' = _
    rw [Table.get?_set_ne _ (by simpa using hne)]
    exact (hw.complete tool' hmem).1

/-- Disabling a tool. -/
theorem ToolWorld.Swept.disable (hw : w.Swept) {b : Bool} (tool : ToolKey)
    (hb : w.world.db.catalog.toolEnabled.get? tool = some b)
    (records : Table (UserId × String × String) KillRecord) :
    ToolWorld.Swept { w with
      world := { w.world with db := w.world.db.setToolEnabled tool false }, records := records } := by
  have hset {tool' : ToolKey} (h : w.world.db.catalog.toolEnabled.get? tool' = some false) :
      (w.world.db.catalog.toolEnabled.set tool false).get? tool' = some false := by
    by_cases heq : tool' = tool
    · rw [heq]
      exact Table.get?_set_self hb _
    · rw [Table.get?_set_ne _ heq]
      exact h
  exact ⟨fun k hk hcur => hset (hw.disabled k hk hcur), hw.remaining,
    fun tool' htool' => ⟨hset (hw.complete tool' htool').1, (hw.complete tool' htool').2⟩⟩

/-- A kill switch up to its commit. -/
theorem ToolWorld.Swept.kill (hw : w.Swept) {r : KillRequest} (hG : KillInTime w (.kill r))
    (h : w.kill requestHash r = .ok w') : w'.Swept := by
  simp only [KillInTime] at hG
  unfold ToolWorld.kill at h
  split at h
  · next record hrec =>
    rw [hrec] at hG
    obtain ⟨-, h⟩ := ite_error_eq_ok.mp h
    cases h
    refine ⟨hw.disabled, hw.remaining, ?_⟩
    intro tool htool
    change tool ∈ (if record.current = true then r.tool :: w.replied else w.replied) at htool
    split at htool
    · next hcur =>
      rcases List.mem_cons.mp htool with rfl | htool
      · exact hw.complete _ (hG hcur)
      · exact hw.complete tool htool
    · exact hw.complete tool htool
  · next hrec =>
    rw [hrec] at hG
    split at h
    · cases h
    · next b hb =>
      simp only at h
      rw [if_pos hG] at h
      cases h
      have hdis := hw.disable r.tool hb
        ((w.records.filter fun _ x => w.world.db.now < x.expiresAt).insert r.idem
          ⟨requestHash r.body, w.world.db.now + 86400, r.tool, true⟩)
      refine ⟨?_, ?_, hdis.complete⟩
      · intro k hk hcur
        rcases List.mem_cons.mp hk with rfl | hk
        · exact Table.get?_set_self hb _
        · exact hdis.disabled k hk hcur
      · intro k hk hcur cs hcs
        rcases List.mem_cons.mp hk with rfl | hk
        · cases hcs
        · exact hdis.remaining k hk hcur cs hcs

/-- The terminator takes its next step. -/
theorem ToolWorld.Swept.advance (hw : w.Swept) (hk : k ∈ w.kills) : (w.advance k).Swept := by
  have hmem {k₀ k' : ToolKill} (h : k' ∈ k₀ :: w.kills.erase k) : k' = k₀ ∨ k' ∈ w.kills :=
    (List.mem_cons.mp h).imp_right List.mem_of_mem_erase
  unfold ToolWorld.advance
  split
  · next hphase =>
    refine ⟨?_, ?_, hw.complete⟩
    · intro k' hk' hcur
      rcases hmem hk' with rfl | hk'
      · exact hw.disabled k hk hcur
      · exact hw.disabled k' hk' hcur
    · intro k' hk' hcur cs hcs tid t ht hm hst
      rcases hmem hk' with rfl | hk'
      · -- the scan returns every such task
        cases hcs
        obtain ⟨rev, hrev, hin⟩ := hm
        exact mem_scanTasks_of_row ht (by simp [hst, hrev, hin])
      · exact hw.remaining k' hk' hcur cs hcs tid t ht hm hst
  · next c cs hphase =>
    have hrow {tid : TaskId} {t' : Task}
        (ht' : (terminateOne .toolRevoked w.world.db c).tasks.get? tid = some t')
        (hst' : t'.status.isTerminable = true) {tool : ToolKey}
        (hm : (terminateOne .toolRevoked w.world.db c).MountsTool t' tool) :
        ∃ t, w.world.db.tasks.get? tid = some t ∧ t.ownerId = t'.ownerId ∧
          w.world.db.MountsTool t tool ∧ t.status.isTerminable = true := by
      obtain ⟨t, ht, hf⟩ := terminateOne_rowsFollow .toolRevoked w.world.db c tid t' ht'
      obtain ⟨howner, hst⟩ := hf.terminable hst'
      refine ⟨t, ht, howner, hm.of_frozen hf.frozen ?_, hst.resolve_right id⟩
      rw [terminateOne_catalog]
    have hcat := terminateOne_catalog .toolRevoked w.world.db c
    constructor
    · intro k' hk' hcur
      show (terminateOne .toolRevoked w.world.db c).catalog.toolEnabled.get? k'.tool = _
      rw [hcat]
      rcases hmem hk' with rfl | hk'
      · exact hw.disabled k hk hcur
      · exact hw.disabled k' hk' hcur
    · intro k' hk' hcur cs' hcs tid t' ht' hm hst'
      obtain ⟨t, ht, howner, hm, hst⟩ := hrow ht' hst' hm
      rcases hmem hk' with rfl | hk'
      · cases hcs
        have hin := hw.remaining k hk hcur (c :: cs) hphase tid t ht hm hst
        rw [howner] at hin
        refine (List.mem_cons.mp hin).resolve_left fun hc => ?_
        -- the candidate that has been visited is not left over
        subst hc
        rw [terminateOne_stops ht' rfl] at hst'
        cases hst'
      · rw [← howner]
        exact hw.remaining k' hk' hcur cs' hcs tid t ht hm hst
    · intro tool htool
      refine ⟨?_, fun tid t' ht' hm => ?_⟩
      · show (terminateOne .toolRevoked w.world.db c).catalog.toolEnabled.get? tool = _
        rw [hcat]
        exact (hw.complete tool htool).1
      · by_contra hst'
        obtain ⟨t, ht, -, hm, hst⟩ := hrow ht' (Bool.eq_true_of_not_eq_false hst') hm
        rw [(hw.complete tool htool).2 tid t ht hm] at hst
        cases hst
  · next hphase =>
    refine ⟨fun k' hk' => hw.disabled k' (List.mem_of_mem_erase hk'),
      fun k' hk' => hw.remaining k' (List.mem_of_mem_erase hk'), ?_⟩
    intro tool htool
    by_cases hold : tool ∈ w.replied
    · exact hw.complete tool hold
    · obtain ⟨hcur, rfl⟩ : k.current = true ∧ tool = k.tool := by
        change tool ∈ (if k.current = true then k.tool :: w.replied else w.replied) at htool
        split at htool
        · next hcur => exact ⟨hcur, (List.mem_cons.mp htool).resolve_right hold⟩
        · exact absurd htool hold
      refine ⟨hw.disabled k hk hcur, fun tid t ht hm => ?_⟩
      by_contra hst
      have hin := hw.remaining k hk hcur [] hphase tid t ht hm (Bool.eq_true_of_not_eq_false hst)
      cases hin

theorem ToolWorld.Swept.step {a : ToolAction} (hw : w.Swept) (hG : KillInTime w a)
    (h : w.step cfg nfc requestHash a = .ok w') : w'.Swept := by
  cases a with
  | other a =>
    obtain ⟨ha, h⟩ := ite_error_eq_ok.mp h
    obtain ⟨world, hworld, h⟩ := bind_eq_ok.mp h
    cases h
    exact hw.other (Bool.eq_false_iff.mpr ha) hG hworld
  | setCatalog revisions mcpServers =>
    obtain ⟨hkeeps, h⟩ := ite_ok_else_error.mp h
    cases h
    refine hw.of_terminable rfl (fun _ => id) (fun _ => id) ?_
    intro tid t ht hst tool hm
    exact .inl ⟨t, ht, rfl, hm.of_frozen rfl (keepsTools_of_row hkeeps ht), hst⟩
  | setTool tool enabled =>
    simp only [ToolWorld.step, ToolWorld.setTool] at h
    split at h
    · cases h
    · next b hb =>
      cases h
      cases enabled with
      | true => exact hw.enabled tool
      | false => exact hw.disable tool hb w.records
  | kill r => exact hw.kill hG h
  | advance k =>
    obtain ⟨hk, h⟩ := ite_ok_else_error.mp h
    cases h
    exact hw.advance hk
  | fail k =>
    cases h
    exact ⟨fun k' hk' => hw.disabled k' (List.mem_of_mem_erase hk'),
      fun k' hk' => hw.remaining k' (List.mem_of_mem_erase hk'), hw.complete⟩

/-! ## Runs -/

theorem ToolWorld.Initial.swept (h₀ : w.Initial) : w.Swept where
  disabled := by simp [h₀.kills]
  remaining := by simp [h₀.kills]
  complete := by simp [ToolWorld.Complete, h₀.replied]

/-- In every run that meets the condition, the switch is complete in every state that is reached. -/
theorem complete_of_run {as : List ToolAction} (h₀ : w₀.Initial)
    (hG : (toolSystem cfg nfc requestHash).Guarded KillInTime w₀ as) :
    ((toolSystem cfg nfc requestHash).run w₀ as).Complete :=
  (System.invariant_run_of_guarded (S := toolSystem cfg nfc requestHash)
    (fun _ _ _ hw hG hs => ToolWorld.Swept.step hw hG hs) h₀.swept hG).complete

/-- Before any kill switch the condition asks for the executor only. -/
theorem KillInTime.of_idle (hk : w.kills = []) (hr : w.replied = []) (a : Action) :
    KillInTime w (.other a) := by
  cases a with
  | request r =>
    intro tid _ t _ tool _
    refine ⟨by simp [hr], ?_⟩
    intro k hmem
    simp [hk] at hmem
  | _ => trivial

theorem KillInTime.of_fresh {r : KillRequest} (hrec : w.lookup r.idem = none) (hx : w.executor = true) :
    KillInTime w (.kill r) := by
  simp only [KillInTime, hrec]
  exact hx

/-- The small installation with a tool that revision 5 mounts. -/
def ToolWorld.small : ToolWorld where
  world := { World.small with db := { World.small.db with
    catalog := ⟨Table.empty.insert 5 ⟨true, [("search", "1")]⟩, Table.empty.insert ("search", "1") true, .empty⟩ } }
  executor := true
  records := .empty
  kills := []
  replied := []

/-- The request of administrator 9. -/
def killSearch : KillRequest := ⟨9, "key", ("search", "1"), "abuse"⟩

/-- User 1 creates task 10 and commits its input. -/
def queuedBy1 : List ToolAction :=
  [.other (.request (.createTask 1 5 none "hi" [])), .other (.request (.commitInput 1 10 "manifest"))]

/-- The switch for the tool, with the tasks that the terminator visits. -/
def killedRun (tasks : List TaskCandidate) : List ToolAction :=
  [.kill killSearch, .advance ⟨("search", "1"), .scan, true⟩] ++
    tasks.tails.map fun cs => .advance ⟨("search", "1"), .visit cs, true⟩

theorem complete_of_run_killed :
    ((toolSystem {} id fun b => b.1 ++ b.2).run ToolWorld.small (queuedBy1 ++ killedRun [⟨10, 1⟩])).Complete ∧
      ((toolSystem {} id fun b => b.1 ++ b.2).run ToolWorld.small
        (queuedBy1 ++ killedRun [⟨10, 1⟩])).replied = [("search", "1")] := by
  refine ⟨complete_of_run ⟨rfl, rfl, rfl⟩ ⟨.of_idle rfl rfl _, .of_idle ?_ ?_ _, .of_fresh ?_ ?_, ?_⟩, ?_⟩
  · decide +kernel
  · decide +kernel
  · decide +kernel
  · decide +kernel
  · repeat' constructor
  · decide +kernel

/-- Task 10 is uploading when the switch has scanned, and its input is committed after the reply. -/
def lateInputRun : List ToolAction :=
  [.other (.request (.createTask 1 5 none "hi" []))] ++ killedRun [] ++
    [.other (.request (.commitInput 1 10 "manifest"))]

/-- The terminator fails before it has visited task 10, and the administrator repeats the request. -/
def repeatedKillRun : List ToolAction :=
  queuedBy1 ++ [.kill killSearch, .advance ⟨("search", "1"), .scan, true⟩,
    .fail ⟨("search", "1"), .visit [⟨10, 1⟩], true⟩, .kill killSearch]

/-- In both runs the administrator has a success reply, the tool is disabled and task 10 is queued. -/
theorem not_complete_of_lateInput :
    ¬ ((toolSystem {} id fun b => b.1 ++ b.2).run ToolWorld.small lateInputRun).Complete ∧
      ¬ ((toolSystem {} id fun b => b.1 ++ b.2).run ToolWorld.small repeatedKillRun).Complete := by
  have hqueued {as : List ToolAction} (hreplied : ((toolSystem {} id fun b => b.1 ++ b.2).run ToolWorld.small
        as).replied = [("search", "1")])
      (hrow : (((toolSystem {} id fun b => b.1 ++ b.2).run ToolWorld.small as).world.db.tasks.get? 10).map
        (fun t => (t.expertRevisionId, t.status)) = some (5, .queued))
      (hrev : (((toolSystem {} id fun b => b.1 ++ b.2).run ToolWorld.small as).world.db.catalog.revisions.get?
        5).map (·.tools) = some [("search", "1")]) :
      ¬ ((toolSystem {} id fun b => b.1 ++ b.2).run ToolWorld.small as).Complete := by
    intro h
    obtain ⟨t, ht, heq⟩ := Option.map_eq_some_iff.mp hrow
    obtain ⟨hid, hst⟩ := Prod.mk.inj heq
    obtain ⟨rev, hrev, htools⟩ := Option.map_eq_some_iff.mp hrev
    have hno := (h ("search", "1") (by simp [hreplied])).2 10 t ht
      ⟨rev, by rw [hid]; exact hrev, by simp [htools]⟩
    rw [hst] at hno
    cases hno
  exact ⟨hqueued (by decide +kernel) (by decide +kernel) (by decide +kernel),
    hqueued (by decide +kernel) (by decide +kernel) (by decide +kernel)⟩

end ToolSwitch

end AgentCraft.Tasking
