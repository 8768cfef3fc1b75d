import AgentCraft.Tasking.McpServers

/-!
# The kill switch of MCP servers

When a request that disables or deletes a server has been answered, the tasks that mount it have been
stopped if the cascade has run and looked for the string that the snapshots contain. It runs only for the
request that turns the server off, not for one that repeats it, and finds the tasks only if the caller has
spelled the identifier canonically.
-/

namespace AgentCraft.Tasking

open AgentCraft.Relational AgentCraft.Transition AgentCraft.Python

/-- The snapshot of the task mounts the server. -/
def Task.mounts (t : Task) (sid : ServerId) : Bool := t.mcpServers.any (·.serverId = sid)

/-- No task that mounts the server is queued or running. -/
def Db.Stopped (db : Db) (sid : ServerId) : Prop :=
  ∀ tid t, db.tasks.get? tid = some t → t.mounts sid = true → t.status.isTerminable = false

/-- The request finds the server turned on: it deletes the row, or changes `enabled`. -/
def ServerRequest.findsOn (r : ServerRequest) (db : Db) (sid : ServerId) : Bool :=
  match r with
  | .update _ _ => (db.catalog.mcpServers.get? sid).any (·.enabled)
  | .delete _ => true

/-- The condition: the request is not answered from its record and turns the server off, an executor is
wired, and the identifier is spelled as the snapshots spell it. -/
def McpFace.Cascades (s : McpFace) (user : UserId) (key : String) (r : ServerRequest) (sid : ServerId) :
    Prop :=
  s.lookup (r.idem user key) = none ∧ r.findsOn s.db sid = true ∧ s.executor = true ∧
    r.serverId = formatUuid sid

section KillSwitch

variable {ud : UnicodeData} {requestHash : Option ServerUpdates → String} {s : McpFace} {db db' : Db}
  {user : UserId} {key serverId : String} {r : ServerRequest} {raises : Option ℕ} {sid : ServerId}
  {reply : ServerReply} {stops : Bool}

theorem Db.Stopped.of_tasks (h : db'.tasks = db.tasks) : db'.Stopped sid ↔ db.Stopped sid := by
  unfold Db.Stopped
  rw [h]

/-! ## The cascade -/

/-- A string that is not canonical is in no snapshot. -/
theorem mountCandidates_of_ne (hsid : parseUuid ud serverId = some sid) (hne : serverId ≠ formatUuid sid) :
    mountCandidates db serverId = [] := by
  have hno (d : McpDescriptor) : formatUuid d.serverId ≠ serverId := by
    rintro rfl
    exact hne (formatUuid_of_parseUuid hsid).symm
  simp [mountCandidates, scanTasks, hno]

/-- The cascade stops the tasks that mount the server if it has the canonical string. -/
theorem terminateAll_stopped_iff (hsid : parseUuid ud serverId = some sid) :
    (terminateAll .toolRevoked db (mountCandidates db serverId)).Stopped sid ↔
      serverId = formatUuid sid ∨ db.Stopped sid := by
  constructor
  · intro h
    by_cases heq : serverId = formatUuid sid
    · exact .inl heq
    · rw [mountCandidates_of_ne hsid heq] at h
      exact .inr h
  · intro h tid t' ht' hm
    obtain ⟨t, ht, hf, hst⟩ := terminateAll_rows ht'
    have hm₀ : t.mounts sid = true := by
      have hservers : t'.mcpServers = t.mcpServers := congrArg Frozen.mcpServers hf
      rwa [Task.mounts, ← hservers]
    by_contra hno
    have hst₀ := hst (Bool.eq_true_of_not_eq_false hno)
    rcases h with rfl | h
    · have hc : ⟨tid, t.ownerId⟩ ∈ mountCandidates db (formatUuid sid) := by
        refine mem_scanTasks_of_row ht ?_
        obtain ⟨d, hd, heq⟩ := List.any_eq_true.mp hm₀
        simp only [hst₀, Bool.true_and]
        refine List.any_eq_true.mpr ⟨d, hd, decide_eq_true ?_⟩
        rw [of_decide_eq_true heq]
      exact hno (terminateAll_stops hc ht' (congrArg Frozen.ownerId hf))
    · rw [h tid t ht hm₀] at hst₀
      cases hst₀

/-! ## The transaction -/

theorem getServerRow_eq_ok {row : ServerId × UserMcpServer}
    (h : getServerRow ud db user serverId = .ok row) :
    parseUuid ud serverId = some row.1 ∧ db.catalog.mcpServers.get? row.1 = some row.2 := by
  unfold getServerRow at h
  split at h
  · cases h
  · next sid hsid =>
    split at h
    · cases h
    · next row hrow =>
      cases h
      exact ⟨hsid, (Option.filter_eq_some_iff.mp hrow).1⟩

/-- An update that sets `enabled` to false disables the server if it was enabled. -/
theorem UserMcpServer.update_revokes {row row' : UserMcpServer} {updates : ServerUpdates}
    (hoff : updates.enabled = some (some false)) (h : row.update updates = .ok (row', stops)) :
    stops = row.enabled := by
  unfold UserMcpServer.update at h
  obtain ⟨-, h⟩ := ite_error_eq_ok.mp h
  obtain ⟨-, h⟩ := ite_error_eq_ok.mp h
  obtain ⟨renamed, -, h⟩ := bind_eq_ok.mp h
  rw [hoff] at h
  simp only at h
  split at h
  · next hne =>
    obtain ⟨-, rfl⟩ := Prod.mk.inj (Except.ok.inj h)
    cases hen : row.enabled <;> simp_all
  · next heq =>
    obtain ⟨-, rfl⟩ := Prod.mk.inj (Except.ok.inj h)
    exact not_not.mp heq

/-- The transaction leaves the tasks alone, and asks for the cascade if it has found the server on. -/
theorem ServerRequest.work_eq_ok (hoff : r.turnsOff = true) (hsid : parseUuid ud r.serverId = some sid)
    (h : r.work ud db user = .ok (db', reply, stops)) :
    db'.tasks = db.tasks ∧ stops = r.findsOn db sid := by
  cases r with
  | update serverId updates =>
    obtain ⟨row, hrow, h⟩ := bind_eq_ok.mp h
    obtain ⟨hid, hrow⟩ := getServerRow_eq_ok hrow
    obtain ⟨⟨row', revoked⟩, hup, h⟩ := bind_eq_ok.mp h
    cases h
    refine ⟨rfl, ?_⟩
    cases hsid.symm.trans hid
    rw [UserMcpServer.update_revokes (of_decide_eq_true hoff) hup]
    simp [ServerRequest.findsOn, hrow]
  | delete serverId =>
    obtain ⟨row, -, h⟩ := bind_eq_ok.mp h
    cases h
    exact ⟨rfl, rfl⟩

/-! ## The request -/

/-- For every spelling of the identifier and every set of tasks: when a request that turns the server off
has been answered, the tasks that mount it are stopped if and only if the cascade has run under the
canonical spelling, or none had to be stopped. -/
theorem stopped_iff_of_handle (hoff : r.turnsOff = true) (hsid : parseUuid ud r.serverId = some sid)
    (hdone : (s.handle ud requestHash user key r raises).1.isSuccess = true) :
    (s.handle ud requestHash user key r raises).2.db.Stopped sid ↔
      s.Cascades user key r sid ∨ s.db.Stopped sid := by
  have hnot (h : ¬ s.Cascades user key r sid) {db' : Db} (htasks : db'.tasks = s.db.tasks) :
      db'.Stopped sid ↔ s.Cascades user key r sid ∨ s.db.Stopped sid := by
    rw [Db.Stopped.of_tasks htasks, or_iff_right h]
  unfold McpFace.handle at hdone ⊢
  split at hdone
  · next record hrec =>
    exact hnot (fun h => by rw [h.1] at hrec; cases hrec) rfl
  · next hnone =>
    simp only at hdone
    split at hdone
    · cases hdone
    · next db' reply stops hwork =>
      obtain ⟨htasks, hstops⟩ := ServerRequest.work_eq_ok hoff hsid hwork
      simp only
      split
      · next hs =>
        rw [if_pos hs] at hdone
        unfold McpFace.terminateTasks at hdone ⊢
        split
        · next hexec =>
          refine hnot (fun h => ?_) htasks
          rw [h.2.2.1] at hexec
          cases hexec
        · next hexec =>
          cases raises with
          | some n =>
            rw [if_neg hexec] at hdone
            cases hdone
          | none =>
            simp only
            rw [terminateAll_stopped_iff hsid, Db.Stopped.of_tasks htasks]
            refine or_congr_left ?_
            have hexec' : s.executor = true := by simpa using hexec
            exact ⟨fun h => ⟨hnone, hstops ▸ hs, hexec', h⟩, fun h => h.2.2.2⟩
      · next hs =>
        refine hnot (fun h => hs ?_) htasks
        rw [hstops, h.2.1]

/-- User 1 has server 171 and the task 10 that mounts it, which is queued. -/
def mountingDb : Db :=
  ((system {} id).run World.small
    [.setCatalog ⟨Table.empty.insert 5 ⟨true, []⟩, .empty,
        Table.empty.insert 171 ⟨1, "search", "http", true⟩⟩,
      .request (.createTask 1 5 none "hi" [171]), .request (.commitInput 1 10 "manifest")]).db

/-- The same under an executor, and without idempotency records. -/
def mountingFace : McpFace := ⟨mountingDb, .empty, true⟩

/-- An interpreter that is not asked about anything but ASCII. -/
def asciiOnly : UnicodeData := ⟨fun _ => false, fun _ => none⟩

/-- The canonical spelling stops the task. -/
theorem stopped_iff_of_handle_canonical :
    (mountingFace.handle asciiOnly (fun _ => "") 1 "k"
        (.delete "00000000-0000-0000-0000-0000000000ab") none).2.db.Stopped 171 ↔
      mountingFace.Cascades 1 "k" (.delete "00000000-0000-0000-0000-0000000000ab") 171 ∨
        mountingFace.db.Stopped 171 :=
  stopped_iff_of_handle rfl (by decide +kernel) (by decide +kernel)

/-- Task 10 is queued and mounts server 171. -/
def Db.hasQueuedMount (db : Db) : Bool :=
  (db.tasks.get? 10).any fun t => t.mounts 171 && t.status = .queued

theorem Db.hasQueuedMount.not_stopped (h : db.hasQueuedMount = true) : ¬ db.Stopped 171 := by
  intro hstopped
  unfold Db.hasQueuedMount at h
  cases ht : db.tasks.get? 10 with
  | none =>
    rw [ht] at h
    cases h
  | some t =>
    rw [ht] at h
    obtain ⟨hm, hst⟩ := Bool.and_eq_true_iff.mp h
    have hno := hstopped 10 t ht hm
    rw [of_decide_eq_true hst] at hno
    cases hno

/-- The server is disabled, and the cascade raises before it has stopped the task. -/
def interruptedFace : McpFace :=
  (mountingFace.handle asciiOnly (fun _ => "") 1 "k"
    (.update "00000000-0000-0000-0000-0000000000ab" ⟨none, some (some false)⟩) (some 0)).2

/-- The task stays queued when the identifier is spelled in upper case, and when a request whose cascade
has failed is repeated, be it under the same idempotency key or under another. -/
theorem not_stopped_of_handle :
    ((mountingFace.handle asciiOnly (fun _ => "") 1 "k"
        (.delete "00000000-0000-0000-0000-0000000000AB") none).1.isSuccess = true ∧
      ¬ (mountingFace.handle asciiOnly (fun _ => "") 1 "k"
        (.delete "00000000-0000-0000-0000-0000000000AB") none).2.db.Stopped 171) ∧
    ∀ key ∈ ["k", "other"],
      (interruptedFace.handle asciiOnly (fun _ => "") 1 key
        (.update "00000000-0000-0000-0000-0000000000ab" ⟨none, some (some false)⟩) none).1.isSuccess =
          true ∧
      ¬ (interruptedFace.handle asciiOnly (fun _ => "") 1 key
        (.update "00000000-0000-0000-0000-0000000000ab" ⟨none, some (some false)⟩) none).2.db.Stopped
          171 := by
  refine ⟨⟨by decide +kernel, Db.hasQueuedMount.not_stopped (by decide +kernel)⟩, fun key hkey => ?_⟩
  rcases List.mem_pair.mp hkey with rfl | rfl
  · exact ⟨by decide +kernel, Db.hasQueuedMount.not_stopped (by decide +kernel)⟩
  · exact ⟨by decide +kernel, Db.hasQueuedMount.not_stopped (by decide +kernel)⟩

end KillSwitch

end AgentCraft.Tasking
