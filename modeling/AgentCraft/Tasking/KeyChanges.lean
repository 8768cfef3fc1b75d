import AgentCraft.Tasking.Forward

/-!
# Key changes as transactions that overlap

`update_provider` with a new key and `revoke_provider` read the provider row without a lock, lock the
unstarted tasks that they see, and write the row at the end. The creation of a task reads the provider
before it inserts the row, and a settlement reads it before it decides on the status. `World` runs each of
these in one step; here they are taken apart, so that they can overlap with each other and with every
other transaction. What a transaction has locked, no other one writes.
-/

namespace AgentCraft.Tasking

open AgentCraft.Relational AgentCraft.Transition

/-- A plaintext key. -/
abbrev ApiKey := String

/-- A key that was stored for a provider, with its version. -/
structure StoredKey where
  provider : ProviderId
  version : ℕ
  key : ApiKey
deriving DecidableEq, Repr

/-- `update_provider` with a new key, or `revoke_provider`, between its read and its commit. -/
structure KeyChange where
  owner : UserId
  provider : ProviderId
  /-- The row as `get_provider_row` has read it. -/
  row : UserProvider
  /-- The new key; none when the provider is revoked. -/
  newKey : Option ApiKey
  /-- The tasks that `fail_unstarted_tasks` has locked, once it has run. -/
  tasks : Option (List TaskId)
deriving DecidableEq, Repr

/-- `POST /tasks` between `resolve_task_provider` and its commit. -/
structure Creation where
  owner : UserId
  revision : RevisionId
  resolved : ResolvedProvider
  message : String
  mcpRefs : List ServerId
deriving DecidableEq, Repr

/-- `settle` between `_provider_revoked` and its commit; the round and the task are locked. -/
structure Settlement where
  context : RoundContext
  revoked : Bool
deriving DecidableEq, Repr

/-- The domain, the transactions that are open, and every key ever stored. -/
structure KeyWorld where
  world : World
  changes : List KeyChange
  creations : List Creation
  settlements : List Settlement
  stored : List StoredKey

/-- The labels of the system. -/
inductive KeyAction
  /-- Any other transaction. -/
  | other (a : Action)
  | createProvider (owner : UserId) (modelId : String) (isDefault : Bool) (key : ApiKey)
  | readProvider (owner : UserId) (provider : ProviderId) (newKey : Option ApiKey)
  | lockTasks (k : KeyChange)
  | commitChange (k : KeyChange)
  | resolve (owner : UserId) (revision : RevisionId) (provider : Option ProviderId)
      (message : String) (mcpRefs : List ServerId)
  | insert (c : Creation)
  | judge (c : RoundContext)
  | close (s : Settlement) (pending : Option String) (finishReason usage : String)
  | rollbackChange (k : KeyChange)
  | rollbackCreation (c : Creation)
  | rollbackSettlement (s : Settlement)

/-! ## The transactions, taken apart -/

/-- `create_task`, under the provider that its route has resolved. -/
def createResolvedTask (cfg : Settings) (db : Db) (c : Creation) : Except Failure (Db × TaskReply) := do
  validateInitialMessage cfg c.message
  let rev ← publishedRevision db c.revision
  let mcpServers ← snapshotRefsForTask db c.owner c.mcpRefs
  let charged ← db.chargeCreationQuota c.owner
  rev.tools.forM fun tool => assertToolEnabled db tool 409
  let tid := db.nextId
  let mid := db.nextId + 1
  match charged.tasks.get? tid with
  | some _ => .error (.integrity "pk_tasks")
  | none =>
    let t := Task.create c.owner c.revision c.resolved mcpServers db.now mid c.message
    .ok ({ charged with tasks := charged.tasks.insert tid t, nextId := db.nextId + 2 },
      .created tid mid 1)

theorem createTask_eq (cfg : Settings) (db : Db) (owner : UserId) (revision : RevisionId)
    (provider : Option ProviderId) (message : String) (mcpRefs : List ServerId) :
    createTask cfg db owner revision provider message mcpRefs =
      (do
        let resolved ← resolveTaskProvider db owner provider
        createResolvedTask cfg db ⟨owner, revision, resolved, message, mcpRefs⟩) := rfl

/-- `settle`, under the verdict on the provider. -/
def settleJudged (db : Db) (s : Settlement) (pending : Option String) (finishReason usage : String) :
    Except Failure Db := do
  match db.visibleTask s.context.owner s.context.task with
  | none => .error .fencedOut
  | some t =>
    let t' ← t.settle s.context db.nextId pending finishReason usage s.revoked
    return { (db.setTask s.context.task t').releaseTaskHoldings s.context.task s.context.owner with
      nextId := db.nextId + 1 }

/-- The verdict that `settle` reads, if the round is still fenced. -/
def judgeRound (db : Db) (c : RoundContext) : Except Failure Bool :=
  match db.visibleTask c.owner c.task with
  | none => .error .fencedOut
  | some t => if t.rounds.any c.fences then .ok (providerRevoked db t) else .error .fencedOut

/-- The row after the final `UPDATE`, which writes the columns that the change has set. -/
def KeyChange.write (k : KeyChange) (row : UserProvider) : UserProvider :=
  match k.newKey with
  | some _ => { row with keyVersion := k.row.keyVersion + 1 }
  | none => { row with status := .revoked, isDefault := false }

/-- The database after the change has committed. -/
def KeyChange.apply (k : KeyChange) (tids : List TaskId) (db : Db) : Db :=
  tids.foldl (failUnstartedTask .providerKeyRevoked) { db with
    providers := db.providers.map fun pid row => if pid = k.provider then k.write row else row }

/-- What the change stores. -/
def KeyChange.storedKeys (k : KeyChange) : List StoredKey :=
  k.newKey.toList.map fun key => ⟨k.provider, k.row.keyVersion + 1, key⟩

/-! ## Steps -/

/-- The tasks that open transactions have locked. -/
def KeyWorld.locked (w : KeyWorld) : List TaskId :=
  w.changes.flatMap (·.tasks.getD []) ++ w.settlements.map (·.context.task)

/-- No locked row is written. -/
def Db.spares (db : Db) (locked : List TaskId) (db' : Db) : Bool :=
  locked.all fun tid => db'.tasks.get? tid = db.tasks.get? tid

/-- Commit, unless a row that others have locked would be written: the transaction has to wait. -/
def KeyWorld.commit (w : KeyWorld) (world : World) : Except Failure KeyWorld :=
  if w.world.db.spares w.locked world.db then .ok { w with world := world } else .error .notEnabled

/-- The transactions that have labels of their own. -/
def Action.isTakenApart : Action → Bool
  | .request (.createTask ..) | .request (.createProvider ..) | .request (.rotateKey ..) |
    .request (.revokeProvider ..) | .write (.settle ..) => true
  | _ => false

variable (cfg : Settings) (nfc : String → String)

/-- The step function. -/
def KeyWorld.step (w : KeyWorld) : KeyAction → Except Failure KeyWorld
  | .other a =>
    if a.isTakenApart then .error .notEnabled
    else do
      let world ← Tasking.step cfg nfc w.world a
      w.commit world
  | .createProvider owner modelId isDefault key => do
    let db ← Tasking.createProvider w.world.db owner modelId isDefault
    return { w with
      world := { w.world with db := db }
      stored := ⟨w.world.db.nextId, 1, key⟩ :: w.stored }
  | .readProvider owner provider newKey => do
    let row ← getProviderRow w.world.db owner provider
    return { w with changes := ⟨owner, provider, row, newKey, none⟩ :: w.changes }
  | .lockTasks k =>
    let tids := unstartedTasks w.world.db k.provider
    if k ∈ w.changes ∧ k.tasks = none ∧ ∀ tid ∈ tids, tid ∉ w.locked then
      .ok { w with changes := { k with tasks := some tids } :: w.changes.erase k }
    else .error .notEnabled
  | .commitChange k =>
    match k.tasks with
    | none => .error .notEnabled
    | some tids =>
      -- the flush fails when its `UPDATE` matches no row
      if k ∈ w.changes ∧ (w.world.db.providers.get? k.provider).isSome then
        { w with changes := w.changes.erase k, stored := k.storedKeys ++ w.stored }.commit
          { w.world with db := k.apply tids w.world.db }
      else .error .notEnabled
  | .resolve owner revision provider message mcpRefs => do
    let resolved ← resolveTaskProvider w.world.db owner provider
    return { w with creations := ⟨owner, revision, resolved, message, mcpRefs⟩ :: w.creations }
  | .insert c =>
    if c ∈ w.creations then do
      let (db, _) ← createResolvedTask cfg w.world.db c
      return { w with world := { w.world with db := db }, creations := w.creations.erase c }
    else .error .notEnabled
  | .judge c =>
    if c.task ∈ w.locked then .error .notEnabled
    else do
      let revoked ← judgeRound w.world.db c
      return { w with settlements := ⟨c, revoked⟩ :: w.settlements }
  | .close s pending finishReason usage =>
    if s ∈ w.settlements then do
      let db ← settleJudged w.world.db s pending finishReason usage
      { w with settlements := w.settlements.erase s }.commit { w.world with db := db }
    else .error .notEnabled
  | .rollbackChange k => .ok { w with changes := w.changes.erase k }
  | .rollbackCreation c => .ok { w with creations := w.creations.erase c }
  | .rollbackSettlement s => .ok { w with settlements := w.settlements.erase s }

/-- The domain with overlapping key changes. -/
def keySystem : System KeyWorld KeyAction Failure := ⟨KeyWorld.step cfg nfc⟩

/-- A freshly migrated database, no open transaction, and one key for each provider. -/
structure KeyWorld.Initial (w : KeyWorld) : Prop where
  world : w.world.Initial
  changes : w.changes = []
  creations : w.creations = []
  settlements : w.settlements = []
  stored : ∃ key : ProviderId → ApiKey,
    w.stored = w.world.db.providers.rows.map fun r => ⟨r.1, r.2.keyVersion, key r.1⟩

/-- The small installation, with a key for each of its providers. -/
def KeyWorld.small : KeyWorld := ⟨.small, [], [], [], [⟨3, 1, "one"⟩, ⟨4, 1, "two"⟩]⟩

theorem KeyWorld.small_initial : KeyWorld.small.Initial where
  world := World.small_initial
  changes := rfl
  creations := rfl
  settlements := rfl
  stored := ⟨fun pid => if pid = 3 then "one" else "two", rfl⟩

/-! ## What a step does -/

/-- The status changes of the taken-apart domain that are not an end. -/
inductive KeyLifts : KeyAction → TaskId → TaskStatus → TaskStatus → Prop
  | other {a : Action} {tid : TaskId} {s s' : TaskStatus} (h : Lifts a tid s s') :
      KeyLifts (.other a) tid s s'
  | settle (s : Settlement) (pending : Option String) (finishReason usage : String)
      (h : s.revoked = false) :
      KeyLifts (.close s pending finishReason usage) s.context.task .running .ready

/-- The row that a creation inserts is bound to the provider that it resolved. -/
structure Creation.Inserts (c : Creation) (db db' : Db) (t : Task) : Prop where
  creates : db.Creates db' db.nextId t
  providerId : t.providerId = c.resolved.providerId
  providerKeyVersion : t.providerKeyVersion = c.resolved.keyVersion

/-- What a step does to the domain and to the stored keys. -/
inductive KeyMove (w w' : KeyWorld) (a : KeyAction) : Prop
  | moved (hf : w.world.db.Follows (KeyLifts a) w'.world.db) (hstored : w'.stored = w.stored)
  | inserted (c : Creation) (t : Task) (ha : a = .insert c) (hmem : c ∈ w.creations)
      (hi : c.Inserts w.world.db w'.world.db t) (hstored : w'.stored = w.stored)
  | provided (owner : UserId) (modelId : String) (isDefault : Bool) (key : ApiKey)
      (hdb : Tasking.createProvider w.world.db owner modelId isDefault = .ok w'.world.db)
      (hstored : w'.stored = ⟨w.world.db.nextId, 1, key⟩ :: w.stored)
  | committed (k : KeyChange) (tids : List TaskId) (row : UserProvider) (ha : a = .commitChange k)
      (hmem : k ∈ w.changes) (hrow : w.world.db.providers.get? k.provider = some row)
      (htids : k.tasks = some tids) (hdb : w'.world.db = k.apply tids w.world.db)
      (hstored : w'.stored = k.storedKeys ++ w.stored)

section Moves

variable {cfg : Settings} {nfc : String → String} {w w' : KeyWorld} {a : KeyAction} {db db' : Db}

theorem createResolvedTask_inserts {c : Creation} {reply : TaskReply}
    (h : createResolvedTask cfg db c = .ok (db', reply)) : ∃ t, c.Inserts db db' t := by
  unfold createResolvedTask at h
  obtain ⟨⟨⟩, -, h⟩ := bind_eq_ok.mp h
  obtain ⟨rev, -, h⟩ := bind_eq_ok.mp h
  obtain ⟨mcpServers, -, h⟩ := bind_eq_ok.mp h
  obtain ⟨charged, hcharged, h⟩ := bind_eq_ok.mp h
  obtain ⟨⟨⟩, -, h⟩ := bind_eq_ok.mp h
  have htasks := (Db.chargeCreationQuota_frame hcharged).1
  simp only at h
  split at h
  · cases h
  · next hnone =>
    obtain ⟨rfl, -⟩ := Prod.mk.inj (Except.ok.inj h)
    rw [htasks] at hnone
    refine ⟨Task.create c.owner c.revision c.resolved mcpServers db.now (db.nextId + 1) c.message,
      ⟨hnone, ?_, rfl, ?_⟩, rfl, rfl⟩
    · show charged.tasks.insert _ _ = _
      rw [htasks]
    · show charged.providers = db.providers
      exact chargeCreationQuota_providers hcharged

theorem settleJudged_follows {s : Settlement} {pending : Option String} {finishReason usage : String}
    (h : settleJudged db s pending finishReason usage = .ok db') :
    db.Follows (KeyLifts (.close s pending finishReason usage)) db' := by
  unfold settleJudged at h
  split at h
  · cases h
  · next t hvis =>
    obtain ⟨t', ht', h⟩ := bind_eq_ok.mp h
    cases h
    exact .trans (settleWith_follows (Db.visibleTask_eq_some.mp hvis).1 ht' fun hr =>
      .settle s pending finishReason usage hr) (.of_tasks rfl rfl)

theorem KeyWorld.commit_eq_ok {world : World} (h : w.commit world = .ok w') :
    w.world.db.spares w.locked world.db = true ∧ w' = { w with world := world } := by
  obtain ⟨hspares, h⟩ := ite_ok_else_error.mp h
  cases h
  exact ⟨hspares, rfl⟩

/-- Any other transaction, committed. -/
theorem KeyWorld.other_eq_ok {b : Action} (h : w.step cfg nfc (.other b) = .ok w') :
    b.isTakenApart = false ∧ Tasking.step cfg nfc w.world b = .ok w'.world ∧
      w'.stored = w.stored := by
  unfold KeyWorld.step at h
  obtain ⟨hapart, h⟩ := ite_error_eq_ok.mp h
  obtain ⟨world, hworld, h⟩ := bind_eq_ok.mp h
  obtain ⟨-, rfl⟩ := KeyWorld.commit_eq_ok h
  exact ⟨Bool.eq_false_iff.mpr hapart, hworld, rfl⟩

/-- What a committed key change has found and written. -/
theorem KeyWorld.commitChange_eq_ok {k : KeyChange} (h : w.step cfg nfc (.commitChange k) = .ok w') :
    ∃ tids row, k ∈ w.changes ∧ k.tasks = some tids ∧
      w.world.db.providers.get? k.provider = some row ∧ w'.world.db = k.apply tids w.world.db ∧
      w'.stored = k.storedKeys ++ w.stored := by
  simp only [KeyWorld.step] at h
  split at h
  · cases h
  · next tids htids =>
    obtain ⟨⟨hmem, hsome⟩, h⟩ := ite_ok_else_error.mp h
    obtain ⟨row, hrow⟩ := Option.isSome_iff_exists.mp hsome
    obtain ⟨-, rfl⟩ := KeyWorld.commit_eq_ok h
    exact ⟨tids, row, hmem, htids, hrow, rfl, rfl⟩

theorem KeyWorld.step_move (h : w.step cfg nfc a = .ok w') : KeyMove w w' a := by
  cases a with
  | other a =>
    obtain ⟨hapart, hworld, hstored⟩ := KeyWorld.other_eq_ok h
    rcases step_follows hworld with hf | ⟨r, rfl, hr⟩
    · exact .moved (hf.mono fun _ _ _ hl => .other hl) hstored
    · have hno : r.createsTask = false ∧ r.changesProviders = false := by
        cases r <;> first | exact ⟨rfl, rfl⟩ | cases hapart
      rcases hr with ⟨hr, -⟩ | ⟨hr, -⟩
      · rw [hno.1] at hr
        cases hr
      · rw [hno.2] at hr
        cases hr
  | createProvider owner modelId isDefault key =>
    obtain ⟨db, hdb, h⟩ := bind_eq_ok.mp h
    cases h
    exact .provided owner modelId isDefault key hdb rfl
  | readProvider owner provider newKey =>
    obtain ⟨row, -, h⟩ := bind_eq_ok.mp h
    cases h
    exact .moved (.of_tasks rfl rfl) rfl
  | lockTasks k =>
    obtain ⟨-, h⟩ := ite_ok_else_error.mp h
    cases h
    exact .moved (.of_tasks rfl rfl) rfl
  | commitChange k =>
    obtain ⟨tids, row, hmem, htids, hrow, hdb, hstored⟩ := KeyWorld.commitChange_eq_ok h
    exact .committed k tids row rfl hmem hrow htids hdb hstored
  | resolve owner revision provider message mcpRefs =>
    obtain ⟨resolved, -, h⟩ := bind_eq_ok.mp h
    cases h
    exact .moved (.of_tasks rfl rfl) rfl
  | insert c =>
    obtain ⟨hmem, h⟩ := ite_ok_else_error.mp h
    obtain ⟨⟨db, reply⟩, hdb, h⟩ := bind_eq_ok.mp h
    cases h
    obtain ⟨t, hi⟩ := createResolvedTask_inserts hdb
    exact .inserted c t rfl hmem hi rfl
  | judge c =>
    obtain ⟨-, h⟩ := ite_error_eq_ok.mp h
    obtain ⟨revoked, -, h⟩ := bind_eq_ok.mp h
    cases h
    exact .moved (.of_tasks rfl rfl) rfl
  | close s pending finishReason usage =>
    obtain ⟨-, h⟩ := ite_ok_else_error.mp h
    obtain ⟨db, hdb, h⟩ := bind_eq_ok.mp h
    obtain ⟨-, rfl⟩ := KeyWorld.commit_eq_ok h
    exact .moved (settleJudged_follows hdb) rfl
  | rollbackChange k =>
    cases h
    exact .moved (.of_tasks rfl rfl) rfl
  | rollbackCreation c =>
    cases h
    exact .moved (.of_tasks rfl rfl) rfl
  | rollbackSettlement s =>
    cases h
    exact .moved (.of_tasks rfl rfl) rfl

theorem KeyChange.apply_providers (k : KeyChange) (tids : List TaskId) (db : Db) (pid : ProviderId) :
    (k.apply tids db).providers.get? pid =
      (db.providers.get? pid).map fun row => if pid = k.provider then k.write row else row := by
  have h : ∀ db : Db, (tids.foldl (failUnstartedTask .providerKeyRevoked) db).providers = db.providers :=
    fun db => (Db.Follows.failUnstarted (E := NoLift) .providerKeyRevoked tids).providers
  rw [KeyChange.apply, h, Table.get?_map]

end Moves

/-! ## Without overlap -/

section Alone

variable {cfg : Settings} {nfc : String → String} {w : KeyWorld} {db : Db} {owner : UserId}
  {pid : ProviderId} {row : UserProvider}

/-- With the row as it was read, the final `UPDATE` writes what the atomic transaction writes. -/
theorem map_write_eq_set {k : KeyChange} (h : db.providers.get? k.provider = some k.row) :
    (db.providers.map fun pid row => if pid = k.provider then k.write row else row) =
      db.providers.set k.provider (k.write k.row) := by
  unfold Table.set Table.map
  congr 1
  refine List.map_congr_left fun r hr => ?_
  by_cases hp : r.1 = k.provider
  · have hrow := Table.get?_eq_some_iff.mpr hr
    rw [hp, h] at hrow
    simp [hp, Option.some.inj hrow]
  · simp [hp]

theorem getProviderRow_eq_ok (h : getProviderRow db owner pid = .ok row) :
    db.providers.get? pid = some row ∧ row.userId = owner ∧ row.status = .active := by
  unfold getProviderRow at h
  split at h
  · next row' hrow =>
    obtain ⟨⟨hown, hactive⟩, heq⟩ := ite_ok_else_error.mp h
    cases heq
    exact ⟨hrow, hown, hactive⟩
  · cases h

/-- A key change that nothing overlaps with is the transaction of the domain. -/
theorem run_keyChange (newKey : Option ApiKey) (hc : w.changes = []) (hs : w.settlements = [])
    (hrow : getProviderRow w.world.db owner pid = .ok row) :
    Except.ok ((keySystem cfg nfc).run w [.readProvider owner pid newKey,
        .lockTasks ⟨owner, pid, row, newKey, none⟩,
        .commitChange ⟨owner, pid, row, newKey, some (unstartedTasks w.world.db pid)⟩]).world.db =
      match newKey with
      | some _ => rotateProviderKey w.world.db owner pid
      | none => revokeProvider w.world.db owner pid := by
  have hset := map_write_eq_set (k := ⟨owner, pid, row, newKey, some (unstartedTasks w.world.db pid)⟩)
    (getProviderRow_eq_ok hrow).1
  have hrun : ((keySystem cfg nfc).run w [.readProvider owner pid newKey,
        .lockTasks ⟨owner, pid, row, newKey, none⟩,
        .commitChange ⟨owner, pid, row, newKey, some (unstartedTasks w.world.db pid)⟩]).world.db =
      KeyChange.apply ⟨owner, pid, row, newKey, some (unstartedTasks w.world.db pid)⟩
        (unstartedTasks w.world.db pid) w.world.db := by
    simp [System.run, System.next, keySystem, KeyWorld.step, hrow, hc, hs, KeyWorld.locked,
      KeyWorld.commit, Db.spares, bind, Except.bind, pure, Except.pure, (getProviderRow_eq_ok hrow).1]
  rw [hrun, KeyChange.apply]
  simp only [hset]
  cases newKey <;> simp [rotateProviderKey, revokeProvider, hrow, bind, Except.bind, pure,
    Except.pure, failUnstartedTasks, KeyChange.write, unstartedTasks]

/-- So is a creation. -/
theorem run_creation {revision : RevisionId} {provider : Option ProviderId} {message : String}
    {mcpRefs : List ServerId} {resolved : ResolvedProvider} {db' : Db} {reply : TaskReply}
    (hr : resolveTaskProvider w.world.db owner provider = .ok resolved)
    (h : createTask cfg w.world.db owner revision provider message mcpRefs = .ok (db', reply)) :
    ((keySystem cfg nfc).run w [.resolve owner revision provider message mcpRefs,
      .insert ⟨owner, revision, resolved, message, mcpRefs⟩]).world.db = db' := by
  rw [createTask_eq, hr] at h
  have h : createResolvedTask cfg w.world.db ⟨owner, revision, resolved, message, mcpRefs⟩ =
    .ok (db', reply) := h
  simp [System.run, System.next, keySystem, KeyWorld.step, hr, h, bind, Except.bind, pure,
    Except.pure]

/-- So is a settlement. -/
theorem run_settlement {c : RoundContext} {pending : Option String} {finishReason usage : String}
    {revoked : Bool} {db' : Db} (hc : w.changes = []) (hs : w.settlements = [])
    (hj : judgeRound w.world.db c = .ok revoked)
    (h : settle w.world.db c pending finishReason usage = .ok db') :
    ((keySystem cfg nfc).run w [.judge c, .close ⟨c, revoked⟩ pending finishReason usage]).world.db =
      db' := by
  have hclose : settleJudged w.world.db ⟨c, revoked⟩ pending finishReason usage = .ok db' := by
    unfold judgeRound at hj
    unfold settle at h
    unfold settleJudged
    split at hj
    · cases hj
    · next t hvis =>
      obtain ⟨-, hj⟩ := ite_ok_else_error.mp hj
      cases hj
      simp only [hvis] at h ⊢
      exact h
  simp [System.run, System.next, keySystem, KeyWorld.step, hc, hs, hj, hclose, KeyWorld.locked,
    KeyWorld.commit, Db.spares, bind, Except.bind, pure, Except.pure]

end Alone

end AgentCraft.Tasking
