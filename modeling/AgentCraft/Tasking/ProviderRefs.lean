import AgentCraft.Tasking.Terminators

/-!
# Tasks and the providers they refer to

`tasks.provider_id` is a foreign key with `ON DELETE RESTRICT`. A task is created with a provider of its
owner and keeps it, and no transaction of the task domain deletes a provider or gives it to another user.
-/

namespace AgentCraft.Tasking

open AgentCraft.Relational AgentCraft.Transition

/-- Every task refers to a provider of its owner. -/
def Db.ProvidersOwned (db : Db) : Prop :=
  ∀ tid t, db.tasks.get? tid = some t →
    ∃ p, db.providers.get? t.providerId = some p ∧ p.userId = t.ownerId

/-- Providers stay, and stay with their users. -/
def Db.ProvidersStay (db db' : Db) : Prop :=
  ∀ pid p, db.providers.get? pid = some p →
    ∃ p', db'.providers.get? pid = some p' ∧ p'.userId = p.userId

section Providers

variable {cfg : Settings} {nfc : String → String} {db db' : Db} {w w' : World} {a : Action}
  {tid : TaskId} {t t' : Task}

theorem Db.ProvidersStay.of_eq (h : db'.providers = db.providers) : db.ProvidersStay db' := by
  intro pid p hp
  exact ⟨p, by rw [h, hp], rfl⟩

/-- One provider is written, by a row of the same user. -/
theorem Db.ProvidersStay.of_set {pid : ProviderId} {row row' : UserProvider}
    (h : db'.providers = db.providers.set pid row') (hrow : db.providers.get? pid = some row)
    (huser : row'.userId = row.userId) : db.ProvidersStay db' := by
  intro pid' p hp
  rw [h, Table.get?_set]
  split
  · next heq =>
    subst heq
    rw [hrow] at hp
    cases hp
    exact ⟨row', by rw [hrow]; rfl, huser⟩
  · exact ⟨p, hp, rfl⟩

theorem providerRow_of_getProviderRow {owner : UserId} {pid : ProviderId} {row : UserProvider}
    (h : getProviderRow db owner pid = .ok row) :
    db.providers.get? pid = some row ∧ row.userId = owner := by
  unfold getProviderRow at h
  split at h
  · next row' hrow =>
    obtain ⟨hcond, h⟩ := ite_ok_else_error.mp h
    cases h
    exact ⟨hrow, hcond.1⟩
  · cases h

/-- A task is given a provider of its owner. -/
theorem provider_of_resolveTaskProvider {owner : UserId} {provider : Option ProviderId}
    {resolved : ResolvedProvider} (h : resolveTaskProvider db owner provider = .ok resolved) :
    ∃ p, db.providers.get? resolved.providerId = some p ∧ p.userId = owner := by
  cases provider with
  | some pid =>
    obtain ⟨row, hrow, h⟩ := bind_eq_ok.mp h
    cases h
    exact ⟨row, providerRow_of_getProviderRow hrow⟩
  | none =>
    simp only [resolveTaskProvider] at h
    split at h
    · next r hr =>
      cases h
      have hp := List.find?_some hr
      simp only [Bool.and_eq_true, decide_eq_true_eq] at hp
      exact ⟨r.2, Table.get?_eq_some_iff.mpr (List.mem_of_find?_eq_some hr), hp.1.1⟩
    · cases h

theorem createTask_provider {owner : UserId} {revision : RevisionId} {provider : Option ProviderId}
    {message : String} {mcpRefs : List ServerId} {reply : TaskReply}
    (h : createTask cfg db owner revision provider message mcpRefs = .ok (db', reply)) :
    db'.providers = db.providers ∧ ∃ tid t, db.tasks.get? tid = none ∧
      db'.tasks = db.tasks.insert tid t ∧ t.ownerId = owner ∧
      ∃ p, db.providers.get? t.providerId = some p ∧ p.userId = owner := by
  obtain ⟨tid, t, hcreates⟩ := createTask_creates h
  refine ⟨hcreates.providers, ?_⟩
  unfold createTask at h
  obtain ⟨resolved, hresolved, h⟩ := bind_eq_ok.mp h
  obtain ⟨⟨⟩, -, h⟩ := bind_eq_ok.mp h
  obtain ⟨rev, -, h⟩ := bind_eq_ok.mp h
  obtain ⟨mcpServers, -, h⟩ := bind_eq_ok.mp h
  obtain ⟨charged, hcharged, h⟩ := bind_eq_ok.mp h
  obtain ⟨⟨⟩, -, h⟩ := bind_eq_ok.mp h
  obtain ⟨htasks, -, -⟩ := Db.chargeCreationQuota_frame hcharged
  simp only at h
  split at h
  · cases h
  · next hnone =>
    obtain ⟨rfl, -⟩ := Prod.mk.inj (Except.ok.inj h)
    rw [htasks] at hnone
    refine ⟨db.nextId, Task.create owner revision resolved mcpServers db.now (db.nextId + 1) message,
      hnone, ?_, rfl, provider_of_resolveTaskProvider hresolved⟩
    change charged.tasks.insert _ _ = _
    rw [htasks]

/-! ## Steps -/

theorem failUnstartedTasks_providers (pid : ProviderId) :
    (failUnstartedTasks db pid).providers = db.providers := by
  have h : db.Follows NoLift (failUnstartedTasks db pid) := .failUnstarted _ _
  exact h.providers

/-- Requests about providers keep the others, and the users of all. -/
theorem Request.exec_providersStay {r : Request} (hr : r.changesProviders = true)
    (h : r.exec cfg nfc db = .ok db') : db.ProvidersStay db' := by
  cases r with
  | createProvider owner modelId isDefault =>
    change Tasking.createProvider db owner modelId isDefault = .ok db' at h
    unfold Tasking.createProvider at h
    simp only at h
    split at h
    · cases h
    · next hnone =>
      cases h
      intro pid p hp
      refine ⟨if p.userId = owner && isDefault then { p with isDefault := false } else p, ?_, ?_⟩
      · rw [Table.get?_insert hnone]
        split
        · next heq =>
          rw [Table.get?_map, ← heq, hp] at hnone
          cases hnone
        · rw [Table.get?_map, hp]
          rfl
      · split <;> rfl
  | rotateKey owner pid =>
    obtain ⟨row, hrow, h⟩ := bind_eq_ok.mp h
    cases h
    exact .of_set (failUnstartedTasks_providers pid) (providerRow_of_getProviderRow hrow).1 rfl
  | revokeProvider owner pid =>
    obtain ⟨row, hrow, h⟩ := bind_eq_ok.mp h
    cases h
    exact .of_set (failUnstartedTasks_providers pid) (providerRow_of_getProviderRow hrow).1 rfl
  | _ => cases hr

/-- No step of the task domain takes a provider away. -/
theorem step_providersStay (h : step cfg nfc w a = .ok w') : w.db.ProvidersStay w'.db := by
  rcases step_follows h with hf | ⟨r, rfl, ⟨-, tid, t, hcreates⟩ | ⟨hr, -⟩⟩
  · exact .of_eq hf.providers
  · exact .of_eq hcreates.providers
  · obtain ⟨db', hdb, h⟩ := bind_eq_ok.mp h
    cases h
    exact Request.exec_providersStay hr hdb

/-- A task keeps its owner and its provider, or has just been created with a provider of its owner. -/
theorem step_frozen_row (h : step cfg nfc w a = .ok w') (ht' : w'.db.tasks.get? tid = some t') :
    (∃ t, w.db.tasks.get? tid = some t ∧ t'.frozen = t.frozen) ∨
      ∃ revision provider message mcpRefs,
        a = .request (.createTask t'.ownerId revision provider message mcpRefs) ∧
        ∃ p, w.db.providers.get? t'.providerId = some p ∧ p.userId = t'.ownerId := by
  rcases step_follows h with hf | ⟨r, rfl, ⟨hr, -⟩ | ⟨-, hrows⟩⟩
  · obtain ⟨t, ht, hft⟩ := hf.rows tid t' ht'
    exact .inl ⟨t, ht, hft.frozen⟩
  · cases r with
    | createTask owner revision provider message mcpRefs =>
      obtain ⟨db', hdb, h⟩ := bind_eq_ok.mp h
      cases h
      obtain ⟨⟨db₁, reply⟩, hrun, rfl⟩ := map_eq_ok.mp hdb
      obtain ⟨-, tid₀, t₀, hnone, hwritten, howner, hp⟩ := createTask_provider hrun
      rw [hwritten, Table.get?_insert hnone] at ht'
      split at ht'
      · cases ht'
        subst howner
        exact .inr ⟨revision, provider, message, mcpRefs, rfl, hp⟩
      · exact .inl ⟨t', ht', rfl⟩
    | _ => cases hr
  · obtain ⟨t, ht, hft⟩ := hrows tid t' ht'
    exact .inl ⟨t, ht, hft.frozen⟩

/-- Rows that keep their owner and provider, over providers that stay. -/
theorem Db.ProvidersOwned.of_frozen (ho : db.ProvidersOwned) (hp : db.ProvidersStay db')
    (ht : db.tasks.get? tid = some t) (hf : t'.frozen = t.frozen) :
    ∃ p, db'.providers.get? t'.providerId = some p ∧ p.userId = t'.ownerId := by
  obtain ⟨p, hget, huser⟩ := ho tid t ht
  obtain ⟨p', hget', huser'⟩ := hp _ p hget
  have hpid : t'.providerId = t.providerId := congrArg Frozen.providerId hf
  have howner : t'.ownerId = t.ownerId := congrArg Frozen.ownerId hf
  rw [hpid, howner]
  exact ⟨p', hget', huser'.trans huser⟩

theorem Db.ProvidersOwned.step (ho : w.db.ProvidersOwned) (h : Tasking.step cfg nfc w a = .ok w') :
    w'.db.ProvidersOwned := by
  have hstay := step_providersStay h
  intro tid t' ht'
  rcases step_frozen_row h ht' with ⟨t, ht, hf⟩ | ⟨_, _, _, _, -, p, hp, huser⟩
  · exact ho.of_frozen hstay ht hf
  · obtain ⟨p', hp', huser'⟩ := hstay _ p hp
    exact ⟨p', hp', huser'.trans huser⟩

end Providers

end AgentCraft.Tasking
