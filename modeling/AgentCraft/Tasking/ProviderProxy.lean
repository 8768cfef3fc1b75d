import AgentCraft.Tasking.LiveRounds
import AgentCraft.Tasking.ProviderRefs

/-!
# The provider proxy

A sandbox reaches its model through `provider_proxy.py` with the token of its round. The proxy asks
`/internal/provider-grant` for the key, which checks the lease (`_assert_round_live`) and the provider,
and keeps the answer in `grant_cache` under the identifier of the round. Nothing removes an entry but the
end of the process, and a request that finds one is forwarded without another check.
-/

namespace AgentCraft.Tasking

open AgentCraft.Relational AgentCraft.Transition

/-- The claims of a V2 task token: the lease that it was signed for, and `exp`. -/
structure Claims extends RoundContext where
  expiry : Time
deriving DecidableEq, Repr

/-- `{model, provider: {api_key, base_target}}`; the key is named by the row that seals it and its
version. -/
structure Grant where
  model : String
  provider : ProviderId
  keyVersion : ℕ
deriving DecidableEq, Repr

/-- How far `_fetch_grant` has come. -/
inductive FetchPhase
  /-- The token has been posted. -/
  | posted
  /-- `_assert_round_live` has passed. -/
  | fenced
  /-- The rows of the task and its provider have been read; audit, decryption and answer follow. -/
  | granted (grant : Grant)
deriving DecidableEq, Repr

/-- A request that waits for its grant. `overtaken` is not in the source: a transaction has ended the
round or revoked the provider after they were checked. -/
structure Fetch where
  claims : Claims
  model : String
  phase : FetchPhase
  overtaken : Bool
deriving DecidableEq, Repr

/-- An entry of `grant_cache`. Only `grant` is in the source; `claims` are those of the token that was
exchanged, and `overtaken` is as for `Fetch`. -/
structure CachedGrant where
  grant : Grant
  claims : Claims
  overtaken : Bool
deriving DecidableEq, Repr

/-- The task domain and the proxy process beside it. -/
structure ProxyWorld where
  base : World
  cache : Table RoundId CachedGrant
  fetches : List Fetch

/-- The labels of the system. `reachable` tells whether `assert_public_https` lets the target pass and
the upstream can be connected to. -/
inductive ProxyAction
  | base (a : Action)
  /-- `chat_completions` with a token of these claims. -/
  | receive (c : Claims) (model : String) (reachable : Bool)
  | fence (f : Fetch)
  | readRows (f : Fetch)
  /-- The answer arrives: it is cached and the request forwarded. -/
  | deliver (f : Fetch) (reachable : Bool)
  /-- Any failure of the exchange: the sandbox gets a 502. -/
  | fail (f : Fetch)
  | restart

/-- `decode_v2_task_token` lets the token pass: it has not expired. -/
def Claims.decodes (c : Claims) (now : Time) : Bool := now ≤ c.expiry

/-- The check of the model, and the connection. -/
def Grant.serves (g : Grant) (model : String) (reachable : Bool) : Bool := model = g.model && reachable

/-- `status = 'active'`. -/
def Db.providerActive (db : Db) (pid : ProviderId) : Bool :=
  (db.providers.get? pid).any (·.status = .active)

/-- The rows that `provider_grant` reads after the fence. The session sees the rows of the owner. -/
def readGrant (db : Db) (c : Claims) : Option Grant :=
  match db.visibleTask c.owner c.task with
  | none => none
  | some t =>
    match db.providers.get? t.providerId with
    | none => none
    | some p =>
      if p.userId = c.owner ∧ p.status = .active then
        some ⟨t.providerModelId, t.providerId, p.keyVersion⟩
      else none

/-- The transactions that revoke the provider. -/
def Action.revokes (pid : ProviderId) : Action → Bool
  | .request (.revokeProvider _ p) => p = pid
  | _ => false

/-- The action undoes what has been checked so far. -/
def Fetch.isOvertakenBy (f : Fetch) (a : Action) : Bool :=
  match f.phase with
  | .posted => false
  | .fenced => a.endsRound f.claims.toRoundContext
  | .granted g => a.endsRound f.claims.toRoundContext || a.revokes g.provider

def Fetch.after (a : Action) (f : Fetch) : Fetch :=
  { f with overtaken := f.overtaken || f.isOvertakenBy a }

def CachedGrant.after (a : Action) (x : CachedGrant) : CachedGrant :=
  { x with overtaken := x.overtaken || a.endsRound x.claims.toRoundContext || a.revokes x.grant.provider }

/-- `_error(401, "invalid task token")`. -/
def invalidTaskToken : Failure := .http 401 "" "invalid task token"

/-- `TaskTokenUnauthorized` of the internal endpoint. -/
def taskTokenUnauthorized : Failure := .http 401 "" "任务令牌无效"

variable (cfg : Settings) (nfc : String → String)

/-- The step function. -/
def ProxyWorld.step (w : ProxyWorld) : ProxyAction → Except Failure ProxyWorld
  | .base a => do
    let base ← Tasking.step cfg nfc w.base a
    return ⟨base, w.cache.map fun _ x => x.after a, w.fetches.map (·.after a)⟩
  | .receive c model _ =>
    if c.decodes w.base.db.now then
      match w.cache.get? c.round with
      | some _ => .ok w
      | none => .ok { w with fetches := ⟨c, model, .posted, false⟩ :: w.fetches }
    else .error invalidTaskToken
  | .fence f =>
    if f ∈ w.fetches ∧ f.phase = .posted then
      if f.claims.decodes w.base.db.now ∧ assertRoundLive w.base.db f.claims.toRoundContext then
        .ok { w with fetches := { f with phase := .fenced } :: w.fetches.erase f }
      else .error taskTokenUnauthorized
    else .error .notEnabled
  | .readRows f =>
    if f ∈ w.fetches ∧ f.phase = .fenced then
      match readGrant w.base.db f.claims with
      | some g => .ok { w with fetches := { f with phase := .granted g } :: w.fetches.erase f }
      | none => .error taskTokenUnauthorized
    else .error .notEnabled
  | .deliver f _ =>
    if f ∈ w.fetches then
      match f.phase with
      | .granted g =>
        let x : CachedGrant := ⟨g, f.claims, f.overtaken⟩
        .ok { w with
          cache := (w.cache.insert f.claims.round x).set f.claims.round x
          fetches := w.fetches.erase f }
      | _ => .error .notEnabled
    else .error .notEnabled
  | .fail f => .ok { w with fetches := w.fetches.erase f }
  | .restart => .ok { w with cache := .empty, fetches := [] }

/-- The task domain with the proxy. -/
def proxySystem : System ProxyWorld ProxyAction Failure := ⟨ProxyWorld.step cfg nfc⟩

/-- The request that the action sends upstream, with the grant whose key it carries. -/
def ProxyWorld.forwards (w : ProxyWorld) : ProxyAction → Option (Claims × Grant)
  | .receive c model reachable =>
    if c.decodes w.base.db.now then
      match w.cache.get? c.round with
      | some x => if x.grant.serves model reachable then some (c, x.grant) else none
      | none => none
    else none
  | .deliver f reachable =>
    if f ∈ w.fetches then
      match f.phase with
      | .granted g => if g.serves f.model reachable then some (f.claims, g) else none
      | _ => none
    else none
  | _ => none

/-- The round of the token runs at its epoch, and the key is that of its task's provider, which is
active. -/
structure Authorised (db : Db) (c : RoundContext) (g : Grant) : Prop where
  live : assertRoundLive db c = true
  provider : ∀ t, db.visibleTask c.owner c.task = some t → t.providerId = g.provider
  active : db.providerActive g.provider = true

/-- What the action forwards is authorised at that time. -/
def ForwardsAuthorised (w : ProxyWorld) (a : ProxyAction) : Prop :=
  ∀ c g, w.forwards a = some (c, g) → Authorised w.base.db c.toRoundContext g

/-- A request that is served from the cache finds a grant that was issued under its own lease, and no
grant is used after a transaction has overtaken it. -/
def UsesCurrentGrants (w : ProxyWorld) : ProxyAction → Prop
  | .receive c model reachable => c.decodes w.base.db.now = true →
      ∀ x ∈ w.cache.get? c.round, x.grant.serves model reachable = true →
        x.claims.toRoundContext = c.toRoundContext ∧ x.overtaken = false
  | .deliver f _ => f ∈ w.fetches → f.overtaken = false
  | _ => True

instance (w : ProxyWorld) (a : ProxyAction) : Decidable (UsesCurrentGrants w a) := by
  unfold UsesCurrentGrants
  split <;> infer_instance

/-- A fresh installation, and a proxy that has just been started. -/
structure ProxyWorld.Initial (w : ProxyWorld) : Prop where
  base : w.base.Initial
  cache : w.cache = .empty
  fetches : w.fetches = []

/-! ## What is checked stays true until it is overtaken -/

section Checked

variable {cfg : Settings} {nfc : String → String} {base base' : World} {a : Action}
  {c : RoundContext} {g : Grant} {pid : ProviderId}

theorem Request.exec_providerActive {db db' : Db} {r : Request} (hr : r.changesProviders = true)
    (hrev : (Action.request r).revokes pid = false) (h : r.exec cfg nfc db = .ok db')
    (hp : db.providerActive pid = true) : db'.providerActive pid = true := by
  obtain ⟨p, hget, hactive⟩ := (Option.any_eq_true _ _).mp hp
  -- one row is written, and it is active or another one
  have hwritten {pid' : ProviderId} {row row' : UserProvider}
      (hdb : db'.providers = db.providers.set pid' row')
      (hrow : db.providers.get? pid' = some row)
      (hst : pid' = pid → row'.status = row.status) : db'.providerActive pid = true := by
    rw [Db.providerActive, hdb, Table.get?_set]
    split
    · next heq =>
      subst heq
      rw [hget] at hrow
      cases hrow
      rw [hget]
      simpa [hst rfl] using hactive
    · exact hp
  cases r with
  | createProvider owner modelId isDefault =>
    change Tasking.createProvider db owner modelId isDefault = .ok db' at h
    unfold Tasking.createProvider at h
    simp only at h
    split at h
    · cases h
    · next hnone =>
      cases h
      rw [Db.providerActive, Table.get?_insert hnone]
      split
      · rfl
      · rw [Table.get?_map, hget]
        simp only [Option.map_some, Option.any_some]
        split
        · exact hactive
        · exact hactive
  | rotateKey owner pid' =>
    obtain ⟨row, hrow, h⟩ := bind_eq_ok.mp h
    cases h
    exact hwritten (failUnstartedTasks_providers pid') (providerRow_of_getProviderRow hrow).1
      fun _ => rfl
  | revokeProvider owner pid' =>
    obtain ⟨row, hrow, h⟩ := bind_eq_ok.mp h
    cases h
    exact hwritten (failUnstartedTasks_providers pid') (providerRow_of_getProviderRow hrow).1
      fun heq => absurd heq (of_decide_eq_false hrev)
  | _ => cases hr

/-- Only its revocation deactivates a provider. -/
theorem step_providerActive (hrev : a.revokes pid = false)
    (h : Tasking.step cfg nfc base a = .ok base') (hp : base.db.providerActive pid = true) :
    base'.db.providerActive pid = true := by
  have hsame (heq : base'.db.providers = base.db.providers) : base'.db.providerActive pid = true := by
    rw [Db.providerActive, heq]
    exact hp
  rcases step_follows h with hf | ⟨r, rfl, ⟨-, tid, t, hcreates⟩ | ⟨hr, -⟩⟩
  · exact hsame hf.providers
  · exact hsame hcreates.providers
  · obtain ⟨db', hdb, h⟩ := bind_eq_ok.mp h
    cases h
    exact Request.exec_providerActive hr hrev hdb hp

/-- A task that is there keeps what `create_task` wrote. -/
theorem step_frozen {tid : TaskId} {t t' : Task} (h : Tasking.step cfg nfc base a = .ok base')
    (ht : base.db.tasks.get? tid = some t) (ht' : base'.db.tasks.get? tid = some t') :
    t'.frozen = t.frozen := by
  have hrows (hf : base.db.RowsFollow (Lifts a) base'.db) : t'.frozen = t.frozen := by
    obtain ⟨x, hx, hxt⟩ := hf tid t' ht'
    rw [ht] at hx
    cases hx
    exact hxt.frozen
  rcases step_follows h with hf | ⟨r, rfl, ⟨-, tid₀, t₀, hcreates⟩ | ⟨-, hf⟩⟩
  · exact hrows hf.rows
  · rcases hcreates.row ht' with hold | ⟨rfl, -⟩
    · rw [ht] at hold
      cases hold
      rfl
    · rw [hcreates.fresh] at ht
      cases ht
  · exact hrows hf

theorem Authorised.step (hco : base.Coherent) (hends : a.endsRound c = false)
    (hrev : a.revokes g.provider = false) (h : Tasking.step cfg nfc base a = .ok base')
    (ha : Authorised base.db c g) : Authorised base'.db c g := by
  refine ⟨step_live hco hends h ha.live, fun t' hvis => ?_, step_providerActive hrev h ha.active⟩
  obtain ⟨t, hbefore, -⟩ := assertRoundLive_iff.mp ha.live
  have hfrozen := step_frozen h (Db.visibleTask_eq_some.mp hbefore).1 (Db.visibleTask_eq_some.mp hvis).1
  have hpid : t'.providerId = t.providerId := congrArg Frozen.providerId hfrozen
  exact hpid.trans (ha.provider t hbefore)

end Checked

/-! ## Runs -/

section Runs

variable {cfg : Settings} {nfc : String → String} {w w' w₀ : ProxyWorld} {a : ProxyAction}
  {as : List ProxyAction}

/-- What has been checked for a request and has not been overtaken. -/
def Fetch.Stands (db : Db) (f : Fetch) : Prop :=
  f.overtaken = false →
    match f.phase with
    | .posted => True
    | .fenced => assertRoundLive db f.claims.toRoundContext = true
    | .granted g => Authorised db f.claims.toRoundContext g

/-- The grants that have not been overtaken stand. -/
structure ProxyWorld.Sound (w : ProxyWorld) : Prop where
  base : w.base.Coherent
  cache : ∀ rid x, w.cache.get? rid = some x → x.overtaken = false →
    Authorised w.base.db x.claims.toRoundContext x.grant
  fetches : ∀ f ∈ w.fetches, f.Stands w.base.db

theorem ProxyWorld.Initial.sound (h₀ : w.Initial) : w.Sound := by
  refine ⟨h₀.base.coherent, fun rid x hx => ?_, fun f hf => ?_⟩
  · rw [h₀.cache] at hx
    cases hx
  · rw [h₀.fetches] at hf
    cases hf

theorem readGrant_authorised {db : Db} {c : Claims} {g : Grant} (h : readGrant db c = some g)
    (hl : assertRoundLive db c.toRoundContext = true) : Authorised db c.toRoundContext g := by
  unfold readGrant at h
  split at h
  · cases h
  · next t hvis =>
    split at h
    · cases h
    · next p hp =>
      split at h
      · next hp' =>
        cases h
        refine ⟨hl, fun t' hvis' => ?_, ?_⟩
        · rw [hvis] at hvis'
          cases hvis'
          rfl
        · rw [Db.providerActive, hp]
          exact decide_eq_true hp'.2
      · cases h

/-- A transaction of the domain that does not overtake a request leaves what was checked for it. -/
theorem Fetch.Stands.after {base base' : World} {b : Action} {f : Fetch} (hco : base.Coherent)
    (h : Tasking.step cfg nfc base b = .ok base') (hf : f.Stands base.db) :
    (f.after b).Stands base'.db := by
  intro hover
  obtain ⟨hbefore, hthis⟩ := Bool.or_eq_false_iff.mp hover
  have hstands := hf hbefore
  unfold Fetch.isOvertakenBy at hthis
  cases hphase : f.phase with
  | posted =>
    simp only [Fetch.after, hphase]
  | fenced =>
    simp only [hphase] at hstands hthis
    simp only [Fetch.after, hphase]
    exact step_live hco hthis h hstands
  | granted g =>
    simp only [hphase] at hstands hthis
    simp only [Fetch.after, hphase]
    obtain ⟨hends, hrev⟩ := Bool.or_eq_false_iff.mp hthis
    exact hstands.step hco hends hrev h

theorem ProxyWorld.Sound.step (hw : w.Sound) (h : w.step cfg nfc a = .ok w') : w'.Sound := by
  have herase {f : Fetch} {fs : List Fetch} (hfs : ∀ f ∈ fs, f.Stands w.base.db) :
      ∀ f' ∈ fs.erase f, f'.Stands w.base.db := fun f' hf' => hfs f' (List.mem_of_mem_erase hf')
  cases a with
  | base b =>
    obtain ⟨base', hbase, h⟩ := bind_eq_ok.mp h
    cases h
    refine ⟨hw.base.step hbase, fun rid x' hx' hover => ?_, fun f' hf' => ?_⟩
    · rw [Table.get?_map] at hx'
      obtain ⟨x, hx, rfl⟩ := Option.map_eq_some_iff.mp hx'
      obtain ⟨hover, hrev⟩ := Bool.or_eq_false_iff.mp hover
      obtain ⟨hbefore, hends⟩ := Bool.or_eq_false_iff.mp hover
      exact (hw.cache rid x hx hbefore).step hw.base hends hrev hbase
    · obtain ⟨f, hf, rfl⟩ := List.mem_map.mp hf'
      exact (hw.fetches f hf).after hw.base hbase
  | receive c model reachable =>
    obtain ⟨-, h⟩ := ite_ok_else_error.mp h
    cases hget : w.cache.get? c.round with
    | some x =>
      simp only [hget] at h
      cases h
      exact hw
    | none =>
      simp only [hget] at h
      cases h
      refine ⟨hw.base, hw.cache, List.forall_mem_cons.mpr ⟨fun _ => trivial, hw.fetches⟩⟩
  | fence f =>
    obtain ⟨-, h⟩ := ite_ok_else_error.mp h
    obtain ⟨⟨-, hlive⟩, h⟩ := ite_ok_else_error.mp h
    cases h
    exact ⟨hw.base, hw.cache, List.forall_mem_cons.mpr ⟨fun _ => hlive, herase hw.fetches⟩⟩
  | readRows f =>
    obtain ⟨⟨hf, hphase⟩, h⟩ := ite_ok_else_error.mp h
    cases hread : readGrant w.base.db f.claims with
    | none =>
      simp only [hread] at h
      cases h
    | some g =>
      simp only [hread] at h
      cases h
      refine ⟨hw.base, hw.cache, List.forall_mem_cons.mpr ⟨fun hover => ?_, herase hw.fetches⟩⟩
      have hlive := hw.fetches f hf hover
      simp only [hphase] at hlive
      exact readGrant_authorised hread hlive
  | deliver f reachable =>
    obtain ⟨hf, h⟩ := ite_ok_else_error.mp h
    cases hphase : f.phase with
    | granted g =>
      simp only [hphase] at h
      cases h
      refine ⟨hw.base, fun rid x hx hover => ?_, herase hw.fetches⟩
      rw [Table.get?_set_insert] at hx
      split at hx
      · cases hx
        have hstands := hw.fetches f hf hover
        simp only [hphase] at hstands
        exact hstands
      · exact hw.cache rid x hx hover
    | _ =>
      simp only [hphase] at h
      cases h
  | fail f =>
    cases h
    exact ⟨hw.base, hw.cache, herase hw.fetches⟩
  | restart =>
    cases h
    refine ⟨hw.base, fun rid x hx => ?_, fun f hf => ?_⟩
    · cases hx
    · cases hf

/-- A sound world forwards as it should when it uses current grants. -/
theorem ProxyWorld.Sound.forwardsAuthorised (hw : w.Sound) (hG : UsesCurrentGrants w a) :
    ForwardsAuthorised w a := by
  intro c g hforward
  cases a with
  | receive c' model reachable =>
    simp only [ProxyWorld.forwards] at hforward
    split at hforward
    · next hdec =>
      cases hget : w.cache.get? c'.round with
      | none => simp [hget] at hforward
      | some x =>
        simp only [hget] at hforward
        split at hforward
        · next hserves =>
          cases hforward
          obtain ⟨hlease, hover⟩ := hG hdec x hget hserves
          rw [← hlease]
          exact hw.cache c.round x hget hover
        · cases hforward
    · cases hforward
  | deliver f reachable =>
    simp only [ProxyWorld.forwards] at hforward
    split at hforward
    · next hf =>
      cases hphase : f.phase with
      | granted g' =>
        simp only [hphase] at hforward
        split at hforward
        · cases hforward
          have hstands := hw.fetches f hf (hG hf)
          simp only [hphase] at hstands
          exact hstands
        · cases hforward
      | _ => simp [hphase] at hforward
    · cases hforward
  | _ => cases hforward

/-- As long as no request is served under a grant that was issued for another lease or that a
transaction has overtaken, whatever is forwarded is authorised at that time. -/
theorem forwardsAuthorised_of_run (h₀ : w₀.Initial)
    (hG : (proxySystem cfg nfc).Guarded UsesCurrentGrants w₀ as) :
    (proxySystem cfg nfc).Guarded ForwardsAuthorised w₀ as :=
  System.Guarded.of_invariant (I := ProxyWorld.Sound) (fun _ _ _ hw _ h => hw.step h)
    (fun _ _ hw hg => hw.forwardsAuthorised hg) h₀.sound hG

/-- The proxy beside the small installation. -/
def ProxyWorld.small : ProxyWorld := ⟨.small, .empty, []⟩

theorem ProxyWorld.small_initial : ProxyWorld.small.Initial := ⟨World.small_initial, rfl, rfl⟩

/-- The token of the round that `claimedRun` claims. -/
def claimedToken : Claims := ⟨⟨12, 10, 1, 7, 1⟩, 86400⟩

/-- Its first request is forwarded after an exchange, the second one from the cache. -/
def exchangedRun : List ProxyAction :=
  claimedRun.map .base ++ [.receive claimedToken "model" true,
    .fence ⟨claimedToken, "model", .posted, false⟩,
    .readRows ⟨claimedToken, "model", .fenced, false⟩,
    .deliver ⟨claimedToken, "model", .granted ⟨"model", 3, 1⟩, false⟩ true,
    .receive claimedToken "model" true]

theorem forwardsAuthorised_of_run_exchanged :
    ((proxySystem {} id).run .small exchangedRun).forwards (.receive claimedToken "model" true) =
        some (claimedToken, ⟨"model", 3, 1⟩) ∧
      (proxySystem {} id).Guarded ForwardsAuthorised .small exchangedRun :=
  ⟨by decide +kernel, forwardsAuthorised_of_run ProxyWorld.small_initial (by decide +kernel)⟩

/-- The round settles, and the sandbox sends another request with its token. -/
def settledRun : List ProxyAction :=
  exchangedRun ++ [.base (.write (.settle ⟨12, 10, 1, 7, 1⟩ none "stop" "")),
    .receive claimedToken "model" true]

/-- The request is forwarded under the cached grant. -/
theorem not_forwardsAuthorised_of_settled :
    ¬ (proxySystem {} id).Guarded ForwardsAuthorised .small settledRun := by
  intro h
  obtain ⟨-, hlast, -⟩ := (System.Guarded.append.mp h).2
  have hlive := (hlast claimedToken ⟨"model", 3, 1⟩ (by decide +kernel)).live
  exact absurd hlive (by decide +kernel)

end Runs

end AgentCraft.Tasking
