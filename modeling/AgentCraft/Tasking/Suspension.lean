import AgentCraft.Access.Login
import AgentCraft.Tasking.Terminators

/-!
# Suspending a user

`suspend_user_atomic` sets the status in one transaction. After its commit `run_suspension_cascade`
revokes the sessions, scans the queued and running tasks of the user once and aborts them one by one, each
in a transaction of its own. Requests pass the status gate of `get_v2_auth` when they arrive, and their
transactions do not read the status again; neither does the dispatcher.
-/

namespace AgentCraft.Tasking

open AgentCraft.Relational AgentCraft.Transition
open AgentCraft.Access (UserStatus SessionId)

/-- What `run_suspension_cascade` does next. -/
inductive CascadePhase
  | revokeAll
  | scan
  /-- Visit the candidates that the scan has returned. -/
  | visit (tasks : List TaskCandidate)
deriving DecidableEq, Repr

/-- `run_suspension_cascade` in progress. -/
structure Cascade where
  user : UserId
  phase : CascadePhase
  /-- The user has not been restored since. -/
  current : Bool
deriving DecidableEq, Repr

/-- `sessions`, as far as the task domain depends on it. -/
structure UserSession where
  userId : UserId
  revoked : Bool
deriving DecidableEq, Repr

/-- The domain with the accounts of its users, and what is in flight between them. -/
structure UserWorld where
  world : World
  users : Table UserId UserStatus
  sessions : Table SessionId UserSession
  /-- The requests that have passed `get_v2_auth` and whose transactions are still to come. -/
  requests : List Request
  cascades : List Cascade
  /-- The suspended users whose cascade has completed. -/
  cascaded : List UserId

/-- The labels of the system. -/
inductive UserAction
  /-- Any other transaction of the domain. -/
  | other (a : Action)
  /-- A transaction that sets the status of a user, subject to the status that it finds. -/
  | setStatus (user : UserId) (status : UserStatus)
  | startSession (id : SessionId) (user : UserId)
  | revokeSession (id : SessionId)
  | authenticate (id : SessionId) (r : Request)
  /-- The transaction of an authenticated request. -/
  | commit (r : Request)
  /-- The request fails, or its client goes away. -/
  | drop (r : Request)
  /-- The next transaction of a cascade; without one left, it completes. -/
  | advance (k : Cascade)
  /-- An exception ends the cascade; the shell logs it. -/
  | fail (k : Cascade)

/-- The status changes: the activation of an account, the deletion with its cancellation and its sweep,
the suspension and its end. -/
def nextStatuses : UserStatus → List UserStatus
  | .pending => [.active]
  | .active => [.deleting, .suspended]
  | .deleting => [.active, .deleted, .suspended]
  | .suspended => [.active]
  | .deleted => []

/-- The status gate of `get_v2_auth` and of the login. -/
def passesGate (status : UserStatus) : Bool := status = .pending || status = .active

/-- `_suspend_one_task`. -/
def suspendOneTask (db : Db) (c : TaskCandidate) : Db := terminateOne .adminSuspended db c

/-- The transactions that have labels of their own. -/
def Action.isUserAction : Action → Bool
  | .request _ | .scan (.suspend _) | .perform (.terminate .adminSuspended _) _ => true
  | _ => false

/-- What follows the commit of a status: a suspension starts its cascade, and the end of one outdates
what the cascades of the user have done. -/
def UserWorld.afterStatus (w : UserWorld) (u : UserId) : UserStatus → UserWorld
  | .suspended => { w with cascades := ⟨u, .revokeAll, true⟩ :: w.cascades }
  | _ => { w with
      cascades := w.cascades.map fun k => { k with current := k.current && k.user ≠ u }
      cascaded := w.cascaded.filter (· ≠ u) }

/-- A step of `run_suspension_cascade`. -/
def UserWorld.advance (w : UserWorld) (k : Cascade) : UserWorld :=
  let others := w.cascades.erase k
  match k.phase with
  | .revokeAll => { w with
      sessions := w.sessions.map fun _ s => if s.userId = k.user then { s with revoked := true } else s
      cascades := { k with phase := .scan } :: others }
  | .scan => { w with
      cascades := { k with phase := .visit (suspendCandidates w.world.db k.user) } :: others }
  | .visit (c :: cs) => { w with
      world := { w.world with db := suspendOneTask w.world.db c }
      cascades := { k with phase := .visit cs } :: others }
  | .visit [] => { w with
      cascades := others
      cascaded := if k.current then k.user :: w.cascaded else w.cascaded }

variable (cfg : Settings) (nfc : String → String)

/-- The step function. -/
def UserWorld.step (w : UserWorld) : UserAction → Except Failure UserWorld
  | .other a =>
    if a.isUserAction then .error .notEnabled
    else do
      let world ← Tasking.step cfg nfc w.world a
      return { w with world := world }
  | .setStatus u status =>
    if (w.users.get? u).any (status ∈ nextStatuses ·) then
      .ok ({ w with users := w.users.set u status }.afterStatus u status)
    else .error .notEnabled
  | .startSession id u =>
    if (w.users.get? u).any passesGate then
      .ok { w with sessions := w.sessions.insert id ⟨u, false⟩ }
    else .error .notEnabled
  | .revokeSession id => .ok { w with
      sessions := w.sessions.map fun id' s => if id' = id then { s with revoked := true } else s }
  | .authenticate id r =>
    if (w.sessions.get? id).any (fun s => !s.revoked && s.userId = r.owner) ∧
        (w.users.get? r.owner).any passesGate then
      .ok { w with requests := r :: w.requests }
    else .error .notEnabled
  | .commit r =>
    if r ∈ w.requests then do
      let world ← Tasking.step cfg nfc w.world (.request r)
      return { w with world := world, requests := w.requests.erase r }
    else .error .notEnabled
  | .drop r => .ok { w with requests := w.requests.erase r }
  | .advance k => if k ∈ w.cascades then .ok (w.advance k) else .error .notEnabled
  | .fail k => .ok { w with cascades := w.cascades.erase k }

/-- The domain with suspensions. -/
def userSystem : System UserWorld UserAction Failure := ⟨UserWorld.step cfg nfc⟩

/-- No suspension has been cascaded yet. -/
structure UserWorld.Initial (w : UserWorld) : Prop where
  cascades : w.cascades = []
  cascaded : w.cascaded = []

/-- The suspension is effective: once the cascade has completed and until the user is restored, the user
has no queued or running task. -/
def UserWorld.Effective (w : UserWorld) : Prop :=
  ∀ u ∈ w.cascaded, w.users.get? u = some .suspended ∧
    ∀ tid t, w.world.db.tasks.get? tid = some t → t.ownerId = u → t.status.isTerminable = false

/-- The condition: no request queues a task of a suspended user after the scan of the cascade, except
for one that the cascade is still going to visit. -/
def InTime (w : UserWorld) : UserAction → Prop
  | .commit r => r ∈ w.requests → ∀ tid ∈ r.queues w.world.db,
    r.owner ∉ w.cascaded ∧ ∀ k ∈ w.cascades, k.current = true → k.user = r.owner →
      ∀ cs, k.phase = .visit cs → ⟨tid, r.owner⟩ ∈ cs
  | _ => True

section Suspension

variable {cfg : Settings} {nfc : String → String} {w w' w₀ : UserWorld} {a : UserAction}
  {as : List UserAction} {k : Cascade} {db db' : Db} {tid : TaskId} {t t' : Task}

/-! ## Steps -/

/-- What the cascades have left to do: the candidates that a scanned cascade still has to visit contain
every queued or running task of its user, and a completed cascade has left none. -/
structure UserWorld.Swept (w : UserWorld) : Prop where
  suspended : ∀ k ∈ w.cascades, k.current = true → w.users.get? k.user = some .suspended
  remaining : ∀ k ∈ w.cascades, k.current = true → ∀ cs, k.phase = .visit cs →
    ∀ tid t, w.world.db.tasks.get? tid = some t → t.ownerId = k.user →
      t.status.isTerminable = true → ⟨tid, k.user⟩ ∈ cs
  effective : w.Effective

/-- A step that leaves accounts and cascades alone, and queues at most what is still to be visited. -/
theorem UserWorld.Swept.of_terminable (hw : w.Swept) (husers : w'.users = w.users)
    (hcascades : w'.cascades = w.cascades) (hcascaded : w'.cascaded = w.cascaded)
    (hrows : ∀ tid t', w'.world.db.tasks.get? tid = some t' → t'.status.isTerminable = true →
      (∃ t, w.world.db.tasks.get? tid = some t ∧ t.ownerId = t'.ownerId ∧
        t.status.isTerminable = true) ∨
      t'.ownerId ∉ w.cascaded ∧ ∀ k ∈ w.cascades, k.current = true → k.user = t'.ownerId →
        ∀ cs, k.phase = .visit cs → ⟨tid, t'.ownerId⟩ ∈ cs) : w'.Swept where
  suspended := by
    rw [husers, hcascades]
    exact hw.suspended
  remaining := by
    rw [hcascades]
    intro k hk hcur cs hcs tid t' ht' howner hst'
    rcases hrows tid t' ht' hst' with ⟨t, ht, hto, hst⟩ | ⟨-, hnew⟩
    · exact hw.remaining k hk hcur cs hcs tid t ht (hto.trans howner) hst
    · rw [← howner]
      exact hnew k hk hcur howner.symm cs hcs
  effective := by
    unfold UserWorld.Effective
    rw [hcascaded, husers]
    intro u hu
    refine ⟨(hw.effective u hu).1, fun tid t' ht' howner => ?_⟩
    by_contra hst'
    rcases hrows tid t' ht' (Bool.eq_true_of_not_eq_false hst') with ⟨t, ht, hto, hst⟩ | ⟨hno, -⟩
    · rw [(hw.effective u hu).2 tid t ht (hto.trans howner)] at hst
      cases hst
    · exact hno (howner ▸ hu)

/-- Nothing of the domain or of the accounts changes, and the cascades are among those before. -/
theorem UserWorld.Swept.of_subset (hw : w.Swept) (hworld : w'.world.db = w.world.db)
    (husers : w'.users = w.users) (hcascades : ∀ k ∈ w'.cascades, k ∈ w.cascades)
    (hcascaded : w'.cascaded = w.cascaded) : w'.Swept where
  suspended := by
    rw [husers]
    exact fun k hk => hw.suspended k (hcascades k hk)
  remaining := by
    rw [hworld]
    exact fun k hk => hw.remaining k (hcascades k hk)
  effective := by
    unfold UserWorld.Effective
    rw [hcascaded, husers, hworld]
    exact hw.effective

/-- A suspension starts a cascade that has not scanned yet. -/
theorem UserWorld.Swept.suspend (hw : w.Swept) {u : UserId} {s : UserStatus}
    (hu : w.users.get? u = some s) :
    UserWorld.Swept
      ({ w with users := w.users.set u .suspended }.afterStatus u .suspended) where
  suspended := by
    intro k hk hcur
    show (w.users.set u .suspended).get? k.user = _
    rcases List.mem_cons.mp hk with rfl | hk
    · exact Table.get?_set_self hu _
    · have hold := hw.suspended k hk hcur
      by_cases heq : k.user = u
      · rw [heq]
        exact Table.get?_set_self hu _
      · rw [Table.get?_set_ne _ heq]
        exact hold
  remaining := by
    intro k hk hcur cs hcs
    rcases List.mem_cons.mp hk with rfl | hk
    · cases hcs
    · exact hw.remaining k hk hcur cs hcs
  effective := by
    intro v hv
    refine ⟨?_, (hw.effective v hv).2⟩
    show (w.users.set u .suspended).get? v = _
    by_cases heq : v = u
    · rw [heq]
      exact Table.get?_set_self hu _
    · rw [Table.get?_set_ne _ heq]
      exact (hw.effective v hv).1

/-- Any other change of a status outdates the cascades of the user. -/
theorem UserWorld.Swept.setStatus (hw : w.Swept) {u : UserId} {s : UserStatus}
    (hs : s ≠ .suspended) :
    UserWorld.Swept ({ w with users := w.users.set u s }.afterStatus u s) := by
  have hafter : ({ w with users := w.users.set u s } : UserWorld).afterStatus u s =
      { w with
        users := w.users.set u s
        cascades := w.cascades.map fun k => { k with current := k.current && k.user ≠ u }
        cascaded := w.cascaded.filter (· ≠ u) } := by
    cases s <;> first | rfl | exact absurd rfl hs
  have hold {k' : Cascade} (hk' : k' ∈ w.cascades.map fun k =>
      { k with current := k.current && k.user ≠ u }) (hcur : k'.current = true) :
      k' ∈ w.cascades ∧ k'.user ≠ u := by
    obtain ⟨k, hk, rfl⟩ := List.mem_map.mp hk'
    simp only [ne_eq, decide_not, Bool.and_eq_true, Bool.not_eq_true', decide_eq_false_iff_not] at hcur
    refine ⟨?_, hcur.2⟩
    have hk₀ : ({ k with current := k.current && k.user ≠ u } : Cascade) = k := by
      cases k
      simp_all
    rwa [hk₀]
  rw [hafter]
  constructor
  · intro k hk hcur
    obtain ⟨hk, hne⟩ := hold hk hcur
    show (w.users.set u s).get? k.user = _
    rw [Table.get?_set_ne _ hne]
    exact hw.suspended k hk hcur
  · intro k hk hcur
    exact hw.remaining k (hold hk hcur).1 hcur
  · intro v hv
    obtain ⟨hv, hne⟩ := List.mem_filter.mp hv
    refine ⟨?_, (hw.effective v hv).2⟩
    show (w.users.set u s).get? v = _
    rw [Table.get?_set_ne _ (by simpa using hne)]
    exact (hw.effective v hv).1

/-- A cascade that takes its next step. -/
theorem UserWorld.Swept.advance (hw : w.Swept) (hk : k ∈ w.cascades) : (w.advance k).Swept := by
  have hmem {k₀ k' : Cascade} (h : k' ∈ k₀ :: w.cascades.erase k) : k' = k₀ ∨ k' ∈ w.cascades :=
    (List.mem_cons.mp h).imp_right List.mem_of_mem_erase
  unfold UserWorld.advance
  split
  · next hphase =>
    constructor
    · intro k' hk' hcur
      rcases hmem hk' with rfl | hk'
      · exact hw.suspended k hk hcur
      · exact hw.suspended k' hk' hcur
    · intro k' hk' hcur cs hcs
      rcases hmem hk' with rfl | hk'
      · cases hcs
      · exact hw.remaining k' hk' hcur cs hcs
    · exact hw.effective
  · next hphase =>
    constructor
    · intro k' hk' hcur
      rcases hmem hk' with rfl | hk'
      · exact hw.suspended k hk hcur
      · exact hw.suspended k' hk' hcur
    · intro k' hk' hcur cs hcs tid t ht howner hst
      rcases hmem hk' with rfl | hk'
      · -- the scan returns every such task
        cases hcs
        rw [← howner]
        exact mem_scanTasks_of_row ht (by simp [hst])
      · exact hw.remaining k' hk' hcur cs hcs tid t ht howner hst
    · exact hw.effective
  · next c cs hphase =>
    have hrow {tid : TaskId} {t' : Task}
        (ht' : (suspendOneTask w.world.db c).tasks.get? tid = some t')
        (hst' : t'.status.isTerminable = true) : ∃ t, w.world.db.tasks.get? tid = some t ∧
          t.ownerId = t'.ownerId ∧ t.status.isTerminable = true := by
      obtain ⟨t, ht, hf⟩ := terminateOne_rowsFollow .adminSuspended w.world.db c tid t' ht'
      obtain ⟨howner, hst⟩ := hf.terminable hst'
      exact ⟨t, ht, howner, hst.resolve_right id⟩
    constructor
    · intro k' hk' hcur
      rcases hmem hk' with rfl | hk'
      · exact hw.suspended k hk hcur
      · exact hw.suspended k' hk' hcur
    · intro k' hk' hcur cs' hcs tid t' ht' howner hst'
      obtain ⟨t, ht, hto, hst⟩ := hrow ht' hst'
      rcases hmem hk' with rfl | hk'
      · cases hcs
        have hin := hw.remaining k hk hcur (c :: cs) hphase tid t ht (hto.trans howner) hst
        refine (List.mem_cons.mp hin).resolve_left fun hc => ?_
        -- the candidate that has been visited is not left over
        subst hc
        rw [terminateOne_stops ht' howner] at hst'
        cases hst'
      · exact hw.remaining k' hk' hcur cs' hcs tid t ht (hto.trans howner) hst
    · intro u hu
      refine ⟨(hw.effective u hu).1, fun tid t' ht' howner => ?_⟩
      by_contra hst'
      obtain ⟨t, ht, hto, hst⟩ := hrow ht' (Bool.eq_true_of_not_eq_false hst')
      rw [(hw.effective u hu).2 tid t ht (hto.trans howner)] at hst
      cases hst
  · next hphase =>
    constructor
    · exact fun k' hk' => hw.suspended k' (List.mem_of_mem_erase hk')
    · exact fun k' hk' => hw.remaining k' (List.mem_of_mem_erase hk')
    · intro u hu
      by_cases hold : u ∈ w.cascaded
      · exact hw.effective u hold
      · obtain ⟨hcur, rfl⟩ : k.current = true ∧ u = k.user := by
          change u ∈ (if k.current = true then k.user :: w.cascaded else w.cascaded) at hu
          split at hu
          · next hcur => exact ⟨hcur, (List.mem_cons.mp hu).resolve_right hold⟩
          · exact absurd hu hold
        refine ⟨hw.suspended k hk hcur, fun tid t ht howner => ?_⟩
        by_contra hst
        have hin := hw.remaining k hk hcur [] hphase tid t ht howner
          (Bool.eq_true_of_not_eq_false hst)
        cases hin

/-- Any other transaction of the domain queues nothing. -/
theorem UserWorld.Swept.other (hw : w.Swept) {b : Action} {world : World}
    (hb : b.isUserAction = false) (h : Tasking.step cfg nfc w.world b = .ok world) :
    UserWorld.Swept { w with world := world } := by
  refine hw.of_terminable rfl rfl rfl fun tid t' ht' hst' => .inl ?_
  obtain ⟨t, ht, hfrozen, hst | ⟨r, rfl, -⟩⟩ := step_terminable h ht' hst'
  · exact ⟨t, ht, (congrArg Frozen.ownerId hfrozen).symm, hst⟩
  · cases hb

/-- A request queues at most one task, and that one in time. -/
theorem UserWorld.Swept.commit (hw : w.Swept) {r : Request} {world : World} (hr : r ∈ w.requests)
    (hG : InTime w (.commit r)) (h : Tasking.step cfg nfc w.world (.request r) = .ok world) :
    UserWorld.Swept { w with world := world, requests := w.requests.erase r } := by
  refine hw.of_terminable rfl rfl rfl fun tid t' ht' hst' => ?_
  obtain ⟨t, ht, hfrozen, hst | ⟨r', heq, hq, ho⟩⟩ := step_terminable h ht' hst'
  · exact .inl ⟨t, ht, (congrArg Frozen.ownerId hfrozen).symm, hst⟩
  · cases heq
    rw [← ho]
    exact .inr (hG hr tid hq)

/-- Any other transaction, committed. -/
theorem UserWorld.other_eq_ok {b : Action} (h : w.step cfg nfc (.other b) = .ok w') :
    b.isUserAction = false ∧ Tasking.step cfg nfc w.world b = .ok w'.world ∧
      w' = { w with world := w'.world } := by
  obtain ⟨hb, h⟩ := ite_error_eq_ok.mp h
  obtain ⟨world, hworld, h⟩ := bind_eq_ok.mp h
  cases h
  exact ⟨Bool.eq_false_iff.mpr hb, hworld, rfl⟩

theorem UserWorld.Swept.step (hw : w.Swept) (hG : InTime w a) (h : w.step cfg nfc a = .ok w') :
    w'.Swept := by
  cases a with
  | other b =>
    obtain ⟨hb, hworld, hw'⟩ := UserWorld.other_eq_ok h
    rw [hw']
    exact hw.other hb hworld
  | setStatus u s =>
    obtain ⟨hs, h⟩ := ite_ok_else_error.mp h
    cases h
    by_cases heq : s = .suspended
    · subst heq
      cases hu : w.users.get? u with
      | none =>
        rw [hu] at hs
        cases hs
      | some s₀ => exact hw.suspend hu
    · exact hw.setStatus heq
  | startSession id u =>
    obtain ⟨-, h⟩ := ite_ok_else_error.mp h
    cases h
    exact hw.of_subset rfl rfl (fun _ hk => hk) rfl
  | revokeSession id =>
    cases h
    exact hw.of_subset rfl rfl (fun _ hk => hk) rfl
  | authenticate id r =>
    obtain ⟨-, h⟩ := ite_ok_else_error.mp h
    cases h
    exact hw.of_subset rfl rfl (fun _ hk => hk) rfl
  | commit r =>
    obtain ⟨hr, h⟩ := ite_ok_else_error.mp h
    obtain ⟨world, hworld, h⟩ := bind_eq_ok.mp h
    cases h
    exact hw.commit hr hG hworld
  | drop r =>
    cases h
    exact hw.of_subset rfl rfl (fun _ hk => hk) rfl
  | advance k =>
    obtain ⟨hk, h⟩ := ite_ok_else_error.mp h
    cases h
    exact hw.advance hk
  | fail k =>
    cases h
    exact hw.of_subset rfl rfl (fun _ hk => List.mem_of_mem_erase hk) rfl

/-! ## Runs -/

theorem UserWorld.Initial.swept (h₀ : w.Initial) : w.Swept where
  suspended := by simp [h₀.cascades]
  remaining := by simp [h₀.cascades]
  effective := by simp [UserWorld.Effective, h₀.cascaded]

/-- A round is claimed for a queued task of the user that the candidate names. -/
theorem queued_of_claimRound {c : RoundCandidate} {iid : InstanceId} {locked : List ℕ}
    (h : claimRound cfg db locked c iid = .ok db') :
    ∃ t, db.tasks.get? c.task = some t ∧ t.ownerId = c.owner ∧ t.status = .queued := by
  unfold claimRound at h
  split at h
  · cases h
  · next t hvis =>
    obtain ⟨t', ht', -⟩ := bind_eq_ok.mp h
    obtain ⟨hfound, howner⟩ := Db.visibleTask_eq_some.mp hvis
    exact ⟨t, hfound, howner, (Task.eq_of_claimRound ht').1⟩

theorem UserWorld.Swept.not_claimed (hw : w.Swept) {iid : InstanceId} {c : RoundCandidate}
    {locked : List ℕ} (h : w.step cfg nfc (.other (.perform (.dispatch iid c) locked)) = .ok w') :
    c.owner ∉ w.cascaded := by
  intro hu
  obtain ⟨-, h, -⟩ := UserWorld.other_eq_ok h
  obtain ⟨-, h⟩ := ite_ok_else_error.mp h
  obtain ⟨db', hdb, -⟩ := bind_eq_ok.mp h
  obtain ⟨t, ht, howner, hst⟩ := queued_of_claimRound hdb
  have hno := (hw.effective _ hu).2 _ t ht howner
  rw [hst] at hno
  cases hno

/-- In every run that meets the condition, a suspended user whose cascade has completed has no queued or
running task until the suspension ends, and no round of the user is claimed. -/
theorem suspensionEffective_of_run (h₀ : w₀.Initial)
    (hG : (userSystem cfg nfc).Guarded InTime w₀ as) :
    ((userSystem cfg nfc).run w₀ as).Effective ∧
      ∀ pre iid c locked post, as = pre ++ .other (.perform (.dispatch iid c) locked) :: post →
        (userSystem cfg nfc).Commits ((userSystem cfg nfc).run w₀ pre)
          (.other (.perform (.dispatch iid c) locked)) →
        c.owner ∉ ((userSystem cfg nfc).run w₀ pre).cascaded := by
  have hswept {bs : List UserAction} (hbs : (userSystem cfg nfc).Guarded InTime w₀ bs) :
      ((userSystem cfg nfc).run w₀ bs).Swept :=
    System.invariant_run_of_guarded (S := userSystem cfg nfc)
      (fun _ _ _ hw hG hs => UserWorld.Swept.step hw hG hs) h₀.swept hbs
  refine ⟨(hswept hG).effective, ?_⟩
  rintro pre iid c locked post rfl ⟨w', hw'⟩
  exact (hswept (System.Guarded.append.mp hG).1).not_claimed hw'

/-- Before any suspension the condition says nothing. -/
theorem UserWorld.Initial.inTime (h : w.Initial) (a : UserAction) : InTime w a := by
  cases a with
  | commit r => simp [InTime, h.cascades, h.cascaded]
  | _ => trivial

/-- The small installation with active users and a session of each. -/
def UserWorld.small : UserWorld where
  world := .small
  users := (Table.empty.insert 1 .active).insert 2 .active
  sessions := (Table.empty.insert 1 ⟨1, false⟩).insert 2 ⟨2, false⟩
  requests := []
  cascades := []
  cascaded := []

/-- User 1 creates task 10. -/
def createdBy1 : List UserAction :=
  [.authenticate 1 (.createTask 1 5 none "hi" []), .commit (.createTask 1 5 none "hi" [])]

/-- User 1 is suspended, and the cascade visits these tasks. -/
def suspensionOf1 (tasks : List TaskCandidate) : List UserAction :=
  [.setStatus 1 .suspended, .advance ⟨1, .revokeAll, true⟩, .advance ⟨1, .scan, true⟩] ++
    tasks.tails.map fun cs => .advance ⟨1, .visit cs, true⟩

/-- The input is committed and the round claimed before the suspension, and the cascade aborts the
task. -/
def suspendedRun : List UserAction :=
  createdBy1 ++ [.authenticate 1 (.commitInput 1 10 "manifest"), .commit (.commitInput 1 10 "manifest"),
    .other (.scan (.dispatch 7)), .other (.perform (.dispatch 7 ⟨12, 10, 1⟩) [])] ++
    suspensionOf1 [⟨10, 1⟩]

theorem suspensionEffective_of_run_suspended :
    ((userSystem {} id).run UserWorld.small suspendedRun).Effective ∧
      ∀ pre iid c locked post,
        suspendedRun = pre ++ .other (.perform (.dispatch iid c) locked) :: post →
        (userSystem {} id).Commits ((userSystem {} id).run UserWorld.small pre)
          (.other (.perform (.dispatch iid c) locked)) →
        c.owner ∉ ((userSystem {} id).run UserWorld.small pre).cascaded :=
  suspensionEffective_of_run ⟨rfl, rfl⟩ (by
    refine ⟨trivial, UserWorld.Initial.inTime ⟨rfl, rfl⟩ _, trivial, ?_, ?_⟩
    · exact UserWorld.Initial.inTime ⟨by decide +kernel, by decide +kernel⟩ _
    · repeat' constructor)

/-- The commit of the input has passed the gate before the suspension and comes after the cascade. -/
def lateCommitRun : List UserAction :=
  createdBy1 ++ [.authenticate 1 (.commitInput 1 10 "manifest")] ++ suspensionOf1 [] ++
    [.commit (.commitInput 1 10 "manifest")]

/-- Executor 7 looks for rounds and claims the one of task 10. -/
def lateClaim : List UserAction :=
  [.other (.scan (.dispatch 7)), .other (.perform (.dispatch 7 ⟨12, 10, 1⟩) [])]

/-- The suspended user has a queued task after the cascade, and its round is claimed. -/
theorem not_suspensionEffective_of_lateCommit :
    ¬ ((userSystem {} id).run UserWorld.small lateCommitRun).Effective ∧
      1 ∈ ((userSystem {} id).run UserWorld.small (lateCommitRun ++ lateClaim)).cascaded ∧
      (((userSystem {} id).run UserWorld.small (lateCommitRun ++ lateClaim)).world.db.tasks.get? 10).map
        (·.status) = some .running := by
  refine ⟨fun h => ?_, by decide +kernel, by decide +kernel⟩
  have hmem : 1 ∈ ((userSystem {} id).run UserWorld.small lateCommitRun).cascaded := by
    decide +kernel
  have hrow : ((((userSystem {} id).run UserWorld.small lateCommitRun).world.db.tasks.get? 10).map
      fun t => (t.ownerId, t.status)) = some (1, .queued) := by
    decide +kernel
  obtain ⟨t, ht, heq⟩ := Option.map_eq_some_iff.mp hrow
  obtain ⟨howner, hst⟩ := Prod.mk.inj heq
  have hno := (h 1 hmem).2 10 t ht howner
  rw [hst] at hno
  cases hno

end Suspension

end AgentCraft.Tasking
