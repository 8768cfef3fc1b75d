import AgentCraft.Tasking.Schema
import AgentCraft.Transition.Fallible
import AgentCraft.Transition.RowLocks
import AgentCraft.Transition.Trace

/-!
# Quota updates

`update_quotas` of `admin_user_service.py` beside `_ensure_quota_rows` of `task_service.py`. An update looks for
the row with `FOR UPDATE`, derives all four limits from what it has found, and upserts them; all of it is one
transaction at READ COMMITTED. A lock needs a row: an update that finds none goes on without one, and its
`INSERT … ON CONFLICT` only waits for a row that another transaction has inserted and not committed. The
payload model admits the four limits as strict integers or null. The audit row and the answer hold the limits
that the update writes; the replay of a stored answer comes before and leaves the rows alone.
-/

namespace AgentCraft.Tasking.QuotaUpdates

open AgentCraft.Relational AgentCraft.Transition

abbrev TxId := ℕ

/-- `_QUOTA_DIMS`. -/
inductive QuotaDim
  | maxDailyTasks | maxActiveTasks | maxRunningTasks | maxRetainedStorageBytes
deriving DecidableEq, Repr

def QuotaDim.name : QuotaDim → String
  | maxDailyTasks => "max_daily_tasks"
  | maxActiveTasks => "max_active_tasks"
  | maxRunningTasks => "max_running_tasks"
  | maxRetainedStorageBytes => "max_retained_storage_bytes"

def QuotaDim.read (q : UserQuota) : QuotaDim → ℤ
  | maxDailyTasks => q.maxDailyTasks
  | maxActiveTasks => q.maxActiveTasks
  | maxRunningTasks => q.maxRunningTasks
  | maxRetainedStorageBytes => q.maxRetainedStorageBytes

/-- `QuotasUpdatePayload` without its reason: a limit is left out, null or an integer. -/
structure QuotasUpdatePayload where
  maxDailyTasks : Option (Option ℤ) := none
  maxActiveTasks : Option (Option ℤ) := none
  maxRunningTasks : Option (Option ℤ) := none
  maxRetainedStorageBytes : Option (Option ℤ) := none
deriving DecidableEq, Repr

/-- `quotas` after its check: the limits to be changed. -/
structure Quotas where
  maxDailyTasks : Option ℤ := none
  maxActiveTasks : Option ℤ := none
  maxRunningTasks : Option ℤ := none
  maxRetainedStorageBytes : Option ℤ := none
deriving DecidableEq, Repr

def Quotas.get (quotas : Quotas) : QuotaDim → Option ℤ
  | .maxDailyTasks => quotas.maxDailyTasks
  | .maxActiveTasks => quotas.maxActiveTasks
  | .maxRunningTasks => quotas.maxRunningTasks
  | .maxRetainedStorageBytes => quotas.maxRetainedStorageBytes

/-- `{**before, **quotas}`. -/
def Quotas.merge (quotas : Quotas) (before : UserQuota) : UserQuota where
  maxDailyTasks := quotas.maxDailyTasks.getD before.maxDailyTasks
  maxActiveTasks := quotas.maxActiveTasks.getD before.maxActiveTasks
  maxRunningTasks := quotas.maxRunningTasks.getD before.maxRunningTasks
  maxRetainedStorageBytes := quotas.maxRetainedStorageBytes.getD before.maxRetainedStorageBytes

/-- One turn of the loop of `_validate_quotas`. -/
def validateDim (dim : QuotaDim) : Option (Option ℤ) → Except Failure (Option ℤ)
  | none => .ok none
  | some none => .error (validationError (dim.name ++ " 须为非负整数"))
  | some (some value) =>
    if value < 0 then .error (validationError (dim.name ++ " 须为非负整数")) else .ok (some value)

/-- `_validate_quotas`; the payload model has refused the unknown keys. -/
def validateQuotas (payload : QuotasUpdatePayload) : Except Failure Quotas := do
  if payload = {} then throw (validationError "至少需要一个配额维度字段")
  let maxDailyTasks ← validateDim .maxDailyTasks payload.maxDailyTasks
  let maxActiveTasks ← validateDim .maxActiveTasks payload.maxActiveTasks
  let maxRunningTasks ← validateDim .maxRunningTasks payload.maxRunningTasks
  let maxRetainedStorageBytes ← validateDim .maxRetainedStorageBytes payload.maxRetainedStorageBytes
  return { maxDailyTasks, maxActiveTasks, maxRunningTasks, maxRetainedStorageBytes }

/-- A transaction that reads or writes a row of `user_quotas`. -/
inductive Tx
  /-- `update_quotas` after its check. -/
  | updating (user : UserId) (quotas : Quotas)
  /-- The `SELECT … FOR UPDATE` has come back. -/
  | looked (user : UserId) (quotas : Quotas) (existing : Option UserQuota)
  /-- The upsert has been executed. -/
  | upserted (user : UserId) (quotas : Quotas) (existing : Option UserQuota)
  /-- A transaction that creates a task, before `_ensure_quota_rows`. -/
  | creating (user : UserId)
  /-- `_ensure_quota_rows` has inserted the row. -/
  | ensured (user : UserId)
  | ended
deriving DecidableEq, Repr

/-- The users whose rows are locked, or inserted and not committed. -/
def Tx.holds : Tx → List UserId
  | .looked user _ (some _) => [user]
  | .upserted user _ _ => [user]
  | .ensured user => [user]
  | _ => []

/-- The limits that an update writes, from what it has found. -/
def after (quotas : Quotas) (existing : Option UserQuota) : UserQuota := quotas.merge (existing.getD {})

/-- The tables and the transactions in progress. -/
structure Store where
  users : List UserId
  quotas : Table UserId UserQuota
  txs : Table TxId Tx

/-- The labels of the system. -/
inductive Action
  /-- Accounts are created elsewhere. -/
  | register (user : UserId)
  /-- `update_quotas` up to `_require_user`. -/
  | update (tx : TxId) (user : UserId) (payload : QuotasUpdatePayload)
  /-- The `SELECT … FOR UPDATE` of an update. -/
  | look (tx : TxId)
  /-- The `INSERT … ON CONFLICT DO UPDATE` of an update. -/
  | upsert (tx : TxId)
  /-- A user creates a task. -/
  | create (tx : TxId) (user : UserId)
  /-- The `INSERT … ON CONFLICT DO NOTHING` of `_ensure_quota_rows`. -/
  | ensure (tx : TxId)
  | commit (tx : TxId)
  /-- An exception, a lost connection or a crash. -/
  | fail (tx : TxId)
deriving DecidableEq

namespace Store

variable (w : Store)

/-- Another transaction has locked the row or has inserted it. -/
def rowLocked (tx : TxId) (user : UserId) : Bool :=
  w.txs.rows.any fun x => x.1 ≠ tx && x.2.holds.contains user

def setTx (tx : TxId) (x : Tx) : Store := { w with txs := w.txs.set tx x }

def enter (tx : TxId) (x : Tx) : Store := { w with txs := w.txs.insert tx x }

/-- `update_quotas` up to `_require_user`. -/
def update (tx : TxId) (user : UserId) (payload : QuotasUpdatePayload) : Except Failure Store := do
  let quotas ← validateQuotas payload
  if w.users.contains user then return w.enter tx (.updating user quotas)
  else throw (.http 404 "NOT_FOUND" "用户不存在")

/-- The `SELECT … FOR UPDATE` waits for a row that it finds; an absent row is none, whoever inserts it. -/
def look (tx : TxId) (user : UserId) (quotas : Quotas) : Except Failure Store :=
  match w.quotas.get? user with
  | none => .ok (w.setTx tx (.looked user quotas none))
  | some existing =>
    if w.rowLocked tx user then .error .notEnabled
    else .ok (w.setTx tx (.looked user quotas (some existing)))

/-- The upsert waits for whoever has the row, and then writes what has been derived. -/
def upsert (tx : TxId) (user : UserId) (quotas : Quotas) (existing : Option UserQuota) : Except Failure Store :=
  if w.rowLocked tx user then .error .notEnabled
  else .ok (w.setTx tx (.upserted user quotas existing))

/-- `_ensure_quota_rows` waits for a row that is being inserted, and leaves one that is there. -/
def ensure (tx : TxId) (user : UserId) : Except Failure Store :=
  if (w.quotas.get? user).isSome then .ok (w.setTx tx .ended)
  else if w.rowLocked tx user then .error .notEnabled
  else .ok (w.setTx tx (.ensured user))

/-- The commit of an update. -/
def commitUpserted (tx : TxId) (user : UserId) (quotas : Quotas) (existing : Option UserQuota) : Store :=
  { w with
    quotas := (w.quotas.insert user (after quotas existing)).set user (after quotas existing)
    txs := w.txs.set tx .ended }

/-- The commit of a transaction that has inserted the defaults. -/
def commitEnsured (tx : TxId) (user : UserId) : Store :=
  { w with quotas := w.quotas.insert user {}, txs := w.txs.set tx .ended }

/-- The step function. -/
def step : Action → Except Failure Store
  | .register user => .ok { w with users := user :: w.users }
  | .update tx user payload =>
    if (w.txs.get? tx).isSome then .error .notEnabled else w.update tx user payload
  | .look tx =>
    match w.txs.get? tx with
    | some (.updating user quotas) => w.look tx user quotas
    | _ => .error .notEnabled
  | .upsert tx =>
    match w.txs.get? tx with
    | some (.looked user quotas existing) => w.upsert tx user quotas existing
    | _ => .error .notEnabled
  | .create tx user =>
    if (w.txs.get? tx).isSome ∨ user ∉ w.users then .error .notEnabled
    else .ok (w.enter tx (.creating user))
  | .ensure tx =>
    match w.txs.get? tx with
    | some (.creating user) => w.ensure tx user
    | _ => .error .notEnabled
  | .commit tx =>
    match w.txs.get? tx with
    | some (.upserted user quotas existing) => .ok (w.commitUpserted tx user quotas existing)
    | some (.ensured user) => .ok (w.commitEnsured tx user)
    | _ => .error .notEnabled
  | .fail tx =>
    match w.txs.get? tx with
    | none => .error .notEnabled
    | some _ => .ok (w.setTx tx .ended)

/-- The limits of a user; an absent row counts as the defaults. -/
def quotaOf (user : UserId) : UserQuota := (w.quotas.get? user).getD {}

end Store

/-- The rows of `user_quotas` under their transactions. -/
def quotaStore : System Store Action Failure := ⟨Store.step⟩

/-- An update that has committed. -/
structure Update where
  user : UserId
  quotas : Quotas
deriving DecidableEq, Repr

/-- The update that a commit completes. -/
def committed (w : Store) : Action → List Update
  | .commit tx =>
    match w.txs.get? tx with
    | some (.upserted user quotas _) => [⟨user, quotas⟩]
    | _ => []
  | _ => []

/-- The updates of a run in the order of their commits. -/
def updates (w₀ : Store) (as : List Action) : List Update := quotaStore.trace committed w₀ as

/-- Nothing is in progress. -/
def Store.Initial (w : Store) : Prop := w.txs = .empty

/-- What an update has set stands in the row, unless a later one of the same user has set it again. -/
def Composed (w₀ : Store) (as : List Action) : Prop :=
  ∀ pre c post, updates w₀ as = pre ++ c :: post → ∀ dim value, c.quotas.get dim = some value →
    (∀ c' ∈ post, c'.user = c.user → c'.quotas.get dim = none) →
    ∃ row, (quotaStore.run w₀ as).quotas.get? c.user = some row ∧ dim.read row = value

/-- An update that has found no row would write the same over the row as it is. -/
def Store.Current (w : Store) : Tx → Prop
  | .upserted user quotas none => quotas.merge {} = quotas.merge (w.quotaOf user)
  | _ => True

/-- What commits has been derived from the row that it replaces. -/
def UpToDate (w : Store) : Action → Prop
  | .commit tx => ∀ x ∈ w.txs.get? tx, w.Current x
  | _ => True

instance (w : Store) : DecidablePred w.Current := by
  intro x
  cases x with
  | upserted user quotas existing =>
    cases existing with
    | none => exact inferInstanceAs (Decidable (quotas.merge {} = quotas.merge (w.quotaOf user)))
    | some row => exact .isTrue trivial
  | _ => exact .isTrue trivial

instance (w : Store) : DecidablePred (UpToDate w) := by
  intro a
  cases a with
  | commit tx => exact inferInstanceAs (Decidable (∀ x ∈ w.txs.get? tx, w.Current x))
  | _ => exact .isTrue trivial

/-! ## The limits -/

/-- A limit that is not set is left as it was. -/
theorem Quotas.read_merge (quotas : Quotas) (q : UserQuota) (dim : QuotaDim) :
    dim.read (quotas.merge q) = (quotas.get dim).getD (dim.read q) := by
  cases dim <;> rfl

/-- Two rows from which an update derives different limits differ in a limit that it does not set. -/
theorem Quotas.exists_read_ne {quotas : Quotas} {q q' : UserQuota} (hne : quotas.merge q ≠ quotas.merge q') :
    ∃ dim, quotas.get dim = none ∧ dim.read q ≠ dim.read q' := by
  by_contra hall
  push Not at hall
  have hread (dim : QuotaDim) : (quotas.get dim).getD (dim.read q) = (quotas.get dim).getD (dim.read q') := by
    cases hget : quotas.get dim with
    | none => exact hall dim hget
    | some value => rfl
  have hdaily := hread .maxDailyTasks
  have hactive := hread .maxActiveTasks
  have hrunning := hread .maxRunningTasks
  have hstorage := hread .maxRetainedStorageBytes
  simp only [Quotas.get, QuotaDim.read] at hdaily hactive hrunning hstorage
  exact hne (by rw [Quotas.merge, Quotas.merge, hdaily, hactive, hrunning, hstorage])

/-- What an update makes of the limits of a user. -/
def Update.apply (user : UserId) (q : UserQuota) (c : Update) : UserQuota :=
  if c.user = user then c.quotas.merge q else q

section Composition

variable {user : UserId} {q : UserQuota} {cs : List Update} {dim : QuotaDim}

/-- Updates that do not set a limit leave it alone. -/
theorem read_foldl_apply (hcs : ∀ c ∈ cs, c.user = user → c.quotas.get dim = none) :
    dim.read (cs.foldl (Update.apply user) q) = dim.read q := by
  induction cs generalizing q with
  | nil => rfl
  | cons c cs ih =>
    rw [List.foldl_cons, ih fun c' hc' => hcs c' (List.mem_cons_of_mem _ hc'), Update.apply]
    split
    · next huser => rw [Quotas.read_merge, hcs c List.mem_cons_self huser, Option.getD_none]
    · rfl

/-- The last update that sets a limit decides. -/
theorem read_foldl_apply_of_last {pre post : List Update} {c : Update} {value : ℤ}
    (hset : c.quotas.get dim = some value)
    (hpost : ∀ c' ∈ post, c'.user = c.user → c'.quotas.get dim = none) :
    dim.read ((pre ++ c :: post).foldl (Update.apply c.user) q) = value := by
  rw [List.foldl_append, List.foldl_cons, read_foldl_apply hpost, Update.apply, if_pos rfl, Quotas.read_merge,
    hset, Option.getD_some]

/-- A limit that has changed was set, and not again later. -/
theorem exists_last_of_read_ne (hne : dim.read (cs.foldl (Update.apply user) q) ≠ dim.read q) :
    ∃ pre c post, cs = pre ++ c :: post ∧ c.user = user ∧
      c.quotas.get dim = some (dim.read (cs.foldl (Update.apply user) q)) ∧
      ∀ c' ∈ post, c'.user = user → c'.quotas.get dim = none := by
  induction cs using List.reverseRecOn with
  | nil => exact absurd rfl hne
  | append_singleton cs last ih =>
    by_cases hlast : last.user = user ∧ last.quotas.get dim ≠ none
    · obtain ⟨huser, hset⟩ := hlast
      obtain ⟨value, hvalue⟩ := Option.ne_none_iff_exists'.mp hset
      refine ⟨cs, last, [], rfl, huser, ?_, by simp⟩
      rw [← huser, read_foldl_apply_of_last hvalue (by simp), hvalue]
    · -- The last update leaves the limit alone, so an earlier one decides.
      have hleft : ∀ c' ∈ [last], c'.user = user → c'.quotas.get dim = none := by
        intro c' hc' huser
        obtain rfl := List.mem_singleton.mp hc'
        by_contra hset
        exact hlast ⟨huser, hset⟩
      rw [List.foldl_append, read_foldl_apply hleft] at hne ⊢
      obtain ⟨pre, c, post, rfl, huser, hset, hpost⟩ := ih hne
      refine ⟨pre, c, post ++ [last], by simp, huser, hset, fun c' hc' huser' => ?_⟩
      rcases List.mem_append.mp hc' with hc' | hc'
      · exact hpost c' hc' huser'
      · exact hleft c' hc' huser'

end Composition

/-! ## The steps -/

/-- What an update has found, while it is under way. -/
def Tx.saw : Tx → Option (UserId × Option UserQuota)
  | .looked user _ existing => some (user, existing)
  | .upserted user _ existing => some (user, existing)
  | _ => none

/-- Who has found a row has locked it. -/
theorem Tx.mem_holds_of_saw {x : Tx} {user : UserId} {row : UserQuota} (h : x.saw = some (user, some row)) :
    user ∈ x.holds := by
  cases x with
  | looked user' quotas existing =>
    cases h
    exact List.mem_singleton_self user
  | upserted user' quotas existing =>
    cases h
    exact List.mem_singleton_self user
  | _ => cases h

/-- What a step does. -/
inductive Store.Move (w : Store) : Action → Store → Prop
  | registered (user : UserId) : Move w (.register user) { w with users := user :: w.users }
  | entered (a : Action) (tx : TxId) (x : Tx) (hcommitted : committed w a = []) (hholds : x.holds = [])
      (hsaw : x.saw = none) : Move w a (w.enter tx x)
  | moved (a : Action) (tx : TxId) (x x' : Tx) (hcommitted : committed w a = []) (hx : w.txs.get? tx = some x)
      (hholds : x'.holds = []) (hsaw : x'.saw = none) : Move w a (w.setTx tx x')
  | looked (tx : TxId) (user : UserId) (quotas : Quotas) (existing : Option UserQuota)
      (hx : w.txs.get? tx = some (.updating user quotas)) (hrow : w.quotas.get? user = existing)
      (hfree : existing.isSome → w.rowLocked tx user = false) :
      Move w (.look tx) (w.setTx tx (.looked user quotas existing))
  | upserted (tx : TxId) (user : UserId) (quotas : Quotas) (existing : Option UserQuota)
      (hx : w.txs.get? tx = some (.looked user quotas existing)) (hfree : w.rowLocked tx user = false) :
      Move w (.upsert tx) (w.setTx tx (.upserted user quotas existing))
  | ensured (tx : TxId) (user : UserId) (hx : w.txs.get? tx = some (.creating user))
      (hfree : w.rowLocked tx user = false) : Move w (.ensure tx) (w.setTx tx (.ensured user))
  | updated (tx : TxId) (user : UserId) (quotas : Quotas) (existing : Option UserQuota)
      (hx : w.txs.get? tx = some (.upserted user quotas existing)) :
      Move w (.commit tx) (w.commitUpserted tx user quotas existing)
  | created (tx : TxId) (user : UserId) (hx : w.txs.get? tx = some (.ensured user)) :
      Move w (.commit tx) (w.commitEnsured tx user)

namespace Store

variable {w w' w₀ : Store} {tx : TxId} {user : UserId} {a : Action}

theorem update_move {payload : QuotasUpdatePayload} (h : w.update tx user payload = .ok w') :
    w.Move (.update tx user payload) w' := by
  unfold update at h
  obtain ⟨quotas, -, h⟩ := bind_eq_ok.mp h
  obtain ⟨-, h⟩ := ite_ok_else_error.mp h
  cases h
  exact .entered _ tx _ rfl rfl rfl

theorem look_move {quotas : Quotas} (hx : w.txs.get? tx = some (.updating user quotas))
    (h : w.look tx user quotas = .ok w') : w.Move (.look tx) w' := by
  unfold look at h
  split at h
  · next hrow =>
    cases h
    exact .looked tx user quotas none hx hrow (by simp)
  · next existing hrow =>
    obtain ⟨hfree, h⟩ := ite_error_eq_ok.mp h
    cases h
    exact .looked tx user quotas (some existing) hx hrow fun _ => by simpa using hfree

theorem ensure_move (hx : w.txs.get? tx = some (.creating user)) (h : w.ensure tx user = .ok w') :
    w.Move (.ensure tx) w' := by
  unfold ensure at h
  split at h
  · cases h
    exact .moved _ tx _ _ rfl hx rfl rfl
  · obtain ⟨hfree, h⟩ := ite_error_eq_ok.mp h
    cases h
    exact .ensured tx user hx (by simpa using hfree)

theorem step_move (h : w.step a = .ok w') : w.Move a w' := by
  cases a with
  | register user =>
    cases h
    exact .registered user
  | update tx user payload =>
    obtain ⟨-, h⟩ := ite_error_eq_ok.mp h
    exact update_move h
  | look tx =>
    simp only [step] at h
    split at h
    · next hx => exact look_move hx h
    · cases h
  | upsert tx =>
    simp only [step] at h
    split at h
    · next user quotas existing hx =>
      obtain ⟨hfree, h⟩ := ite_error_eq_ok.mp h
      cases h
      exact .upserted tx user quotas existing hx (by simpa using hfree)
    · cases h
  | create tx user =>
    obtain ⟨-, h⟩ := ite_error_eq_ok.mp h
    cases h
    exact .entered _ tx _ rfl rfl rfl
  | ensure tx =>
    simp only [step] at h
    split at h
    · next hx => exact ensure_move hx h
    · cases h
  | commit tx =>
    simp only [step] at h
    split at h
    · next user quotas existing hx =>
      cases h
      exact .updated tx user quotas existing hx
    · next user hx =>
      cases h
      exact .created tx user hx
    · cases h
  | fail tx =>
    simp only [step] at h
    split at h
    · cases h
    · next x hx =>
      cases h
      exact .moved _ tx x _ rfl hx rfl rfl

/-! ## The locks -/

/-- A row that an update has found is still the row; one that it has not found was not there at the start. -/
def Seen (w₀ w : Store) (user : UserId) : Option UserQuota → Prop
  | some row => w.quotas.get? user = some row
  | none => w₀.quotas.get? user = none

/-- No row is locked twice, and no row is lost. -/
structure Sound (w₀ w : Store) : Prop where
  exclusive : HeldOnce Tx.holds w.txs
  seen : ∀ tx x user existing, w.txs.get? tx = some x → x.saw = some (user, existing) → Seen w₀ w user existing
  kept : ∀ user, w.quotas.get? user = none → w₀.quotas.get? user = none

theorem Initial.sound (h₀ : w₀.Initial) : Sound w₀ w₀ := by
  refine ⟨h₀ ▸ heldOnce_empty, fun tx x user existing hx => ?_, fun user h => h⟩
  rw [h₀] at hx
  cases hx

/-- A transaction goes on: what it takes is free, and what it has seen is there. -/
theorem Sound.setTx (hw : Sound w₀ w) {x x' : Tx} (hx : w.txs.get? tx = some x)
    (hrows : ∀ user ∈ x'.holds, user ∈ x.holds ∨ w.rowLocked tx user = false)
    (hseen : ∀ user existing, x'.saw = some (user, existing) → Seen w₀ w user existing) :
    Sound w₀ (w.setTx tx x') := by
  refine ⟨hw.exclusive.set hx fun user hmem => ?_, fun tx₁ x₁ user existing h₁ hsaw => ?_, hw.kept⟩
  · exact (hrows user hmem).imp id freeFor_iff.mp
  · rcases get?_set_of_some hx h₁ with ⟨-, h₁⟩ | ⟨-, rfl⟩
    · exact hw.seen tx₁ x₁ user existing h₁ hsaw
    · exact hseen user existing hsaw

/-- A commit: the rows that the transaction has are rewritten, and its locks are gone. -/
theorem Sound.commit (hw : Sound w₀ w) {x : Tx} (hx : w.txs.get? tx = some x)
    {quotas : Table UserId UserQuota} (hsame : ∀ user, user ∉ x.holds → quotas.get? user = w.quotas.get? user)
    (hkept : ∀ user, quotas.get? user = none → w.quotas.get? user = none) :
    Sound w₀ { w with quotas := quotas, txs := w.txs.set tx .ended } := by
  have hended : Sound w₀ (w.setTx tx .ended) :=
    hw.setTx hx (by simp [Tx.holds]) (by simp [Tx.saw])
  refine ⟨hended.exclusive, fun tx₁ x₁ user existing h₁ hsaw => ?_, fun user h => hw.kept user (hkept user h)⟩
  have hseen := hended.seen tx₁ x₁ user existing h₁ hsaw
  cases existing with
  | none => exact hseen
  | some row =>
    have hnot := hw.exclusive.not_mem_of_ended hx rfl h₁ (Tx.mem_holds_of_saw hsaw)
    exact (hsame user hnot).trans hseen

theorem Sound.step (hw : Sound w₀ w) (h : w.Move a w') : Sound w₀ w' := by
  cases h with
  | registered user => exact ⟨hw.exclusive, hw.seen, hw.kept⟩
  | entered a tx x hcommitted hholds hsaw =>
    refine ⟨hw.exclusive.insert hholds, fun tx₁ x₁ user existing h₁ hsaw₁ => ?_, hw.kept⟩
    rcases Table.get?_insert_cases h₁ with h₁ | ⟨-, rfl⟩
    · exact hw.seen tx₁ x₁ user existing h₁ hsaw₁
    · rw [hsaw] at hsaw₁
      cases hsaw₁
  | moved a tx x x' hcommitted hx hholds hsaw =>
    refine hw.setTx hx (by simp [hholds]) fun user existing hsaw' => ?_
    rw [hsaw] at hsaw'
    cases hsaw'
  | looked tx user quotas existing hx hrow hfree =>
    refine hw.setTx hx (fun user' hmem => .inr ?_) fun user' existing' hsaw => ?_
    · cases existing with
      | none => cases hmem
      | some row =>
        obtain rfl := List.mem_singleton.mp hmem
        exact hfree rfl
    · cases hsaw
      cases existing with
      | none => exact hw.kept user hrow
      | some row => exact hrow
  | upserted tx user quotas existing hx hfree =>
    refine hw.setTx hx (fun user' hmem => .inr ?_) fun user' existing' hsaw => ?_
    · obtain rfl := List.mem_singleton.mp hmem
      exact hfree
    · cases hsaw
      exact hw.seen tx _ user existing hx rfl
  | ensured tx user hx hfree =>
    refine hw.setTx hx (fun user' hmem => .inr ?_) (by simp [Tx.saw])
    obtain rfl := List.mem_singleton.mp hmem
    exact hfree
  | updated tx user quotas existing hx =>
    refine hw.commit hx (fun user' hnot => ?_) fun user' hnone => ?_
    · have hne : user' ≠ user := fun heq => hnot (heq ▸ List.mem_singleton_self user)
      rw [Table.get?_set_insert, if_neg hne]
    · rw [Table.get?_set_insert] at hnone
      split at hnone
      · cases hnone
      · exact hnone
  | created tx user hx =>
    refine hw.commit hx (fun user' hnot => ?_) fun user' hnone => ?_
    · have hne : user' ≠ user := fun heq => hnot (heq ▸ List.mem_singleton_self user)
      cases hrow : w.quotas.get? user with
      | none => rw [Table.get?_insert hrow, if_neg hne]
      | some row => rw [Table.insert_of_some hrow]
    · cases hrow : w.quotas.get? user with
      | none =>
        rw [Table.get?_insert hrow] at hnone
        split at hnone
        · cases hnone
        · exact hnone
      | some row => rwa [Table.insert_of_some hrow] at hnone

/-! ## The ledger -/

/-- The limits of every user are those at the start after the updates that have committed. -/
structure Ledger (w₀ w : Store) (cs : List Update) : Prop where
  limits : ∀ user, w.quotaOf user = cs.foldl (Update.apply user) (w₀.quotaOf user)
  rows : ∀ c ∈ cs, w.quotas.get? c.user ≠ none

theorem quotaOf_of_some {row : UserQuota} (h : w.quotas.get? user = some row) : w.quotaOf user = row := by
  rw [quotaOf, h, Option.getD_some]

/-- The commit of an update. -/
theorem step_commit_of_upserted {quotas : Quotas} {existing : Option UserQuota}
    (hx : w.txs.get? tx = some (.upserted user quotas existing)) :
    w.step (.commit tx) = .ok (w.commitUpserted tx user quotas existing) := by
  simp only [Store.step, hx]

theorem committed_of_upserted {quotas : Quotas} {existing : Option UserQuota}
    (hx : w.txs.get? tx = some (.upserted user quotas existing)) :
    committed w (.commit tx) = [⟨user, quotas⟩] := by
  simp only [committed, hx]

/-- The limits after the commit of an update. -/
theorem quotaOf_commitUpserted (tx : TxId) (user user' : UserId) (quotas : Quotas) (existing : Option UserQuota) :
    (w.commitUpserted tx user quotas existing).quotaOf user' =
      if user' = user then after quotas existing else w.quotaOf user' := by
  rw [quotaOf, commitUpserted, Table.get?_set_insert]
  split
  · rfl
  · rfl

/-- Inserting the defaults changes no limit. -/
theorem quotaOf_commitEnsured (tx : TxId) (user user' : UserId) :
    (w.commitEnsured tx user).quotaOf user' = w.quotaOf user' := by
  rw [quotaOf, quotaOf, commitEnsured]
  cases hrow : w.quotas.get? user with
  | none =>
    rw [Table.get?_insert hrow]
    split
    · next heq => rw [heq, hrow, Option.getD_some, Option.getD_none]
    · rfl
  | some row => rw [Table.insert_of_some hrow]

/-- What an update writes is what it would derive from the row as it is, unless it has found none. -/
theorem Sound.after_eq (hw : Sound w₀ w) {quotas : Quotas} {existing : Option UserQuota}
    (hx : w.txs.get? tx = some (.upserted user quotas existing))
    (hG : w.Current (.upserted user quotas existing)) : after quotas existing = quotas.merge (w.quotaOf user) := by
  cases existing with
  | none => exact hG
  | some row => rw [quotaOf_of_some (hw.seen tx _ user _ hx rfl), after, Option.getD_some]

/-- A step that commits no update leaves the ledger as it was. -/
theorem Ledger.of_quotas {cs : List Update} (hl : Ledger w₀ w cs) (hcommitted : committed w a = [])
    (hquotas : w'.quotas = w.quotas) : Ledger w₀ w' (cs ++ committed w a) := by
  rw [hcommitted, List.append_nil]
  refine ⟨fun user => ?_, fun c hc => ?_⟩
  · rw [quotaOf, hquotas]
    exact hl.limits user
  · rw [hquotas]
    exact hl.rows c hc

theorem Ledger.updated {cs : List Update} (hl : Ledger w₀ w cs) {quotas : Quotas} {existing : Option UserQuota}
    (hafter : after quotas existing = quotas.merge (w.quotaOf user)) :
    Ledger w₀ (w.commitUpserted tx user quotas existing) (cs ++ [⟨user, quotas⟩]) := by
  refine ⟨fun user' => ?_, fun c hc => ?_⟩
  · rw [quotaOf_commitUpserted, List.foldl_append, ← hl.limits user', List.foldl_cons, List.foldl_nil,
      Update.apply]
    by_cases heq : user' = user
    · rw [if_pos heq, if_pos heq.symm, hafter, heq]
    · rw [if_neg heq, if_neg (Ne.symm heq)]
  · rw [commitUpserted, Table.get?_set_insert]
    split
    · exact Option.some_ne_none _
    · next hne =>
      rcases List.mem_append.mp hc with hc | hc
      · exact hl.rows c hc
      · obtain rfl := List.mem_singleton.mp hc
        exact absurd rfl hne

theorem Ledger.created {cs : List Update} (hl : Ledger w₀ w cs) (tx : TxId) (user : UserId) :
    Ledger w₀ (w.commitEnsured tx user) cs := by
  refine ⟨fun user' => (quotaOf_commitEnsured tx user user').trans (hl.limits user'), fun c hc hnone => ?_⟩
  rw [commitEnsured] at hnone
  cases hrow : w.quotas.get? user with
  | none =>
    rw [Table.get?_insert hrow] at hnone
    split at hnone
    · cases hnone
    · exact hl.rows c hc hnone
  | some row =>
    rw [Table.insert_of_some hrow] at hnone
    exact hl.rows c hc hnone

theorem Ledger.step {cs : List Update} (hw : Sound w₀ w) (hl : Ledger w₀ w cs) (hG : UpToDate w a)
    (h : w.Move a w') : Ledger w₀ w' (cs ++ committed w a) := by
  cases h with
  | registered user => exact hl.of_quotas rfl rfl
  | entered a tx x hcommitted hholds hsaw => exact hl.of_quotas hcommitted rfl
  | moved a tx x x' hcommitted hx hholds hsaw => exact hl.of_quotas hcommitted rfl
  | looked tx user quotas existing hx hrow hfree => exact hl.of_quotas rfl rfl
  | upserted tx user quotas existing hx hfree => exact hl.of_quotas rfl rfl
  | ensured tx user hx hfree => exact hl.of_quotas rfl rfl
  | updated tx user quotas existing hx =>
    rw [committed_of_upserted hx]
    exact hl.updated (hw.after_eq hx (hG _ hx))
  | created tx user hx =>
    have hcommitted : committed w (.commit tx) = [] := by simp only [committed, hx]
    rw [hcommitted, List.append_nil]
    exact hl.created tx user

/-- What the ledger says of every update that has committed. -/
theorem Ledger.composed {as : List Action} (hl : Ledger w₀ (quotaStore.run w₀ as) (updates w₀ as)) :
    Composed w₀ as := by
  intro pre c post hsplit dim value hset hpost
  rw [hsplit] at hl
  obtain ⟨row, hrow⟩ := Option.ne_none_iff_exists'.mp (hl.rows c (by simp))
  refine ⟨row, hrow, ?_⟩
  rw [← quotaOf_of_some hrow, hl.limits c.user]
  exact read_foldl_apply_of_last hset hpost

end Store

/-! ## Runs -/

section Runs

variable {w₀ : Store} {as : List Action}

theorem Store.sound_run (h₀ : w₀.Initial) (as : List Action) : Store.Sound w₀ (quotaStore.run w₀ as) :=
  System.invariant_run (S := quotaStore) (I := Store.Sound w₀) (fun _ _ _ hw h => hw.step (Store.step_move h)) as
    h₀.sound

/-- As long as everything that commits is up to date, the updates compose. -/
theorem Store.ledger_run (h₀ : w₀.Initial) (hG : quotaStore.Guarded UpToDate w₀ as) :
    Store.Ledger w₀ (quotaStore.run w₀ as) (updates w₀ as) := by
  have hinv : Store.Sound w₀ (quotaStore.run w₀ as) ∧
      Store.Ledger w₀ (quotaStore.run w₀ as) (quotaStore.trace committed w₀ as) :=
    System.trace_invariant_of_guarded (S := quotaStore) (G := UpToDate)
      (I := fun w cs => Store.Sound w₀ w ∧ Store.Ledger w₀ w cs)
      (fun w cs a w' hi hG h =>
        ⟨hi.1.step (Store.step_move h), Store.Ledger.step hi.1 hi.2 hG (Store.step_move h)⟩)
      ⟨h₀.sound, ⟨fun user => rfl, by simp⟩⟩ hG
  exact hinv.2

/-- An update that has found no row, and would now write something else, undoes an earlier one. -/
theorem not_composed_of_stale {tx : TxId} {user : UserId} {quotas : Quotas} (h₀ : w₀.Initial)
    (hl : Store.Ledger w₀ (quotaStore.run w₀ as) (updates w₀ as))
    (hx : (quotaStore.run w₀ as).txs.get? tx = some (.upserted user quotas none))
    (hstale : ¬ (quotaStore.run w₀ as).Current (.upserted user quotas none)) :
    ¬ Composed w₀ (as ++ [.commit tx]) := by
  intro hcomposed
  obtain ⟨dim, hget, hne⟩ := Quotas.exists_read_ne hstale
  -- The row was absent at the start, so an update has set what differs from the default.
  have hstart : w₀.quotaOf user = {} := by
    rw [Store.quotaOf, (Store.sound_run h₀ as).seen tx _ user none hx rfl, Option.getD_none]
  rw [hl.limits user, hstart] at hne
  obtain ⟨pre, c, post, hsplit, rfl, hset, hpost⟩ := exists_last_of_read_ne hne.symm
  have hstep : quotaStore.step (quotaStore.run w₀ as) (.commit tx) =
      .ok ((quotaStore.run w₀ as).commitUpserted tx c.user quotas none) := Store.step_commit_of_upserted hx
  have htrace : updates w₀ (as ++ [.commit tx]) = pre ++ c :: (post ++ [⟨c.user, quotas⟩]) := by
    rw [updates, System.trace_concat hstep, ← updates, hsplit, Store.committed_of_upserted hx]
    simp
  have hlast : ∀ c' ∈ post ++ [⟨c.user, quotas⟩], c'.user = c.user → c'.quotas.get dim = none := by
    intro c' hc' huser
    rcases List.mem_append.mp hc' with hc' | hc'
    · exact hpost c' hc' huser
    · obtain rfl := List.mem_singleton.mp hc'
      exact hget
  -- It is the last one that has set this limit, and the row has the default.
  obtain ⟨row, hrow, hread⟩ := hcomposed pre c _ htrace dim _ hset hlast
  rw [System.run_append, System.run_cons, System.run_nil, System.next_eq_of_step hstep] at hrow
  have hafter := Store.quotaOf_commitUpserted (w := quotaStore.run w₀ as) tx c.user c.user quotas none
  rw [if_pos rfl, Store.quotaOf_of_some hrow] at hafter
  rw [hafter, after, Quotas.read_merge, hget, Option.getD_none, Option.getD_none] at hread
  exact hne hread

theorem upToDate_of_composed {a : Action} (h₀ : w₀.Initial)
    (hl : Store.Ledger w₀ (quotaStore.run w₀ as) (updates w₀ as)) (hcomposed : Composed w₀ (as ++ [a])) :
    UpToDate (quotaStore.run w₀ as) a := by
  cases a with
  | commit tx =>
    intro x hx
    cases x with
    | upserted user quotas existing =>
      cases existing with
      | none => exact by_contra fun hstale => not_composed_of_stale h₀ hl hx hstale hcomposed
      | some row => trivial
    | _ => trivial
  | _ => trivial

/-- Quota updates compose along a run exactly if every update that commits after it has found no row would write
the same over the row as it is. -/
theorem updates_compose_iff (h₀ : w₀.Initial) :
    (∀ bs cs, as = bs ++ cs → Composed w₀ bs) ↔ quotaStore.Guarded UpToDate w₀ as := by
  constructor
  · intro hall
    induction as using List.reverseRecOn with
    | nil => trivial
    | append_singleton as a ih =>
      have hG := ih fun bs cs hbs => hall bs (cs ++ [a]) (by rw [hbs, List.append_assoc])
      refine System.Guarded.append.mpr ⟨hG, ?_, trivial⟩
      exact upToDate_of_composed h₀ (Store.ledger_run h₀ hG) (hall _ [] (List.append_nil _).symm)
  · intro hG bs cs hbs
    rw [hbs, System.Guarded.append] at hG
    exact (Store.ledger_run h₀ hG.1).composed

/-- A user without a row. -/
def Store.fresh : Store := ⟨[1], .empty, .empty⟩

theorem Store.fresh_initial : Store.fresh.Initial := rfl

/-- Two administrators change different limits of the user. -/
def twoUpdates : List Action :=
  [.update 0 1 { maxDailyTasks := some (some 10) }, .update 1 1 { maxActiveTasks := some (some 7) }]

/-- The user has created a task before; the second update waits for the first one. -/
def updatesOfRow : List Action :=
  [.create 2 1, .ensure 2, .commit 2] ++ twoUpdates ++
    [.look 0, .look 1, .upsert 0, .look 1, .commit 0, .look 1, .upsert 1, .commit 1]

theorem updates_compose_updatesOfRow : Composed .fresh updatesOfRow :=
  (updates_compose_iff Store.fresh_initial).mpr (by decide +kernel) updatesOfRow [] (List.append_nil _).symm

/-- Both updates look before either has inserted the row. -/
def updatesOfNone : List Action :=
  twoUpdates ++ [.look 0, .look 1, .upsert 0, .upsert 1, .commit 0, .upsert 1, .commit 1]

/-- The second update takes the first one back. -/
theorem not_updates_compose : ¬ Composed .fresh updatesOfNone := by
  intro h
  obtain ⟨row, hrow, hread⟩ := h [] ⟨1, { maxDailyTasks := some 10 }⟩ [⟨1, { maxActiveTasks := some 7 }⟩]
    (by decide +kernel) .maxDailyTasks 10 rfl (by decide +kernel)
  have hlast : (quotaStore.run .fresh updatesOfNone).quotas.get? 1 = some { maxActiveTasks := 7 } := by
    decide +kernel
  rw [hlast] at hrow
  cases hrow
  cases hread

end Runs

end AgentCraft.Tasking.QuotaUpdates
