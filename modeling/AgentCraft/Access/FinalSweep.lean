import AgentCraft.Access.Deletion
import AgentCraft.Transition.Sweep

/-!
# The final sweep

`sweep_expired` of `deletion_service.py`, with the tables of an account that hold secrets and the services that
write them. A request is authenticated first and writes in a transaction of its own later. The sweep scans for the
accounts whose grace period is over and processes them one after the other, each in one transaction.
-/

namespace AgentCraft.Access.FinalSweep

open AgentCraft.Relational AgentCraft.Transition

abbrev ProviderId := ℕ

abbrev ServerId := ℕ

abbrev RequestId := ℕ

/-- `password_hash`. Whether it is the hash of a password that somebody has chosen, or of a random token that
nobody has kept, is not in the source. -/
inductive PasswordHash
  | chosen (hash : String)
  | discarded (hash : String)
deriving DecidableEq, Repr

/-- `users`: the columns that authentication and deletion read and write. -/
structure Member where
  email : String
  passwordHash : PasswordHash
  status : UserStatus
  mfaSecretEnc : Option String
  deletedAt : Option Time
  deletionDeadlineAt : Option Time
deriving DecidableEq, Repr

/-- `user_providers`: a revoked row keeps its key. -/
structure UserProvider where
  userId : UserId
  keyCiphertext : String
  dekWrapped : String
  revoked : Bool
deriving DecidableEq, Repr

/-- `transport_payload`: the sealed command of a stdio server, or the address of an http server. -/
inductive Transport
  | stdio (commandEncrypted commandDekWrapped : String)
  | http (url : String)
deriving DecidableEq, Repr

/-- `user_mcp_servers`. -/
structure UserMcpServer where
  ownerId : UserId
  name : String
  transport : Transport
deriving DecidableEq, Repr

/-- `sessions`: the token itself is not stored. -/
structure SessionRow where
  userId : UserId
  revoked : Bool
deriving DecidableEq, Repr

/-- What an authenticated request writes. -/
inductive Write
  | createProvider (keyCiphertext dekWrapped : String)
  | rotateKey (provider : ProviderId) (keyCiphertext dekWrapped : String)
  | revokeProvider (provider : ProviderId)
  | createServer (name : String) (transport : Transport)
  | renameServer (server : ServerId) (name : String)
  | deleteServer (server : ServerId)
  | activateMfa (mfaSecretEnc : String)
  | disableMfa
  | changePassword (hash : String)
  | requestDeletion
deriving DecidableEq, Repr

/-- The tables, and the requests that have been authenticated and have not written yet. -/
structure Vault where
  users : Table UserId Member
  providers : Table ProviderId UserProvider
  servers : Table ServerId UserMcpServer
  sessions : Table SessionId SessionRow
  pending : Table RequestId (UserId × Write)
  now : Time

inductive Failure
  | problem (p : Problem)
  | notEnabled
deriving DecidableEq

/-- The labels of the system. -/
inductive Action
  | tick (micros : ℕ)
  | register (user : UserId) (email hash : String)
  /-- The user has followed the link of the verification mail. -/
  | verifyEmail (user : UserId)
  | login (session : SessionId) (user : UserId)
  | logout (session : SessionId)
  /-- A request passes `get_v2_auth`. -/
  | authenticate (request : RequestId) (session : SessionId) (write : Write)
  /-- The transaction of a request; `id` is that of a new row. -/
  | commit (request : RequestId) (id : ℕ)
  | drop (request : RequestId)
  /-- `confirm_password_reset`. -/
  | resetPassword (user : UserId) (hash : String)
  /-- `cancel_deletion`. -/
  | cancelDeletion (user : UserId) (session : SessionId)
  | suspend (user : UserId)
  | unsuspend (user : UserId)
  /-- The sweep processes an account. -/
  | sweepUser (user : UserId) (randomHash : String)
deriving DecidableEq

/-- What ends the transaction of an account without a commit. -/
inductive SweepError
  /-- The `UPDATE` has found no row: the deletion has been cancelled, and the loop goes on. -/
  | restored
  | raised
deriving DecidableEq, Repr

def SweepError.caught : SweepError → Bool
  | .restored => true
  | .raised => false

namespace Vault

variable (w : Vault)

/-- Rewrite the row of a user, if its status is right. -/
def updateUser (u : UserId) (p : UserStatus → Bool) (f : Member → Member) : Except Failure Vault :=
  match w.users.get? u with
  | none => .error .notEnabled
  | some row => if p row.status then .ok { w with users := w.users.set u (f row) } else .error .notEnabled

/-- `revoke_all`. -/
def revokeAll (u : UserId) : Table SessionId SessionRow :=
  w.sessions.map fun _ s => if s.userId = u then { s with revoked := true } else s

/-- `get_v2_auth`. -/
def authenticated (sid : SessionId) : Option UserId :=
  match w.sessions.get? sid with
  | none => none
  | some s =>
    match w.users.get? s.userId with
    | none => none
    | some row =>
      if s.revoked = false ∧ (row.status = .pending ∨ row.status = .active) then some s.userId else none

/-- The transaction of a request, which sees the rows of its user only. -/
def write (u : UserId) (id : ℕ) : Write → Except Failure Vault
  | .createProvider keyCiphertext dekWrapped =>
    if (w.providers.get? id).isSome then .error .notEnabled
    else .ok { w with providers := w.providers.insert id ⟨u, keyCiphertext, dekWrapped, false⟩ }
  | .rotateKey provider keyCiphertext dekWrapped =>
    .ok { w with
      providers := w.providers.map fun id' p =>
        if id' = provider ∧ p.userId = u then { p with keyCiphertext := keyCiphertext, dekWrapped := dekWrapped }
        else p }
  | .revokeProvider provider =>
    .ok { w with
      providers := w.providers.map fun id' p =>
        if id' = provider ∧ p.userId = u then { p with revoked := true } else p }
  | .createServer name transport =>
    if (w.servers.get? id).isSome then .error .notEnabled
    else .ok { w with servers := w.servers.insert id ⟨u, name, transport⟩ }
  | .renameServer server name =>
    .ok { w with
      servers := w.servers.map fun id' s =>
        if id' = server ∧ s.ownerId = u then { s with name := name } else s }
  | .deleteServer server =>
    .ok { w with servers := w.servers.filter fun id' s => !(id' = server && s.ownerId = u) }
  | .activateMfa mfaSecretEnc =>
    w.updateUser u (fun _ => true) fun row => { row with mfaSecretEnc := some mfaSecretEnc }
  | .disableMfa => w.updateUser u (fun _ => true) fun row => { row with mfaSecretEnc := none }
  | .changePassword hash =>
    w.updateUser u (fun _ => true) fun row => { row with passwordHash := .chosen hash }
  | .requestDeletion =>
    ({ w with sessions := w.revokeAll u } : Vault).updateUser u (· = .active) fun row =>
      { row with status := .deleting, deletionDeadlineAt := some (w.now + gracePeriod) }

/-- The accounts whose grace period is over. -/
def dueUsers : List UserId :=
  (w.users.rows.filter fun x =>
    x.2.status = .deleting && x.2.deletionDeadlineAt.any (· ≤ w.now)).map Prod.fst

/-- The row that `_ANONYMIZE_SQL` writes. -/
def anonymized (u : UserId) (randomHash : String) : Member :=
  ⟨"deleted+" ++ u ++ "@users.invalid", .discarded randomHash, .deleted, none, some w.now, none⟩

/-- The transaction of `sweep_expired` for one account: the row is anonymised, the providers are deleted and
the sessions revoked. -/
def anonymize (u : UserId) (randomHash : String) : Except SweepError Vault :=
  match w.users.get? u with
  | none => .error .restored
  | some row =>
    if row.status = .deleting then
      .ok { w with
        users := w.users.set u (w.anonymized u randomHash)
        providers := w.providers.filter fun _ p => p.userId ≠ u
        sessions := w.revokeAll u }
    else .error .restored

/-- `sweep_expired`; `fails` are the accounts whose transaction raises, for whatever reason. -/
def sweepExpired (randomHash : UserId → String) (fails : UserId → Bool) : Swept Vault UserId SweepError :=
  sweep (fun w u => if fails u then .error .raised else w.anonymize u (randomHash u)) SweepError.caught w
    w.dueUsers

/-- The step function. -/
def step : Action → Except Failure Vault
  | .tick micros => .ok { w with now := w.now + micros }
  | .register u email hash =>
    if (w.users.get? u).isSome then .error .notEnabled
    else .ok { w with users := w.users.insert u ⟨email, .chosen hash, .pending, none, none, none⟩ }
  | .verifyEmail u => w.updateUser u (· = .pending) fun row => { row with status := .active }
  | .login sid u =>
    match w.users.get? u with
    | none => .error .notEnabled
    | some row =>
      if (w.sessions.get? sid).isSome ∨ ¬ (row.status = .pending ∨ row.status = .active) then
        .error .notEnabled
      else .ok { w with sessions := w.sessions.insert sid ⟨u, false⟩ }
  | .logout sid => .ok { w with
      sessions := w.sessions.map fun sid' s => if sid' = sid then { s with revoked := true } else s }
  | .authenticate request sid x =>
    match w.authenticated sid with
    | none => .error (.problem Accounts.sessionExpired)
    | some u =>
      if (w.pending.get? request).isSome then .error .notEnabled
      else .ok { w with pending := w.pending.insert request (u, x) }
  | .commit request id =>
    match w.pending.get? request with
    | none => .error .notEnabled
    | some (u, x) =>
      ({ w with pending := w.pending.filter fun request' _ => request' ≠ request } : Vault).write u id x
  | .drop request => .ok { w with pending := w.pending.filter fun request' _ => request' ≠ request }
  | .resetPassword u hash =>
    ({ w with sessions := w.revokeAll u } : Vault).updateUser u
      (fun s => s = .active || s = .suspended || s = .deleting)
      fun row => { row with passwordHash := .chosen hash }
  | .cancelDeletion u sid =>
    if (w.sessions.get? sid).isSome then .error .notEnabled
    else
      ({ w with sessions := w.sessions.insert sid ⟨u, false⟩ } : Vault).updateUser u (· = .deleting)
        fun row => { row with status := .active, deletionDeadlineAt := none }
  | .suspend u =>
    ({ w with sessions := w.revokeAll u } : Vault).updateUser u (fun s => s = .active || s = .deleting)
      fun row => { row with status := .suspended, deletionDeadlineAt := none }
  | .unsuspend u => w.updateUser u (· = .suspended) fun row => { row with status := .active }
  | .sweepUser u randomHash => (w.anonymize u randomHash).mapError fun _ => .notEnabled

end Vault

/-- Accounts and their secrets. -/
def vault : System Vault Action Failure := ⟨Vault.step⟩

/-! ## One sweep -/

namespace Vault

variable {w w' : Vault} {u : UserId} {randomHash : String}

theorem anonymize_eq_ok : w.anonymize u randomHash = .ok w' ↔
    (∃ row, w.users.get? u = some row ∧ row.status = .deleting) ∧
      w' = { w with
        users := w.users.set u (w.anonymized u randomHash)
        providers := w.providers.filter fun _ p => p.userId ≠ u
        sessions := w.revokeAll u } := by
  unfold anonymize
  split
  · next hnone => simp [hnone]
  · next row hrow =>
    rw [ite_ok_else_error]
    simp [hrow, eq_comm]

/-- The scan finds every account once, and finds it deleting. -/
theorem nodup_dueUsers : w.dueUsers.Nodup :=
  w.users.nodup.sublist (List.filter_sublist.map Prod.fst)

theorem deleting_of_mem_dueUsers (h : u ∈ w.dueUsers) :
    ∃ row, w.users.get? u = some row ∧ row.status = .deleting := by
  obtain ⟨⟨u', row⟩, hmem, rfl⟩ := List.mem_map.mp h
  obtain ⟨hmem, hdue⟩ := List.mem_filter.mp hmem
  simp only [Bool.and_eq_true, decide_eq_true_eq] at hdue
  exact ⟨row, Table.get?_eq_some_iff.mpr hmem, hdue.1⟩

/-- Every account whose processing does not fail is processed iff in the order of the scan the failing accounts
come last. -/
theorem sweepExpired_processes_iff (w : Vault) (randomHash : UserId → String) (fails : UserId → Bool) :
    (∀ u ∈ w.dueUsers, fails u = false → u ∈ (w.sweepExpired randomHash fails).processed) ↔
      w.dueUsers.Pairwise fun u v => fails u = true → fails v = true := by
  have hiff := @forall_mem_processed_iff _ _ _
    (fun w u => if fails u then .error .raised else w.anonymize u (randomHash u)) SweepError.caught w w.dueUsers
    (fun w us => us.Nodup ∧ ∀ u ∈ us, ∃ row, w.users.get? u = some row ∧ row.status = .deleting)
    (fun u => fails u = true) ?_ ?_ ⟨nodup_dueUsers, fun u => deleting_of_mem_dueUsers⟩ nodup_dueUsers
  · simp only [Bool.not_eq_true] at hiff
    exact hiff
  · rintro w u us ⟨hnd, hdeleting⟩ hgood
    obtain ⟨hnot, hnd⟩ := List.nodup_cons.mp hnd
    obtain ⟨w', hw'⟩ : ∃ w', w.anonymize u (randomHash u) = .ok w' :=
      ⟨_, anonymize_eq_ok.mpr ⟨hdeleting u (List.mem_cons_self ..), rfl⟩⟩
    refine ⟨w', by rw [if_neg hgood, hw'], hnd, fun v hv => ?_⟩
    -- the turn of `u` leaves the rows of the others alone
    have hne : v ≠ u := fun heq => hnot (heq ▸ hv)
    obtain ⟨-, rfl⟩ := anonymize_eq_ok.mp hw'
    rw [Table.get?_set_ne _ hne]
    exact hdeleting v (List.mem_cons_of_mem _ hv)
  · intro w u us _ hbad
    exact ⟨.raised, by rw [if_pos hbad], rfl⟩

end Vault

end AgentCraft.Access.FinalSweep
