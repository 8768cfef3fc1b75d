import AgentCraft.Access.FinalSweep

/-!
# What the final sweep erases

The sweep enumerates the tables of an account by hand: the row of the user is overwritten and the providers are
deleted, but the MCP servers stay with their sealed commands. What a request writes that has been authenticated
before the deletion and commits after the sweep stays as well. Nothing else brings a secret of the account back.
-/

namespace AgentCraft.Access.FinalSweep

open AgentCraft.Relational AgentCraft.Transition

/-- The server keeps a sealed command. -/
def Transport.isSealed : Transport → Bool
  | .stdio _ _ => true
  | .http _ => false

/-- The write leaves a key, a sealed command, a TOTP secret or a password. -/
def Write.leavesSecret : Write → Bool
  | .createProvider _ _ => true
  | .createServer _ transport => transport.isSealed
  | .activateMfa _ => true
  | .changePassword _ => true
  | _ => false

/-- The password hash belongs to a password that somebody may know. -/
def PasswordHash.isUsable : PasswordHash → Bool
  | .chosen _ => true
  | .discarded _ => false

/-- The row of a deleted account. -/
structure Member.IsSpent (row : Member) : Prop where
  status : row.status = .deleted
  mfaSecretEnc : row.mfaSecretEnc = none
  passwordHash : row.passwordHash.isUsable = false

namespace Vault

/-- No row of the user holds a secret. -/
structure Erased (w : Vault) (u : UserId) : Prop where
  providers : ∀ id p, w.providers.get? id = some p → p.userId ≠ u
  servers : ∀ id s, w.servers.get? id = some s → s.ownerId = u → s.transport.isSealed = false
  member : ∀ row, w.users.get? u = some row → row.mfaSecretEnc = none ∧ row.passwordHash.isUsable = false

/-- Neither now nor later a row of the user holds a secret. -/
def StaysErased (w : Vault) (u : UserId) : Prop := ∀ as, (vault.run w as).Erased u

/-- The user has no server with a sealed command, and no request of the user that would leave a secret is still to
commit. -/
structure Clean (w : Vault) (u : UserId) : Prop where
  servers : ∀ id s, w.servers.get? id = some s → s.ownerId = u → s.transport.isSealed = false
  pending : ∀ request x, w.pending.get? request = some (u, x) → x.leavesSecret = false

/-- The row of the user and the providers as the sweep leaves them. -/
structure Buried (w : Vault) (u : UserId) : Prop where
  providers : ∀ id p, w.providers.get? id = some p → p.userId ≠ u
  member : ∃ row, w.users.get? u = some row ∧ row.IsSpent

variable {w w' : Vault} {u v : UserId} {randomHash : String}

theorem Buried.erased (h : w.Buried u) (hc : w.Clean u) : w.Erased u where
  providers := h.providers
  servers := hc.servers
  member := by
    intro row hrow
    obtain ⟨row', hrow', hspent⟩ := h.member
    rw [hrow'] at hrow
    cases hrow
    exact ⟨hspent.mfaSecretEnc, hspent.passwordHash⟩

/-! ## The sweep -/

theorem buried_of_anonymize (h : w.anonymize u randomHash = .ok w') : w'.Buried u := by
  obtain ⟨⟨row, hrow, -⟩, rfl⟩ := anonymize_eq_ok.mp h
  refine ⟨fun id p hp => ?_, w.anonymized u randomHash, Table.get?_set_self hrow _, ⟨rfl, rfl, rfl⟩⟩
  simp only [Table.get?_filter, Option.filter_eq_some_iff, decide_eq_true_eq] at hp
  exact hp.2

/-- The turn of another account leaves a deleted one alone. -/
theorem Buried.anonymize (hu : w.Buried u) (h : w.anonymize v randomHash = .ok w') : w'.Buried u := by
  obtain ⟨⟨row, hrow, hdeleting⟩, rfl⟩ := anonymize_eq_ok.mp h
  obtain ⟨row', hrow', hspent⟩ := hu.member
  have hne : u ≠ v := by
    rintro rfl
    rw [hrow] at hrow'
    cases hrow'
    rw [hspent.status] at hdeleting
    cases hdeleting
  refine ⟨fun id p hp => ?_, row', by rw [Table.get?_set_ne _ hne, hrow'], hspent⟩
  simp only [Table.get?_filter, Option.filter_eq_some_iff] at hp
  exact hu.providers id p hp.1

theorem clean_of_anonymize (h : w.anonymize v randomHash = .ok w') : w'.Clean u ↔ w.Clean u := by
  obtain ⟨-, rfl⟩ := anonymize_eq_ok.mp h
  exact ⟨fun hc => ⟨hc.servers, hc.pending⟩, fun hc => ⟨hc.servers, hc.pending⟩⟩

/-! ## The time after the sweep -/

/-- Rewriting the row of a user whose status it asks for. -/
theorem Buried.updateUser {p : UserStatus → Bool} {f : Member → Member} (hu : w.Buried u)
    (hf : ∀ row, v = u → p row.status = true → row.IsSpent → (f row).IsSpent)
    (h : w.updateUser v p f = .ok w') : w'.Buried u := by
  unfold Vault.updateUser at h
  split at h
  · cases h
  · next row hrow =>
    obtain ⟨hp, h⟩ := ite_ok_else_error.mp h
    cases h
    refine ⟨hu.providers, ?_⟩
    obtain ⟨row', hrow', hspent⟩ := hu.member
    by_cases huv : v = u
    · subst huv
      rw [hrow] at hrow'
      cases hrow'
      exact ⟨f row, Table.get?_set_self hrow _, hf row rfl hp hspent⟩
    · exact ⟨row', by rw [Table.get?_set_ne _ (Ne.symm huv), hrow'], hspent⟩

theorem Clean.updateUser {p : UserStatus → Bool} {f : Member → Member} (hu : w.Clean u)
    (h : w.updateUser v p f = .ok w') : w'.Clean u := by
  unfold Vault.updateUser at h
  split at h
  · cases h
  · obtain ⟨-, h⟩ := ite_ok_else_error.mp h
    cases h
    exact ⟨hu.servers, hu.pending⟩

/-- A transaction that asks for another status than `deleted` does not touch the row of a deleted user. -/
theorem Buried.updateUser_of_ne {p : UserStatus → Bool} {f : Member → Member} (hu : w.Buried u)
    (hp : p .deleted = false) (h : w.updateUser v p f = .ok w') : w'.Buried u := by
  refine hu.updateUser (fun row _ hrow hspent => ?_) h
  rw [hspent.status, hp] at hrow
  cases hrow

/-- The request of a user who is not deleted, or one that leaves no secret. -/
theorem Buried.write {id : ℕ} {x : Write} (hb : w.Buried u) (hx : v = u → x.leavesSecret = false)
    (h : w.write v id x = .ok w') : w'.Buried u := by
  cases x with
  | createProvider keyCiphertext dekWrapped =>
    obtain ⟨hnew, h⟩ := ite_error_eq_ok.mp h
    cases h
    refine ⟨fun id' p hp => ?_, hb.member⟩
    rcases Table.get?_insert_cases hp with hp | ⟨rfl, rfl⟩
    · exact hb.providers id' p hp
    · intro hvu
      cases hx hvu
  | rotateKey provider keyCiphertext dekWrapped =>
    cases h
    refine ⟨fun id' p hp => ?_, hb.member⟩
    simp only [Table.get?_map, Option.map_eq_some_iff] at hp
    obtain ⟨p', hp', rfl⟩ := hp
    split <;> exact hb.providers id' p' hp'
  | revokeProvider provider =>
    cases h
    refine ⟨fun id' p hp => ?_, hb.member⟩
    simp only [Table.get?_map, Option.map_eq_some_iff] at hp
    obtain ⟨p', hp', rfl⟩ := hp
    split <;> exact hb.providers id' p' hp'
  | createServer name transport =>
    obtain ⟨hnew, h⟩ := ite_error_eq_ok.mp h
    cases h
    exact ⟨hb.providers, hb.member⟩
  | renameServer server name =>
    cases h
    exact ⟨hb.providers, hb.member⟩
  | deleteServer server =>
    cases h
    exact ⟨hb.providers, hb.member⟩
  | activateMfa mfaSecretEnc =>
    rw [Vault.write] at h
    exact hb.updateUser (fun _ hvu => by cases hx hvu) h
  | disableMfa =>
    rw [Vault.write] at h
    refine hb.updateUser (fun row _ _ hspent => ?_) h
    exact ⟨hspent.status, rfl, hspent.passwordHash⟩
  | changePassword hash =>
    rw [Vault.write] at h
    exact hb.updateUser (fun _ hvu => by cases hx hvu) h
  | requestDeletion =>
    rw [Vault.write] at h
    have hb' : ({ w with sessions := w.revokeAll v } : Vault).Buried u := ⟨hb.providers, hb.member⟩
    exact hb'.updateUser_of_ne rfl h

theorem Clean.write {id : ℕ} {x : Write} (hc : w.Clean u) (hx : v = u → x.leavesSecret = false)
    (h : w.write v id x = .ok w') : w'.Clean u := by
  cases x with
  | createProvider keyCiphertext dekWrapped =>
    obtain ⟨-, h⟩ := ite_error_eq_ok.mp h
    cases h
    exact ⟨hc.servers, hc.pending⟩
  | rotateKey provider keyCiphertext dekWrapped =>
    cases h
    exact ⟨hc.servers, hc.pending⟩
  | revokeProvider provider =>
    cases h
    exact ⟨hc.servers, hc.pending⟩
  | createServer name transport =>
    obtain ⟨-, h⟩ := ite_error_eq_ok.mp h
    cases h
    refine ⟨fun id' s hs hu => ?_, hc.pending⟩
    rcases Table.get?_insert_cases hs with hs | ⟨rfl, rfl⟩
    · exact hc.servers id' s hs hu
    · exact hx hu
  | renameServer server name =>
    cases h
    refine ⟨fun id' s hs hu => ?_, hc.pending⟩
    simp only [Table.get?_map, Option.map_eq_some_iff] at hs
    obtain ⟨s', hs', rfl⟩ := hs
    split at hu <;> split <;> exact hc.servers id' s' hs' hu
  | deleteServer server =>
    cases h
    refine ⟨fun id' s hs hu => ?_, hc.pending⟩
    simp only [Table.get?_filter, Option.filter_eq_some_iff] at hs
    exact hc.servers id' s hs.1 hu
  | activateMfa mfaSecretEnc =>
    rw [Vault.write] at h
    exact hc.updateUser h
  | disableMfa =>
    rw [Vault.write] at h
    exact hc.updateUser h
  | changePassword hash =>
    rw [Vault.write] at h
    exact hc.updateUser h
  | requestDeletion =>
    rw [Vault.write] at h
    have hc' : ({ w with sessions := w.revokeAll v } : Vault).Clean u := ⟨hc.servers, hc.pending⟩
    exact hc'.updateUser h

/-- A deleted user is not authenticated. -/
theorem Buried.authenticated_ne {sid : SessionId} (hb : w.Buried u) (h : w.authenticated sid = some v) :
    v ≠ u := by
  obtain ⟨row', hrow', hspent⟩ := hb.member
  unfold authenticated at h
  split at h
  · cases h
  · next s hs =>
    split at h
    · cases h
    · next row hrow =>
      split at h
      · next hlive =>
        cases h
        rintro rfl
        rw [hrow] at hrow'
        cases hrow'
        rw [hspent.status] at hlive
        rcases hlive.2 with hlive | hlive <;> cases hlive
      · cases h

/-- No step gives a deleted user a secret if no request of the user is left that would. -/
theorem step_buried {a : Action} (hb : w.Buried u) (hc : w.Clean u) (h : w.step a = .ok w') :
    w'.Buried u ∧ w'.Clean u := by
  cases a with
  | tick micros =>
    cases h
    exact ⟨⟨hb.providers, hb.member⟩, ⟨hc.servers, hc.pending⟩⟩
  | register v email hash =>
    obtain ⟨hnew, h⟩ := ite_error_eq_ok.mp h
    cases h
    obtain ⟨row, hrow, hspent⟩ := hb.member
    have hnone : w.users.get? v = none := Option.not_isSome_iff_eq_none.mp hnew
    have hne : u ≠ v := by
      rintro rfl
      rw [hnone] at hrow
      cases hrow
    refine ⟨⟨hb.providers, row, ?_, hspent⟩, ⟨hc.servers, hc.pending⟩⟩
    rw [Table.get?_insert hnone, if_neg hne]
    exact hrow
  | verifyEmail v =>
    rw [Vault.step] at h
    exact ⟨hb.updateUser_of_ne rfl h, hc.updateUser h⟩
  | login sid v =>
    rw [Vault.step] at h
    split at h
    · cases h
    · obtain ⟨-, h⟩ := ite_error_eq_ok.mp h
      cases h
      exact ⟨⟨hb.providers, hb.member⟩, ⟨hc.servers, hc.pending⟩⟩
  | logout sid =>
    cases h
    exact ⟨⟨hb.providers, hb.member⟩, ⟨hc.servers, hc.pending⟩⟩
  | authenticate request sid x =>
    rw [Vault.step] at h
    split at h
    · cases h
    · next v hv =>
      obtain ⟨-, h⟩ := ite_error_eq_ok.mp h
      cases h
      refine ⟨⟨hb.providers, hb.member⟩, ⟨hc.servers, fun request' x' hx' => ?_⟩⟩
      rcases Table.get?_insert_cases hx' with hx' | ⟨-, heq⟩
      · exact hc.pending request' x' hx'
      · exact absurd (congrArg Prod.fst heq).symm (hb.authenticated_ne hv)
  | commit request id =>
    rw [Vault.step] at h
    split at h
    · cases h
    · next v x hx =>
      have hleaves : v = u → x.leavesSecret = false := by
        rintro rfl
        exact hc.pending request x hx
      refine ⟨Buried.write ?_ hleaves h, Clean.write ?_ hleaves h⟩
      · exact ⟨hb.providers, hb.member⟩
      · refine ⟨hc.servers, fun request' x' hx' => ?_⟩
        simp only [Table.get?_filter, Option.filter_eq_some_iff] at hx'
        exact hc.pending request' x' hx'.1
  | drop request =>
    cases h
    refine ⟨⟨hb.providers, hb.member⟩, ⟨hc.servers, fun request' x' hx' => ?_⟩⟩
    simp only [Table.get?_filter, Option.filter_eq_some_iff] at hx'
    exact hc.pending request' x' hx'.1
  | resetPassword v hash =>
    rw [Vault.step] at h
    refine ⟨Buried.updateUser_of_ne ?_ rfl h, Clean.updateUser ?_ h⟩
    · exact ⟨hb.providers, hb.member⟩
    · exact ⟨hc.servers, hc.pending⟩
  | cancelDeletion v sid =>
    rw [Vault.step] at h
    obtain ⟨-, h⟩ := ite_error_eq_ok.mp h
    refine ⟨Buried.updateUser_of_ne ?_ rfl h, Clean.updateUser ?_ h⟩
    · exact ⟨hb.providers, hb.member⟩
    · exact ⟨hc.servers, hc.pending⟩
  | suspend v =>
    rw [Vault.step] at h
    refine ⟨Buried.updateUser_of_ne ?_ rfl h, Clean.updateUser ?_ h⟩
    · exact ⟨hb.providers, hb.member⟩
    · exact ⟨hc.servers, hc.pending⟩
  | unsuspend v =>
    rw [Vault.step] at h
    exact ⟨hb.updateUser_of_ne rfl h, hc.updateUser h⟩
  | sweepUser v randomHash =>
    have hok := mapError_eq_ok.mp h
    exact ⟨hb.anonymize hok, (clean_of_anonymize hok).mpr hc⟩

/-! ## Runs -/

/-- A number that neither a provider nor a server has. -/
theorem exists_fresh (w : Vault) : ∃ id, w.providers.get? id = none ∧ w.servers.get? id = none := by
  obtain ⟨id, hid⟩ := Infinite.exists_notMem_finset
    (w.providers.rows.map Prod.fst ++ w.servers.rows.map Prod.fst).toFinset
  rw [List.mem_toFinset, List.mem_append, not_or] at hid
  exact ⟨id, Table.get?_eq_none_iff.mpr hid.1, Table.get?_eq_none_iff.mpr hid.2⟩

/-- The commit of a request that leaves a secret leaves one. -/
theorem not_erased_of_write {id : ℕ} {x : Write} (hb : w.Buried u) (hx : x.leavesSecret = true)
    (hp : w.providers.get? id = none) (hs : w.servers.get? id = none) :
    ∃ w', w.write u id x = .ok w' ∧ ¬ w'.Erased u := by
  obtain ⟨row, hrow, -⟩ := hb.member
  cases x with
  | createProvider keyCiphertext dekWrapped =>
    refine ⟨{ w with providers := w.providers.insert id ⟨u, keyCiphertext, dekWrapped, false⟩ }, ?_, ?_⟩
    · simp [Vault.write, hp]
    · intro he
      exact he.providers id ⟨u, keyCiphertext, dekWrapped, false⟩ (by simp [Table.get?_insert hp]) rfl
  | createServer name transport =>
    refine ⟨{ w with servers := w.servers.insert id ⟨u, name, transport⟩ }, ?_, ?_⟩
    · simp [Vault.write, hs]
    · intro he
      have hsealed := he.servers id ⟨u, name, transport⟩ (by simp [Table.get?_insert hs]) rfl
      rw [show transport.isSealed = true from hx] at hsealed
      cases hsealed
  | activateMfa mfaSecretEnc =>
    refine ⟨{ w with users := w.users.set u { row with mfaSecretEnc := some mfaSecretEnc } }, ?_, ?_⟩
    · simp [Vault.write, updateUser, hrow]
    · intro he
      cases (he.member _ (Table.get?_set_self hrow _)).1
  | changePassword hash =>
    refine ⟨{ w with users := w.users.set u { row with passwordHash := .chosen hash } }, ?_, ?_⟩
    · simp [Vault.write, updateUser, hrow]
    · intro he
      cases (he.member _ (Table.get?_set_self hrow _)).2
  | _ => cases hx

/-- A deleted account stays without secrets iff it has no server with a sealed command and no request that would
leave a secret. -/
theorem Buried.staysErased_iff (hb : w.Buried u) : w.StaysErased u ↔ w.Clean u := by
  constructor
  · intro he
    refine ⟨(he []).servers, fun request x hx => ?_⟩
    rw [← Bool.not_eq_true]
    intro hleaves
    obtain ⟨id, hp, hs⟩ := w.exists_fresh
    have hb' : ({ w with pending := w.pending.filter fun request' _ => request' ≠ request } : Vault).Buried u :=
      ⟨hb.providers, hb.member⟩
    obtain ⟨w', hw', hnot⟩ := not_erased_of_write hb' hleaves hp hs
    apply hnot
    have hstep : vault.step w (.commit request id) = .ok w' := by
      simp only [vault, Vault.step, hx]
      exact hw'
    have hrun := he [.commit request id]
    rwa [System.run_cons, System.next_eq_of_step hstep] at hrun
  · intro hc as
    have hinv : (vault.run w as).Buried u ∧ (vault.run w as).Clean u :=
      @System.invariant_run _ _ _ vault (fun w => w.Buried u ∧ w.Clean u)
        (fun _ _ _ hw h => step_buried hw.1 hw.2 h) _ as ⟨hb, hc⟩
    exact hinv.1.erased hinv.2

/-- After the sweep that has processed it an account stays without secrets iff before it the account has had no
server with a sealed command and no request that would leave a secret. -/
theorem sweepExpired_erases_iff {randomHash : UserId → String} {fails : UserId → Bool}
    (h : u ∈ (w.sweepExpired randomHash fails).processed) :
    (w.sweepExpired randomHash fails).state.StaysErased u ↔ w.Clean u := by
  have hturn (s s' : Vault) (v : UserId)
      (hs : (if fails v then .error .raised else s.anonymize v (randomHash v)) = Except.ok s') :
      s.anonymize v (randomHash v) = .ok s' := (ite_error_eq_ok.mp hs).2
  have hburied : (w.sweepExpired randomHash fails).state.Buried u := by
    unfold sweepExpired at h ⊢
    refine @sweep_of_mem_processed _ _ _ _ _ w _ (fun s => s.Buried u) u ?_ ?_ h
    · exact fun s s' hs => buried_of_anonymize (hturn s s' u hs)
    · exact fun s v s' hb hs => hb.anonymize (hturn s s' v hs)
  have hclean : (w.sweepExpired randomHash fails).state.Clean u ↔ w.Clean u := by
    unfold sweepExpired
    refine @sweep_invariant _ _ _ _ _ w _ (fun s => s.Clean u ↔ w.Clean u) ?_ Iff.rfl
    exact fun s v s' hc hs => (clean_of_anonymize (hturn s s' v hs)).trans hc
  rw [hburied.staysErased_iff, hclean]

/-! ### An account with a local server -/

/-- Nobody has registered. -/
def empty : Vault := ⟨.empty, .empty, .empty, .empty, .empty, 0⟩

/-- A user with a key, a TOTP secret and an MCP server asks for the deletion, and the grace period passes. -/
def deletedUser (transport : Transport) : Vault :=
  { vault.run empty [.register "u" "u@example.com" "h", .verifyEmail "u", .login 1 "u",
      .authenticate 1 1 (.createProvider "key" "dek"), .commit 1 1,
      .authenticate 2 1 (.activateMfa "totp"), .commit 2 0,
      .authenticate 3 1 (.createServer "tools" transport), .commit 3 1,
      .authenticate 4 1 .requestDeletion, .commit 4 0] with now := gracePeriod }

/-- With a server on the network nothing is left. -/
theorem sweepExpired_erases_network :
    ((deletedUser (.http "https://tools.example")).sweepExpired id fun _ => false).state.StaysErased "u" := by
  refine (sweepExpired_erases_iff (by decide +kernel)).mpr ⟨fun id s hs hu => ?_, fun request x hx => ?_⟩
  · have hall : ∀ r ∈ (deletedUser (.http "https://tools.example")).servers.rows,
        r.2.transport.isSealed = false := by decide +kernel
    exact hall (id, s) (Table.get?_eq_some_iff.mp hs)
  · have hnone : (deletedUser (.http "https://tools.example")).pending.rows = [] := by decide +kernel
    have hmem := Table.get?_eq_some_iff.mp hx
    rw [hnone] at hmem
    cases hmem

/-- The sealed command of a local server stays. -/
theorem not_sweepExpired_erases :
    "u" ∈ ((deletedUser (.stdio "command" "dek")).sweepExpired id fun _ => false).processed ∧
      ¬ ((deletedUser (.stdio "command" "dek")).sweepExpired id fun _ => false).state.StaysErased "u" := by
  refine ⟨by decide +kernel, fun he => ?_⟩
  have hsealed := (he []).servers 1 ⟨"u", "tools", .stdio "command" "dek"⟩ (by decide +kernel) rfl
  cases hsealed

end Vault

end AgentCraft.Access.FinalSweep
