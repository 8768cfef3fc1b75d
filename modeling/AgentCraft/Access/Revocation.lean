import AgentCraft.Access.Accounts
import AgentCraft.Access.Challenges

/-!
# What a revocation cuts

Once a revocation has been committed, no session that is older than it, or that comes from an older
password check or challenge, should be accepted again. The statement of a revocation sees the sessions
that exist when it runs. A login that has passed its check, and a challenge that waits for its code, are
not sessions yet, and nothing compares them with the revocations when they become one. The invariant
holds in the runs in which that does not happen.
-/

namespace AgentCraft.Access

open AgentCraft.Relational AgentCraft.Transition

namespace Accounts

/-- The revocations committed since the check that a session comes from have left it: they keep it, or
are of another user. -/
def Spared (w : Accounts) (sid : SessionId) (s : SessionRow) : Prop :=
  ∀ r ∈ w.log.drop s.checked, r.user = s.userId → r.cause.keep = some sid

/-- `get_v2_auth` accepts only sessions that no committed revocation had to cut. -/
def Cut (w : Accounts) : Prop :=
  ∀ sid s row, w.getV2Auth sid = .ok (s, row) → w.Spared sid s

/-- The user of the session that `finish` creates, and how old its check is. -/
def opening (w : Accounts) (id : OpId) : Option (UserId × ℕ) :=
  match w.ops.get? id with
  | some ⟨.login, .passed u, n⟩ => some (u, n)
  | some ⟨.loginMfa .., .passed u, n⟩ => some (u, n)
  | some ⟨.cancelDeletion, .passed u, n⟩ =>
    if w.userLocked u = false ∧ (w.users.get? u).any (·.status = .deleting) then some (u, n) else none
  | _ => none

/-- A session is created only if no revocation of its user has been committed since its check, and a
revocation is committed only if no session of its user that is younger than its statement is alive. -/
def InTime (w : Accounts) : AccountAction → Prop
  | .finish id => ∀ x ∈ w.opening id, ∀ r ∈ w.log.drop x.2, r.user ≠ x.1
  | .commit r => ∀ x ∈ w.sessions.rows, r.before ≤ x.1 → x.2.userId = r.user → x.2.revoked = true
  | _ => True

instance (w : Accounts) (a : AccountAction) : Decidable (w.InTime a) := by
  unfold InTime
  split <;> infer_instance

end Accounts

/-! ## What a step does to the sessions -/

/-- The same session later. -/
structure SessionRow.Becomes (s s' : SessionRow) : Prop where
  userId : s'.userId = s.userId
  checked : s'.checked = s.checked
  revoked : s'.revoked = false → s.revoked = false

theorem SessionRow.Becomes.refl (s : SessionRow) : s.Becomes s := ⟨rfl, rfl, id⟩

/-- What a step does to the sessions and to the revocations. -/
inductive SessionMove (w : Accounts) : AccountAction → Accounts → Prop
  /-- The sessions that there are go on; a transaction may end without a trace. -/
  | kept {a : AccountAction} {w' : Accounts}
      (hsessions : ∀ sid s', w'.sessions.get? sid = some s' →
        ∃ s, w.sessions.get? sid = some s ∧ s.Becomes s')
      (hnext : w'.nextSession = w.nextSession) (hrevoking : ∀ r ∈ w'.revoking, r ∈ w.revoking)
      (hlog : w'.log = w.log) : SessionMove w a w'
  /-- A session is created from a check with its age. -/
  | created {a : AccountAction} {w' : Accounts} (s : SessionRow)
      (hsessions : w'.sessions = w.sessions.insert w.nextSession s)
      (hchecked : s.checked = w.log.length ∨
        ∃ id, a = .finish id ∧ w.opening id = some (s.userId, s.checked))
      (hnext : w'.nextSession = w.nextSession + 1) (hrevoking : w'.revoking = w.revoking)
      (hlog : w'.log = w.log) : SessionMove w a w'
  /-- The statement of a revocation has run. -/
  | revoking {a : AccountAction} (u : UserId) (cause : RevokeCause) :
      SessionMove w a
        { w with revoking := ⟨u, cause, w.revocable u cause.keep, w.nextSession⟩ :: w.revoking }
  /-- A revocation commits. -/
  | committed {w' : Accounts} (r : Revocation) (hr : r ∈ w.revoking)
      (hsessions : w'.sessions =
        w.sessions.map fun sid s => if sid ∈ r.found then { s with revoked := true } else s)
      (hnext : w'.nextSession = w.nextSession) (hrevoking : ∀ r' ∈ w'.revoking, r' ∈ w.revoking)
      (hlog : w'.log = w.log ++ [r]) : SessionMove w (.commit r) w'

section Moves

variable {P : Primitives} {w w' : Accounts} {a : AccountAction} {id : OpId} {op : AccountOp}

/-- The sessions stay as they are. -/
theorem SessionMove.of_eq (hsessions : w'.sessions = w.sessions) (hnext : w'.nextSession = w.nextSession)
    (hrevoking : w'.revoking = w.revoking) (hlog : w'.log = w.log) : SessionMove w a w' := by
  refine .kept (fun sid s' hs => ⟨s', ?_, .refl s'⟩) hnext (fun r hr => hrevoking ▸ hr) hlog
  rw [← hsessions]
  exact hs

/-- The sessions are rewritten one by one. -/
theorem SessionMove.of_map {f : SessionId → SessionRow → SessionRow}
    (hsessions : w'.sessions = w.sessions.map f) (hf : ∀ sid (s : SessionRow), s.Becomes (f sid s))
    (hnext : w'.nextSession = w.nextSession) (hrevoking : w'.revoking = w.revoking)
    (hlog : w'.log = w.log) : SessionMove w a w' := by
  refine .kept (fun sid s' hs => ?_) hnext (fun r hr => hrevoking ▸ hr) hlog
  rw [hsessions, Table.get?_map, Option.map_eq_some_iff] at hs
  obtain ⟨s, hs, rfl⟩ := hs
  exact ⟨s, hs, hf sid s⟩

theorem Accounts.stamp_becomes (u : UserId) (sid sid' : SessionId) (now : Time) (s : SessionRow) :
    s.Becomes (if sid' = sid && s.userId = u && !s.revoked then
      { s with mfaVerifiedAt := some now } else s) := by
  split
  · exact ⟨rfl, rfl, fun h => h⟩
  · exact .refl s

theorem Accounts.test_sessions (u : UserId) : SessionMove w a (w.test P id op u) := by
  unfold Accounts.test
  split
  · split <;> exact .of_eq rfl rfl rfl rfl
  · split <;> exact .of_eq rfl rfl rfl rfl
  · exact .of_eq rfl rfl rfl rfl

theorem Accounts.refuse_sessions (limited : Bool) : SessionMove w a (w.refuse id op limited) := by
  unfold Accounts.refuse
  split
  · split <;> exact .of_eq rfl rfl rfl rfl
  · exact .of_eq rfl rfl rfl rfl

theorem Accounts.advance_sessions (hop : w.ops.get? id = some op) (ha : a.op? = some id)
    (h : w.advance P id op a = .ok w') : SessionMove w a w' := by
  cases a with
  | test _ =>
    obtain ⟨call, stage, n⟩ := op
    cases stage with
    | reading u =>
      cases h
      exact Accounts.test_sessions u
    | _ => cases h
  | refuse _ limited =>
    obtain ⟨call, stage, n⟩ := op
    cases stage with
    | wrong u =>
      cases h
      exact Accounts.refuse_sessions limited
    | _ => cases h
  | finish _ =>
    cases ha
    obtain ⟨call, stage, n⟩ := op
    cases stage with
    | passed u =>
      cases call with
      | login =>
        cases h
        exact .created ⟨u, _, _, _, false, n⟩ rfl (.inr ⟨_, rfl, by simp [opening, hop]⟩) rfl rfl rfl
      | loginMfa t code =>
        cases h
        exact .created ⟨u, _, _, _, false, n⟩ rfl (.inr ⟨_, rfl, by simp [opening, hop]⟩) rfl rfl rfl
      | verifyMfa sid code =>
        obtain ⟨-, h⟩ := ite_error_eq_ok.mp h
        cases h
        exact .of_map rfl (fun sid' s => Accounts.stamp_becomes u sid sid' w.now s) rfl rfl rfl
      | activateMfa sid code => cases h
      | disableMfa sid =>
        obtain ⟨-, h⟩ := ite_error_eq_ok.mp h
        cases h
        exact .of_eq rfl rfl rfl rfl
      | cancelDeletion =>
        obtain ⟨hlocked, h⟩ := ite_error_eq_ok.mp h
        split at h
        · next hstatus =>
          cases h
          refine .created ⟨u, _, _, _, false, n⟩ rfl (.inr ⟨_, rfl, ?_⟩) rfl rfl rfl
          simp only [opening, hop]
          rw [if_pos ⟨by simpa using hlocked, hstatus⟩]
        · cases h
          exact .of_eq rfl rfl rfl rfl
    | _ => cases call <;> cases h
  | enrol _ envelope =>
    obtain ⟨call, stage, n⟩ := op
    cases call with
    | activateMfa sid code =>
      cases stage with
      | enrolling u secret =>
        obtain ⟨-, h⟩ := ite_ok_else_error.mp h
        cases h
        exact .of_map rfl (fun sid' s => Accounts.stamp_becomes u sid sid' w.now s) rfl rfl rfl
      | _ => cases h
    | _ => cases h
  | pop _ =>
    obtain ⟨call, stage, n⟩ := op
    cases stage with
    | enrolled u =>
      cases h
      exact .of_eq rfl rfl rfl rfl
    | _ => cases h
  | _ => cases ha

theorem Accounts.refresh_becomes (sid sid' : SessionId) (now : Time) (s : SessionRow) :
    s.Becomes (if sid' = sid && !s.revoked && s.expiresAt < now + refreshThreshold then
      { s with expiresAt := min (now + sessionTtl) (s.createdAt + sessionAbsolute) } else s) := by
  split
  · exact ⟨rfl, rfl, fun h => h⟩
  · exact .refl s

theorem Accounts.revokeOne_becomes (u : UserId) (sid sid' : SessionId) (s : SessionRow) :
    s.Becomes (if sid' = sid && s.userId = u then { s with revoked := true } else s) := by
  split
  · exact ⟨rfl, rfl, fun h => absurd h (by simp)⟩
  · exact .refl s

theorem Accounts.login_sessions {email password : String}
    (h : w.login P id email password = .ok w') : SessionMove w a w' := by
  unfold Accounts.login at h
  split at h
  · cases h
  · obtain ⟨-, h⟩ := ite_error_eq_ok.mp h
    obtain ⟨-, h⟩ := ite_error_eq_ok.mp h
    obtain ⟨-, h⟩ := ite_error_eq_ok.mp h
    obtain ⟨-, h⟩ := ite_error_eq_ok.mp h
    split at h
    · cases h
      exact .of_eq rfl rfl rfl rfl
    · cases h
      exact .of_eq rfl rfl rfl rfl

theorem Accounts.loginMfa_sessions {t : Token} {code : String}
    (h : w.loginMfa id t code = .ok w') : SessionMove w a w' := by
  unfold Accounts.loginMfa at h
  split at h
  · cases h
  · cases h
    exact .of_eq rfl rfl rfl rfl

theorem Accounts.activateMfa_sessions {u : UserId} {sid : SessionId} {code : String}
    (h : w.activateMfa P id u sid code = .ok w') : SessionMove w a w' := by
  unfold Accounts.activateMfa at h
  split at h
  · cases h
  · cases h
    exact .of_eq rfl rfl rfl rfl

/-- The steps that write the status of a user under his lock. -/
theorem Accounts.statusWrite_sessions {o : Option Account} {p : Account → Prop}
    [∀ row, Decidable (p row)] {u : UserId} {status : UserStatus}
    (h : (match o with
      | none => .error .notEnabled
      | some row =>
        if p row then .ok (w.setStatus u status) else .error .notEnabled) =
        (.ok w' : Except PortalFailure Accounts)) : SessionMove w a w' := by
  cases o with
  | none => cases h
  | some row =>
    obtain ⟨-, h⟩ := ite_ok_else_error.mp h
    cases h
    exact .of_eq rfl rfl rfl rfl

theorem Accounts.perform_sessions (h : w.perform P a = .ok w') : SessionMove w a w' := by
  cases a with
  | tick d =>
    cases h
    exact .of_eq rfl rfl rfl rfl
  | login id email password => exact Accounts.login_sessions (mapError_eq_ok.mp h)
  | loginMfa id t code => exact Accounts.loginMfa_sessions (mapError_eq_ok.mp h)
  | verifyMfa id sid code =>
    obtain ⟨⟨s, row⟩, -, h⟩ := bind_eq_ok.mp h
    cases h
    exact .of_eq rfl rfl rfl rfl
  | setupMfa sid secret =>
    obtain ⟨⟨s, row⟩, -, h⟩ := bind_eq_ok.mp h
    cases h
    exact .of_eq rfl rfl rfl rfl
  | activateMfa id sid code =>
    obtain ⟨⟨s, row⟩, -, h⟩ := bind_eq_ok.mp h
    exact Accounts.activateMfa_sessions (mapError_eq_ok.mp h)
  | disableMfa id sid =>
    obtain ⟨⟨s, row⟩, -, h⟩ := bind_eq_ok.mp h
    obtain ⟨-, h⟩ := ite_error_eq_ok.mp h
    cases h
    exact .of_eq rfl rfl rfl rfl
  | revoke u cause =>
    simp only [Accounts.perform] at h
    cases hu : w.users.get? u with
    | none =>
      simp only [hu] at h
      cases h
    | some row =>
      simp only [hu] at h
      obtain ⟨-, h⟩ := ite_ok_else_error.mp h
      cases h
      exact .revoking u cause
  | commit r =>
    obtain ⟨hr, h⟩ := ite_ok_else_error.mp h
    cases h
    exact .committed r hr rfl rfl (fun r' hr' => List.mem_of_mem_erase hr') rfl
  | rollBack r =>
    cases h
    exact .kept (fun sid s hs => ⟨s, hs, .refl s⟩) rfl (fun r' hr' => List.mem_of_mem_erase hr') rfl
  | endSession sid target =>
    obtain ⟨⟨s, row⟩, -, h⟩ := bind_eq_ok.mp h
    obtain ⟨-, h⟩ := ite_error_eq_ok.mp h
    cases h
    exact .of_map rfl (fun sid' s' => Accounts.revokeOne_becomes s.userId target sid' s') rfl rfl rfl
  | suspend u => exact Accounts.statusWrite_sessions h
  | unsuspend u => exact Accounts.statusWrite_sessions h
  | confirmEmail u => exact Accounts.statusWrite_sessions h
  | cancelDeletion id u password =>
    simp only [Accounts.perform] at h
    cases hu : w.users.get? u with
    | none =>
      simp only [hu] at h
      cases h
    | some row =>
      simp only [hu] at h
      obtain ⟨-, h⟩ := ite_error_eq_ok.mp h
      obtain ⟨-, h⟩ := ite_ok_else_error.mp h
      cases h
      exact .of_eq rfl rfl rfl rfl
  | accept u email password =>
    simp only [Accounts.perform] at h
    cases hu : w.users.get? u with
    | some row =>
      simp only [hu] at h
      cases h
    | none =>
      simp only [hu] at h
      obtain ⟨-, h⟩ := ite_error_eq_ok.mp h
      cases h
      exact .created ⟨u, _, _, _, false, w.log.length⟩ rfl (.inl rfl) rfl rfl rfl
  | access sid =>
    obtain ⟨⟨s, row⟩, -, h⟩ := bind_eq_ok.mp h
    cases h
    exact .of_map rfl (fun sid' s' => Accounts.refresh_becomes sid sid' w.now s') rfl rfl rfl
  | _ => cases h

/-- Every step moves the sessions in one of these ways. -/
theorem Accounts.step_sessions (h : w.step P a = .ok w') : SessionMove w a w' := by
  unfold Accounts.step at h
  cases ha : a.op? with
  | some id =>
    simp only [ha] at h
    cases hop : w.ops.get? id with
    | none =>
      simp only [hop] at h
      cases h
    | some op =>
      simp only [hop] at h
      exact Accounts.advance_sessions hop ha h
  | none =>
    simp only [ha] at h
    cases hb : a.begins?.bind w.ops.get? with
    | some op =>
      simp only [hb] at h
      cases h
    | none =>
      simp only [hb] at h
      exact Accounts.perform_sessions h

end Moves

/-! ## The invariant -/

/-- No revocation in the log had to cut a session that is alive, and the open ones have found the
sessions that they have to cut. -/
structure Accounts.Severed (w : Accounts) : Prop where
  spared : ∀ sid s, w.sessions.get? sid = some s → s.revoked = false → w.Spared sid s
  found : ∀ r ∈ w.revoking, ∀ sid s, w.sessions.get? sid = some s → s.revoked = false →
    s.userId = r.user → sid < r.before → sid ∈ r.found ∨ r.cause.keep = some sid
  before : ∀ r ∈ w.revoking, r.before ≤ w.nextSession
  fresh : ∀ sid s, w.sessions.get? sid = some s → sid < w.nextSession

section Invariant

variable {P : Primitives} {w w' : Accounts} {a : AccountAction}

theorem Accounts.Severed.initial (h₀ : w.Initial) : w.Severed where
  spared := by simp [h₀.sessions]
  found := by simp [h₀.sessions]
  before := by simp [h₀.revoking]
  fresh := by simp [h₀.sessions]

/-- The statement of a revocation finds every session of the user that is alive, up to the one that it
keeps. -/
theorem Accounts.mem_revocable {u : UserId} {keep : Option SessionId} {sid : SessionId} {s : SessionRow}
    (hs : w.sessions.get? sid = some s) (halive : s.revoked = false) (hu : s.userId = u) :
    sid ∈ w.revocable u keep ∨ keep = some sid := by
  by_cases hkeep : keep = some sid
  · exact .inr hkeep
  · refine .inl (List.mem_map.mpr ⟨(sid, s), List.mem_filter.mpr ⟨Table.get?_eq_some_iff.mp hs, ?_⟩, rfl⟩)
    simp [hu, halive, Ne.symm hkeep]

/-- The guard on `commit`, for a session that is looked up. -/
theorem Accounts.InTime.commit {r : Revocation} (hG : w.InTime (.commit r)) {sid : SessionId}
    {s : SessionRow} (hs : w.sessions.get? sid = some s) (hu : s.userId = r.user)
    (halive : s.revoked = false) : sid < r.before := by
  by_contra hle
  have hrevoked := hG (sid, s) (Table.get?_eq_some_iff.mp hs) (Nat.not_lt.mp hle) hu
  rw [halive] at hrevoked
  cases hrevoked

theorem Accounts.Severed.step (hw : w.Severed) (hG : w.InTime a) (h : w.step P a = .ok w') :
    w'.Severed := by
  cases Accounts.step_sessions h with
  | kept hsessions hnext hrevoking hlog =>
    constructor
    · intro sid s' hs' halive r hr hu
      obtain ⟨s, hs, hb⟩ := hsessions sid s' hs'
      rw [hlog, hb.checked] at hr
      exact hw.spared sid s hs (hb.revoked halive) r hr (hu.trans hb.userId)
    · intro r hr sid s' hs' halive hu hlt
      obtain ⟨s, hs, hb⟩ := hsessions sid s' hs'
      exact hw.found r (hrevoking r hr) sid s hs (hb.revoked halive) (hb.userId ▸ hu) hlt
    · intro r hr
      rw [hnext]
      exact hw.before r (hrevoking r hr)
    · intro sid s' hs'
      obtain ⟨s, hs, -⟩ := hsessions sid s' hs'
      rw [hnext]
      exact hw.fresh sid s hs
  | created s hsessions hchecked hnext hrevoking hlog =>
    have hfree : w.sessions.get? w.nextSession = none := by
      by_contra hsome
      obtain ⟨s', hs'⟩ := Option.ne_none_iff_exists'.mp hsome
      exact Nat.lt_irrefl _ (hw.fresh _ _ hs')
    -- A session is the new one or was there before.
    have hcases : ∀ sid s', w'.sessions.get? sid = some s' →
        sid = w.nextSession ∧ s' = s ∨ w.sessions.get? sid = some s' := by
      intro sid s' hs'
      rw [hsessions, Table.get?_insert hfree] at hs'
      split at hs'
      · next hsid => exact .inl ⟨hsid, (Option.some.inj hs').symm⟩
      · exact .inr hs'
    constructor
    · intro sid s' hs' halive r hr hu
      rw [hlog] at hr
      obtain ⟨rfl, rfl⟩ | hs := hcases sid s' hs'
      · rcases hchecked with hnow | ⟨id, rfl, hopening⟩
        · rw [hnow, List.drop_length] at hr
          cases hr
        · exact absurd hu (hG _ hopening r hr)
      · exact hw.spared sid s' hs halive r hr hu
    · intro r hr sid s' hs' halive hu hlt
      rw [hrevoking] at hr
      obtain ⟨rfl, rfl⟩ | hs := hcases sid s' hs'
      · exact absurd hlt (Nat.not_lt.mpr (hw.before r hr))
      · exact hw.found r hr sid s' hs halive hu hlt
    · intro r hr
      rw [hrevoking] at hr
      rw [hnext]
      exact (hw.before r hr).trans (Nat.le_succ _)
    · intro sid s' hs'
      rw [hnext]
      obtain ⟨rfl, -⟩ | hs := hcases sid s' hs'
      · exact Nat.lt_succ_self _
      · exact (hw.fresh sid s' hs).trans (Nat.lt_succ_self _)
  | revoking u cause =>
    constructor
    · exact hw.spared
    · intro r hr sid s hs halive hu hlt
      rcases List.mem_cons.mp hr with rfl | hr
      · exact Accounts.mem_revocable hs halive hu
      · exact hw.found r hr sid s hs halive hu hlt
    · intro r hr
      rcases List.mem_cons.mp hr with rfl | hr
      · exact Nat.le_refl _
      · exact hw.before r hr
    · exact hw.fresh
  | committed r hr hsessions hnext hrevoking hlog =>
    -- A session that is alive afterwards was alive before and is not one that the statement found.
    have hcases : ∀ sid s', w'.sessions.get? sid = some s' → s'.revoked = false →
        w.sessions.get? sid = some s' ∧ sid ∉ r.found := by
      intro sid s' hs' halive
      rw [hsessions, Table.get?_map, Option.map_eq_some_iff] at hs'
      obtain ⟨s, hs, rfl⟩ := hs'
      split at halive
      · cases halive
      · next hfound =>
        rw [if_neg hfound]
        exact ⟨hs, hfound⟩
    constructor
    · intro sid s' hs' halive r' hr' hu
      obtain ⟨hs, hfound⟩ := hcases sid s' hs' halive
      rw [hlog, List.drop_append] at hr'
      rcases List.mem_append.mp hr' with hold | hnew
      · exact hw.spared sid s' hs halive r' hold hu
      · obtain rfl := List.mem_singleton.mp (List.mem_of_mem_drop hnew)
        exact (hw.found r' hr sid s' hs halive hu.symm (hG.commit hs hu.symm halive)).resolve_left hfound
    · intro r' hr' sid s' hs' halive hu hlt
      exact hw.found r' (hrevoking r' hr') sid s' (hcases sid s' hs' halive).1 halive hu hlt
    · intro r' hr'
      rw [hnext]
      exact hw.before r' (hrevoking r' hr')
    · intro sid s' hs'
      rw [hsessions, Table.get?_map, Option.map_eq_some_iff] at hs'
      obtain ⟨s, hs, -⟩ := hs'
      rw [hnext]
      exact hw.fresh sid s hs

theorem Accounts.Severed.cut (hw : w.Severed) : w.Cut := by
  intro sid s row h
  obtain ⟨hs, halive, -⟩ := Accounts.getV2Auth_eq_ok h
  exact hw.spared sid s hs halive

end Invariant

/-! ## Runs -/

section Runs

variable {P : Primitives} {w₀ : Accounts} {as : List AccountAction}

/-- When every session is created in time, a revocation cuts all old access. -/
theorem cut_of_run (h₀ : w₀.Initial) (hG : (accounts P).Guarded Accounts.InTime w₀ as) :
    ((accounts P).run w₀ as).Cut :=
  (System.invariant_run_of_guarded (S := accounts P) (fun _ _ _ hw hG h => hw.step hG h)
    (Accounts.Severed.initial h₀) hG).cut

/-- One user with a second factor. -/
def Accounts.small : Accounts where
  users := Table.empty.insert "u" ⟨⟨"u@example.com", "password", .active, some "right"⟩, .user⟩
  sessions := .empty
  challenges := .empty
  issued _ := 0
  pending := .empty
  ops := .empty
  revoking := []
  log := []
  nextToken := 0
  nextSession := 0
  now := 0

theorem Accounts.small_initial : Accounts.small.Initial := ⟨rfl, rfl, rfl, rfl, rfl, rfl⟩

/-- A login with its second factor, from the challenge on. -/
def rightLogin (id : OpId) (t : Token) : List AccountAction :=
  [.loginMfa id t "right", .test id, .finish id]

/-- A password reset of the user, with the sessions that its statement finds. -/
def passwordReset (found : List SessionId) (before : SessionId) : List AccountAction :=
  [.revoke "u" (.reset "new"), .commit ⟨"u", .reset "new", found, before⟩]

/-- The user logs in, his password is reset, and he logs in with the new one. -/
theorem cut_of_run_reset : ((accounts .plain).run .small
    (.login 0 "u@example.com" "password" :: rightLogin 0 0 ++ passwordReset [0] 1 ++
      .login 1 "u@example.com" "new" :: rightLogin 1 1)).Cut :=
  cut_of_run Accounts.small_initial (by decide +kernel)

/-- A challenge is issued for the old password; after the reset its code opens a session. -/
theorem not_cut_of_challenge : ¬ ((accounts .plain).run .small
    (.login 0 "u@example.com" "password" :: passwordReset [] 0 ++ rightLogin 0 0)).Cut := by
  intro h
  have haccepted : ((accounts .plain).run .small
      (.login 0 "u@example.com" "password" :: passwordReset [] 0 ++ rightLogin 0 0)).getV2Auth 0 =
      .ok (⟨"u", 0, sessionTtl, some 0, false, 0⟩,
        ⟨⟨"u@example.com", "new", .active, some "right"⟩, .user⟩) := by
    decide +kernel
  exact absurd (h 0 _ _ haccepted ⟨"u", .reset "new", [], 0⟩ (by decide +kernel) rfl) (by decide)

end Runs

end AgentCraft.Access
