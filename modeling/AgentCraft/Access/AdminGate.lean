import AgentCraft.Access.Revocation
import AgentCraft.Transition.Trace

/-!
# The second factor of administrators

`get_v2_admin_auth` asks for an enrolled secret and for a stamp on the session that is at most twelve
hours old. Three operations stamp: `login_mfa` and `verify_mfa` after a code for the enrolled secret, and
`activate_mfa` after a code for the pending secret, which it enrols in the same transaction. So a stamp
tells of a right code, but it is counted from the transaction that sets it, not from the code; and who has
a session can replace the secret without a code for the old one, as the source accepts.
-/

namespace AgentCraft.Access

open AgentCraft.Relational AgentCraft.Transition

/-- What an observer writes down. -/
inductive AdminMark
  /-- `login_mfa` or `verify_mfa` tests a code against the secret of the account. -/
  | tested (id : OpId) (user : UserId) (secret code : String) (time : Time)
  /-- `activate_mfa` tests a code against the pending secret. -/
  | tried (id : OpId) (user : UserId) (secret code : String) (time : Time)
  /-- `activate_mfa` enrols the secret and stamps the session, if it is still there. -/
  | enrolled (id : OpId) (user : UserId) (secret : String) (session : Option SessionId) (time : Time)
  /-- The account has no secret any more. -/
  | cleared (user : UserId)
  /-- `login_mfa` or `verify_mfa` stamps a session. -/
  | stamped (id : OpId) (session : SessionId) (user : UserId) (time : Time)
  /-- `get_v2_admin_auth` admits a request. -/
  | admitted (session : SessionId) (user : UserId) (time : Time)
deriving DecidableEq

/-- The code that an operation tests against the secret of the account. -/
def AccountCall.code? : AccountCall → Option String
  | .loginMfa _ code => some code
  | .verifyMfa _ code => some code
  | _ => none

namespace Accounts

/-- The statement that stamps a session finds it. -/
def stampable (w : Accounts) (u : UserId) (sid : SessionId) : Bool :=
  (w.sessions.get? sid).any fun s => s.userId = u && !s.revoked

variable (P : Primitives) (w : Accounts)

/-- The marks of the steps of an operation in progress. -/
def opMarks (id : OpId) (op : AccountOp) : AccountAction → List AdminMark
  | .test _ =>
    match op.stage, op.call.code? with
    | .reading u, some code => (w.secretOf P u).toList.map fun secret => .tested id u secret code w.now
    | _, _ => []
  | .finish _ =>
    match op.call, op.stage with
    | .loginMfa .., .passed u => [.stamped id w.nextSession u w.now]
    | .verifyMfa sid _, .passed u => if w.stampable u sid then [.stamped id sid u w.now] else []
    | .disableMfa _, .passed u => [.cleared u]
    | _, _ => []
  | .enrol .. =>
    match op.call, op.stage with
    | .activateMfa sid _, .enrolling u secret =>
      [.enrolled id u secret (if w.stampable u sid then some sid else none) w.now]
    | _, _ => []
  | _ => []

/-- The marks of the other steps. -/
def requestMarks : AccountAction → List AdminMark
  | .activateMfa id sid code =>
    match w.getV2Auth sid with
    | .ok (s, _) =>
      (w.pending.find w.now s.userId).toList.map fun secret => .tried id s.userId secret code w.now
    | .error _ => []
  | .commit r =>
    match r.cause with
    | .sweep _ => [.cleared r.user]
    | _ => []
  | .access sid =>
    match w.getV2AdminAuth sid with
    | .ok (s, _) => [.admitted sid s.userId w.now]
    | .error _ => []
  | _ => []

/-- The marks of a step. -/
def adminMarks (a : AccountAction) : List AdminMark :=
  match a.op?.bind fun id => (w.ops.get? id).map (id, ·) with
  | some (id, op) => w.opMarks P id op a
  | none => w.requestMarks a

end Accounts

namespace AdminMark

/-- What a mark does to the secret of a user. -/
def hold (u : UserId) (secret : Option String) : AdminMark → Option String
  | .enrolled _ u' s _ _ => if u' = u then some s else secret
  | .cleared u' => if u' = u then none else secret
  | _ => secret

/-- The mark stamps the session. -/
def Stamps (id : OpId) (sid : SessionId) (u : UserId) (t : Time) : AdminMark → Prop
  | .stamped id' sid' u' t' => id' = id ∧ sid' = sid ∧ u' = u ∧ t' = t
  | .enrolled id' u' _ sid' t' => id' = id ∧ sid' = some sid ∧ u' = u ∧ t' = t
  | _ => False

end AdminMark

/-- The secret of a user after a history. -/
def heldSecret (P : Primitives) (w₀ : Accounts) (u : UserId) (h : List AdminMark) : Option String :=
  h.foldl (AdminMark.hold u) (w₀.secretOf P u)

section Statements

variable (P : Primitives) (w₀ : Accounts) (h : List AdminMark)

end Statements

/-- The operation has found its code right, if it is about to stamp. -/
def AccountOp.Backed (P : Primitives) (h : List AdminMark) (users : Table UserId Account) (now : Time)
    (id : OpId) (op : AccountOp) : Prop :=
  match op.stage with
  | .passed u => op.call.code?.isSome = true → ∃ secret code t,
      .tested id u secret code t ∈ h ∧ P.verifyTotp secret code t = true ∧ t ≤ now
  | .enrolling u secret => (∃ row, users.get? u = some row) ∧ ∃ code t,
      .tried id u secret code t ∈ h ∧ P.verifyTotp secret code t = true ∧ t ≤ now
  | _ => True

/-- The marks show every new stamp. -/
def Accounts.StampsTold (w : Accounts) (marks : List AdminMark) (w' : Accounts) : Prop :=
  ∀ sid s' t, w'.sessions.get? sid = some s' → s'.mfaVerifiedAt = some t →
    (∃ s, w.sessions.get? sid = some s ∧ s.userId = s'.userId ∧ s.mfaVerifiedAt = some t) ∨
      ∃ id, ∃ m ∈ marks, m.Stamps id sid s'.userId t

/-- The marks show every right code. -/
def Accounts.OpsTold (P : Primitives) (w : Accounts) (marks : List AdminMark) (w' : Accounts) : Prop :=
  ∀ id op, w'.ops.get? id = some op → w.ops.get? id = some op ∨ op.Backed P marks w.users w.now id

/-- What the marks of a step tell about it; the secrets change as they say. -/
structure Accounts.Told (P : Primitives) (w : Accounts) (marks : List AdminMark) (w' : Accounts) :
    Prop where
  now : w.now ≤ w'.now
  users : ∀ u row, w.users.get? u = some row → ∃ row', w'.users.get? u = some row'
  secrets : ∀ u, w'.secretOf P u = marks.foldl (AdminMark.hold u) (w.secretOf P u)
  stamps : w.StampsTold marks w'
  ops : w.OpsTold P marks w'

section Steps

variable {P : Primitives} {w w' : Accounts} {a : AccountAction} {id : OpId} {op : AccountOp}
  {marks : List AdminMark}

/-! ### The secrets -/

/-- The secrets depend on the users only. -/
theorem Accounts.secretOf_congr (h : w'.users = w.users) (u : UserId) :
    w'.secretOf P u = w.secretOf P u := by
  unfold Accounts.secretOf
  rw [h]

/-- Rewriting the row of a user. -/
theorem Accounts.secretOf_setUser {f : Account → Account} {u : UserId}
    (h : w'.users = (w.setUser u f).users) (u' : UserId) :
    w'.secretOf P u' = if u' = u then
      (w.users.get? u).bind fun row => (f row).mfaSecretEnc.bind fun e => P.decryptText e u
    else w.secretOf P u' := by
  unfold Accounts.secretOf
  rw [h, Accounts.setUser, Table.get?_map]
  by_cases hu : u' = u
  · rw [if_pos hu, hu]
    cases w.users.get? u with
    | none => rfl
    | some row => simp
  · rw [if_neg hu]
    cases w.users.get? u' with
    | none => rfl
    | some row => simp [hu]

/-- A write that leaves the envelope alone. -/
theorem Accounts.secretOf_setUser_of_eq {f : Account → Account} {u : UserId}
    (h : w'.users = (w.setUser u f).users) (hf : ∀ row, (f row).mfaSecretEnc = row.mfaSecretEnc)
    (u' : UserId) : w'.secretOf P u' = w.secretOf P u' := by
  rw [Accounts.secretOf_setUser h]
  split
  · next hu =>
    subst hu
    unfold Accounts.secretOf
    simp only [hf]
  · rfl

/-- A write that takes the envelope away. -/
theorem Accounts.secretOf_setUser_none {f : Account → Account} {u : UserId}
    (h : w'.users = (w.setUser u f).users) (hf : ∀ row, (f row).mfaSecretEnc = none) (u' : UserId) :
    w'.secretOf P u' = AdminMark.hold u' (w.secretOf P u') (.cleared u) := by
  rw [Accounts.secretOf_setUser h]
  change _ = if u = u' then none else w.secretOf P u'
  by_cases hu : u' = u
  · rw [if_pos hu, if_pos hu.symm]
    simp [hf]
  · rw [if_neg hu, if_neg (Ne.symm hu)]

/-- Rows of users stay. -/
theorem Accounts.users_setUser {f : Account → Account} {u : UserId}
    (h : w'.users = (w.setUser u f).users) (u' : UserId) (row : Account)
    (hrow : w.users.get? u' = some row) : ∃ row', w'.users.get? u' = some row' := by
  rw [h, Accounts.setUser, Table.get?_map, hrow]
  exact ⟨_, rfl⟩

/-! ### The sessions and the operations -/

/-- The stamps of the sessions that are there stay. -/
theorem Accounts.StampsTold.of_map {f : SessionId → SessionRow → SessionRow}
    (h : w'.sessions = w.sessions.map f)
    (hf : ∀ sid s, (f sid s).userId = s.userId ∧ (f sid s).mfaVerifiedAt = s.mfaVerifiedAt) :
    w.StampsTold marks w' := by
  intro sid s' t hs ht
  rw [h, Table.get?_map, Option.map_eq_some_iff] at hs
  obtain ⟨s, hs, rfl⟩ := hs
  exact .inl ⟨s, hs, (hf sid s).1.symm, (hf sid s).2.symm.trans ht⟩

theorem Accounts.StampsTold.of_eq (h : w'.sessions = w.sessions) : w.StampsTold marks w' := by
  intro sid s t hs ht
  rw [h] at hs
  exact .inl ⟨s, hs, rfl, ht⟩

/-- A new session with its stamp. -/
theorem Accounts.StampsTold.of_insert {s₀ : SessionRow}
    (h : w'.sessions = w.sessions.insert w.nextSession s₀)
    (hs₀ : ∀ t, s₀.mfaVerifiedAt = some t →
      ∃ id, ∃ m ∈ marks, m.Stamps id w.nextSession s₀.userId t) : w.StampsTold marks w' := by
  intro sid s t hs ht
  rw [h] at hs
  obtain hs | ⟨rfl, rfl⟩ := Table.get?_insert_cases hs
  · exact .inl ⟨s, hs, rfl, ht⟩
  · exact .inr (hs₀ t ht)

/-- The statement that stamps a session. -/
theorem Accounts.StampsTold.of_stamp {u : UserId} {s : SessionId}
    (h : w'.sessions = (w.stamp u s).sessions)
    (hmarks : w.stampable u s = true → ∃ id, ∃ m ∈ marks, m.Stamps id s u w.now) :
    w.StampsTold marks w' := by
  intro sid s' t hs ht
  rw [h, Accounts.stamp, Table.get?_map, Option.map_eq_some_iff] at hs
  obtain ⟨row, hs, rfl⟩ := hs
  split at ht
  · next hc =>
    rw [if_pos hc]
    simp only [Bool.and_eq_true, decide_eq_true_eq] at hc
    obtain ⟨⟨rfl, rfl⟩, halive⟩ := hc
    cases ht
    refine .inr (hmarks ?_)
    unfold Accounts.stampable
    rw [hs]
    simpa using halive
  · next hc =>
    rw [if_neg hc]
    exact .inl ⟨row, hs, rfl, ht⟩

/-- An operation moves on. -/
theorem Accounts.OpsTold.of_set {op' : AccountOp} (h : w'.ops = w.ops.set id op')
    (hop : op'.Backed P marks w.users w.now id) : w.OpsTold P marks w' := by
  intro id' op'' hs
  rw [h] at hs
  obtain hs | ⟨rfl, rfl⟩ := Table.get?_set_cases hs
  · exact .inl hs
  · exact .inr hop

/-- An operation begins. -/
theorem Accounts.OpsTold.of_insert {op' : AccountOp} (h : w'.ops = w.ops.insert id op')
    (hop : op'.Backed P marks w.users w.now id) : w.OpsTold P marks w' := by
  intro id' op'' hs
  rw [h] at hs
  obtain hs | ⟨rfl, rfl⟩ := Table.get?_insert_cases hs
  · exact .inl hs
  · exact .inr hop

theorem Accounts.OpsTold.of_eq (h : w'.ops = w.ops) : w.OpsTold P marks w' := by
  intro id op hs
  rw [h] at hs
  exact .inl hs

/-- A step that leaves users and sessions alone and moves an operation that is not about to stamp. -/
theorem Accounts.Told.of_ops (husers : w'.users = w.users) (hsessions : w'.sessions = w.sessions)
    (hnow : w.now ≤ w'.now) (hops : w.OpsTold P [] w') : w.Told P [] w' :=
  ⟨hnow, fun _ row hu => ⟨row, husers ▸ hu⟩, fun u => Accounts.secretOf_congr husers u, .of_eq hsessions,
    hops⟩

/-! ### The steps of an operation -/

/-- The test of a code. -/
theorem Accounts.test_told (u : UserId) (hstage : op.stage = .reading u) :
    w.Told P (w.opMarks P id op (.test id)) (w.test P id op u) := by
  obtain ⟨call, stage, n⟩ := op
  cases hstage
  have hended : w.Told P [] (w.setStage id ⟨call, .reading u, n⟩ .ended) :=
    .of_ops rfl rfl (Nat.le_refl _) (.of_set rfl trivial)
  cases hsecret : w.secretOf P u with
  | none => cases call <;> simpa [Accounts.opMarks, Accounts.test, hsecret, AccountCall.code?] using hended
  | some secret =>
    cases call with
    | loginMfa t code =>
      simp only [Accounts.opMarks, Accounts.test, hsecret, AccountCall.code?, Option.toList_some,
        List.map_cons, List.map_nil]
      split
      · next hright =>
        exact ⟨Nat.le_refl _, fun _ row hu => ⟨row, hu⟩, fun u' => Accounts.secretOf_congr rfl u',
          .of_eq rfl,
          .of_set rfl fun _ => ⟨secret, code, w.now, List.mem_singleton.mpr rfl, hright, Nat.le_refl _⟩⟩
      · exact ⟨Nat.le_refl _, fun _ row hu => ⟨row, hu⟩, fun u' => Accounts.secretOf_congr rfl u',
          .of_eq rfl, .of_set rfl trivial⟩
    | verifyMfa sid code =>
      simp only [Accounts.opMarks, Accounts.test, hsecret, AccountCall.code?, Option.toList_some,
        List.map_cons, List.map_nil]
      split
      · next hright =>
        exact ⟨Nat.le_refl _, fun _ row hu => ⟨row, hu⟩, fun u' => Accounts.secretOf_congr rfl u',
          .of_eq rfl,
          .of_set rfl fun _ => ⟨secret, code, w.now, List.mem_singleton.mpr rfl, hright, Nat.le_refl _⟩⟩
      · exact ⟨Nat.le_refl _, fun _ row hu => ⟨row, hu⟩, fun u' => Accounts.secretOf_congr rfl u',
          .of_eq rfl, .of_set rfl trivial⟩
    | activateMfa sid code => simpa [Accounts.opMarks, Accounts.test, AccountCall.code?] using hended
    | login => simpa [Accounts.opMarks, Accounts.test, AccountCall.code?] using hended
    | disableMfa sid => simpa [Accounts.opMarks, Accounts.test, AccountCall.code?] using hended
    | cancelDeletion => simpa [Accounts.opMarks, Accounts.test, AccountCall.code?] using hended

theorem Accounts.refuse_told (limited : Bool) : w.Told P [] (w.refuse id op limited) := by
  unfold Accounts.refuse
  split
  · split <;> exact .of_ops rfl rfl (Nat.le_refl _) (.of_set rfl trivial)
  · exact .of_ops rfl rfl (Nat.le_refl _) (.of_set rfl trivial)

/-- The last transaction of an operation. -/
theorem Accounts.finish_told (h : w.advance P id op (.finish id) = .ok w') :
    w.Told P (w.opMarks P id op (.finish id)) w' := by
  obtain ⟨call, stage, n⟩ := op
  cases stage with
  | passed u =>
    cases call with
    | login =>
      cases h
      exact ⟨Nat.le_refl _, fun _ row hu => ⟨row, hu⟩, fun u' => Accounts.secretOf_congr rfl u',
        .of_insert rfl (by simp), .of_set rfl trivial⟩
    | loginMfa t code =>
      cases h
      refine ⟨Nat.le_refl _, fun _ row hu => ⟨row, hu⟩, fun u' => Accounts.secretOf_congr rfl u',
        .of_insert rfl fun t ht => ?_, .of_set rfl trivial⟩
      cases ht
      exact ⟨id, _, List.mem_singleton.mpr rfl, rfl, rfl, rfl, rfl⟩
    | verifyMfa sid code =>
      obtain ⟨-, h⟩ := ite_error_eq_ok.mp h
      cases h
      refine ⟨Nat.le_refl _, fun _ row hu => ⟨row, hu⟩, fun u' => ?_, .of_stamp rfl fun hstamp => ?_,
        .of_set rfl trivial⟩
      · simp only [Accounts.opMarks]
        split <;> exact Accounts.secretOf_congr rfl u'
      · simp only [Accounts.opMarks]
        rw [if_pos hstamp]
        exact ⟨id, _, List.mem_singleton.mpr rfl, rfl, rfl, rfl, rfl⟩
    | activateMfa sid code => cases h
    | disableMfa sid =>
      obtain ⟨-, h⟩ := ite_error_eq_ok.mp h
      cases h
      exact ⟨Nat.le_refl _,
        Accounts.users_setUser (u := u) (f := fun row => { row with mfaSecretEnc := none }) rfl,
        Accounts.secretOf_setUser_none (u := u) (f := fun row => { row with mfaSecretEnc := none }) rfl
          fun _ => rfl, .of_eq rfl, .of_set rfl trivial⟩
    | cancelDeletion =>
      obtain ⟨-, h⟩ := ite_error_eq_ok.mp h
      split at h
      · cases h
        exact ⟨Nat.le_refl _,
          Accounts.users_setUser (u := u) (f := fun row => { row with status := .active }) rfl,
          Accounts.secretOf_setUser_of_eq (u := u) (f := fun row => { row with status := .active }) rfl
            fun _ => rfl,
          .of_insert rfl (by simp), .of_set rfl trivial⟩
      · cases h
        exact .of_ops rfl rfl (Nat.le_refl _) (.of_set rfl trivial)
  | _ => cases call <;> cases h

/-- The enrolment. -/
theorem Accounts.enrol_told {envelope : String} (h : w.advance P id op (.enrol id envelope) = .ok w')
    (hknown : ∀ u secret, op.stage = .enrolling u secret → ∃ row, w.users.get? u = some row) :
    w.Told P (w.opMarks P id op (.enrol id envelope)) w' := by
  obtain ⟨call, stage, n⟩ := op
  cases call with
  | activateMfa sid code =>
    cases stage with
    | enrolling u secret =>
      obtain ⟨⟨henvelope, -, -⟩, h⟩ := ite_ok_else_error.mp h
      cases h
      refine ⟨Nat.le_refl _, Accounts.users_setUser (u := u)
        (f := fun row => { row with mfaSecretEnc := some envelope }) rfl, fun u' => ?_,
        .of_stamp (u := u) (s := sid) rfl fun hstamp => ?_, .of_set rfl trivial⟩
      · refine (Accounts.secretOf_setUser (w := w) (u := u)
          (f := fun row => { row with mfaSecretEnc := some envelope }) rfl u').trans ?_
        obtain ⟨row, hrow⟩ := hknown u secret rfl
        change _ = if u = u' then some secret else w.secretOf P u'
        by_cases hu : u' = u
        · rw [if_pos hu, if_pos hu.symm, hrow]
          exact henvelope
        · rw [if_neg hu, if_neg (Ne.symm hu)]
      · simp only [Accounts.opMarks]
        rw [if_pos hstamp]
        exact ⟨id, _, List.mem_singleton.mpr rfl, rfl, rfl, rfl, rfl⟩
    | _ => cases h
  | _ => cases h

/-! ### The other steps -/

theorem Accounts.login_told {email password : String} (h : w.login P id email password = .ok w') :
    w.Told P [] w' := by
  unfold Accounts.login at h
  split at h
  · cases h
  · obtain ⟨-, h⟩ := ite_error_eq_ok.mp h
    obtain ⟨-, h⟩ := ite_error_eq_ok.mp h
    obtain ⟨-, h⟩ := ite_error_eq_ok.mp h
    obtain ⟨-, h⟩ := ite_error_eq_ok.mp h
    split at h
    · cases h
      exact .of_ops rfl rfl (Nat.le_refl _) (.of_eq rfl)
    · cases h
      exact .of_ops rfl rfl (Nat.le_refl _) (.of_insert rfl (by simp [AccountOp.Backed, AccountCall.code?]))

theorem Accounts.loginMfa_told {t : Token} {code : String} (h : w.loginMfa id t code = .ok w') :
    w.Told P [] w' := by
  unfold Accounts.loginMfa at h
  split at h
  · cases h
  · cases h
    exact .of_ops rfl rfl (Nat.le_refl _) (.of_insert rfl trivial)

/-- The first step of `activate_mfa` tests the code against the pending secret. -/
theorem Accounts.activateMfa_told {sid : SessionId} {s : SessionRow} {row : Account} {code : String}
    (hauth : w.getV2Auth sid = .ok (s, row)) (hrow : w.users.get? s.userId = some row)
    (h : w.activateMfa P id s.userId sid code = .ok w') :
    w.Told P (w.requestMarks (.activateMfa id sid code)) w' := by
  simp only [Accounts.requestMarks, hauth]
  unfold Accounts.activateMfa at h
  cases hsecret : w.pending.find w.now s.userId with
  | none =>
    simp only [hsecret] at h
    cases h
  | some secret =>
    simp only [hsecret] at h
    cases h
    refine ⟨Nat.le_refl _, fun _ row hu => ⟨row, hu⟩, fun u' => Accounts.secretOf_congr rfl u', .of_eq rfl,
      .of_insert rfl ?_⟩
    by_cases hright : P.verifyTotp secret code w.now = true
    · rw [if_pos hright]
      exact ⟨⟨row, hrow⟩, code, w.now, List.mem_singleton.mpr rfl, hright, Nat.le_refl _⟩
    · rw [if_neg hright]
      trivial

/-- A revocation commits; the final sweep takes the secret away. -/
theorem Accounts.commit_told (r : Revocation) : w.Told P (w.requestMarks (.commit r)) (w.commit P r) := by
  have hstamps : ∀ marks, w.StampsTold marks (w.commit P r) := by
    intro marks
    refine .of_map (f := fun sid s => if sid ∈ r.found then { s with revoked := true } else s) rfl
      fun sid s => ?_
    split <;> exact ⟨rfl, rfl⟩
  obtain ⟨u, cause, found, before⟩ := r
  refine ⟨Nat.le_refl _, Accounts.users_setUser (u := u)
    (f := fun row => Accounts.RevokeCause.write P u row cause) rfl, ?_, hstamps _, .of_eq rfl⟩
  cases cause with
  | sweep random =>
    exact Accounts.secretOf_setUser_none (u := u)
      (f := fun row => Accounts.RevokeCause.write P u row (.sweep random)) rfl fun _ => rfl
  | reset new =>
    exact Accounts.secretOf_setUser_of_eq (u := u)
      (f := fun row => Accounts.RevokeCause.write P u row (.reset new)) rfl fun _ => rfl
  | change sid new =>
    exact Accounts.secretOf_setUser_of_eq (u := u)
      (f := fun row => Accounts.RevokeCause.write P u row (.change sid new)) rfl fun _ => rfl
  | deletion =>
    exact Accounts.secretOf_setUser_of_eq (u := u)
      (f := fun row => Accounts.RevokeCause.write P u row .deletion) rfl fun _ => rfl
  | cascade =>
    exact Accounts.secretOf_setUser_of_eq (u := u)
      (f := fun row => Accounts.RevokeCause.write P u row .cascade) rfl fun _ => rfl

/-- A step that rewrites one user but not his envelope. -/
theorem Accounts.setStatus_told (u : UserId) (status : UserStatus) : w.Told P [] (w.setStatus u status) :=
  ⟨Nat.le_refl _, Accounts.users_setUser (u := u) (f := fun row => { row with status := status }) rfl,
    Accounts.secretOf_setUser_of_eq (u := u) (f := fun row => { row with status := status }) rfl
      fun _ => rfl, .of_eq rfl, .of_eq rfl⟩

/-- A user is created together with a session. -/
theorem Accounts.accept_told {u : UserId} {row : Account} (hu : w.users.get? u = none)
    (hrow : row.mfaSecretEnc = none) (n : ℕ) :
    w.Told P [] ({ w with users := w.users.insert u row }.createSession u false n) := by
  refine ⟨Nat.le_refl _, fun u' row' hu' => ⟨row', ?_⟩, fun u' => ?_, .of_insert rfl (by simp), .of_eq rfl⟩
  · change (w.users.insert u row).get? u' = some row'
    rw [Table.get?_insert hu]
    split
    · next heq =>
      rw [heq, hu] at hu'
      cases hu'
    · exact hu'
  · change ((w.users.insert u row).get? u').bind _ = (w.users.get? u').bind _
    rw [Table.get?_insert hu]
    split
    · next heq =>
      rw [heq, hu]
      simp [hrow]
    · rfl

theorem Accounts.revokeOne_told (u : UserId) (sid : SessionId) : w.Told P [] (w.revokeOne u sid) := by
  refine ⟨Nat.le_refl _, fun _ row hu => ⟨row, hu⟩, fun u' => Accounts.secretOf_congr rfl u',
    .of_map (f := fun sid' s =>
      if sid' = sid && s.userId = u then { s with revoked := true } else s) rfl fun sid' s => ?_, .of_eq rfl⟩
  split <;> exact ⟨rfl, rfl⟩

theorem Accounts.refresh_told (sid : SessionId) :
    w.Told P (w.requestMarks (.access sid)) (w.refresh sid) := by
  refine ⟨Nat.le_refl _, fun _ row hu => ⟨row, hu⟩, fun u' => ?_, .of_map (f := fun sid' s =>
    if sid' = sid && !s.revoked && s.expiresAt < w.now + refreshThreshold then
      { s with expiresAt := min (w.now + sessionTtl) (s.createdAt + sessionAbsolute) }
    else s) rfl fun sid' s => ?_, .of_eq rfl⟩
  · simp only [Accounts.requestMarks]
    split <;> exact Accounts.secretOf_congr rfl u'
  · split <;> exact ⟨rfl, rfl⟩

theorem Accounts.perform_told (h : w.perform P a = .ok w') : w.Told P (w.requestMarks a) w' := by
  cases a with
  | tick d =>
    cases h
    exact .of_ops rfl rfl (Nat.le_add_right _ _) (.of_eq rfl)
  | login id email password => exact Accounts.login_told (mapError_eq_ok.mp h)
  | loginMfa id t code => exact Accounts.loginMfa_told (mapError_eq_ok.mp h)
  | verifyMfa id sid code =>
    obtain ⟨⟨s, row⟩, -, h⟩ := bind_eq_ok.mp h
    cases h
    exact .of_ops rfl rfl (Nat.le_refl _) (.of_insert rfl trivial)
  | setupMfa sid secret =>
    obtain ⟨⟨s, row⟩, -, h⟩ := bind_eq_ok.mp h
    cases h
    exact .of_ops rfl rfl (Nat.le_refl _) (.of_eq rfl)
  | activateMfa id sid code =>
    obtain ⟨⟨s, row⟩, hauth, h⟩ := bind_eq_ok.mp h
    have hauth := mapError_eq_ok.mp hauth
    exact Accounts.activateMfa_told hauth (Accounts.getV2Auth_eq_ok hauth).2.2 (mapError_eq_ok.mp h)
  | disableMfa id sid =>
    obtain ⟨⟨s, row⟩, -, h⟩ := bind_eq_ok.mp h
    obtain ⟨-, h⟩ := ite_error_eq_ok.mp h
    cases h
    exact .of_ops rfl rfl (Nat.le_refl _) (.of_insert rfl (by simp [AccountOp.Backed, AccountCall.code?]))
  | revoke u cause =>
    simp only [Accounts.perform] at h
    cases hu : w.users.get? u with
    | none =>
      simp only [hu] at h
      cases h
    | some row =>
      simp only [hu] at h
      obtain ⟨-, h⟩ := ite_ok_else_error.mp h
      cases h
      exact .of_ops rfl rfl (Nat.le_refl _) (.of_eq rfl)
  | commit r =>
    obtain ⟨-, h⟩ := ite_ok_else_error.mp h
    cases h
    exact Accounts.commit_told r
  | rollBack r =>
    cases h
    exact .of_ops rfl rfl (Nat.le_refl _) (.of_eq rfl)
  | endSession sid target =>
    obtain ⟨⟨s, row⟩, -, h⟩ := bind_eq_ok.mp h
    obtain ⟨-, h⟩ := ite_error_eq_ok.mp h
    cases h
    exact Accounts.revokeOne_told s.userId target
  | suspend u =>
    simp only [Accounts.perform] at h
    cases hu : w.users.get? u with
    | none =>
      simp only [hu] at h
      cases h
    | some row =>
      simp only [hu] at h
      obtain ⟨-, h⟩ := ite_ok_else_error.mp h
      cases h
      exact Accounts.setStatus_told u .suspended
  | unsuspend u =>
    simp only [Accounts.perform] at h
    cases hu : w.users.get? u with
    | none =>
      simp only [hu] at h
      cases h
    | some row =>
      simp only [hu] at h
      obtain ⟨-, h⟩ := ite_ok_else_error.mp h
      cases h
      exact Accounts.setStatus_told u .active
  | confirmEmail u =>
    simp only [Accounts.perform] at h
    cases hu : w.users.get? u with
    | none =>
      simp only [hu] at h
      cases h
    | some row =>
      simp only [hu] at h
      obtain ⟨-, h⟩ := ite_ok_else_error.mp h
      cases h
      exact Accounts.setStatus_told u .active
  | cancelDeletion id u password =>
    simp only [Accounts.perform] at h
    cases hu : w.users.get? u with
    | none =>
      simp only [hu] at h
      cases h
    | some row =>
      simp only [hu] at h
      obtain ⟨-, h⟩ := ite_error_eq_ok.mp h
      obtain ⟨-, h⟩ := ite_ok_else_error.mp h
      cases h
      exact .of_ops rfl rfl (Nat.le_refl _) (.of_insert rfl (by simp [AccountOp.Backed, AccountCall.code?]))
  | accept u email password =>
    simp only [Accounts.perform] at h
    cases hu : w.users.get? u with
    | some row =>
      simp only [hu] at h
      cases h
    | none =>
      simp only [hu] at h
      obtain ⟨-, h⟩ := ite_error_eq_ok.mp h
      cases h
      exact Accounts.accept_told hu rfl _
  | access sid =>
    obtain ⟨⟨s, row⟩, -, h⟩ := bind_eq_ok.mp h
    cases h
    exact Accounts.refresh_told sid
  | _ => cases h

end Steps

/-! ## The invariant -/

/-- What the past allows a mark to be. -/
def AdminMark.Allowed (P : Primitives) (w₀ : Accounts) (pre : List AdminMark) : AdminMark → Prop
  | .tested _ u secret _ _ => heldSecret P w₀ u pre = some secret
  | .stamped id _ u t₀ => ∃ secret code t,
      .tested id u secret code t ∈ pre ∧ P.verifyTotp secret code t = true ∧ t ≤ t₀
  | .enrolled id u s _ t₀ => ∃ code t,
      .tried id u s code t ∈ pre ∧ P.verifyTotp s code t = true ∧ t ≤ t₀
  | .admitted sid u time => ∃ id t₀, (∃ m ∈ pre, m.Stamps id sid u t₀) ∧ time ≤ t₀ + mfaWindow
  | _ => True

/-- The history of the codes explains the secrets, the stamps and the operations in progress. -/
structure Accounts.Explained (P : Primitives) (w w₀ : Accounts) (h : List AdminMark) : Prop where
  orderly : Orderly (AdminMark.Allowed P w₀) h
  held : ∀ u, w.secretOf P u = heldSecret P w₀ u h
  stamps : ∀ sid s t, w.sessions.get? sid = some s → s.mfaVerifiedAt = some t →
    ∃ id, ∃ m ∈ h, m.Stamps id sid s.userId t
  ops : ∀ id op, w.ops.get? id = some op → op.Backed P h w.users w.now id

section Invariant

variable {P : Primitives} {w₀ w w' : Accounts} {a : AccountAction} {id : OpId} {op : AccountOp}
  {h h' : List AdminMark}

theorem Accounts.Explained.initial (h₀ : w₀.Initial) : w₀.Explained P w₀ [] where
  orderly := orderly_nil
  held _ := rfl
  stamps := by simp [h₀.sessions]
  ops := by simp [h₀.ops]

theorem AccountOp.Backed.mono {users users' : Table UserId Account} {now now' : Time}
    (hop : op.Backed P h users now id) (hh : ∀ m ∈ h, m ∈ h') (hnow : now ≤ now')
    (husers : ∀ u row, users.get? u = some row → ∃ row', users'.get? u = some row') :
    op.Backed P h' users' now' id := by
  obtain ⟨call, stage, n⟩ := op
  cases stage with
  | passed u =>
    intro hcode
    obtain ⟨secret, code, t, hm, hright, ht⟩ := hop hcode
    exact ⟨secret, code, t, hh _ hm, hright, ht.trans hnow⟩
  | enrolling u secret =>
    obtain ⟨⟨row, hrow⟩, code, t, hm, hright, ht⟩ := hop
    exact ⟨husers u row hrow, code, t, hh _ hm, hright, ht.trans hnow⟩
  | _ => trivial

/-- The step tells what happens. -/
theorem Accounts.step_told (hw : w.Explained P w₀ h) (hs : w.step P a = .ok w') :
    w.Told P (w.adminMarks P a) w' := by
  unfold Accounts.step at hs
  cases ha : a.op? with
  | some id =>
    simp only [ha] at hs
    cases hop : w.ops.get? id with
    | none =>
      simp only [hop] at hs
      cases hs
    | some op =>
      simp only [hop] at hs
      simp only [Accounts.adminMarks, ha, hop, Option.bind_some, Option.map_some]
      cases a with
      | test _ =>
        cases ha
        obtain ⟨call, stage, n⟩ := op
        cases stage with
        | reading u =>
          cases hs
          exact Accounts.test_told u rfl
        | _ => cases hs
      | refuse _ limited =>
        obtain ⟨call, stage, n⟩ := op
        cases stage with
        | wrong u =>
          cases hs
          exact Accounts.refuse_told limited
        | _ => cases hs
      | finish _ =>
        cases ha
        exact Accounts.finish_told hs
      | enrol _ envelope =>
        cases ha
        refine Accounts.enrol_told hs fun u secret hstage => ?_
        obtain ⟨call, stage, n⟩ := op
        cases hstage
        exact (hw.ops _ _ hop).1
      | pop _ =>
        obtain ⟨call, stage, n⟩ := op
        cases stage with
        | enrolled u =>
          cases hs
          exact .of_ops rfl rfl (Nat.le_refl _) (.of_set rfl trivial)
        | _ => cases hs
      | _ => cases ha
  | none =>
    simp only [ha] at hs
    simp only [Accounts.adminMarks, ha, Option.bind_none]
    cases hb : a.begins?.bind w.ops.get? with
    | some op =>
      simp only [hb] at hs
      cases hs
    | none =>
      simp only [hb] at hs
      exact Accounts.perform_told hs

/-- What the admin gate admits has a stamp that is at most twelve hours old. -/
theorem Accounts.getV2AdminAuth_eq_ok {sid : SessionId} {s : SessionRow} {row : Account}
    (ha : w.getV2AdminAuth sid = .ok (s, row)) :
    w.sessions.get? sid = some s ∧ ∃ t, s.mfaVerifiedAt = some t ∧ w.now ≤ t + mfaWindow := by
  obtain ⟨⟨s', row'⟩, hauth, ha⟩ := bind_eq_ok.mp ha
  obtain ⟨-, ha⟩ := ite_error_eq_ok.mp ha
  obtain ⟨-, ha⟩ := ite_error_eq_ok.mp ha
  cases ht : s'.mfaVerifiedAt with
  | none =>
    simp only [ht] at ha
    cases ha
  | some t =>
    simp only [ht] at ha
    obtain ⟨hle, ha⟩ := ite_error_eq_ok.mp ha
    cases ha
    exact ⟨(Accounts.getV2Auth_eq_ok hauth).1, t, ht, Nat.not_lt.mp hle⟩

/-- An operation leaves at most one mark with a step, and the past allows it. -/
theorem Accounts.Explained.opMarks_cases (hw : w.Explained P w₀ h) (hop : w.ops.get? id = some op) :
    w.opMarks P id op a = [] ∨ ∃ m, w.opMarks P id op a = [m] ∧ m.Allowed P w₀ h := by
  have hbacked := hw.ops id op hop
  obtain ⟨call, stage, n⟩ := op
  cases a with
  | test _ =>
    simp only [Accounts.opMarks]
    split
    · next u code _ =>
      cases hsecret : w.secretOf P u with
      | none => exact .inl rfl
      | some secret => exact .inr ⟨_, rfl, (hw.held u).symm.trans hsecret⟩
    · exact .inl rfl
  | finish _ =>
    cases stage with
    | passed u =>
      cases call with
      | loginMfa t code => exact .inr ⟨_, rfl, hbacked rfl⟩
      | verifyMfa sid code =>
        simp only [Accounts.opMarks]
        split
        · exact .inr ⟨_, rfl, hbacked rfl⟩
        · exact .inl rfl
      | disableMfa sid => exact .inr ⟨_, rfl, trivial⟩
      | _ => exact .inl rfl
    | _ => cases call <;> exact .inl rfl
  | enrol _ envelope =>
    cases call with
    | activateMfa sid code =>
      cases stage with
      | enrolling u secret => exact .inr ⟨_, rfl, hbacked.2⟩
      | _ => exact .inl rfl
    | _ => exact .inl rfl
  | _ => exact .inl rfl

/-- So does a request. -/
theorem Accounts.Explained.requestMarks_cases (hw : w.Explained P w₀ h) :
    w.requestMarks a = [] ∨ ∃ m, w.requestMarks a = [m] ∧ m.Allowed P w₀ h := by
  cases a with
  | activateMfa id sid code =>
    simp only [Accounts.requestMarks]
    split
    · next s _ _ =>
      cases w.pending.find w.now s.userId with
      | none => exact .inl rfl
      | some secret => exact .inr ⟨_, rfl, trivial⟩
    · exact .inl rfl
  | commit r =>
    simp only [Accounts.requestMarks]
    split
    · exact .inr ⟨_, rfl, trivial⟩
    · exact .inl rfl
  | access sid =>
    simp only [Accounts.requestMarks]
    split
    · next s _ hauth =>
      obtain ⟨hs, t, ht, hle⟩ := Accounts.getV2AdminAuth_eq_ok hauth
      obtain ⟨id, hm⟩ := hw.stamps sid s t hs ht
      exact .inr ⟨_, rfl, id, t, hm, hle⟩
    · exact .inl rfl
  | _ => exact .inl rfl

theorem Accounts.Explained.marks_cases (hw : w.Explained P w₀ h) :
    w.adminMarks P a = [] ∨ ∃ m, w.adminMarks P a = [m] ∧ m.Allowed P w₀ h := by
  unfold Accounts.adminMarks
  split
  · next id op heq =>
    obtain ⟨id', -, hid⟩ := Option.bind_eq_some_iff.mp heq
    obtain ⟨op', hop, hpair⟩ := Option.map_eq_some_iff.mp hid
    cases hpair
    exact hw.opMarks_cases hop
  · exact hw.requestMarks_cases

theorem Accounts.Explained.step (hw : w.Explained P w₀ h) (hs : w.step P a = .ok w') :
    w'.Explained P w₀ (h ++ w.adminMarks P a) := by
  have htold := Accounts.step_told hw hs
  constructor
  · rcases hw.marks_cases (a := a) with hnone | ⟨m, hone, hm⟩
    · rw [hnone, List.append_nil]
      exact hw.orderly
    · rw [hone]
      exact hw.orderly.concat hm
  · intro u
    rw [htold.secrets u, hw.held u, heldSecret, heldSecret, List.foldl_append]
  · intro sid s t hs ht
    rcases htold.stamps sid s t hs ht with ⟨s₀, hs₀, hu, ht₀⟩ | ⟨id, m, hm, hstamps⟩
    · obtain ⟨id, m, hm, hstamps⟩ := hw.stamps sid s₀ t hs₀ ht₀
      exact ⟨id, m, List.mem_append_left _ hm, hu ▸ hstamps⟩
    · exact ⟨id, m, List.mem_append_right _ hm, hstamps⟩
  · intro id op hop
    rcases htold.ops id op hop with hold | hnew
    · exact (hw.ops id op hold).mono (fun m hm => List.mem_append_left _ hm) htold.now htold.users
    · exact hnew.mono (fun m hm => List.mem_append_right _ hm) htold.now htold.users

end Invariant

/-! ## What the order of the marks says -/

section Histories

variable {P : Primitives} {w₀ : Accounts} {h pre : List AdminMark}

end Histories

/-! ## Runs -/

section Runs

variable {P : Primitives} {w₀ : Accounts} {as : List AccountAction}

end Runs

end AgentCraft.Access
