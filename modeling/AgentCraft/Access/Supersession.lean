import AgentCraft.Access.ActionTokens
import AgentCraft.Access.Challenges
import AgentCraft.Transition.RowLocks
import AgentCraft.Transition.Trace

/-!
# What supersedes a token

The locks on the rows carry single consumption: whoever is about to consume a token holds its row, and the
row is unconsumed until the commit. Supersession needs more: a request only invalidates what the snapshot of
its `UPDATE` finds. When every token that is unconsumed at the commit of a request was there when its `UPDATE`
began, a user has at most one unconsumed token for a purpose, so a confirmation leaves none behind.
-/

namespace AgentCraft.Access.ActionTokens

open AgentCraft.Relational AgentCraft.Transition

/-- Every unconsumed token of the user and the purpose of a request is one that the snapshot of its
`UPDATE` found. -/
def Registry.FoundAll (w : Registry) : Tx → Prop
  | .issuing u p _ found _ _ _ => ∀ h ∈ w.prior u p, h ∈ found
  | _ => True

/-- At the commit of a request no other one has committed a token since its `UPDATE` began that is still
unconsumed. -/
def Unraced (w : Registry) : Action → Prop
  | .commit tx => ∀ x ∈ w.txs.get? tx, w.FoundAll x
  | _ => True

instance (w : Registry) : DecidablePred w.FoundAll := by
  intro x
  cases x with
  | issuing u p startedAt found written token expiresAt =>
    exact inferInstanceAs (Decidable (∀ h ∈ w.prior u p, h ∈ found))
  | _ => exact .isTrue trivial

instance (w : Registry) : DecidablePred (Unraced w) := by
  intro a
  cases a with
  | commit tx => exact inferInstanceAs (Decidable (∀ x ∈ w.txs.get? tx, w.FoundAll x))
  | _ => exact .isTrue trivial

/-- At most one token of a user and a purpose is live; a confirmation ends the tokens that have been issued
before it; a token is confirmed once. -/
structure Superseding (w : Registry) (history : List Event) : Prop where
  single : ∀ h h' t t', w.tokens.get? h = some t → w.tokens.get? h' = some t' → t.userId = t'.userId →
    t.purpose = t'.purpose → t.isLive w.now = true → t'.isLive w.now = true → h = h'
  closed : ∀ pre u p h post, history = pre ++ .confirmed u p h :: post →
    ∀ h', .issued u p h' ∈ pre → .confirmed u p h' ∉ post
  once : ∀ u p h, history.count (.confirmed u p h) ≤ 1

/-- The snapshot of the `UPDATE` and what is still to be visited. -/
def Tx.scan : Tx → Option (List TokenHash × List TokenHash)
  | .invalidating _ _ _ found todo _ => some (found, todo)
  | .issuing _ _ _ found .. => some (found, [])
  | _ => none

/-- The token has been consumed. -/
def Registry.Closed (w : Registry) (h : TokenHash) : Prop :=
  ∃ t, w.tokens.get? h = some t ∧ t.consumedAt ≠ none

/-! ## The steps -/

/-- What a step does. -/
inductive Registry.Move (w : Registry) : Action → Registry → Prop
  /-- The tokens and the transactions are left alone. -/
  | elsewhere (a : Action) (w' : Registry) (htokens : w'.tokens = w.tokens) (htxs : w'.txs = w.txs)
      (husers : ∀ u, w.users.get? u ≠ none → w'.users.get? u ≠ none) (hobs : w.observed a = []) :
      Move w a w'
  | registered (u : UserId) (email passwordHash : String) (token : TokenHash) (clock : Time)
      (row : User) (expiresAt : Time) (huser : w.users.get? u = none)
      (htoken : w.tokens.get? token = none) :
      Move w (.register u email passwordHash token clock)
        { w with
          users := w.users.insert u row
          tokens := w.tokens.insert token ⟨u, .emailVerify, expiresAt, none⟩ }
  | entered (a : Action) (tx : TxId) (x : Tx) (hnew : w.txs.get? tx = none) (hholds : x.holds = [])
      (hscan : x.scan = none)
      (huser : ∀ u p, x.subject = some (u, p) →
        w.users.get? u ≠ none ∨ ∃ h t, w.tokens.get? h = some t ∧ t.userId = u)
      (hobs : w.observed a = []) : Move w a (w.enter tx x)
  /-- The transaction goes on with the locks that it has, or ends without a commit. -/
  | moved (a : Action) (tx : TxId) (x x' : Tx) (hx : w.txs.get? tx = some x)
      (hkept : x'.subject = x.subject ∧ x'.holds = x.holds ∧ x'.scan = x.scan ∨
        x'.subject = none ∧ x'.holds = [] ∧ x'.scan = none)
      (hobs : w.observed a = []) : Move w a (w.setTx tx x')
  | scanned (tx : TxId) (u : UserId) (p : Purpose) (startedAt : Time)
      (hx : w.txs.get? tx = some (.opened u p startedAt)) :
      Move w (.scan tx) (w.setTx tx (.invalidating u p startedAt (w.prior u p) (w.prior u p) []))
  | written (tx : TxId) (u : UserId) (p : Purpose) (startedAt : Time) (found : List TokenHash)
      (h : TokenHash) (todo written : List TokenHash)
      (hx : w.txs.get? tx = some (.invalidating u p startedAt found (h :: todo) written))
      (hfree : w.tokenLocked tx h = false)
      (hopen : (w.tokens.get? h).any (fun t => t.consumedAt.isNone) = true) :
      Move w (.visit tx) (w.setTx tx (.invalidating u p startedAt found todo (h :: written)))
  | skipped (tx : TxId) (u : UserId) (p : Purpose) (startedAt : Time) (found : List TokenHash)
      (h : TokenHash) (todo written : List TokenHash)
      (hx : w.txs.get? tx = some (.invalidating u p startedAt found (h :: todo) written))
      (hshut : (w.tokens.get? h).any (fun t => t.consumedAt.isNone) = false) :
      Move w (.visit tx) (w.setTx tx (.invalidating u p startedAt found todo written))
  | locked (tx : TxId) (token : TokenHash) (u : UserId) (p : Purpose) (startedAt : Time) (t : ActionToken)
      (hx : w.txs.get? tx = some (.begun token u p startedAt)) (hfree : w.tokenLocked tx token = false)
      (ht : w.tokens.get? token = some t) (hmatch : t.userId = u ∧ t.purpose = p)
      (hlive : t.isLive startedAt = true) : Move w (.lock tx) (w.setTx tx (.locked token u p startedAt))
  | issued (tx : TxId) (u : UserId) (p : Purpose) (startedAt : Time) (found written : List TokenHash)
      (token : TokenHash) (expiresAt : Time)
      (hx : w.txs.get? tx = some (.issuing u p startedAt found written token expiresAt))
      (hnew : w.tokens.get? token = none) :
      Move w (.commit tx)
        { w with
          tokens := (w.consume startedAt written).insert token ⟨u, p, expiresAt, none⟩
          txs := w.txs.set tx (.ended (.ok ())) }
  | confirmed (tx : TxId) (token : TokenHash) (u : UserId) (p : Purpose) (startedAt : Time)
      (write : Option User) (hx : w.txs.get? tx = some (.applied token u p startedAt write)) :
      Move w (.commit tx) (w.commitConfirm tx token u startedAt write)

namespace Registry

variable {P : Primitives} {w w' : Registry} {tx : TxId}

/-- A transaction that is rolled back has moved. -/
theorem move_reject {a : Action} {x : Tx} {p : Problem} (hx : w.txs.get? tx = some x)
    (hobs : w.observed a = []) : w.Move a (w.reject tx p) :=
  .moved a tx x _ hx (.inr ⟨rfl, rfl, rfl⟩) hobs

theorem register_move {u : UserId} {email passwordHash : String} {token : TokenHash} {clock : Time}
    (h : w.register u email passwordHash token clock = .ok w') :
    w.Move (.register u email passwordHash token clock) w' := by
  unfold register at h
  obtain ⟨hnew, h⟩ := ite_error_eq_ok.mp h
  rw [not_or, Option.not_isSome_iff_eq_none, Option.not_isSome_iff_eq_none] at hnew
  cases h
  exact .registered u email passwordHash token clock _ _ hnew.1 hnew.2

theorem requestReset_move {email : String} (hnew : w.txs.get? tx = none) :
    w.Move (.requestReset tx email) (w.requestReset P tx email) := by
  unfold requestReset
  split
  · exact .entered _ tx _ hnew rfl rfl (fun u p hs => by cases hs) rfl
  · next u row hfind =>
    split
    · refine .entered _ tx _ hnew rfl rfl (fun u' p hs => ?_) rfl
      cases hs
      rw [Table.get?_eq_some_iff.mpr (List.mem_of_find?_eq_some hfind)]
      exact .inl (by simp)
    · exact .entered _ tx _ hnew rfl rfl (fun u p hs => by cases hs) rfl

theorem resend_move {u : UserId} (hnew : w.txs.get? tx = none) (h : w.resend tx u = .ok w') :
    w.Move (.resend tx u) w' := by
  unfold resend at h
  split at h
  · cases h
  · next row hrow =>
    obtain ⟨-, h⟩ := ite_ok_else_error.mp h
    cases h
    refine .entered _ tx _ hnew rfl rfl (fun u' p hs => ?_) rfl
    cases hs
    rw [hrow]
    exact .inl (by simp)

theorem locate_move {token : TokenHash} {p : Purpose} (hnew : w.txs.get? tx = none)
    (h : w.locate tx token p = .ok w') : w.Move (.locate tx token p) w' := by
  unfold locate at h
  split at h
  · cases h
  · next t ht =>
    obtain ⟨-, h⟩ := ite_ok_else_error.mp h
    cases h
    refine .entered _ tx _ hnew rfl rfl (fun u p hs => ?_) rfl
    cases hs
    exact .inr ⟨token, t, ht, rfl⟩

theorem visit_move {u : UserId} {p : Purpose} {startedAt : Time} {found : List TokenHash} {h₀ : TokenHash}
    {todo written : List TokenHash}
    (hx : w.txs.get? tx = some (.invalidating u p startedAt found (h₀ :: todo) written))
    (h : w.visit tx u p startedAt found h₀ todo written = .ok w') : w.Move (.visit tx) w' := by
  unfold visit at h
  obtain ⟨hfree, h⟩ := ite_error_eq_ok.mp h
  rw [Bool.not_eq_true] at hfree
  split at h
  · next hopen =>
    cases h
    exact .written tx u p startedAt found h₀ todo written hx hfree hopen
  · next hshut =>
    cases h
    exact .skipped tx u p startedAt found h₀ todo written hx (Bool.eq_false_iff.mpr hshut)

theorem issue_move {u : UserId} {p : Purpose} {startedAt : Time} {found written : List TokenHash}
    {token : TokenHash} {clock : Time}
    (hx : w.txs.get? tx = some (.invalidating u p startedAt found [] written)) :
    w.Move (.issue tx token clock) (w.issue tx u p startedAt found written token clock) := by
  unfold issue
  split
  · exact move_reject hx rfl
  · exact .moved _ tx _ _ hx (.inl ⟨rfl, rfl, rfl⟩) rfl

theorem lock_move {token : TokenHash} {u : UserId} {p : Purpose} {startedAt : Time}
    (hx : w.txs.get? tx = some (.begun token u p startedAt))
    (h : w.lock tx token u p startedAt = .ok w') : w.Move (.lock tx) w' := by
  unfold lock at h
  obtain ⟨hfree, h⟩ := ite_error_eq_ok.mp h
  rw [Bool.not_eq_true] at hfree
  split at h
  · cases h
    exact move_reject hx rfl
  · next t ht =>
    split at h
    · next hmatch =>
      cases h
      exact .locked tx token u p startedAt t hx hfree ht ⟨hmatch.1, hmatch.2.1⟩ hmatch.2.2
    · cases h
      exact move_reject hx rfl

theorem applyWrites_move {token : TokenHash} {u : UserId} {p : Purpose} {startedAt : Time}
    {newPassword : String} (hx : w.txs.get? tx = some (.locked token u p startedAt))
    (h : w.applyWrites P tx token u p startedAt newPassword = .ok w') :
    w.Move (.apply tx newPassword) w' := by
  have hon (write : Option User) :
      w.Move (.apply tx newPassword) (w.setTx tx (.applied token u p startedAt write)) :=
    .moved _ tx _ _ hx (.inl ⟨rfl, rfl, rfl⟩) rfl
  unfold applyWrites at h
  split at h
  · cases h
    exact move_reject hx rfl
  · cases h
    exact move_reject hx rfl
  · next row hrow =>
    split at h
    · obtain ⟨-, h⟩ := ite_error_eq_ok.mp h
      cases h
      exact hon _
    · split at h
      · cases h
        exact hon _
      · cases h
        exact move_reject hx rfl
  · next row hrow =>
    split at h
    · obtain ⟨-, h⟩ := ite_error_eq_ok.mp h
      cases h
      exact hon _
    · cases h
      exact move_reject hx rfl

theorem commitIssue_move {u : UserId} {p : Purpose} {startedAt : Time} {found written : List TokenHash}
    {token : TokenHash} {expiresAt : Time}
    (hx : w.txs.get? tx = some (.issuing u p startedAt found written token expiresAt)) :
    w.Move (.commit tx) (w.commitIssue tx u p startedAt written token expiresAt) := by
  unfold commitIssue
  split
  · next htaken => exact move_reject hx (by simp only [observed, hx]; exact if_pos htaken)
  · next hnew =>
    exact .issued tx u p startedAt found written token expiresAt hx
      (Option.not_isSome_iff_eq_none.mp hnew)

theorem setStatus_move {u : UserId} {s : UserStatus} :
    w.Move (.setStatus u s)
      { w with users := w.users.map fun u' row => if u' = u then { row with status := s } else row } := by
  refine .elsewhere _ _ rfl rfl (fun u' hu' => ?_) rfl
  rw [Table.get?_map]
  exact fun h => hu' (Option.map_eq_none_iff.mp h)

theorem step_move {a : Action} (h : w.step P a = .ok w') : w.Move a w' := by
  cases a with
  | tick micros =>
    cases h
    exact .elsewhere _ _ rfl rfl (fun u hu => hu) rfl
  | register u email passwordHash token clock => exact register_move h
  | setStatus u s =>
    obtain ⟨-, h⟩ := ite_error_eq_ok.mp h
    cases h
    exact setStatus_move
  | requestReset tx email =>
    obtain ⟨hnew, h⟩ := ite_error_eq_ok.mp h
    cases h
    exact requestReset_move (Option.not_isSome_iff_eq_none.mp hnew)
  | resend tx u =>
    obtain ⟨hnew, h⟩ := ite_error_eq_ok.mp h
    exact resend_move (Option.not_isSome_iff_eq_none.mp hnew) h
  | locate tx token p =>
    obtain ⟨hnew, h⟩ := ite_error_eq_ok.mp h
    exact locate_move (Option.not_isSome_iff_eq_none.mp hnew) h
  | begin tx =>
    simp only [step] at h
    split at h
    · next u p hx =>
      cases h
      exact .moved _ tx _ _ hx (.inl ⟨rfl, rfl, rfl⟩) rfl
    · next token u p hx =>
      cases h
      exact .moved _ tx _ _ hx (.inl ⟨rfl, rfl, rfl⟩) rfl
    · cases h
  | scan tx =>
    simp only [step] at h
    split at h
    · next u p startedAt hx =>
      cases h
      exact .scanned tx u p startedAt hx
    · cases h
  | visit tx =>
    simp only [step] at h
    split at h
    · next hx => exact visit_move hx h
    · cases h
  | issue tx token clock =>
    simp only [step] at h
    split at h
    · next hx =>
      cases h
      exact issue_move hx
    · cases h
  | lock tx =>
    simp only [step] at h
    split at h
    · next hx => exact lock_move hx h
    · cases h
  | apply tx newPassword =>
    simp only [step] at h
    split at h
    · next hx => exact applyWrites_move hx h
    · cases h
  | commit tx =>
    simp only [step] at h
    split at h
    · next hx =>
      cases h
      exact commitIssue_move hx
    · next token u p startedAt write hx =>
      cases h
      exact .confirmed tx token u p startedAt write hx
    · cases h
  | fail tx =>
    simp only [step] at h
    split at h
    · cases h
    · cases h
    · next x _ hx =>
      cases h
      exact move_reject hx rfl

end Registry

/-! ## What the locks keep -/

/-- An insertion leaves the rows that are there. -/
theorem get?_insert_of_some {κ α : Type*} [DecidableEq κ] {t : Table κ α} {k k' : κ} {v x : α}
    (h : t.get? k' = some x) : (t.insert k v).get? k' = some x := by
  cases hk : t.get? k with
  | none =>
    have hne : k' ≠ k := by
      rintro rfl
      rw [hk] at h
      cases h
    rw [Table.get?_insert hk, if_neg hne]
    exact h
  | some v₀ =>
    rw [Table.insert_of_some hk]
    exact h

/-- What an `UPDATE` has found it has still to visit, has written, or has seen consumed. -/
def Registry.Scanned (w : Registry) (x : Tx) : Prop :=
  ∀ found todo, x.scan = some (found, todo) → (∀ h ∈ todo, h ∈ found) ∧
    ∀ h ∈ found, (∃ t, w.tokens.get? h = some t ∧ x.subject = some (t.userId, t.purpose)) ∧
      (h ∈ todo ∨ h ∈ x.holds ∨ w.Closed h)

/-- The tables fit together, and a lock protects an unconsumed row and is held once. -/
structure Registry.Sound (w : Registry) : Prop where
  owned : ∀ h t, w.tokens.get? h = some t → w.users.get? t.userId ≠ none
  backed : ∀ tx x u p, w.txs.get? tx = some x → x.subject = some (u, p) → w.users.get? u ≠ none
  held : ∀ tx x h, w.txs.get? tx = some x → h ∈ x.holds →
    ∃ t, w.tokens.get? h = some t ∧ x.subject = some (t.userId, t.purpose) ∧ t.consumedAt = none
  exclusive : HeldOnce Tx.holds w.txs
  visited : ∀ tx x, w.txs.get? tx = some x → w.Scanned x

namespace Registry

variable {w w' : Registry} {tx : TxId} {h : TokenHash}

theorem Initial.sound (h₀ : w.Initial) : w.Sound := by
  have htokens (h : TokenHash) : w.tokens.get? h = none := by
    rw [h₀.tokens]
    rfl
  have htxs (tx : TxId) : w.txs.get? tx = none := by
    rw [h₀.txs]
    rfl
  refine ⟨fun h t ht => ?_, fun tx x u p hx => ?_, fun tx x h hx => ?_, h₀.txs ▸ heldOnce_empty,
    fun tx x hx => ?_⟩
  · rw [htokens] at ht
    cases ht
  all_goals
    rw [htxs] at hx
    cases hx

/-- What `_INVALIDATE_PRIOR_SQL` matches. -/
theorem mem_prior {u : UserId} {p : Purpose} : h ∈ w.prior u p ↔
    ∃ t, w.tokens.get? h = some t ∧ t.userId = u ∧ t.purpose = p ∧ t.consumedAt = none := by
  rw [prior, List.mem_map]
  constructor
  · rintro ⟨⟨h', t⟩, hmem, rfl⟩
    simp only [List.mem_filter, Bool.and_eq_true, decide_eq_true_eq, Option.isNone_iff_eq_none] at hmem
    exact ⟨t, Table.get?_eq_some_iff.mpr hmem.1, hmem.2.1.1, hmem.2.1.2, hmem.2.2⟩
  · rintro ⟨t, ht, hu, hp, hnone⟩
    refine ⟨(h, t), List.mem_filter.mpr ⟨Table.get?_eq_some_iff.mp ht, ?_⟩, rfl⟩
    simp [hu, hp, hnone]

theorem Scanned.of_none {x : Tx} (hscan : x.scan = none) : w.Scanned x := by
  intro found todo hsc
  rw [hscan] at hsc
  cases hsc

/-- A transaction goes on: what it holds and has found afterwards is in order. -/
theorem Sound.setTx (hs : w.Sound) {x x' : Tx} (hx : w.txs.get? tx = some x)
    (hsubject : ∀ u p, x'.subject = some (u, p) → x.subject = some (u, p))
    (hheld : ∀ h ∈ x'.holds, h ∈ x.holds ∧ x'.subject = x.subject ∨ w.tokenLocked tx h = false ∧
      ∃ t, w.tokens.get? h = some t ∧ x'.subject = some (t.userId, t.purpose) ∧ t.consumedAt = none)
    (hscan : w.Scanned x') : (w.setTx tx x').Sound := by
  refine ⟨hs.owned, fun tx₁ x₁ u p h₁ hsub => ?_, fun tx₁ x₁ h h₁ hmem => ?_, hs.exclusive.set hx ?_,
    fun tx₁ x₁ h₁ => ?_⟩
  · rcases get?_set_of_some hx h₁ with ⟨-, h₁⟩ | ⟨-, rfl⟩
    · exact hs.backed tx₁ x₁ u p h₁ hsub
    · exact hs.backed tx x u p hx (hsubject u p hsub)
  · rcases get?_set_of_some hx h₁ with ⟨-, h₁⟩ | ⟨-, rfl⟩
    · exact hs.held tx₁ x₁ h h₁ hmem
    · rcases hheld h hmem with ⟨hold, hsame⟩ | ⟨-, hnew⟩
      · rw [hsame]
        exact hs.held tx x h hx hold
      · exact hnew
  · intro h hmem
    rcases hheld h hmem with ⟨hold, -⟩ | ⟨hfree, -⟩
    · exact .inl hold
    · exact .inr (freeFor_iff.mp hfree)
  · rcases get?_set_of_some hx h₁ with ⟨-, h₁⟩ | ⟨-, rfl⟩
    · exact hs.visited tx₁ x₁ h₁
    · exact hscan

/-- A transaction comes in. -/
theorem Sound.enter (hs : w.Sound) {x : Tx} (hholds : x.holds = [])
    (hscan : x.scan = none)
    (huser : ∀ u p, x.subject = some (u, p) →
      w.users.get? u ≠ none ∨ ∃ h t, w.tokens.get? h = some t ∧ t.userId = u) :
    (w.enter tx x).Sound := by
  have hcases (tx₁ : TxId) (x₁ : Tx) (h₁ : (w.enter tx x).txs.get? tx₁ = some x₁) :
      w.txs.get? tx₁ = some x₁ ∨ x₁ = x :=
    (Table.get?_insert_cases h₁).imp_right And.right
  refine ⟨hs.owned, fun tx₁ x₁ u p h₁ hsub => ?_, fun tx₁ x₁ h h₁ hmem => ?_,
    hs.exclusive.insert hholds, fun tx₁ x₁ h₁ => ?_⟩
  · rcases hcases tx₁ x₁ h₁ with h₁ | rfl
    · exact hs.backed tx₁ x₁ u p h₁ hsub
    · rcases huser u p hsub with hu | ⟨h, t, ht, rfl⟩
      · exact hu
      · exact hs.owned h t ht
  · rcases hcases tx₁ x₁ h₁ with h₁ | rfl
    · exact hs.held tx₁ x₁ h h₁ hmem
    · rw [hholds] at hmem
      cases hmem
  · rcases hcases tx₁ x₁ h₁ with h₁ | rfl
    · exact hs.visited tx₁ x₁ h₁
    · exact Scanned.of_none hscan

/-- What a row was before it was consumed. -/
theorem consume_cases {startedAt : Time} {hs : List TokenHash} {t' : ActionToken}
    (ht' : (w.consume startedAt hs).get? h = some t') :
    ∃ t, w.tokens.get? h = some t ∧ t'.userId = t.userId ∧ t'.purpose = t.purpose ∧
      (h ∈ hs ∧ t'.consumedAt = some startedAt ∨ h ∉ hs ∧ t' = t) := by
  rw [consume, Table.get?_map] at ht'
  obtain ⟨t, ht, rfl⟩ := Option.map_eq_some_iff.mp ht'
  refine ⟨t, ht, ?_⟩
  by_cases hmem : h ∈ hs
  · simp [hmem]
  · simp [hmem]

/-- What becomes of a row. -/
theorem get?_consume (startedAt : Time) (hs : List TokenHash) {t : ActionToken}
    (ht : w.tokens.get? h = some t) :
    ∃ t', (w.consume startedAt hs).get? h = some t' ∧
      (h ∈ hs ∧ t'.consumedAt = some startedAt ∨ h ∉ hs ∧ t' = t) := by
  refine ⟨_, by rw [consume, Table.get?_map, ht, Option.map_some], ?_⟩
  by_cases hmem : h ∈ hs
  · simp [hmem]
  · simp [hmem]

theorem Closed.consume (hc : w.Closed h) (startedAt : Time) (hs : List TokenHash) :
    Closed { w with tokens := w.consume startedAt hs } h := by
  obtain ⟨t, ht, hne⟩ := hc
  obtain ⟨t', ht', ⟨-, hsome⟩ | ⟨-, rfl⟩⟩ := get?_consume startedAt hs ht
  · exact ⟨t', ht', by rw [hsome]; simp⟩
  · exact ⟨t', ht', hne⟩

theorem Closed.insert (hc : w.Closed h) (token : TokenHash) (t : ActionToken) :
    Closed { w with tokens := w.tokens.insert token t } h := by
  obtain ⟨t', ht', hne⟩ := hc
  exact ⟨t', get?_insert_of_some ht', hne⟩

/-- Users come in and change. -/
theorem Sound.setUsers (hs : w.Sound) (users : Table UserId User) (now : Time)
    (husers : ∀ u, w.users.get? u ≠ none → users.get? u ≠ none) :
    Sound { w with users := users, now := now } :=
  ⟨fun h t ht => husers _ (hs.owned h t ht), fun tx x u p hx hsub => husers _ (hs.backed tx x u p hx hsub),
    hs.held, hs.exclusive, hs.visited⟩

/-- A token comes in. -/
theorem Sound.insertToken (hs : w.Sound) {token : TokenHash} (t : ActionToken)
    (huser : w.users.get? t.userId ≠ none) : Sound { w with tokens := w.tokens.insert token t } := by
  refine ⟨fun h t' ht' => ?_, hs.backed, fun tx x h hx hmem => ?_, hs.exclusive,
    fun tx x hx found todo hsc => ⟨(hs.visited tx x hx found todo hsc).1, fun h hmem => ?_⟩⟩
  · rcases Table.get?_insert_cases ht' with hold | ⟨-, rfl⟩
    · exact hs.owned h t' hold
    · exact huser
  · obtain ⟨t', ht', hrest⟩ := hs.held tx x h hx hmem
    exact ⟨t', get?_insert_of_some ht', hrest⟩
  · obtain ⟨⟨t', ht', hsub⟩, hdone⟩ := (hs.visited tx x hx found todo hsc).2 h hmem
    exact ⟨⟨t', get?_insert_of_some ht', hsub⟩,
      hdone.imp_right (Or.imp_right fun hc => hc.insert _ _)⟩

/-- Rows that nobody has locked are consumed. -/
theorem Sound.consume (hs : w.Sound) (startedAt : Time) {hs' : List TokenHash}
    (hfree : ∀ tx x h, w.txs.get? tx = some x → h ∈ x.holds → h ∉ hs') :
    Sound { w with tokens := w.consume startedAt hs' } := by
  refine ⟨fun h t' ht' => ?_, hs.backed, fun tx x h hx hmem => ?_, hs.exclusive,
    fun tx x hx found todo hsc => ⟨(hs.visited tx x hx found todo hsc).1, fun h hmem => ?_⟩⟩
  · obtain ⟨t, ht, huser, -⟩ := consume_cases ht'
    rw [huser]
    exact hs.owned h t ht
  · obtain ⟨t, ht, hrest⟩ := hs.held tx x h hx hmem
    obtain ⟨t', ht', ⟨hin, -⟩ | ⟨-, rfl⟩⟩ := get?_consume startedAt hs' ht
    · exact absurd hin (hfree tx x h hx hmem)
    · exact ⟨t', ht', hrest⟩
  · obtain ⟨⟨t, ht, hsub⟩, hdone⟩ := (hs.visited tx x hx found todo hsc).2 h hmem
    obtain ⟨t', ht', hsame⟩ := get?_consume startedAt hs' ht
    have hrow : t'.userId = t.userId ∧ t'.purpose = t.purpose := by
      obtain ⟨t₁, ht₁, hu, hp, -⟩ := consume_cases ht'
      rw [ht] at ht₁
      cases ht₁
      exact ⟨hu, hp⟩
    exact ⟨⟨t', ht', by rw [hrow.1, hrow.2, hsub]⟩,
      hdone.imp_right (Or.imp_right fun hc => hc.consume _ _)⟩

/-- A transaction that goes on with what it has, or gives it up. -/
theorem Sound.moved (hs : w.Sound) {x x' : Tx} (hx : w.txs.get? tx = some x)
    (hkept : x'.subject = x.subject ∧ x'.holds = x.holds ∧ x'.scan = x.scan ∨
      x'.subject = none ∧ x'.holds = [] ∧ x'.scan = none) : (w.setTx tx x').Sound := by
  rcases hkept with ⟨hsub, hholds, hscan⟩ | ⟨hsub, hholds, hscan⟩
  · refine hs.setTx hx (fun u p h => hsub ▸ h) (fun h hmem => .inl ⟨hholds ▸ hmem, hsub⟩)
      fun found todo hsc => ?_
    rw [hscan] at hsc
    rw [hholds, hsub]
    exact hs.visited tx x hx found todo hsc
  · refine hs.setTx hx (fun u p h => ?_) (fun h hmem => ?_) (.of_none hscan)
    · rw [hsub] at h
      cases h
    · rw [hholds] at hmem
      cases hmem

/-- A transaction commits: its locks are gone, and the rows that it held are consumed. -/
theorem Sound.finish (hs : w.Sound) {x : Tx} (hx : w.txs.get? tx = some x) (startedAt : Time) :
    Sound { w with
      tokens := w.consume startedAt x.holds
      txs := w.txs.set tx (.ended (.ok ())) } := by
  have hended : (w.setTx tx (.ended (.ok ()))).Sound :=
    hs.moved hx (.inr ⟨rfl, rfl, rfl⟩)
  exact hended.consume startedAt fun tx₁ x₁ h h₁ hmem => hs.exclusive.not_mem_of_ended hx rfl h₁ hmem

theorem Sound.step {a : Action} (hs : w.Sound) (h : w.Move a w') : w'.Sound := by
  cases h with
  | elsewhere a w' htokens htxs husers hobs =>
    obtain ⟨users, tokens, txs, now⟩ := w'
    cases htokens
    cases htxs
    exact hs.setUsers users now husers
  | registered u email passwordHash token clock row expiresAt huser htoken =>
    have husers := hs.setUsers (w.users.insert u row) w.now fun u' hu' => by
      obtain ⟨row', hrow'⟩ := Option.ne_none_iff_exists'.mp hu'
      simp [get?_insert_of_some hrow']
    exact husers.insertToken _ (by simp [Table.get?_insert huser])
  | entered a tx x hnew hholds hscan huser hobs => exact hs.enter hholds hscan huser
  | moved a tx x x' hx hkept hobs => exact hs.moved hx hkept
  | scanned tx u p startedAt hx =>
    refine hs.setTx hx (fun u' p' h => h) (fun h hmem => by cases hmem) fun found todo hsc => ?_
    cases hsc
    refine ⟨fun h hmem => hmem, fun h hmem => ⟨?_, .inl hmem⟩⟩
    obtain ⟨t, ht, rfl, rfl, -⟩ := mem_prior.mp hmem
    exact ⟨t, ht, rfl⟩
  | written tx u p startedAt found h todo written hx hfree hopen =>
    obtain ⟨htodo, hfound⟩ := hs.visited tx _ hx _ _ rfl
    obtain ⟨⟨t, ht, hsub⟩, -⟩ := hfound h (htodo h List.mem_cons_self)
    rw [ht, Option.any_some, Option.isNone_iff_eq_none] at hopen
    refine hs.setTx hx (fun u' p' h => h) (fun h' hmem => ?_) fun found' todo' hsc => ?_
    · rcases List.mem_cons.mp hmem with rfl | hmem
      · exact .inr ⟨hfree, t, ht, hsub, hopen⟩
      · exact .inl ⟨hmem, rfl⟩
    · cases hsc
      refine ⟨fun h' hmem => htodo h' (List.mem_cons_of_mem _ hmem), fun h' hmem => ?_⟩
      obtain ⟨hrow, hdone⟩ := hfound h' hmem
      refine ⟨hrow, ?_⟩
      rcases hdone with hmem' | hmem' | hc
      · rcases List.mem_cons.mp hmem' with rfl | hmem'
        · exact .inr (.inl List.mem_cons_self)
        · exact .inl hmem'
      · exact .inr (.inl (List.mem_cons_of_mem _ hmem'))
      · exact .inr (.inr hc)
  | skipped tx u p startedAt found h todo written hx hshut =>
    obtain ⟨htodo, hfound⟩ := hs.visited tx _ hx _ _ rfl
    obtain ⟨⟨t, ht, -⟩, -⟩ := hfound h (htodo h List.mem_cons_self)
    rw [ht, Option.any_some, Option.isNone_eq_false_iff] at hshut
    refine hs.setTx hx (fun u' p' h => h) (fun h' hmem => .inl ⟨hmem, rfl⟩) fun found' todo' hsc => ?_
    cases hsc
    refine ⟨fun h' hmem => htodo h' (List.mem_cons_of_mem _ hmem), fun h' hmem => ?_⟩
    obtain ⟨hrow, hdone⟩ := hfound h' hmem
    refine ⟨hrow, ?_⟩
    rcases hdone with hmem' | hmem' | hc
    · rcases List.mem_cons.mp hmem' with rfl | hmem'
      · exact .inr (.inr ⟨t, ht, Option.isSome_iff_ne_none.mp hshut⟩)
      · exact .inl hmem'
    · exact .inr (.inl hmem')
    · exact .inr (.inr hc)
  | locked tx token u p startedAt t hx hfree ht hmatch hlive =>
    refine hs.setTx hx (fun u' p' h => h) (fun h hmem => ?_) (.of_none rfl)
    cases List.mem_singleton.mp hmem
    obtain ⟨rfl, rfl⟩ := hmatch
    refine .inr ⟨hfree, t, ht, rfl, ?_⟩
    rw [ActionToken.isLive, Bool.and_eq_true, Option.isNone_iff_eq_none] at hlive
    exact hlive.1
  | issued tx u p startedAt found written token expiresAt hx hnew =>
    exact (hs.finish hx startedAt).insertToken _ (hs.backed tx _ u p hx rfl)
  | confirmed tx token u p startedAt write hx =>
    refine (hs.finish hx startedAt).setUsers _ w.now fun u' hu' => ?_
    cases write with
    | none => exact hu'
    | some row =>
      rw [Table.get?_set]
      split
      · simpa using hu'
      · exact hu'

end Registry

/-! ## The history -/

/-- What has been issued and confirmed, next to the rows. -/
structure Registry.Told (w : Registry) (history : List Event) : Prop where
  issued : ∀ u p h, .issued u p h ∈ history →
    ∃ t, w.tokens.get? h = some t ∧ t.userId = u ∧ t.purpose = p
  confirmed : ∀ u p h, .confirmed u p h ∈ history → w.Closed h
  once : ∀ u p h, history.count (.confirmed u p h) ≤ 1

/-- At most one token of a user and a purpose is unconsumed, and none that has been issued before a
confirmation. -/
structure Registry.Ended (w : Registry) (history : List Event) : Prop where
  single : ∀ h h' t t', w.tokens.get? h = some t → w.tokens.get? h' = some t' → t.userId = t'.userId →
    t.purpose = t'.purpose → t.consumedAt = none → t'.consumedAt = none → h = h'
  closed : ∀ pre u p h post, history = pre ++ .confirmed u p h :: post →
    ∀ h', .issued u p h' ∈ pre → w.Closed h' ∧ .confirmed u p h' ∉ post

/-- The rows stay what they are, and consumed. -/
structure Registry.Grows (w w' : Registry) : Prop where
  rows : ∀ h t, w.tokens.get? h = some t →
    ∃ t', w'.tokens.get? h = some t' ∧ t'.userId = t.userId ∧ t'.purpose = t.purpose
  closed : ∀ h, w.Closed h → w'.Closed h

namespace Registry

variable {w w' : Registry} {history : List Event} {u : UserId} {p : Purpose} {h : TokenHash}

theorem Grows.of_eq (heq : w'.tokens = w.tokens) : w.Grows w' := by
  refine ⟨fun h t ht => ⟨t, by rw [heq, ht], rfl, rfl⟩, fun h hc => ?_⟩
  obtain ⟨t, ht, hne⟩ := hc
  exact ⟨t, by rw [heq, ht], hne⟩

theorem Grows.consume (startedAt : Time) (hs : List TokenHash)
    (heq : w'.tokens = w.consume startedAt hs) : w.Grows w' := by
  refine ⟨fun h t ht => ?_, fun h hc => ?_⟩
  · obtain ⟨t', ht', -⟩ := get?_consume startedAt hs ht
    obtain ⟨t₁, ht₁, hu, hp, -⟩ := consume_cases ht'
    rw [ht] at ht₁
    cases ht₁
    exact ⟨t', by rw [heq, ht'], hu, hp⟩
  · obtain ⟨t, ht, hne⟩ := hc.consume startedAt hs
    exact ⟨t, by rw [heq]; exact ht, hne⟩

theorem Grows.insert (token : TokenHash) (t : ActionToken) (heq : w'.tokens = w.tokens.insert token t) :
    w.Grows w' := by
  refine ⟨fun h t' ht' => ⟨t', by rw [heq]; exact get?_insert_of_some ht', rfl, rfl⟩, fun h hc => ?_⟩
  obtain ⟨t', ht', hne⟩ := hc
  exact ⟨t', by rw [heq]; exact get?_insert_of_some ht', hne⟩

theorem Told.mono (ht : w.Told history) (hg : w.Grows w') : w'.Told history where
  issued u p h hmem := by
    obtain ⟨t, hrow, rfl, rfl⟩ := ht.issued u p h hmem
    exact hg.rows h t hrow
  confirmed u p h hmem := hg.closed h (ht.confirmed u p h hmem)
  once := ht.once

theorem Told.issue (ht : w.Told history)
    (hrow : ∃ t, w.tokens.get? h = some t ∧ t.userId = u ∧ t.purpose = p) :
    w.Told (history ++ [.issued u p h]) where
  issued u' p' h' hmem := by
    rcases List.mem_append.mp hmem with hmem | hmem
    · exact ht.issued u' p' h' hmem
    · cases List.mem_singleton.mp hmem
      exact hrow
  confirmed u' p' h' hmem := by
    rcases List.mem_append.mp hmem with hmem | hmem
    · exact ht.confirmed u' p' h' hmem
    · cases List.mem_singleton.mp hmem
  once u' p' h' := by
    rw [List.count_append, List.count_singleton, if_neg (by simp), add_zero]
    exact ht.once u' p' h'

theorem Told.confirm (ht : w.Told history) (hclosed : w.Closed h)
    (hnew : .confirmed u p h ∉ history) : w.Told (history ++ [.confirmed u p h]) where
  issued u' p' h' hmem := by
    rcases List.mem_append.mp hmem with hmem | hmem
    · exact ht.issued u' p' h' hmem
    · cases List.mem_singleton.mp hmem
  confirmed u' p' h' hmem := by
    rcases List.mem_append.mp hmem with hmem | hmem
    · exact ht.confirmed u' p' h' hmem
    · cases List.mem_singleton.mp hmem
      exact hclosed
  once u' p' h' := by
    rw [List.count_append, List.count_singleton]
    by_cases heq : Event.confirmed u p h = .confirmed u' p' h'
    · rw [← heq, List.count_eq_zero.mpr hnew]
      simp
    · rw [if_neg (by simpa using heq), add_zero]
      exact ht.once u' p' h'

/-- What comes before a confirmation in a longer history. -/
theorem concat_eq_append_cons {e : Event} {pre post : List Event} {m : Event}
    (heq : history ++ [e] = pre ++ m :: post) :
    (∃ post', post = post' ++ [e] ∧ history = pre ++ m :: post') ∨ post = [] ∧ e = m ∧ history = pre := by
  rcases List.eq_nil_or_concat post with rfl | ⟨post', e', rfl⟩
  · have hinj := List.append_inj' heq rfl
    exact .inr ⟨rfl, List.singleton_injective hinj.2, hinj.1⟩
  · rw [List.concat_eq_append, ← List.cons_append, ← List.append_assoc] at heq
    have hinj := List.append_inj' heq rfl
    cases hinj.2
    exact .inl ⟨post', List.concat_eq_append, hinj.1⟩

/-- A row that is locked has not been consumed. -/
theorem Sound.not_closed (hs : w.Sound) {tx : TxId} {x : Tx} (hx : w.txs.get? tx = some x)
    (hmem : h ∈ x.holds) : ¬ w.Closed h := by
  rintro ⟨t, ht, hne⟩
  obtain ⟨t', ht', -, hnone⟩ := hs.held tx x h hx hmem
  rw [ht] at ht'
  cases ht'
  exact hne hnone

/-- A confirmation consumes its token. -/
theorem commitConfirm_closed (hs : w.Sound) {tx : TxId} {startedAt : Time} {write : Option User}
    (hx : w.txs.get? tx = some (.applied h u p startedAt write)) :
    (w.commitConfirm tx h u startedAt write).Closed h := by
  obtain ⟨t, ht, -⟩ := hs.held tx _ h hx (List.mem_singleton_self h)
  obtain ⟨t', ht', ⟨-, hsome⟩ | ⟨hnot, -⟩⟩ := get?_consume startedAt [h] ht
  · exact ⟨t', ht', by rw [hsome]; simp⟩
  · exact absurd (List.mem_singleton_self h) hnot

/-- The new row of a request. -/
theorem issued_grows {tx : TxId} {startedAt expiresAt : Time} {written : List TokenHash} :
    w.Grows { w with
      tokens := (w.consume startedAt written).insert h ⟨u, p, expiresAt, none⟩
      txs := w.txs.set tx (.ended (.ok ())) } := by
  have hconsumed : w.Grows { w with tokens := w.consume startedAt written } := .consume startedAt written rfl
  refine ⟨fun h' t ht => ?_, fun h' hc => ?_⟩
  · obtain ⟨t', ht', hsame⟩ := hconsumed.rows h' t ht
    exact ⟨t', get?_insert_of_some ht', hsame⟩
  · obtain ⟨t', ht', hne⟩ := hconsumed.closed h' hc
    exact ⟨t', get?_insert_of_some ht', hne⟩

theorem get?_consume_eq_none (startedAt : Time) (hs : List TokenHash) (hnone : w.tokens.get? h = none) :
    (w.consume startedAt hs).get? h = none := by
  rw [consume, Table.get?_map, hnone, Option.map_none]

theorem Told.step {a : Action} (hs : w.Sound) (ht : w.Told history) (hm : w.Move a w') :
    w'.Told (history ++ w.observed a) := by
  have hquiet (hg : w.Grows w') (hobs : w.observed a = []) : w'.Told (history ++ w.observed a) := by
    rw [hobs, List.append_nil]
    exact ht.mono hg
  cases hm with
  | elsewhere a w' htokens htxs husers hobs => exact hquiet (.of_eq htokens) hobs
  | registered u email passwordHash token clock row expiresAt huser htoken =>
    refine (ht.mono (.insert token _ rfl)).issue ⟨⟨u, .emailVerify, expiresAt, none⟩, ?_, rfl, rfl⟩
    exact (Table.get?_insert htoken _ _).trans (if_pos rfl)
  | entered a tx x hnew hholds hscan huser hobs => exact hquiet (.of_eq rfl) hobs
  | moved a tx x x' hx hkept hobs => exact hquiet (.of_eq rfl) hobs
  | scanned tx u p startedAt hx => exact hquiet (.of_eq rfl) rfl
  | written tx u p startedAt found h todo written hx hfree hopen => exact hquiet (.of_eq rfl) rfl
  | skipped tx u p startedAt found h todo written hx hshut => exact hquiet (.of_eq rfl) rfl
  | locked tx token u p startedAt t hx hfree hrow hmatch hlive => exact hquiet (.of_eq rfl) rfl
  | issued tx u p startedAt found written token expiresAt hx hnew =>
    have hobs : w.observed (.commit tx) = [.issued u p token] := by
      simp [observed, hx, hnew]
    rw [hobs]
    refine (ht.mono issued_grows).issue ⟨⟨u, p, expiresAt, none⟩, ?_, rfl, rfl⟩
    exact (Table.get?_insert (get?_consume_eq_none _ _ hnew) _ _).trans (if_pos rfl)
  | confirmed tx token u p startedAt write hx =>
    have hobs : w.observed (.commit tx) = [.confirmed u p token] := by
      simp [observed, hx]
    rw [hobs]
    refine (ht.mono (.consume startedAt [token] rfl)).confirm (commitConfirm_closed hs hx) fun hmem => ?_
    exact hs.not_closed hx (List.mem_singleton_self token) (ht.confirmed u p token hmem)

/-- What a confirmation or a request leaves unconsumed was so before. -/
theorem unconsumed_of_consume {startedAt : Time} {hs : List TokenHash} {t' : ActionToken}
    (ht' : (w.consume startedAt hs).get? h = some t') (hnone : t'.consumedAt = none) :
    h ∉ hs ∧ w.tokens.get? h = some t' := by
  obtain ⟨t, ht, -, -, ⟨-, hsome⟩ | ⟨hnot, rfl⟩⟩ := consume_cases ht'
  · rw [hsome] at hnone
    cases hnone
  · exact ⟨hnot, ht⟩

theorem Ended.quiet (he : w.Ended history) (heq : w'.tokens = w.tokens) : w'.Ended history where
  single h h' t t' ht ht' := by
    rw [heq] at ht ht'
    exact he.single h h' t t' ht ht'
  closed pre u p h post hh h' hmem := by
    obtain ⟨hc, hnot⟩ := he.closed pre u p h post hh h' hmem
    exact ⟨(Grows.of_eq heq).closed h' hc, hnot⟩

/-- Another token is issued. -/
theorem Ended.issue (he : w.Ended history) (hg : w.Grows w')
    (hsingle : ∀ h h' t t', w'.tokens.get? h = some t → w'.tokens.get? h' = some t' →
      t.userId = t'.userId → t.purpose = t'.purpose → t.consumedAt = none → t'.consumedAt = none →
      h = h') : w'.Ended (history ++ [.issued u p h]) where
  single := hsingle
  closed pre u' p' h₁ post heq h' hmem := by
    rcases concat_eq_append_cons heq with ⟨post', rfl, hold⟩ | ⟨-, hne, -⟩
    · obtain ⟨hc, hnot⟩ := he.closed pre u' p' h₁ post' hold h' hmem
      refine ⟨hg.closed h' hc, fun hin => ?_⟩
      rcases List.mem_append.mp hin with hin | hin
      · exact hnot hin
      · cases List.mem_singleton.mp hin
    · cases hne

/-- A token is confirmed: it was the only one of its user and purpose that was not consumed. -/
theorem Ended.confirm {tx : TxId} {startedAt : Time} {write : Option User} (hs : w.Sound)
    (ht : w.Told history) (he : w.Ended history)
    (hx : w.txs.get? tx = some (.applied h u p startedAt write)) :
    (w.commitConfirm tx h u startedAt write).Ended (history ++ [.confirmed u p h]) where
  single h₁ h₂ t₁ t₂ h₁' h₂' hu hp hn₁ hn₂ :=
    he.single h₁ h₂ t₁ t₂ (unconsumed_of_consume h₁' hn₁).2 (unconsumed_of_consume h₂' hn₂).2 hu hp hn₁ hn₂
  closed pre u' p' h₁ post heq h' hmem := by
    have hg : w.Grows (w.commitConfirm tx h u startedAt write) := .consume startedAt [h] rfl
    have hopen := hs.not_closed hx (List.mem_singleton_self h)
    rcases concat_eq_append_cons heq with ⟨post', rfl, hold⟩ | ⟨rfl, hsame, rfl⟩
    · obtain ⟨hc, hnot⟩ := he.closed pre u' p' h₁ post' hold h' hmem
      refine ⟨hg.closed h' hc, fun hin => ?_⟩
      rcases List.mem_append.mp hin with hin | hin
      · exact hnot hin
      · cases List.mem_singleton.mp hin
        exact hopen hc
    · cases hsame
      refine ⟨?_, List.not_mem_nil⟩
      obtain ⟨t', ht', hu', hp'⟩ := ht.issued u p h' hmem
      obtain ⟨t, hrow, hsubject, hnone⟩ := hs.held tx _ h hx (List.mem_singleton_self h)
      cases hsubject
      by_cases hnone' : t'.consumedAt = none
      · rw [he.single h' h t' t ht' hrow hu' hp' hnone' hnone]
        exact commitConfirm_closed hs hx
      · exact hg.closed h' ⟨t', ht', hnone'⟩

/-- A new token is the only one that is not consumed when the request has found all others. -/
theorem single_of_issued {tx : TxId} {startedAt expiresAt : Time} {found written : List TokenHash}
    (hs : w.Sound) (he : w.Ended history)
    (hx : w.txs.get? tx = some (.issuing u p startedAt found written h expiresAt))
    (hG : Unraced w (.commit tx)) (h₁ h₂ : TokenHash)
    (t₁ t₂ : ActionToken)
    (ht₁ : ((w.consume startedAt written).insert h ⟨u, p, expiresAt, none⟩).get? h₁ = some t₁)
    (ht₂ : ((w.consume startedAt written).insert h ⟨u, p, expiresAt, none⟩).get? h₂ = some t₂)
    (huser : t₁.userId = t₂.userId) (hpurpose : t₁.purpose = t₂.purpose) (hn₁ : t₁.consumedAt = none)
    (hn₂ : t₂.consumedAt = none) : h₁ = h₂ := by
  -- Every earlier token of the user and the purpose has been found, so it has been written or was consumed.
  have hearlier (h' : TokenHash) (t' : ActionToken) (ht' : (w.consume startedAt written).get? h' = some t')
      (hu : t'.userId = u) (hp : t'.purpose = p) (hn : t'.consumedAt = none) : False := by
    obtain ⟨hnot, hrow⟩ := unconsumed_of_consume ht' hn
    have hfound := hG _ hx h' (mem_prior.mpr ⟨t', hrow, hu, hp, hn⟩)
    rcases ((hs.visited tx _ hx found [] rfl).2 h' hfound).2 with hmem | hmem | ⟨t, ht, hne⟩
    · cases hmem
    · exact hnot hmem
    · rw [hrow] at ht
      cases ht
      exact hne hn
  rcases Table.get?_insert_cases ht₁ with hold₁ | ⟨heq₁, rfl⟩
  · rcases Table.get?_insert_cases ht₂ with hold₂ | ⟨heq₂, rfl⟩
    · exact he.single h₁ h₂ t₁ t₂ (unconsumed_of_consume hold₁ hn₁).2 (unconsumed_of_consume hold₂ hn₂).2
        huser hpurpose hn₁ hn₂
    · exact absurd hn₁ fun hn => hearlier h₁ t₁ hold₁ huser hpurpose hn
  · rcases Table.get?_insert_cases ht₂ with hold₂ | ⟨heq₂, rfl⟩
    · exact absurd hn₂ fun hn => hearlier h₂ t₂ hold₂ huser.symm hpurpose.symm hn
    · exact heq₁.trans heq₂.symm

theorem Ended.step {a : Action} (hs : w.Sound) (ht : w.Told history) (he : w.Ended history)
    (hG : Unraced w a) (hm : w.Move a w') : w'.Ended (history ++ w.observed a) := by
  have hquiet (htokens : w'.tokens = w.tokens) (hobs : w.observed a = []) :
      w'.Ended (history ++ w.observed a) := by
    rw [hobs, List.append_nil]
    exact he.quiet htokens
  cases hm with
  | elsewhere a w' htokens htxs husers hobs => exact hquiet htokens hobs
  | registered u email passwordHash token clock row expiresAt huser htoken =>
    refine he.issue (.insert token _ rfl) fun h₁ h₂ t₁ t₂ h₁' h₂' hu hp hn₁ hn₂ => ?_
    rcases Table.get?_insert_cases h₁' with hold₁ | ⟨heq₁, rfl⟩
    · rcases Table.get?_insert_cases h₂' with hold₂ | ⟨heq₂, rfl⟩
      · exact he.single h₁ h₂ t₁ t₂ hold₁ hold₂ hu hp hn₁ hn₂
      · -- An account that does not exist has no tokens.
        exact absurd (hu ▸ huser) (hs.owned h₁ t₁ hold₁)
    · rcases Table.get?_insert_cases h₂' with hold₂ | ⟨heq₂, rfl⟩
      · exact absurd (hu ▸ huser) (hs.owned h₂ t₂ hold₂)
      · exact heq₁.trans heq₂.symm
  | entered a tx x hnew hholds hscan huser hobs => exact hquiet rfl hobs
  | moved a tx x x' hx hkept hobs => exact hquiet rfl hobs
  | scanned tx u p startedAt hx => exact hquiet rfl rfl
  | written tx u p startedAt found h todo written hx hfree hopen => exact hquiet rfl rfl
  | skipped tx u p startedAt found h todo written hx hshut => exact hquiet rfl rfl
  | locked tx token u p startedAt t hx hfree hrow hmatch hlive => exact hquiet rfl rfl
  | issued tx u p startedAt found written token expiresAt hx hnew =>
    have hobs : w.observed (.commit tx) = [.issued u p token] := by
      simp [observed, hx, hnew]
    rw [hobs]
    exact he.issue issued_grows (single_of_issued hs he hx hG)
  | confirmed tx token u p startedAt write hx =>
    have hobs : w.observed (.commit tx) = [.confirmed u p token] := by
      simp [observed, hx]
    rw [hobs]
    exact .confirm hs ht he hx

theorem told_nil (w : Registry) : w.Told [] where
  issued u p h hmem := by cases hmem
  confirmed u p h hmem := by cases hmem
  once u p h := Nat.zero_le _

theorem Initial.ended (h₀ : w.Initial) : w.Ended [] where
  single h h' t t' ht := by
    rw [h₀.tokens] at ht
    cases ht
  closed pre u p h post heq := by
    have hlen := congrArg List.length heq
    simp at hlen

end Registry

/-! ## Runs -/

section Runs

variable {P : Primitives} {w₀ : Registry} {as : List Action}

/-- Whatever the interleaving, a token is confirmed once. -/
theorem once_run (h₀ : w₀.Initial) (u : UserId) (p : Purpose) (h : TokenHash) :
    ((actionTokens P).trace Registry.observed w₀ as).count (.confirmed u p h) ≤ 1 := by
  have hinv : ((actionTokens P).run w₀ as).Sound ∧
      ((actionTokens P).run w₀ as).Told ((actionTokens P).trace Registry.observed w₀ as) :=
    System.trace_invariant (S := actionTokens P) (I := fun w history => w.Sound ∧ w.Told history)
      (fun w history a w' hi hs => ⟨hi.1.step (Registry.step_move hs),
        hi.2.step hi.1 (Registry.step_move hs)⟩) ⟨h₀.sound, Registry.told_nil w₀⟩ as
  exact hinv.2.once u p h

/-- In a run whose requests are not raced, tokens are superseded. -/
theorem superseding_run (h₀ : w₀.Initial) (hG : (actionTokens P).Guarded Unraced w₀ as) :
    Superseding ((actionTokens P).run w₀ as) ((actionTokens P).trace Registry.observed w₀ as) := by
  have hinv := System.trace_invariant_of_guarded (S := actionTokens P) (G := Unraced)
    (I := fun w history => w.Sound ∧ w.Told history ∧ w.Ended history)
    (fun w history a w' hi hG hs => ⟨hi.1.step (Registry.step_move hs),
      hi.2.1.step hi.1 (Registry.step_move hs), hi.2.2.step hi.1 hi.2.1 hG (Registry.step_move hs)⟩)
    ⟨h₀.sound, Registry.told_nil w₀, h₀.ended⟩ hG
  obtain ⟨-, htold, hended⟩ := hinv
  have hnone {t : ActionToken} {now : Time} (hl : t.isLive now = true) : t.consumedAt = none := by
    rw [ActionToken.isLive, Bool.and_eq_true, Option.isNone_iff_eq_none] at hl
    exact hl.1
  exact ⟨fun h h' t t' ht ht' hu hp hl hl' =>
      hended.single h h' t t' ht ht' hu hp (hnone hl) (hnone hl'),
    fun pre u p h post heq h' hmem => (hended.closed pre u p h post heq h' hmem).2, htold.once⟩

/-- One account that has been verified. -/
def Registry.small : Registry where
  users := Table.empty.insert "u" ⟨"u@example.com", "password", .active, none⟩
  tokens := .empty
  txs := .empty
  now := 0

theorem Registry.small_initial : Registry.small.Initial := ⟨rfl, rfl⟩

/-- A confirmation from its beginning to its commit. -/
def confirmation (tx : TxId) (token : TokenHash) : List Action :=
  [.locate tx token .passwordReset, .begin tx, .lock tx, .apply tx "new", .commit tx]

/-- A request, and a second one that invalidates the token of the first; both tokens are presented. -/
def inTurn : List Action :=
  [.requestReset 0 "u@example.com", .begin 0, .scan 0, .issue 0 "a" 0, .commit 0,
    .requestReset 1 "u@example.com", .begin 1, .scan 1, .visit 1, .issue 1 "b" 0, .commit 1] ++
  confirmation 2 "a" ++ confirmation 3 "b"

theorem superseding_run_inTurn : Superseding ((actionTokens .plain).run .small inTurn)
    ((actionTokens .plain).trace Registry.observed .small inTurn) :=
  superseding_run Registry.small_initial (by decide +kernel)

/-- Two requests whose statements both find nothing. -/
def sideBySide : List Action :=
  [.requestReset 0 "u@example.com", .requestReset 1 "u@example.com", .begin 0, .begin 1, .scan 0, .scan 1,
    .issue 0 "a" 0, .issue 1 "b" 0, .commit 0, .commit 1]

/-- Both tokens are live, and after the password has been reset with the one, it is reset with the other. -/
theorem not_superseding_sideBySide :
    ¬ Superseding ((actionTokens .plain).run .small sideBySide)
        ((actionTokens .plain).trace Registry.observed .small sideBySide) ∧
      (actionTokens .plain).trace Registry.observed .small
          (sideBySide ++ confirmation 2 "a" ++ confirmation 3 "b") =
        [.issued "u" .passwordReset "a", .issued "u" .passwordReset "b",
          .confirmed "u" .passwordReset "a", .confirmed "u" .passwordReset "b"] := by
  refine ⟨fun h => ?_, by decide +kernel⟩
  have hsame := h.single "a" "b" ⟨"u", .passwordReset, 1800000000, none⟩
    ⟨"u", .passwordReset, 1800000000, none⟩ (by decide +kernel) (by decide +kernel) rfl rfl
    (by decide +kernel) (by decide +kernel)
  exact absurd hsame (by decide)

/-- A token that two requests present at the same time. -/
def presentedTwice : List Action :=
  [.requestReset 0 "u@example.com", .begin 0, .scan 0, .issue 0 "a" 0, .commit 0,
    .locate 1 "a" .passwordReset, .locate 2 "a" .passwordReset, .begin 1, .begin 2, .lock 1, .lock 2,
    .apply 1 "new", .commit 1, .lock 2, .apply 2 "newer", .commit 2]

/-- The second request waits for the first one, and finds the token consumed. -/
theorem once_run_presentedTwice :
    ((actionTokens .plain).trace Registry.observed .small presentedTwice).count
        (.confirmed "u" .passwordReset "a") ≤ 1 ∧
      .confirmed "u" .passwordReset "a" ∈ (actionTokens .plain).trace Registry.observed .small presentedTwice :=
  ⟨once_run Registry.small_initial "u" .passwordReset "a", by decide +kernel⟩

end Runs

end AgentCraft.Access.ActionTokens
