import AgentCraft.Access.Invitations

/-!
# Single use

The lock on the row of the invitation carries everything: what an accept has validated stays true until the
lock is released, and what an accept writes appears only with its commit.
-/

namespace AgentCraft.Access.Invitations

open AgentCraft.Relational AgentCraft.Transition

/-- An invitation and what it has been used for. -/
structure Desk.SingleUse (w : Desk) : Prop where
  /-- At most one user. -/
  once : ∀ i u u' row row' tx tx', w.users.get? u = some row → row.via = some (i, tx) →
    w.users.get? u' = some row' → row'.via = some (i, tx') → u = u'
  /-- It is consumed when there is a user, and only then. -/
  consumed_iff : ∀ i inv, w.invitations.get? i = some inv →
    (inv.consumedAt ≠ none ↔ ∃ u row tx, w.users.get? u = some row ∧ row.via = some (i, tx))
  /-- An accept that has failed has left no user. -/
  failed : ∀ i tx p u row, w.txs.get? tx = some (.ended (.error p)) → w.users.get? u = some row →
    row.via ≠ some (i, tx)

/-- The moment at which an invitation has been consumed. -/
def Desk.consumption (w : Desk) (i : InvitationId) : Option Time :=
  (w.invitations.get? i).bind Invitation.consumedAt

/-- What an action may do to users and consumptions: nothing, or it is the commit of an accept. -/
inductive Desk.Lawful (w : Desk) : Action → Desk → Prop
  | frame (a : Action) (w' : Desk) (husers : w'.users = w.users)
      (hcons : ∀ i, w'.consumption i = w.consumption i) : Lawful w a w'
  | commit (tx : TxId) (i : InvitationId) (u : UserId) (email passwordHash : String) (startedAt : Time)
      (inv : Invitation) (w' : Desk)
      (htx : w.txs.get? tx = some (.consumed i u email passwordHash startedAt))
      (hinv : w.invitations.get? i = some inv) (hemail : inv.email = email)
      (hopen : inv.consumedAt = none ∧ inv.revokedAt = none) (hlive : startedAt < inv.expiresAt)
      (husers : w'.users = w.users.insert u ⟨email, passwordHash, some (i, tx)⟩)
      (hcons : ∀ i', w'.consumption i' = if i' = i then some startedAt else w.consumption i') :
      Lawful w (.commit tx) w'

/-! ## The steps -/

/-- The transaction has not come to its end. -/
def Tx.Pending : Tx → Prop
  | .ended _ | .revoked => False
  | _ => True

/-- What a step does. -/
inductive Desk.Move (w : Desk) : Action → Desk → Prop
  | tick (micros : ℕ) : Move w (.tick micros) { w with now := w.now + micros }
  | created (i : InvitationId) (tokenHash raw email : String) (days : ℕ) (clock expiresAt : Time)
      (hnew : w.invitations.get? i = none) :
      Move w (.createInvitation i tokenHash raw days clock)
        { w with invitations := w.invitations.insert i ⟨tokenHash, email, expiresAt, none, none⟩ }
  | began (tx : TxId) (tokenHash raw email password passwordHash : String)
      (hnew : w.txs.get? tx = none) :
      Move w (.accept tx tokenHash raw password)
        { w with txs := w.txs.insert tx (.accepting tokenHash email passwordHash w.now) }
  | rejected (a : Action) (tx : TxId) (t : Tx) (p : InvitationProblem) (mismatches : List InvitationId)
      (htx : w.txs.get? tx = some t) (hpending : t.Pending) :
      Move w a { w.reject tx p with mismatches := mismatches }
  | validated (tx : TxId) (tokenHash email passwordHash : String) (startedAt : Time) (i : InvitationId)
      (inv : Invitation) (htx : w.txs.get? tx = some (.accepting tokenHash email passwordHash startedAt))
      (hinv : w.invitations.get? i = some inv) (hfree : w.locked i = false)
      (hopen : inv.consumedAt = none ∧ inv.revokedAt = none) (hlive : startedAt < inv.expiresAt)
      (hemail : inv.email = email) :
      Move w (.lock tx) (w.setTx tx (.validated i email passwordHash startedAt))
  | persisted (tx : TxId) (i : InvitationId) (u : UserId) (email passwordHash : String) (startedAt : Time)
      (htx : w.txs.get? tx = some (.validated i email passwordHash startedAt))
      (hfree : w.reserved u email = false) (hnew : w.users.get? u = none) :
      Move w (.persist tx u) (w.setTx tx (.persisted i u email passwordHash startedAt))
  | consumed (tx : TxId) (i : InvitationId) (u : UserId) (email passwordHash : String) (startedAt : Time)
      (htx : w.txs.get? tx = some (.persisted i u email passwordHash startedAt)) :
      Move w (.consume tx) (w.setTx tx (.consumed i u email passwordHash startedAt))
  | accepted (tx : TxId) (i : InvitationId) (u : UserId) (email passwordHash : String) (startedAt : Time)
      (htx : w.txs.get? tx = some (.consumed i u email passwordHash startedAt)) :
      Move w (.commit tx) (w.commitAccept tx i u email passwordHash startedAt)
  | revoking (tx : TxId) (i : InvitationId) (clock : Time) (inv : Invitation)
      (hnew : w.txs.get? tx = none) (hinv : w.invitations.get? i = some inv) (hfree : w.locked i = false)
      (hopen : inv.consumedAt = none ∧ inv.revokedAt = none) :
      Move w (.revoke tx i clock) { w with txs := w.txs.insert tx (.revoking i clock) }
  | revoked (tx : TxId) (i : InvitationId) (clock : Time)
      (htx : w.txs.get? tx = some (.revoking i clock)) :
      Move w (.commit tx) (w.commitRevoke tx i clock)

namespace Desk

variable {C : Codec} {w w' : Desk}

theorem createInvitation_move {i : InvitationId} {tokenHash raw : String} {days : ℕ} {clock : Time}
    (h : w.createInvitation C i tokenHash raw days clock = .ok w') :
    w.Move (.createInvitation i tokenHash raw days clock) w' := by
  unfold createInvitation at h
  obtain ⟨-, h⟩ := ite_error_eq_ok.mp h
  split at h
  · cases h
  · next email _ =>
    obtain ⟨-, h⟩ := ite_error_eq_ok.mp h
    obtain ⟨hnew, h⟩ := ite_error_eq_ok.mp h
    rw [not_or] at hnew
    cases h
    exact .created i tokenHash raw email days clock _ (Option.not_isSome_iff_eq_none.mp hnew.1)

theorem lockAndValidate_move {tx : TxId} {tokenHash email passwordHash : String} {startedAt : Time}
    (htx : w.txs.get? tx = some (.accepting tokenHash email passwordHash startedAt))
    (h : w.lockAndValidate tx tokenHash email passwordHash startedAt = .ok w') :
    w.Move (.lock tx) w' := by
  have hreject : ∀ m, w.Move (.lock tx) { w.reject tx invalid with mismatches := m } :=
    fun m => .rejected _ tx _ _ m htx trivial
  unfold lockAndValidate at h
  split at h
  · cases h
    exact hreject w.mismatches
  · next i inv hfind =>
    have hinv : w.invitations.get? i = some inv :=
      Table.get?_eq_some_iff.mpr (List.mem_of_find?_eq_some hfind)
    obtain ⟨hfree, h⟩ := ite_error_eq_ok.mp h
    rw [Bool.not_eq_true] at hfree
    split at h
    · next hvalid =>
      split at h
      · cases h
        exact hreject _
      · next hemail =>
        cases h
        exact .validated tx tokenHash email passwordHash startedAt i inv htx hinv hfree
          ⟨hvalid.1, hvalid.2.1⟩ hvalid.2.2 (not_not.mp hemail)
    · cases h
      exact hreject w.mismatches

theorem persistAccount_move {tx : TxId} {i : InvitationId} {u : UserId} {email passwordHash : String}
    {startedAt : Time} (htx : w.txs.get? tx = some (.validated i email passwordHash startedAt))
    (h : w.persistAccount tx i u email passwordHash startedAt = .ok w') :
    w.Move (.persist tx u) w' := by
  unfold persistAccount at h
  obtain ⟨hfree, h⟩ := ite_error_eq_ok.mp h
  rw [Bool.not_eq_true] at hfree
  split at h
  · cases h
    exact .rejected _ tx _ invalid w.mismatches htx trivial
  · next hnew =>
    rw [not_or] at hnew
    cases h
    exact .persisted tx i u email passwordHash startedAt htx hfree
      (Option.not_isSome_iff_eq_none.mp hnew.1)

theorem revoke_move {tx : TxId} {i : InvitationId} {clock : Time} (hnew : w.txs.get? tx = none)
    (hfree : w.locked i = false) (h : w.revoke tx i clock = .ok w') :
    w.Move (.revoke tx i clock) w' := by
  unfold revoke at h
  split at h
  · cases h
  · next inv hinv =>
    obtain ⟨hcons, h⟩ := ite_error_eq_ok.mp h
    obtain ⟨hrev, h⟩ := ite_error_eq_ok.mp h
    cases h
    exact .revoking tx i clock inv hnew hinv hfree ⟨not_not.mp hcons, not_not.mp hrev⟩

/-- Every step is a move. -/
theorem move_of_step {a : Action} (h : w.step C a = .ok w') : w.Move a w' := by
  cases a with
  | tick micros =>
    cases h
    exact .tick micros
  | createInvitation i tokenHash raw days clock => exact createInvitation_move (mapError_eq_ok.mp h)
  | accept tx tokenHash raw password =>
    simp only [step] at h
    obtain ⟨hnew, h⟩ := ite_error_eq_ok.mp h
    rw [Option.not_isSome_iff_eq_none] at hnew
    have h := mapError_eq_ok.mp h
    unfold accept at h
    obtain ⟨-, h⟩ := ite_error_eq_ok.mp h
    split at h
    · cases h
    · cases h
      exact .began tx tokenHash raw _ password _ hnew
  | lock tx =>
    simp only [step] at h
    split at h
    · next htx => exact lockAndValidate_move htx h
    · cases h
  | persist tx u =>
    simp only [step] at h
    split at h
    · next htx => exact persistAccount_move htx h
    · cases h
  | consume tx =>
    simp only [step] at h
    split at h
    · next i u email passwordHash startedAt htx =>
      cases h
      unfold consume
      split
      · exact .consumed tx i u email passwordHash startedAt htx
      · exact .rejected _ tx _ invalid w.mismatches htx trivial
    · cases h
  | commit tx =>
    simp only [step] at h
    split at h
    · next i u email passwordHash startedAt htx =>
      cases h
      exact .accepted tx i u email passwordHash startedAt htx
    · next i clock htx =>
      cases h
      exact .revoked tx i clock htx
    · cases h
  | fail tx =>
    simp only [step] at h
    split at h
    · cases h
    · cases h
    · cases h
    · next t hended hrevoked htx =>
      cases h
      refine .rejected _ tx t internal w.mismatches htx ?_
      cases t with
      | ended o => exact (hended o rfl).elim
      | revoked => exact (hrevoked rfl).elim
      | _ => trivial
  | revoke tx i clock =>
    simp only [step] at h
    obtain ⟨hfree, h⟩ := ite_error_eq_ok.mp h
    rw [not_or, Option.not_isSome_iff_eq_none, Bool.not_eq_true] at hfree
    exact revoke_move hfree.1 hfree.2 (mapError_eq_ok.mp h)

end Desk

/-! ## What the locks keep -/

/-- The invitation is there, and neither consumed nor revoked. -/
def Open (invitations : Table InvitationId Invitation) (i : InvitationId) (inv : Invitation) : Prop :=
  invitations.get? i = some inv ∧ inv.consumedAt = none ∧ inv.revokedAt = none

/-- What a transaction has checked is still true. -/
def Tx.Fits (invitations : Table InvitationId Invitation) (users : Table UserId User) : Tx → Prop
  | .validated i email _ startedAt =>
    ∃ inv, Open invitations i inv ∧ startedAt < inv.expiresAt ∧ inv.email = email
  | .persisted i u email _ startedAt | .consumed i u email _ startedAt =>
    (∃ inv, Open invitations i inv ∧ startedAt < inv.expiresAt ∧ inv.email = email) ∧ users.get? u = none
  | .revoking i _ => ∃ inv, Open invitations i inv
  | _ => True

/-- The checks look at the locked invitation and at the flushed user only. -/
theorem Tx.Fits.mono {t : Tx} {invitations invitations' : Table InvitationId Invitation}
    {users users' : Table UserId User} (h : t.Fits invitations users)
    (hinv : ∀ i inv, invitations.get? i = some inv → t.holds = some i → invitations'.get? i = some inv)
    (huser : ∀ x, t.reserves = some x → users.get? x.1 = none → users'.get? x.1 = none) :
    t.Fits invitations' users' := by
  have hkeep : ∀ i, t.holds = some i → ∀ inv, Open invitations i inv → Open invitations' i inv :=
    fun i hi inv ho => ⟨hinv i inv ho.1 hi, ho.2⟩
  cases t with
  | validated i email passwordHash startedAt =>
    obtain ⟨inv, ho, hrest⟩ := h
    exact ⟨inv, hkeep i rfl inv ho, hrest⟩
  | persisted i u email passwordHash startedAt =>
    obtain ⟨⟨inv, ho, hrest⟩, hu⟩ := h
    exact ⟨⟨inv, hkeep i rfl inv ho, hrest⟩, huser _ rfl hu⟩
  | consumed i u email passwordHash startedAt =>
    obtain ⟨⟨inv, ho, hrest⟩, hu⟩ := h
    exact ⟨⟨inv, hkeep i rfl inv ho, hrest⟩, huser _ rfl hu⟩
  | revoking i clock =>
    obtain ⟨inv, ho⟩ := h
    exact ⟨inv, hkeep i rfl inv ho⟩
  | _ => trivial

/-- Two transactions lock different invitations and have flushed different users. -/
def Tx.Apart (t t' : Tx) : Prop :=
  (∀ i, t.holds = some i → t'.holds ≠ some i) ∧
    ∀ x x', t.reserves = some x → t'.reserves = some x' → x.1 ≠ x'.1

theorem Tx.Apart.symm {t t' : Tx} (h : t.Apart t') : t'.Apart t := by
  refine ⟨?_, ?_⟩
  · intro i hi hi'
    exact h.1 i hi' hi
  · intro x x' hx hx'
    exact (h.2 x' x hx' hx).symm

/-- A transaction without locks and rows is apart from every other. -/
theorem Tx.apart_of_none {t : Tx} (hh : t.holds = none) (hr : t.reserves = none) (t' : Tx) : t.Apart t' := by
  refine ⟨?_, ?_⟩
  · intro i hi
    rw [hh] at hi
    cases hi
  · intro x _ hx
    rw [hr] at hx
    cases hx

/-- Locks and rows that pass to another stage. -/
theorem Tx.Apart.of_eq {t s t' : Tx} (h : t.Apart t') (hh : s.holds = t.holds)
    (hr : s.reserves = t.reserves) : s.Apart t' := by
  refine ⟨?_, ?_⟩
  · intro i hi
    exact h.1 i (hh ▸ hi)
  · intro x x' hx
    exact h.2 x x' (hr ▸ hx)

theorem get?_rewrite (invitations : Table InvitationId Invitation) (f : Invitation → Invitation)
    (i i' : InvitationId) :
    (invitations.map fun k inv => if k = i then f inv else inv).get? i' =
      if i' = i then (invitations.get? i').map f else invitations.get? i' := by
  rw [Table.get?_map]
  split
  · rfl
  · cases invitations.get? i' <;> rfl

/-- The invariant. -/
structure Desk.Sound (w : Desk) : Prop where
  fits : ∀ tx t, w.txs.get? tx = some t → t.Fits w.invitations w.users
  apart : ∀ tx tx' t t', w.txs.get? tx = some t → w.txs.get? tx' = some t' → tx ≠ tx' → t.Apart t'
  via : ∀ i tx u row, w.users.get? u = some row → row.via = some (i, tx) →
    w.txs.get? tx = some (.ended (.ok u)) ∧ ∃ inv, w.invitations.get? i = some inv ∧ inv.consumedAt ≠ none
  once : ∀ i u u' row row' tx tx', w.users.get? u = some row → row.via = some (i, tx) →
    w.users.get? u' = some row' → row'.via = some (i, tx') → u = u'
  consumed : ∀ i inv, w.invitations.get? i = some inv → inv.consumedAt ≠ none →
    ∃ u row tx, w.users.get? u = some row ∧ row.via = some (i, tx)

theorem Desk.Sound.singleUse {w : Desk} (h : w.Sound) : w.SingleUse where
  once := h.once
  consumed_iff := by
    intro i inv hinv
    constructor
    · exact h.consumed i inv hinv
    · rintro ⟨u, row, tx, hrow, hvia⟩
      obtain ⟨-, inv', hinv', hne⟩ := h.via i tx u row hrow hvia
      rw [hinv] at hinv'
      obtain rfl := Option.some.inj hinv'
      exact hne
  failed := by
    intro i tx p u row htx hrow hvia
    rw [(h.via i tx u row hrow hvia).1] at htx
    cases htx

/-- No transaction holds the lock. -/
theorem Desk.holds_ne_of_locked {w : Desk} {i : InvitationId} (h : w.locked i = false) {tx : TxId} {t : Tx}
    (htx : w.txs.get? tx = some t) : t.holds ≠ some i := by
  intro hi
  unfold locked at h
  rw [List.any_eq_false] at h
  exact h (tx, t) (Table.get?_eq_some_iff.mp htx) (by simpa using hi)

/-- No transaction has flushed the row. -/
theorem Desk.reserves_ne_of_reserved {w : Desk} {u : UserId} {email : String} (h : w.reserved u email = false)
    {tx : TxId} {t : Tx} (htx : w.txs.get? tx = some t) {x : UserId × String} (hx : t.reserves = some x) :
    x.1 ≠ u := by
  intro hu
  unfold reserved at h
  rw [List.any_eq_false] at h
  exact h (tx, t) (Table.get?_eq_some_iff.mp htx) (by simp [hx, hu])

namespace Desk.Sound

variable {w : Desk}

/-- A transaction that goes on. -/
theorem setTx (h : w.Sound) {tx : TxId} {t t' : Tx} (htx : w.txs.get? tx = some t) (hp : t.Pending)
    (hfits : t'.Fits w.invitations w.users)
    (hapart : ∀ tx' s, tx' ≠ tx → w.txs.get? tx' = some s → t'.Apart s) : (w.setTx tx t').Sound where
  fits := by
    intro tx' s hs
    rcases Table.get?_set_cases hs with hs | ⟨-, rfl⟩
    · exact h.fits tx' s hs
    · exact hfits
  apart := by
    intro x y s s' hs hs' hne
    change (w.txs.set tx t').get? x = some s at hs
    change (w.txs.set tx t').get? y = some s' at hs'
    by_cases hx : x = tx
    · subst hx
      rw [Table.get?_set_self htx] at hs
      rw [Table.get?_set_ne _ (Ne.symm hne)] at hs'
      cases hs
      exact hapart y s' (Ne.symm hne) hs'
    · rw [Table.get?_set_ne _ hx] at hs
      rcases Table.get?_set_cases hs' with hs' | ⟨rfl, rfl⟩
      · exact h.apart x y s s' hs hs' hne
      · exact (hapart x s hx hs).symm
  via := by
    intro i x u row hrow hvia
    obtain ⟨hx, hinv⟩ := h.via i x u row hrow hvia
    refine ⟨?_, hinv⟩
    have hne : x ≠ tx := by
      rintro rfl
      rw [htx] at hx
      cases hx
      exact hp
    exact (Table.get?_set_ne w.txs hne t').trans hx
  once := h.once
  consumed := h.consumed

/-- A transaction that begins. -/
theorem insertTx (h : w.Sound) {tx : TxId} {t' : Tx} (hnew : w.txs.get? tx = none)
    (hfits : t'.Fits w.invitations w.users)
    (hapart : ∀ tx' s, w.txs.get? tx' = some s → t'.Apart s) :
    Desk.Sound { w with txs := w.txs.insert tx t' } where
  fits := by
    intro tx' s hs
    rcases Table.get?_insert_cases hs with hs | ⟨-, rfl⟩
    · exact h.fits tx' s hs
    · exact hfits
  apart := by
    intro x y s s' hs hs' hne
    rcases Table.get?_insert_cases hs with hold | ⟨hx, hs⟩
    · rcases Table.get?_insert_cases hs' with hold' | ⟨-, hs'⟩
      · exact h.apart x y s s' hold hold' hne
      · rw [hs']
        exact (hapart x s hold).symm
    · rcases Table.get?_insert_cases hs' with hold' | ⟨hy, -⟩
      · rw [hs]
        exact hapart y s' hold'
      · exact absurd (hx.trans hy.symm) hne
  via := by
    intro i x u row hrow hvia
    obtain ⟨hx, hinv⟩ := h.via i x u row hrow hvia
    refine ⟨?_, hinv⟩
    have hne : x ≠ tx := by
      rintro rfl
      rw [hnew] at hx
      cases hx
    change (w.txs.insert tx t').get? x = _
    rw [Table.get?_insert hnew, if_neg hne]
    exact hx
  once := h.once
  consumed := h.consumed

/-- An invitation that is created. -/
theorem createInvitation (h : w.Sound) {i : InvitationId} (hnew : w.invitations.get? i = none)
    {inv : Invitation} (hopen : inv.consumedAt = none) :
    Desk.Sound { w with invitations := w.invitations.insert i inv } where
  fits := by
    intro tx t ht
    refine (h.fits tx t ht).mono ?_ fun _ _ => id
    intro i' inv' hinv' _
    change (w.invitations.insert i inv).get? i' = some inv'
    rw [Table.get?_insert hnew, if_neg]
    · exact hinv'
    · rintro rfl
      rw [hnew] at hinv'
      cases hinv'
  apart := h.apart
  via := by
    intro i' tx u row hrow hvia
    obtain ⟨htx, inv', hinv', hne⟩ := h.via i' tx u row hrow hvia
    refine ⟨htx, inv', ?_, hne⟩
    change (w.invitations.insert i inv).get? i' = some inv'
    rw [Table.get?_insert hnew, if_neg]
    · exact hinv'
    · rintro rfl
      rw [hnew] at hinv'
      cases hinv'
  once := h.once
  consumed := by
    intro i' inv' hinv' hne
    rcases Table.get?_insert_cases hinv' with hold | ⟨-, rfl⟩
    · exact h.consumed i' inv' hold hne
    · exact absurd hopen hne

/-- An invitation that nobody has locked is revoked. -/
theorem revoke (h : w.Sound) {i : InvitationId} (clock : Time)
    (hfree : ∀ tx t, w.txs.get? tx = some t → t.holds ≠ some i) :
    Desk.Sound { w with
      invitations := w.invitations.map fun i' inv =>
        if i' = i then { inv with revokedAt := some clock } else inv } where
  fits := by
    intro tx t ht
    refine (h.fits tx t ht).mono ?_ fun _ _ => id
    intro i' inv hinv hi'
    have hne : i' ≠ i := fun he => hfree tx t ht (he ▸ hi')
    rw [get?_rewrite, if_neg hne]
    exact hinv
  apart := h.apart
  via := by
    intro i' tx u row hrow hvia
    obtain ⟨htx, inv, hinv, hne⟩ := h.via i' tx u row hrow hvia
    refine ⟨htx, ?_⟩
    change ∃ inv', (w.invitations.map _).get? i' = some inv' ∧ inv'.consumedAt ≠ none
    rw [get?_rewrite, hinv]
    split
    · exact ⟨_, rfl, hne⟩
    · exact ⟨inv, rfl, hne⟩
  once := h.once
  consumed := by
    intro i' inv hinv hne
    change (w.invitations.map _).get? i' = some inv at hinv
    rw [get?_rewrite] at hinv
    split at hinv
    · obtain ⟨inv₀, hinv₀, rfl⟩ := Option.map_eq_some_iff.mp hinv
      exact h.consumed i' inv₀ hinv₀ hne
    · exact h.consumed i' inv hinv hne

/-- An open invitation that nobody has locked is consumed for a new user. -/
theorem consume (h : w.Sound) {i : InvitationId} {inv : Invitation} {u : UserId} {tx : TxId}
    (email passwordHash : String) (startedAt : Time) (hopen : Open w.invitations i inv)
    (htx : w.txs.get? tx = some (.ended (.ok u))) (hnew : w.users.get? u = none)
    (hfree : ∀ tx t, w.txs.get? tx = some t → t.holds ≠ some i)
    (hres : ∀ tx t x, w.txs.get? tx = some t → t.reserves = some x → x.1 ≠ u) :
    Desk.Sound { w with
      users := w.users.insert u ⟨email, passwordHash, some (i, tx)⟩
      invitations := w.invitations.map fun i' inv =>
        if i' = i then { inv with consumedAt := some startedAt } else inv } where
  fits := by
    intro tx' t ht
    refine (h.fits tx' t ht).mono ?_ ?_
    · intro i' inv' hinv' hi'
      have hne : i' ≠ i := fun he => hfree tx' t ht (he ▸ hi')
      rw [get?_rewrite, if_neg hne]
      exact hinv'
    · intro x hx hnone
      rw [Table.get?_insert hnew, if_neg (hres tx' t x ht hx)]
      exact hnone
  apart := h.apart
  via := by
    intro i' tx' u' row hrow hvia
    change _ ∧ ∃ inv', (w.invitations.map _).get? i' = some inv' ∧ inv'.consumedAt ≠ none
    rw [get?_rewrite]
    rcases Table.get?_insert_cases hrow with hold | ⟨rfl, rfl⟩
    · obtain ⟨htx', inv', hinv', hne⟩ := h.via i' tx' u' row hold hvia
      refine ⟨htx', ?_⟩
      rw [hinv']
      split
      · exact ⟨_, rfl, by simp⟩
      · exact ⟨inv', rfl, hne⟩
    · cases hvia
      refine ⟨htx, ?_⟩
      rw [if_pos rfl, hopen.1]
      exact ⟨_, rfl, by simp⟩
  once := by
    -- a user that there was through `i` would have consumed it
    have hunused : ∀ u' row' tx', w.users.get? u' = some row' → row'.via ≠ some (i, tx') := by
      intro u' row' tx' hrow' hvia'
      obtain ⟨-, inv', hinv', hne⟩ := h.via i tx' u' row' hrow' hvia'
      rw [hopen.1] at hinv'
      cases hinv'
      exact hne hopen.2.1
    intro i' u₁ u₂ row₁ row₂ tx₁ tx₂ hrow₁ hvia₁ hrow₂ hvia₂
    rcases Table.get?_insert_cases hrow₁ with hold₁ | ⟨hu₁, hr₁⟩
    · rcases Table.get?_insert_cases hrow₂ with hold₂ | ⟨hu₂, hr₂⟩
      · exact h.once i' u₁ u₂ row₁ row₂ tx₁ tx₂ hold₁ hvia₁ hold₂ hvia₂
      · rw [hr₂] at hvia₂
        cases hvia₂
        exact absurd hvia₁ (hunused u₁ row₁ tx₁ hold₁)
    · rw [hr₁] at hvia₁
      cases hvia₁
      rcases Table.get?_insert_cases hrow₂ with hold₂ | ⟨hu₂, -⟩
      · exact absurd hvia₂ (hunused u₂ row₂ tx₂ hold₂)
      · rw [hu₁, hu₂]
  consumed := by
    intro i' inv' hinv' hne
    change (w.invitations.map _).get? i' = some inv' at hinv'
    change ∃ u' row tx, (w.users.insert u _).get? u' = some row ∧ row.via = some (i', tx)
    rw [get?_rewrite] at hinv'
    split at hinv'
    · next heq =>
      refine ⟨u, ⟨email, passwordHash, some (i, tx)⟩, tx, ?_, ?_⟩
      · rw [Table.get?_insert hnew, if_pos rfl]
      · rw [heq]
    · obtain ⟨u', row, tx', hrow, hvia⟩ := h.consumed i' inv' hinv' hne
      refine ⟨u', row, tx', ?_, hvia⟩
      rw [Table.get?_insert hnew, if_neg]
      · exact hrow
      · rintro rfl
        rw [hnew] at hrow
        cases hrow

/-- A transaction that ends keeps no lock and no row. -/
theorem ended (h : w.Sound) {tx : TxId} {t t' : Tx} (htx : w.txs.get? tx = some t) (hp : t.Pending)
    (hfits : t'.Fits w.invitations w.users) (hh : t'.holds = none) (hr : t'.reserves = none) :
    (w.setTx tx t').Sound :=
  h.setTx htx hp hfits fun _ s _ _ => Tx.apart_of_none hh hr s

/-- What the transaction had locked and flushed is free when it has ended. -/
theorem free_of_ended (h : w.Sound) {tx : TxId} {t t' : Tx} (htx : w.txs.get? tx = some t)
    (hh : t'.holds = none) (hr : t'.reserves = none) {tx' : TxId} {s : Tx}
    (hs : (w.setTx tx t').txs.get? tx' = some s) :
    t.Apart s := by
  by_cases hne : tx' = tx
  · subst hne
    change (w.txs.set tx' t').get? tx' = some s at hs
    rw [Table.get?_set_self htx] at hs
    cases hs
    exact (Tx.apart_of_none hh hr t).symm
  · change (w.txs.set tx t').get? tx' = some s at hs
    rw [Table.get?_set_ne _ hne] at hs
    exact h.apart tx tx' t s htx hs (Ne.symm hne)

/-- Every move keeps the invariant. -/
theorem move (h : w.Sound) {a : Action} {w' : Desk} (hm : w.Move a w') : w'.Sound := by
  cases hm with
  | tick micros => exact ⟨h.fits, h.apart, h.via, h.once, h.consumed⟩
  | created i tokenHash raw email days clock expiresAt hnew => exact h.createInvitation hnew rfl
  | began tx tokenHash raw email password passwordHash hnew =>
    exact h.insertTx hnew trivial fun _ s _ => Tx.apart_of_none rfl rfl s
  | rejected a tx t p mismatches htx hpending =>
    have hw : (w.setTx tx (.ended (.error p))).Sound := h.ended htx hpending trivial rfl rfl
    exact ⟨hw.fits, hw.apart, hw.via, hw.once, hw.consumed⟩
  | validated tx tokenHash email passwordHash startedAt i inv htx hinv hfree hopen hlive hemail =>
    refine h.setTx htx trivial ⟨inv, ⟨hinv, hopen⟩, hlive, hemail⟩ ?_
    intro tx' s _ hs
    refine ⟨?_, fun _ _ hx => by cases hx⟩
    intro i' hi'
    cases hi'
    exact holds_ne_of_locked hfree hs
  | persisted tx i u email passwordHash startedAt htx hfree hnew =>
    refine h.setTx htx trivial ⟨h.fits tx _ htx, hnew⟩ ?_
    intro tx' s hne hs
    refine ⟨(h.apart tx tx' _ s htx hs (Ne.symm hne)).1, ?_⟩
    intro x x' hx hx'
    cases hx
    exact (reserves_ne_of_reserved hfree hs hx').symm
  | consumed tx i u email passwordHash startedAt htx =>
    have hfits : (Tx.persisted i u email passwordHash startedAt).Fits w.invitations w.users := h.fits tx _ htx
    exact h.setTx htx trivial hfits fun tx' s hne hs =>
      (h.apart tx tx' _ s htx hs (Ne.symm hne)).of_eq rfl rfl
  | accepted tx i u email passwordHash startedAt htx =>
    obtain ⟨⟨inv, ho, hlive, hemail⟩, hnew⟩ := h.fits tx _ htx
    have hended : (w.setTx tx (.ended (.ok u))).Sound := h.ended htx trivial trivial rfl rfl
    have hfree : ∀ tx' s, (w.setTx tx (.ended (.ok u))).txs.get? tx' = some s →
        (Tx.consumed i u email passwordHash startedAt).Apart s :=
      fun tx' s hs => h.free_of_ended htx rfl rfl hs
    exact hended.consume email passwordHash startedAt ho
      (Table.get?_set_self htx _) hnew (fun tx' s hs => (hfree tx' s hs).1 i rfl)
      fun tx' s x hs hx => ((hfree tx' s hs).2 _ x rfl hx).symm
  | revoking tx i clock inv hnew hinv hfree hopen =>
    refine h.insertTx hnew ⟨inv, hinv, hopen⟩ ?_
    intro tx' s hs
    refine ⟨?_, fun _ _ hx => by cases hx⟩
    intro i' hi'
    cases hi'
    exact holds_ne_of_locked hfree hs
  | revoked tx i clock htx =>
    have hended : (w.setTx tx .revoked).Sound := h.ended htx trivial trivial rfl rfl
    have hfree : ∀ tx' s, (w.setTx tx .revoked).txs.get? tx' = some s → (Tx.revoking i clock).Apart s :=
      fun tx' s hs => h.free_of_ended htx rfl rfl hs
    exact hended.revoke clock fun tx' s hs => (hfree tx' s hs).1 i rfl

/-- Under the invariant every move is lawful. -/
theorem lawful (h : w.Sound) {a : Action} {w' : Desk} (hm : w.Move a w') : w.Lawful a w' := by
  cases hm with
  | created i tokenHash raw email days clock expiresAt hnew =>
    refine .frame _ _ rfl fun i' => ?_
    change ((w.invitations.insert i _).get? i').bind _ = (w.invitations.get? i').bind _
    rw [Table.get?_insert hnew]
    split
    · next heq =>
      rw [heq, hnew]
      rfl
    · rfl
  | accepted tx i u email passwordHash startedAt htx =>
    obtain ⟨⟨inv, ho, hlive, hemail⟩, -⟩ := h.fits tx _ htx
    refine .commit tx i u email passwordHash startedAt inv _ htx ho.1 hemail ho.2 hlive rfl fun i' => ?_
    change ((w.invitations.map _).get? i').bind _ = _
    rw [get?_rewrite]
    split
    · next heq =>
      rw [heq, ho.1]
      rfl
    · rfl
  | revoked tx i clock htx =>
    refine .frame _ _ rfl fun i' => ?_
    change ((w.invitations.map _).get? i').bind _ = (w.invitations.get? i').bind _
    rw [get?_rewrite]
    split
    · cases w.invitations.get? i' <;> rfl
    · rfl
  | _ => exact .frame _ _ rfl fun _ => rfl

end Desk.Sound

theorem Desk.Initial.sound {w : Desk} (h : w.Initial) : w.Sound where
  fits := by
    intro tx t ht
    rw [h.txs] at ht
    cases ht
  apart := by
    intro tx _ t _ ht
    rw [h.txs] at ht
    cases ht
  via := by
    intro i tx u row hrow hvia
    rw [h.users u row hrow] at hvia
    cases hvia
  once := by
    intro i u _ row _ tx _ hrow hvia
    rw [h.users u row hrow] at hvia
    cases hvia
  consumed := by
    intro i inv hinv
    rw [h.invitations] at hinv
    cases hinv

/-! ## Every run -/

/-- In every state that is reached each invitation has made at most one user, it is consumed exactly when it has,
and a failed accept has left nothing; and every further action creates a user or consumes an invitation only
as the commit of an accept that started before the invitation expired, while it is neither consumed nor revoked. -/
theorem Desk.singleUse_of_run (C : Codec) {w₀ : Desk} (h₀ : w₀.Initial) (as : List Action) :
    ((invitationDesk C).run w₀ as).SingleUse ∧
      ∀ a, Desk.Lawful ((invitationDesk C).run w₀ as) a
        ((invitationDesk C).next ((invitationDesk C).run w₀ as) a) := by
  have hsound : ((invitationDesk C).run w₀ as).Sound :=
    System.invariant_run (fun w a w' h hstep => h.move (move_of_step hstep)) as h₀.sound
  refine ⟨hsound.singleUse, fun a => ?_⟩
  rcases System.next_cases (S := invitationDesk C) ((invitationDesk C).run w₀ as) a with hok | heq
  · exact hsound.lawful (move_of_step hok)
  · rw [heq]
    exact .frame _ _ rfl fun _ => rfl

/-- No invitation, no user. -/
def emptyDesk : Desk := ⟨.empty, .empty, [], .empty, 0⟩

theorem emptyDesk_initial : emptyDesk.Initial where
  invitations := rfl
  txs := rfl
  users := by
    intro u row hrow
    cases hrow

/-- Codecs that change nothing. -/
def plainCodec : Codec := ⟨some, id⟩

theorem Desk.singleUse_of_run_accept :
    let as := [.createInvitation 0 "h" "a@b.c" 7 0, .accept 0 "h" "a@b.c" "secret", .lock 0, .persist 0 0,
      .consume 0, .commit 0]
    ((invitationDesk plainCodec).run emptyDesk as).SingleUse ∧
      ∀ a, Desk.Lawful ((invitationDesk plainCodec).run emptyDesk as) a
        ((invitationDesk plainCodec).next ((invitationDesk plainCodec).run emptyDesk as) a) :=
  Desk.singleUse_of_run plainCodec emptyDesk_initial _

/-- An accept does not commit when its invitation has been revoked or is past its expiry by then. -/
def Desk.commitsLive (w : Desk) : Action → Bool
  | .commit tx =>
    match w.txs.get? tx with
    | some (.consumed i _ _ _ _) =>
      (w.invitations.get? i).all fun inv => inv.revokedAt = none && w.now < inv.expiresAt
    | _ => true
  | _ => true

/-- `now()` is the start of the transaction: an accept that starts a microsecond before the expiry commits
a second after it. -/
theorem Desk.not_commitsLive_of_run : ¬ ∀ (C : Codec) (w₀ : Desk) (as : List Action), w₀.Initial →
    (invitationDesk C).Guarded (fun w a => w.commitsLive a = true) w₀ as := by
  intro h
  have hrun := h plainCodec emptyDesk
    [.createInvitation 0 "h" "a@b.c" 1 0, .tick (day - 1), .accept 0 "h" "a@b.c" "secret", .lock 0,
      .persist 0 0, .consume 0, .tick 1000001, .commit 0] emptyDesk_initial
  revert hrun
  decide +kernel

end AgentCraft.Access.Invitations
