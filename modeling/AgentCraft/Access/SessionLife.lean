import AgentCraft.Access.Accounts
import AgentCraft.Transition.RowLocks

/-!
# The lifetime of a session

`create_session`, `resolve_session`, `refresh_if_needed` and the revocations of `session_service.py` and
`password_service.py`. A request resolves its session in one transaction and refreshes it in a later one; a
refresh or a revocation is one `UPDATE`, which waits for a row that another transaction has written and looks
at it again, and takes effect with the commit. `now()` is the start of the transaction. The CSRF gate leaves the
sessions alone, and so do the answers.
-/

namespace AgentCraft.Access.SessionLife

open AgentCraft.Relational AgentCraft.Transition

abbrev TxId := ℕ

/-- `sessions`: the columns that decide how long a session lives. -/
structure Session where
  userId : UserId
  createdAt : Time
  expiresAt : Time
  revokedAt : Option Time
deriving DecidableEq, Repr

/-- The sessions that a revocation asks for. -/
inductive Extent
  /-- `revoke`. -/
  | one (session : SessionId)
  /-- `revoke_all`. -/
  | all
  /-- `_REVOKE_OTHER_SESSIONS_SQL`. -/
  | others (current : SessionId)
deriving DecidableEq, Repr

def Extent.includes : Extent → SessionId → Bool
  | .one session, sid => sid = session
  | .all, _ => true
  | .others current, sid => sid ≠ current

/-- A request that has been authenticated, or a transaction that writes sessions. -/
inductive Tx
  /-- The session has been resolved; `expiresAt` is what has been read. -/
  | resolved (session : SessionId) (expiresAt : Time)
  /-- The transaction of a refresh before its `UPDATE`. -/
  | refreshing (session : SessionId) (startedAt : Time)
  /-- The `UPDATE` has written the row. -/
  | extended (session : SessionId) (expiresAt : Time)
  /-- The transaction of a revocation before its `UPDATE`. -/
  | revoking (user : UserId) (extent : Extent) (startedAt : Time)
  /-- The `UPDATE` has written these rows. -/
  | revoked (found : List SessionId) (startedAt : Time)
  | ended
deriving DecidableEq, Repr

/-- The sessions whose rows are locked. -/
def Tx.holds : Tx → List SessionId
  | .extended sid _ => [sid]
  | .revoked found _ => found
  | _ => []

/-- The tables and what is in progress. -/
structure Store where
  users : Table UserId UserStatus
  sessions : Table SessionId Session
  txs : Table TxId Tx
  now : Time

inductive Failure
  | problem (p : Problem)
  /-- It is not its turn, or it waits for a lock. -/
  | notEnabled
deriving DecidableEq

/-- The labels of the system. `clock` is `datetime.now` of the application. -/
inductive Action
  | tick (micros : ℕ)
  /-- Other services create accounts and change their status. -/
  | setStatus (user : UserId) (status : UserStatus)
  /-- The transaction of the creation has begun at `startedAt`. -/
  | create (session : SessionId) (user : UserId) (startedAt clock : Time)
  | resolve (tx : TxId) (session : SessionId)
  /-- A request whose session seems to be near its end opens the transaction of the refresh. -/
  | refresh (tx : TxId) (clock : Time)
  /-- `_REFRESH_SQL`. -/
  | extend (tx : TxId)
  | revoke (tx : TxId) (user : UserId) (extent : Extent)
  /-- The `UPDATE` of a revocation. -/
  | mark (tx : TxId)
  | commit (tx : TxId)
  /-- An exception, a lost connection or a crash. -/
  | fail (tx : TxId)
deriving DecidableEq

namespace Store

variable (w : Store)

/-- Another transaction has written the row. -/
def rowLocked (tx : TxId) (sid : SessionId) : Bool :=
  w.txs.rows.any fun x => x.1 ≠ tx && x.2.holds.contains sid

def setTx (tx : TxId) (x : Tx) : Store := { w with txs := w.txs.set tx x }

def enter (tx : TxId) (x : Tx) : Store := { w with txs := w.txs.insert tx x }

/-- `resolve_session`. -/
def resolveSession (sid : SessionId) : Option (Session × UserStatus) :=
  match w.sessions.get? sid with
  | none => none
  | some s =>
    match w.users.get? s.userId with
    | none => none
    | some status =>
      if s.revokedAt = none ∧ w.now < s.expiresAt ∧ status ≠ .deleted then some (s, status) else none

/-- `get_v2_auth` up to its refresh. -/
def resolve (tx : TxId) (sid : SessionId) : Except Failure Store :=
  match w.resolveSession sid with
  | none => .error (.problem Accounts.sessionExpired)
  | some (s, status) =>
    if status = .suspended then .error (.problem accountSuspended)
    else if status = .deleting then .error (.problem accountDeleting)
    else if status = .pending ∨ status = .active then .ok (w.enter tx (.resolved sid s.expiresAt))
    else .error (.problem Accounts.sessionExpired)

/-- `create_session`; `created_at` is the default of the column. -/
def create (sid : SessionId) (u : UserId) (startedAt clock : Time) : Except Failure Store :=
  if w.now < startedAt then .error .notEnabled
  else if (w.users.get? u).isNone ∨ (w.sessions.get? sid).isSome then .error (.problem internalError)
  else .ok { w with sessions := w.sessions.insert sid ⟨u, startedAt, clock + sessionTtl, none⟩ }

/-- `_REFRESH_SQL`, whose condition is looked at when the row is free. -/
def extend (tx : TxId) (sid : SessionId) (startedAt : Time) : Except Failure Store :=
  if w.rowLocked tx sid then .error .notEnabled
  else
    match w.sessions.get? sid with
    | none => .ok (w.setTx tx .ended)
    | some s =>
      if s.revokedAt = none ∧ s.expiresAt < startedAt + refreshThreshold then
        .ok (w.setTx tx (.extended sid (min (startedAt + sessionTtl) (s.createdAt + sessionAbsolute))))
      else .ok (w.setTx tx .ended)

/-- The sessions that the `UPDATE` of a revocation matches; it sees the rows of its user only. -/
def matching (u : UserId) (extent : Extent) : List SessionId :=
  (w.sessions.rows.filter fun x => x.2.userId = u && x.2.revokedAt.isNone && extent.includes x.1).map Prod.fst

/-- The `UPDATE` of a revocation goes on when all rows that it matches are free. -/
def mark (tx : TxId) (u : UserId) (extent : Extent) (startedAt : Time) : Except Failure Store :=
  if (w.matching u extent).any (w.rowLocked tx) then .error .notEnabled
  else .ok (w.setTx tx (.revoked (w.matching u extent) startedAt))

/-- The commit of a refresh. -/
def commitExtended (tx : TxId) (sid : SessionId) (expiresAt : Time) : Store :=
  { w with
    sessions := w.sessions.map fun sid' s => if sid' = sid then { s with expiresAt := expiresAt } else s
    txs := w.txs.set tx .ended }

/-- The commit of a revocation. -/
def commitRevoked (tx : TxId) (found : List SessionId) (startedAt : Time) : Store :=
  { w with
    sessions := w.sessions.map fun sid s =>
      if found.contains sid then { s with revokedAt := some startedAt } else s
    txs := w.txs.set tx .ended }

/-- The step function. -/
def step : Action → Except Failure Store
  | .tick micros => .ok { w with now := w.now + micros }
  | .setStatus u status => .ok { w with users := (w.users.insert u status).set u status }
  | .create sid u startedAt clock => w.create sid u startedAt clock
  | .resolve tx sid => if (w.txs.get? tx).isSome then .error .notEnabled else w.resolve tx sid
  | .refresh tx clock =>
    match w.txs.get? tx with
    | some (.resolved sid expiresAt) =>
      if expiresAt < clock + refreshThreshold then .ok (w.setTx tx (.refreshing sid w.now))
      else .error .notEnabled
    | _ => .error .notEnabled
  | .extend tx =>
    match w.txs.get? tx with
    | some (.refreshing sid startedAt) => w.extend tx sid startedAt
    | _ => .error .notEnabled
  | .revoke tx u extent =>
    if (w.txs.get? tx).isSome then .error .notEnabled else .ok (w.enter tx (.revoking u extent w.now))
  | .mark tx =>
    match w.txs.get? tx with
    | some (.revoking u extent startedAt) => w.mark tx u extent startedAt
    | _ => .error .notEnabled
  | .commit tx =>
    match w.txs.get? tx with
    | some (.extended sid expiresAt) => .ok (w.commitExtended tx sid expiresAt)
    | some (.revoked found startedAt) => .ok (w.commitRevoked tx found startedAt)
    | _ => .error .notEnabled
  | .fail tx =>
    match w.txs.get? tx with
    | none => .error .notEnabled
    | some _ => .ok (w.setTx tx .ended)

end Store

/-- Sessions under their transactions. -/
def sessionStore : System Store Action Failure := ⟨Store.step⟩

/-- No session has been created. -/
structure Store.Initial (w : Store) : Prop where
  sessions : w.sessions = .empty
  txs : w.txs = .empty

/-- The session is revoked or has expired. -/
def Store.Dead (w : Store) (sid : SessionId) : Prop :=
  ∃ s, w.sessions.get? sid = some s ∧ (s.revokedAt ≠ none ∨ s.expiresAt ≤ w.now)

/-- A refresh commits before its session has expired. -/
def Store.Timely (w : Store) : Tx → Prop
  | .extended sid _ => ∀ s ∈ w.sessions.get? sid, w.now < s.expiresAt
  | _ => True

/-- A session is created by a clock that is at most twenty-three days ahead of the one of the database, and a
refresh commits in time. -/
def InLifetime (w : Store) : Action → Prop
  | .create _ _ startedAt clock => clock + sessionTtl ≤ startedAt + sessionAbsolute
  | .commit tx => ∀ x ∈ w.txs.get? tx, w.Timely x
  | _ => True

instance (w : Store) : DecidablePred w.Timely := by
  intro x
  cases x with
  | extended sid expiresAt =>
    exact inferInstanceAs (Decidable (∀ s ∈ w.sessions.get? sid, w.now < s.expiresAt))
  | _ => exact .isTrue trivial

instance (w : Store) : DecidablePred (InLifetime w) := by
  intro a
  cases a with
  | create sid u startedAt clock =>
    exact inferInstanceAs (Decidable (clock + sessionTtl ≤ startedAt + sessionAbsolute))
  | commit tx => exact inferInstanceAs (Decidable (∀ x ∈ w.txs.get? tx, w.Timely x))
  | _ => exact .isTrue trivial

/-- No step brings the end of a session forward, no session outlives the absolute limit, and a session that is
revoked or has expired is never resolved again. -/
structure Lifetime (w₀ : Store) (as : List Action) : Prop where
  rises : ∀ bs a cs, as = bs ++ a :: cs → ∀ sid s, (sessionStore.run w₀ bs).sessions.get? sid = some s →
    ∃ s', (sessionStore.run w₀ (bs ++ [a])).sessions.get? sid = some s' ∧ s.expiresAt ≤ s'.expiresAt
  capped : ∀ bs cs, as = bs ++ cs → ∀ sid s, (sessionStore.run w₀ bs).sessions.get? sid = some s →
    s.expiresAt ≤ s.createdAt + sessionAbsolute
  final : ∀ bs cs ds, as = bs ++ cs ++ ds → ∀ sid, (sessionStore.run w₀ bs).Dead sid →
    (sessionStore.run w₀ (bs ++ cs)).resolveSession sid = none

/-! ## The steps -/

/-- What a step does. -/
inductive Store.Move (w : Store) : Action → Store → Prop
  | elsewhere (a : Action) (w' : Store) (hsessions : w'.sessions = w.sessions) (htxs : w'.txs = w.txs)
      (hnow : w.now ≤ w'.now) : Move w a w'
  | created (sid : SessionId) (u : UserId) (startedAt clock : Time) (hnew : w.sessions.get? sid = none) :
      Move w (.create sid u startedAt clock)
        { w with sessions := w.sessions.insert sid ⟨u, startedAt, clock + sessionTtl, none⟩ }
  | entered (a : Action) (tx : TxId) (x : Tx) (hholds : x.holds = []) : Move w a (w.enter tx x)
  | moved (a : Action) (tx : TxId) (x x' : Tx) (hx : w.txs.get? tx = some x) (hholds : x'.holds = []) :
      Move w a (w.setTx tx x')
  | extended (tx : TxId) (sid : SessionId) (startedAt : Time) (s : Session)
      (hx : w.txs.get? tx = some (.refreshing sid startedAt)) (hfree : w.rowLocked tx sid = false)
      (hs : w.sessions.get? sid = some s) (hopen : s.revokedAt = none)
      (hnear : s.expiresAt < startedAt + refreshThreshold) :
      Move w (.extend tx)
        (w.setTx tx (.extended sid (min (startedAt + sessionTtl) (s.createdAt + sessionAbsolute))))
  | marked (tx : TxId) (u : UserId) (extent : Extent) (startedAt : Time)
      (hx : w.txs.get? tx = some (.revoking u extent startedAt))
      (hfree : ∀ sid ∈ w.matching u extent, w.rowLocked tx sid = false) :
      Move w (.mark tx) (w.setTx tx (.revoked (w.matching u extent) startedAt))
  | refreshed (tx : TxId) (sid : SessionId) (expiresAt : Time)
      (hx : w.txs.get? tx = some (.extended sid expiresAt)) :
      Move w (.commit tx) (w.commitExtended tx sid expiresAt)
  | revoked (tx : TxId) (found : List SessionId) (startedAt : Time)
      (hx : w.txs.get? tx = some (.revoked found startedAt)) :
      Move w (.commit tx) (w.commitRevoked tx found startedAt)

namespace Store

variable {w w' : Store} {tx : TxId} {sid : SessionId}

theorem resolve_move (h : w.resolve tx sid = .ok w') : w.Move (.resolve tx sid) w' := by
  unfold resolve at h
  split at h
  · cases h
  · obtain ⟨-, h⟩ := ite_error_eq_ok.mp h
    obtain ⟨-, h⟩ := ite_error_eq_ok.mp h
    obtain ⟨-, h⟩ := ite_ok_else_error.mp h
    cases h
    exact .entered _ tx _ rfl

theorem create_move {u : UserId} {startedAt clock : Time} (h : w.create sid u startedAt clock = .ok w') :
    w.Move (.create sid u startedAt clock) w' := by
  unfold create at h
  obtain ⟨-, h⟩ := ite_error_eq_ok.mp h
  obtain ⟨hnew, h⟩ := ite_error_eq_ok.mp h
  cases h
  rw [not_or, Option.not_isSome_iff_eq_none] at hnew
  exact .created sid u startedAt clock hnew.2

theorem extend_move {startedAt : Time} (hx : w.txs.get? tx = some (.refreshing sid startedAt))
    (h : w.extend tx sid startedAt = .ok w') : w.Move (.extend tx) w' := by
  unfold extend at h
  obtain ⟨hfree, h⟩ := ite_error_eq_ok.mp h
  rw [Bool.not_eq_true] at hfree
  split at h
  · cases h
    exact .moved _ tx _ _ hx rfl
  · next s hs =>
    split at h
    · next hcond =>
      cases h
      exact .extended tx sid startedAt s hx hfree hs hcond.1 hcond.2
    · cases h
      exact .moved _ tx _ _ hx rfl

theorem mark_move {u : UserId} {extent : Extent} {startedAt : Time}
    (hx : w.txs.get? tx = some (.revoking u extent startedAt))
    (h : w.mark tx u extent startedAt = .ok w') : w.Move (.mark tx) w' := by
  unfold mark at h
  obtain ⟨hfree, h⟩ := ite_error_eq_ok.mp h
  cases h
  rw [Bool.not_eq_true, List.any_eq_false] at hfree
  exact .marked tx u extent startedAt hx fun sid hsid => Bool.eq_false_iff.mpr (hfree sid hsid)

theorem step_move {a : Action} (h : w.step a = .ok w') : w.Move a w' := by
  cases a with
  | tick micros =>
    cases h
    exact .elsewhere _ _ rfl rfl (Nat.le_add_right _ _)
  | setStatus u status =>
    cases h
    exact .elsewhere _ _ rfl rfl le_rfl
  | create sid u startedAt clock => exact create_move h
  | resolve tx sid =>
    obtain ⟨-, h⟩ := ite_error_eq_ok.mp h
    exact resolve_move h
  | refresh tx clock =>
    simp only [step] at h
    split at h
    · next sid expiresAt hx =>
      obtain ⟨-, h⟩ := ite_ok_else_error.mp h
      cases h
      exact .moved _ tx _ _ hx rfl
    · cases h
  | extend tx =>
    simp only [step] at h
    split at h
    · next hx => exact extend_move hx h
    · cases h
  | revoke tx u extent =>
    obtain ⟨-, h⟩ := ite_error_eq_ok.mp h
    cases h
    exact .entered _ tx _ rfl
  | mark tx =>
    simp only [step] at h
    split at h
    · next hx => exact mark_move hx h
    · cases h
  | commit tx =>
    simp only [step] at h
    split at h
    · next sid expiresAt hx =>
      cases h
      exact .refreshed tx sid expiresAt hx
    · next found startedAt hx =>
      cases h
      exact .revoked tx found startedAt hx
    · cases h
  | fail tx =>
    simp only [step] at h
    split at h
    · cases h
    · next x hx =>
      cases h
      exact .moved _ tx x _ hx rfl

end Store

/-! ## The invariant -/

/-- No session exceeds the absolute limit, and what a refresh has written is not earlier than what it
replaces. -/
structure Store.Sound (w : Store) : Prop where
  capped : ∀ sid s, w.sessions.get? sid = some s → s.expiresAt ≤ s.createdAt + sessionAbsolute
  held : ∀ tx x sid, w.txs.get? tx = some x → sid ∈ x.holds →
    ∃ s, w.sessions.get? sid = some s ∧ s.revokedAt = none ∧
      ∀ v, x = .extended sid v → s.expiresAt ≤ v ∧ v ≤ s.createdAt + sessionAbsolute
  exclusive : HeldOnce Tx.holds w.txs

/-- What a step leaves of a session. -/
def Session.Becomes (s s' : Session) : Prop :=
  s'.createdAt = s.createdAt ∧ s.expiresAt ≤ s'.expiresAt ∧ (s.revokedAt ≠ none → s'.revokedAt ≠ none)

theorem Session.Becomes.refl (s : Session) : s.Becomes s := ⟨rfl, le_rfl, fun h => h⟩

namespace Store

variable {w w' : Store} {tx : TxId} {sid : SessionId} {a : Action}

theorem Initial.sound (h₀ : w.Initial) : w.Sound := by
  refine ⟨fun sid s hs => ?_, fun tx x sid hx => ?_, h₀.txs ▸ heldOnce_empty⟩
  · rw [h₀.sessions] at hs
    cases hs
  · rw [h₀.txs] at hx
    cases hx

/-- A transaction goes on: what it holds afterwards is free and in order. -/
theorem Sound.setTx (hw : w.Sound) {x x' : Tx} (hx : w.txs.get? tx = some x)
    (hheld : ∀ sid ∈ x'.holds, w.rowLocked tx sid = false ∧
      ∃ s, w.sessions.get? sid = some s ∧ s.revokedAt = none ∧
        ∀ v, x' = .extended sid v → s.expiresAt ≤ v ∧ v ≤ s.createdAt + sessionAbsolute) :
    (w.setTx tx x').Sound := by
  refine ⟨hw.capped, fun tx₁ x₁ sid h₁ hmem => ?_, hw.exclusive.set hx fun sid hmem => ?_⟩
  · rcases get?_set_of_some hx h₁ with ⟨-, h₁⟩ | ⟨-, rfl⟩
    · exact hw.held tx₁ x₁ sid h₁ hmem
    · exact (hheld sid hmem).2
  · exact .inr (freeFor_iff.mp (hheld sid hmem).1)

theorem Sound.moved (hw : w.Sound) {x x' : Tx} (hx : w.txs.get? tx = some x) (hholds : x'.holds = []) :
    (w.setTx tx x').Sound := by
  refine hw.setTx hx fun sid hmem => ?_
  rw [hholds] at hmem
  cases hmem

/-- A commit: the sessions that the transaction holds are rewritten, and its locks are gone. -/
theorem Sound.commit (hw : w.Sound) {x : Tx} (hx : w.txs.get? tx = some x)
    {sessions : Table SessionId Session}
    (hcapped : ∀ sid s, sessions.get? sid = some s → s.expiresAt ≤ s.createdAt + sessionAbsolute)
    (hsame : ∀ sid, sid ∉ x.holds → sessions.get? sid = w.sessions.get? sid) :
    Sound { w with sessions := sessions, txs := w.txs.set tx .ended } := by
  have hended : (w.setTx tx .ended).Sound := hw.moved hx rfl
  refine ⟨hcapped, fun tx₁ x₁ sid h₁ hmem => ?_, hended.exclusive⟩
  have hnot := hw.exclusive.not_mem_of_ended hx rfl h₁ hmem
  rw [hsame sid hnot]
  exact hended.held tx₁ x₁ sid h₁ hmem

/-- What the `UPDATE` of a revocation matches has not been revoked. -/
theorem mem_matching {u : UserId} {extent : Extent} (hmem : sid ∈ w.matching u extent) :
    ∃ s, w.sessions.get? sid = some s ∧ s.revokedAt = none := by
  rw [matching, List.mem_map] at hmem
  obtain ⟨⟨sid', s⟩, hmem, rfl⟩ := hmem
  simp only [List.mem_filter, Bool.and_eq_true, Option.isNone_iff_eq_none] at hmem
  exact ⟨s, Table.get?_eq_some_iff.mpr hmem.1, hmem.2.1.2⟩

/-- The sessions after the commit of a refresh. -/
theorem get?_commitExtended (tx : TxId) (sid sid' : SessionId) (expiresAt : Time) :
    (w.commitExtended tx sid expiresAt).sessions.get? sid' =
      (w.sessions.get? sid').map fun s => if sid' = sid then { s with expiresAt := expiresAt } else s :=
  Table.get?_map _ _ _

/-- The sessions after the commit of a revocation. -/
theorem get?_commitRevoked (tx : TxId) (found : List SessionId) (startedAt : Time) (sid : SessionId) :
    (w.commitRevoked tx found startedAt).sessions.get? sid =
      (w.sessions.get? sid).map fun s =>
        if found.contains sid then { s with revokedAt := some startedAt } else s :=
  Table.get?_map _ _ _

/-- A refresh that has written is only ever an extension. -/
theorem Sound.extended (hw : w.Sound) {v : Time} (hx : w.txs.get? tx = some (.extended sid v)) :
    ∃ s, w.sessions.get? sid = some s ∧ s.revokedAt = none ∧ s.expiresAt ≤ v ∧
      v ≤ s.createdAt + sessionAbsolute := by
  obtain ⟨s, hs, hopen, hv⟩ := hw.held tx _ sid hx (List.mem_singleton_self sid)
  exact ⟨s, hs, hopen, hv v rfl⟩

theorem Sound.refreshed (hw : w.Sound) {v : Time} (hx : w.txs.get? tx = some (.extended sid v)) :
    (w.commitExtended tx sid v).Sound := by
  refine hw.commit hx (fun sid' s' hs' => ?_) fun sid' hnot => ?_
  · obtain ⟨s, hs, rfl⟩ := Option.map_eq_some_iff.mp ((get?_commitExtended tx sid sid' v).symm.trans hs')
    by_cases heq : sid' = sid
    · rw [if_pos heq]
      obtain ⟨s₁, hs₁, -, -, hcap⟩ := hw.extended hx
      rw [heq, hs₁] at hs
      cases hs
      exact hcap
    · rw [if_neg heq]
      exact hw.capped sid' s hs
  · have hne : sid' ≠ sid := fun heq => hnot (heq ▸ List.mem_singleton_self sid)
    refine (get?_commitExtended tx sid sid' v).trans ?_
    simp only [if_neg hne, Option.map_id']

theorem Sound.revoked (hw : w.Sound) {found : List SessionId} {startedAt : Time}
    (hx : w.txs.get? tx = some (.revoked found startedAt)) :
    (w.commitRevoked tx found startedAt).Sound := by
  refine hw.commit hx (fun sid s' hs' => ?_) fun sid hnot => ?_
  · obtain ⟨s, hs, rfl⟩ :=
      Option.map_eq_some_iff.mp ((get?_commitRevoked tx found startedAt sid).symm.trans hs')
    have hcap := hw.capped sid s hs
    split
    · exact hcap
    · exact hcap
  · have hout : found.contains sid = false := by
      simpa using (show sid ∉ found from hnot)
    refine (get?_commitRevoked tx found startedAt sid).trans ?_
    simp only [hout, Bool.false_eq_true, if_false, Option.map_id']

/-- What a refresh writes lies between the end of the session and the absolute limit. -/
theorem extension_bounds {expiresAt startedAt createdAt : Time} (h : expiresAt < startedAt + refreshThreshold)
    (hcap : expiresAt ≤ createdAt + sessionAbsolute) :
    expiresAt ≤ min (startedAt + sessionTtl) (createdAt + sessionAbsolute) ∧
      min (startedAt + sessionTtl) (createdAt + sessionAbsolute) ≤ createdAt + sessionAbsolute := by
  have hday : refreshThreshold ≤ sessionTtl := by decide
  generalize refreshThreshold = threshold at h hday
  generalize sessionTtl = ttl at hday ⊢
  generalize sessionAbsolute = absolute at hcap ⊢
  exact ⟨le_min (h.le.trans (Nat.add_le_add_left hday startedAt)) hcap, min_le_right _ _⟩

theorem Sound.step (hw : w.Sound) (hG : InLifetime w a) (h : w.Move a w') : w'.Sound := by
  cases h with
  | elsewhere a w' hsessions htxs hnow =>
    refine ⟨fun sid s hs => hw.capped sid s (hsessions ▸ hs), fun tx x sid hx hmem => ?_,
      htxs ▸ hw.exclusive⟩
    rw [htxs] at hx
    rw [hsessions]
    exact hw.held tx x sid hx hmem
  | created sid u startedAt clock hnew =>
    refine ⟨fun sid' s hs => ?_, fun tx x sid' hx hmem => ?_, hw.exclusive⟩
    · rcases Table.get?_insert_cases hs with hs | ⟨-, rfl⟩
      · exact hw.capped sid' s hs
      · exact hG
    · obtain ⟨s, hs, hrest⟩ := hw.held tx x sid' hx hmem
      have hne : sid' ≠ sid := by
        rintro rfl
        rw [hnew] at hs
        cases hs
      exact ⟨s, by rw [Table.get?_insert hnew, if_neg hne]; exact hs, hrest⟩
  | entered a tx x hholds =>
    refine ⟨hw.capped, fun tx₁ x₁ sid h₁ hmem => ?_, hw.exclusive.insert hholds⟩
    rcases Table.get?_insert_cases h₁ with h₁ | ⟨-, rfl⟩
    · exact hw.held tx₁ x₁ sid h₁ hmem
    · rw [hholds] at hmem
      cases hmem
  | moved a tx x x' hx hholds => exact hw.moved hx hholds
  | extended tx sid startedAt s hx hfree hs hopen hnear =>
    have hbounds := extension_bounds hnear (hw.capped sid s hs)
    generalize min (startedAt + sessionTtl) (s.createdAt + sessionAbsolute) = v at hbounds ⊢
    refine hw.setTx hx fun sid' hmem => ?_
    obtain rfl := List.mem_singleton.mp hmem
    refine ⟨hfree, s, hs, hopen, fun v' hv => ?_⟩
    cases hv
    exact hbounds
  | marked tx u extent startedAt hx hfree =>
    refine hw.setTx hx fun sid hmem => ?_
    obtain ⟨s, hs, hopen⟩ := mem_matching hmem
    exact ⟨hfree sid hmem, s, hs, hopen, fun v hv => by cases hv⟩
  | refreshed tx sid v hx => exact hw.refreshed hx
  | revoked tx found startedAt hx => exact hw.revoked hx

/-! ## What becomes of a session -/

theorem Move.now_le (h : w.Move a w') : w.now ≤ w'.now := by
  cases h with
  | elsewhere a w' hsessions htxs hnow => exact hnow
  | _ => exact le_rfl

/-- A session is still there after a step, revoked if it was, and its end is where it was, or later after the
commit of a refresh. -/
theorem Sound.becomes (hw : w.Sound) (h : w.Move a w') {s : Session} (hs : w.sessions.get? sid = some s) :
    ∃ s', w'.sessions.get? sid = some s' ∧ s.Becomes s' ∧
      (s'.expiresAt = s.expiresAt ∨ ∃ tx v, a = .commit tx ∧ w.txs.get? tx = some (.extended sid v)) := by
  cases h with
  | elsewhere a w' hsessions htxs hnow => exact ⟨s, by rw [hsessions, hs], .refl s, .inl rfl⟩
  | created sid' u startedAt clock hnew =>
    have hne : sid ≠ sid' := by
      rintro rfl
      rw [hnew] at hs
      cases hs
    exact ⟨s, by rw [Table.get?_insert hnew, if_neg hne]; exact hs, .refl s, .inl rfl⟩
  | entered a tx x hholds => exact ⟨s, hs, .refl s, .inl rfl⟩
  | moved a tx x x' hx hholds => exact ⟨s, hs, .refl s, .inl rfl⟩
  | extended tx sid' startedAt s' hx hfree hs' hopen hnear => exact ⟨s, hs, .refl s, .inl rfl⟩
  | marked tx u extent startedAt hx hfree => exact ⟨s, hs, .refl s, .inl rfl⟩
  | refreshed tx sid' v hx =>
    refine ⟨_, by rw [get?_commitExtended, hs, Option.map_some], ?_⟩
    by_cases heq : sid = sid'
    · subst heq
      rw [if_pos rfl]
      obtain ⟨s₁, hs₁, -, hle, -⟩ := hw.extended hx
      rw [hs] at hs₁
      cases hs₁
      exact ⟨⟨rfl, hle, fun h => h⟩, .inr ⟨tx, v, rfl, hx⟩⟩
    · rw [if_neg heq]
      exact ⟨.refl s, .inl rfl⟩
  | revoked tx found startedAt hx =>
    refine ⟨_, by rw [get?_commitRevoked, hs, Option.map_some], ?_⟩
    split
    · exact ⟨⟨rfl, le_rfl, fun _ => by simp⟩, .inl rfl⟩
    · exact ⟨.refl s, .inl rfl⟩

/-- A refresh in time does not bring back what is dead. -/
theorem Sound.dead (hw : w.Sound) (hG : InLifetime w a) (h : w.Move a w') (hdead : w.Dead sid) :
    w'.Dead sid := by
  obtain ⟨s, hs, hdead⟩ := hdead
  obtain ⟨s', hs', ⟨-, -, hrevoked⟩, hend⟩ := hw.becomes h hs
  refine ⟨s', hs', ?_⟩
  rcases hdead with hne | hexpired
  · exact .inl (hrevoked hne)
  · rcases hend with hsame | ⟨tx, v, rfl, hx⟩
    · rw [hsame]
      exact .inr (hexpired.trans h.now_le)
    · exact absurd (hG _ hx s hs) (Nat.not_lt.mpr hexpired)

/-- What is dead does not resolve. -/
theorem Dead.resolveSession (hdead : w.Dead sid) : w.resolveSession sid = none := by
  obtain ⟨s, hs, hdead⟩ := hdead
  simp only [Store.resolveSession, hs]
  split
  · rfl
  · refine if_neg fun hlive => ?_
    rcases hdead with hne | hexpired
    · exact hne hlive.1
    · exact Nat.not_lt.mpr hexpired hlive.2.1

end Store

/-! ## Runs -/

section Runs

variable {w₀ : Store} {as : List Action}

theorem Store.sound_run (h₀ : w₀.Initial) (hG : sessionStore.Guarded InLifetime w₀ as) :
    (sessionStore.run w₀ as).Sound :=
  System.invariant_run_of_guarded (S := sessionStore) (fun _ _ _ hw hG h => hw.step hG (Store.step_move h))
    h₀.sound hG

/-- In a run whose sessions are created and refreshed in time, every session has its lifetime. -/
theorem lifetime_run (h₀ : w₀.Initial) (hG : sessionStore.Guarded InLifetime w₀ as) : Lifetime w₀ as where
  rises bs a cs has sid s hs := by
    rw [has, System.Guarded.append] at hG
    have hw := Store.sound_run h₀ hG.1
    rw [System.run_append, System.run_cons, System.run_nil]
    rcases System.next_cases (S := sessionStore) (sessionStore.run w₀ bs) a with hstep | hsame
    · obtain ⟨s', hs', ⟨-, hle, -⟩, -⟩ := hw.becomes (Store.step_move hstep) hs
      exact ⟨s', hs', hle⟩
    · rw [hsame]
      exact ⟨s, hs, le_rfl⟩
  capped bs cs has sid s hs := by
    rw [has, System.Guarded.append] at hG
    exact (Store.sound_run h₀ hG.1).capped sid s hs
  final bs cs ds has sid hdead := by
    rw [has, System.Guarded.append, System.Guarded.append] at hG
    have hrun := System.invariant_run_of_guarded (S := sessionStore) (G := InLifetime)
      (I := fun w => w.Sound ∧ w.Dead sid)
      (fun w a w' hi hG h => ⟨hi.1.step hG (Store.step_move h), hi.1.dead hG (Store.step_move h) hi.2⟩)
      ⟨Store.sound_run h₀ hG.1.1, hdead⟩ hG.1.2
    rw [System.run_append]
    exact hrun.2.resolveSession

/-- An account without sessions. -/
def Store.small : Store := ⟨Table.empty.insert "u" .active, .empty, .empty, 0⟩

theorem Store.small_initial : Store.small.Initial := ⟨rfl, rfl⟩

/-- A session in its sixth day, and a request that has resolved it. -/
def nearTheEnd : List Action :=
  [.create 0 "u" 0 0, .tick (6 * day), .resolve 0 0, .refresh 0 (6 * day)]

/-- The refresh commits on the same day; the session is revoked later. -/
def refreshedInTime : List Action :=
  nearTheEnd ++ [.extend 0, .commit 0, .tick day, .resolve 1 0, .revoke 2 "u" .all, .mark 2, .commit 2]

theorem lifetime_run_refreshed : Lifetime .small refreshedInTime :=
  lifetime_run Store.small_initial (by decide +kernel)

/-- The refresh comes to its row only when the session has expired. -/
def refreshedLate : List Action := nearTheEnd ++ [.tick day, .extend 0, .commit 0]

/-- A session that has expired resolves again. -/
theorem not_lifetime_refreshedLate : ¬ Lifetime .small refreshedLate := by
  intro h
  have hnone := h.final (nearTheEnd ++ [.tick day]) [.extend 0, .commit 0] [] (by rfl) 0
    ⟨⟨"u", 0, sessionTtl, none⟩, by decide +kernel, .inr (by decide +kernel)⟩
  have hsome : ((sessionStore.run .small (nearTheEnd ++ [.tick day] ++ [.extend 0, .commit 0])).resolveSession
      0).isSome = true := by
    decide +kernel
  rw [hnone] at hsome
  cases hsome

end Runs

end AgentCraft.Access.SessionLife
