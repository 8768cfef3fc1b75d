import AgentCraft.Access.Accounts
import AgentCraft.Transition.Trace

/-!
# The grace period of a deletion

`deletion_service.py` with what else moves the status and the deadline of one user: the activation, the
suspension and its end (`admin_user_service.py`). The cancellation of a deletion locks its token, reads the
user, and only then updates; the sweep reads its candidates in one transaction and anonymises them in
others; the cascade of a suspension, which uses the cancel tokens up, comes after its commit or never.
Checks that leave the status and the tokens alone (passwords, limits, second factors) are left open.
-/

namespace AgentCraft.Access

open AgentCraft.Relational AgentCraft.Transition

/-- `GRACE_DAYS`. -/
def gracePeriod : Time := 14 * day

/-- `_CANCEL_TTL`: 336 hours. -/
def cancelTtl : Time := 336 * 3600 * 1000000

abbrev CancelId := ℕ

/-- A `deletion_cancel` row of `account_action_tokens`. -/
structure CancelToken where
  expiresAt : Time
  consumed : Bool
deriving DecidableEq, Repr

/-- How far `cancel_deletion` has come. -/
inductive CancelPhase
  /-- Its transaction has begun. -/
  | begun
  /-- `_SELECT_TOKEN_FOR_UPDATE` has found the token unconsumed and live. -/
  | locked
  /-- The user is deleting, and the password is right. -/
  | verified
deriving DecidableEq, Repr

/-- A cancellation in progress; `startedAt` is `now()` in its transaction. -/
structure Cancellation where
  token : Token
  startedAt : Time
  phase : CancelPhase
deriving DecidableEq, Repr

/-- The user, the tokens, and what is in progress. -/
structure DeletionWorld where
  status : UserStatus
  /-- `deletion_deadline_at`. -/
  deadline : Option Time
  tokens : Table Token CancelToken
  cancels : Table CancelId Cancellation
  /-- Sweeps that have the user among their candidates. -/
  candidates : ℕ
  /-- Suspensions whose cascade is still to come. -/
  cascades : ℕ
  now : Time

/-- The labels of the system. -/
inductive DeletionAction
  | tick (micros : ℕ)
  /-- `_ACTIVATE_SQL`. -/
  | activate
  /-- `_SUSPEND_USER_SQL`. -/
  | suspend
  /-- `_UNSUSPEND_USER_SQL`. -/
  | unsuspend
  /-- `_SUSPEND_INVALIDATE_TOKENS_SQL`. -/
  | cascade
  | cascadeFails
  /-- `request_deletion`; its transaction has begun at `startedAt`, and `clock` is `datetime.now` of the
  application. -/
  | request (token : Token) (startedAt clock : Time)
  | beginCancel (id : CancelId) (token : Token)
  | lockToken (id : CancelId)
  | readUser (id : CancelId) (password : Bool)
  | commitCancel (id : CancelId)
  | abandonCancel (id : CancelId)
  /-- The first transaction of `sweep_expired`. -/
  | scan
  /-- One of the others. -/
  | anonymise
  | dropCandidate

/-- The statement finds no row, or the step is not the next one. -/
inductive DeletionFailure
  | notEnabled
deriving DecidableEq, Repr

namespace DeletionWorld

variable (w : DeletionWorld)

/-- A token is locked by a cancellation. -/
def isLocked (token : Token) : Bool :=
  w.cancels.rows.any fun r => r.2.token = token && r.2.phase ≠ .begun

/-- Any token is. -/
def anyLocked : Bool := w.cancels.rows.any fun r => r.2.phase ≠ .begun

/-- `request_deletion` commits. -/
def request (token : Token) (startedAt clock : Time) : Except DeletionFailure DeletionWorld :=
  if startedAt ≤ w.now then
    match w.tokens.get? token with
    | some _ => .error .notEnabled
    | none =>
      if w.status = .active then
        .ok { w with
          status := .deleting
          deadline := some (startedAt + gracePeriod)
          tokens := w.tokens.insert token ⟨clock + cancelTtl, false⟩ }
      else .error .notEnabled
  else .error .notEnabled

/-- The step of a cancellation in progress. -/
def advance (id : CancelId) (c : Cancellation) :
    DeletionAction → Except DeletionFailure DeletionWorld
  | .lockToken _ =>
    match c.phase, w.tokens.get? c.token with
    | .begun, some row =>
      if w.isLocked c.token then .error .notEnabled
      else if row.consumed = false ∧ c.startedAt < row.expiresAt then
        .ok { w with cancels := w.cancels.set id { c with phase := .locked } }
      else .error .notEnabled
    | _, _ => .error .notEnabled
  | .readUser _ password =>
    match c.phase with
    | .locked =>
      if w.status = .deleting ∧ password = true then
        .ok { w with cancels := w.cancels.set id { c with phase := .verified } }
      else .error .notEnabled
    | _ => .error .notEnabled
  | .commitCancel _ =>
    match c.phase, w.tokens.get? c.token with
    | .verified, some row =>
      if w.status = .deleting ∧ row.consumed = false then
        .ok { w with
          status := .active
          deadline := none
          tokens := w.tokens.set c.token { row with consumed := true }
          cancels := w.cancels.filter fun id' _ => id' ≠ id }
      else .error .notEnabled
    | _, _ => .error .notEnabled
  | _ => .error .notEnabled

/-- The step function. -/
def step : DeletionAction → Except DeletionFailure DeletionWorld
  | .tick micros => .ok { w with now := w.now + micros }
  | .activate => if w.status = .pending then .ok { w with status := .active } else .error .notEnabled
  | .suspend =>
    if w.status = .active ∨ w.status = .deleting then
      .ok { w with
        status := .suspended
        deadline := if w.status = .deleting then none else w.deadline
        cascades := w.cascades + 1 }
    else .error .notEnabled
  | .unsuspend => if w.status = .suspended then .ok { w with status := .active } else .error .notEnabled
  | .cascade =>
    -- the update waits for the cancellations that have locked a token
    if 0 < w.cascades ∧ w.anyLocked = false then
      .ok { w with
        tokens := w.tokens.map fun _ row => { row with consumed := true }
        cascades := w.cascades - 1 }
    else .error .notEnabled
  | .cascadeFails =>
    if 0 < w.cascades then .ok { w with cascades := w.cascades - 1 } else .error .notEnabled
  | .request token startedAt clock => w.request token startedAt clock
  | .beginCancel id token =>
    match w.cancels.get? id with
    | some _ => .error .notEnabled
    | none => .ok { w with cancels := w.cancels.insert id ⟨token, w.now, .begun⟩ }
  | .abandonCancel id => .ok { w with cancels := w.cancels.filter fun id' _ => id' ≠ id }
  | .scan =>
    if w.status = .deleting ∧ w.deadline.any (· ≤ w.now) then
      .ok { w with candidates := w.candidates + 1 }
    else .error .notEnabled
  | .anonymise =>
    if 0 < w.candidates ∧ w.status = .deleting then
      .ok { w with status := .deleted, deadline := none, candidates := w.candidates - 1 }
    else .error .notEnabled
  | .dropCandidate =>
    if 0 < w.candidates then .ok { w with candidates := w.candidates - 1 } else .error .notEnabled
  | .lockToken id =>
    match w.cancels.get? id with
    | some c => w.advance id c (.lockToken id)
    | none => .error .notEnabled
  | .readUser id password =>
    match w.cancels.get? id with
    | some c => w.advance id c (.readUser id password)
    | none => .error .notEnabled
  | .commitCancel id =>
    match w.cancels.get? id with
    | some c => w.advance id c (.commitCancel id)
    | none => .error .notEnabled

end DeletionWorld

/-- One user, the cancellations, the suspensions and the sweeps. -/
def deletionSystem : System DeletionWorld DeletionAction DeletionFailure := ⟨DeletionWorld.step⟩

/-- The user has never asked for a deletion. -/
structure DeletionWorld.Initial (w : DeletionWorld) : Prop where
  status : w.status = .pending ∨ w.status = .active
  deadline : w.deadline = none
  tokens : w.tokens = .empty
  cancels : w.cancels = .empty
  candidates : w.candidates = 0

/-- What becomes of a deletion. -/
inductive DeletionMark
  /-- Accepted; `time` is that of its transaction. -/
  | requested (token : Token) (time : Time)
  | cancelled (token : Token)
  | suspended
  | anonymised (time : Time)
deriving DecidableEq, Repr

/-- The mark of an action that takes effect. -/
def DeletionWorld.marks (w : DeletionWorld) : DeletionAction → List DeletionMark
  | .request token startedAt _ => [.requested token startedAt]
  | .commitCancel id => ((w.cancels.get? id).map fun c => .cancelled c.token).toList
  | .suspend => [.suspended]
  | .anonymise => [.anonymised w.now]
  | _ => []

/-- What happens along a run. -/
def deletionHistory (w₀ : DeletionWorld) (as : List DeletionAction) : List DeletionMark :=
  deletionSystem.trace DeletionWorld.marks w₀ as

/-- The latest mark is the acceptance of the request that has issued the token. -/
def IsOpen (h : List DeletionMark) (token : Token) (time : Time) : Prop :=
  ∃ pre, h = pre ++ [.requested token time]

/-- The grace period is kept. -/
structure GraceKept (w : DeletionWorld) (h : List DeletionMark) : Prop where
  deadline : w.deadline.isSome = true ↔ w.status = .deleting
  /-- Anonymised is who has waited since his latest request, without cancellation or suspension. -/
  anonymised : ∀ pre t post, h = pre ++ .anonymised t :: post →
    ∃ token t₀, IsOpen pre token t₀ ∧ t₀ + gracePeriod ≤ t
  /-- A token cancels the request that has issued it, -/
  cancelled : ∀ pre token post, h = pre ++ .cancelled token :: post → ∃ t₀, IsOpen pre token t₀
  /-- and it does so once. -/
  once : ∀ pre token post, h = pre ++ .cancelled token :: post → .cancelled token ∉ pre
  /-- A request is not both cancelled and carried out. -/
  exclusive : ∀ pre t post token t₀, h = pre ++ .anonymised t :: post → IsOpen pre token t₀ →
    .cancelled token ∉ h

/-- The token can cancel nothing any more. -/
def DeletionWorld.Spent (w : DeletionWorld) (token : Token) (row : CancelToken) : Prop :=
  row.consumed = true ∨ (row.expiresAt ≤ w.now ∧
    ∀ id c, w.cancels.get? id = some c → c.token = token → row.expiresAt ≤ c.startedAt)

/-- The condition. When the sweep comes back to a candidate that is deleting, his deadline has passed; and
when a request is accepted, the earlier cancel tokens have been used up or have expired. -/
def InGrace (w : DeletionWorld) : DeletionAction → Prop
  | .anonymise => w.status = .deleting → ∀ deadline, w.deadline = some deadline → deadline ≤ w.now
  | .request .. => ∀ token row, w.tokens.get? token = some row → w.Spent token row
  | _ => True

/-! ## What is kept along a run -/

/-- What the past allows: every request issues a token of its own, and what ends a deletion follows its
request. -/
def DeletionMark.Allowed (pre : List DeletionMark) : DeletionMark → Prop
  | .requested token _ => ∀ t, .requested token t ∉ pre
  | .cancelled token => ∃ t₀, IsOpen pre token t₀
  | .anonymised t => ∃ token t₀, IsOpen pre token t₀ ∧ t₀ + gracePeriod ≤ t
  | .suspended => True

/-- The tokens keep their expiry and stay consumed, and the cancellations keep their tokens and their
times. -/
structure DeletionWorld.Follows (w w' : DeletionWorld) : Prop where
  tokens : ∀ token row', w'.tokens.get? token = some row' → ∃ row, w.tokens.get? token = some row ∧
    row'.expiresAt = row.expiresAt ∧ (row.consumed = true → row'.consumed = true)
  keeps : ∀ token row, w.tokens.get? token = some row →
    ∃ row', w'.tokens.get? token = some row' ∧ row'.expiresAt = row.expiresAt
  cancels : ∀ id c', w'.cancels.get? id = some c' →
    (c'.phase = .begun ∧ c'.startedAt = w.now) ∨ ∃ c, w.cancels.get? id = some c ∧ c.token = c'.token ∧
      c.startedAt = c'.startedAt ∧ (c'.phase ≠ .begun → c.phase ≠ .begun ∨
        ∃ row, w.tokens.get? c.token = some row ∧ c.startedAt < row.expiresAt)
  now : w.now ≤ w'.now

/-- The deadline is that of the latest request, and the tokens of the earlier ones are spent. -/
structure DeletionWorld.Kept (w : DeletionWorld) (h : List DeletionMark) : Prop where
  deadline : w.status ≠ .deleting → w.deadline = none
  «open» : w.status = .deleting → ∃ token t₀, IsOpen h token t₀ ∧ w.deadline = some (t₀ + gracePeriod)
  issued : ∀ token t, .requested token t ∈ h → ∃ row, w.tokens.get? token = some row
  spent : w.status = .deleting → ∀ token t₀, IsOpen h token t₀ → ∀ token' row, token' ≠ token →
    w.tokens.get? token' = some row → w.Spent token' row
  locked : ∀ id c, w.cancels.get? id = some c → c.phase ≠ .begun →
    ∃ row, w.tokens.get? c.token = some row ∧ c.startedAt < row.expiresAt
  orderly : Orderly DeletionMark.Allowed h

section Deletion

variable {w w' : DeletionWorld} {h ms : List DeletionMark} {a : DeletionAction} {token token' : Token}
  {t t₀ : Time} {row row' : CancelToken} {id : CancelId} {c : Cancellation}

theorem IsOpen.inj (ho : IsOpen h token t) (ho' : IsOpen h token' t₀) : token = token' ∧ t = t₀ := by
  obtain ⟨pre, rfl⟩ := ho
  obtain ⟨pre', heq⟩ := ho'
  cases (List.append_inj' heq rfl).2
  exact ⟨rfl, rfl⟩

/-- What is spent stays spent. -/
theorem DeletionWorld.Spent.follows (hs : w.Spent token row) (hf : w.Follows w')
    (hexpires : row'.expiresAt = row.expiresAt) (hconsumed : row.consumed = true → row'.consumed = true) :
    w'.Spent token row' := by
  rcases hs with hs | ⟨hle, hcancels⟩
  · exact .inl (hconsumed hs)
  · refine .inr ⟨hexpires ▸ hle.trans hf.now, fun id c' hc' htoken => ?_⟩
    rw [hexpires]
    rcases hf.cancels id c' hc' with ⟨-, hstarted⟩ | ⟨c, hc, heq, hstarted, -⟩
    · rw [hstarted]
      exact hle
    · rw [← hstarted]
      exact hcancels id c hc (heq.trans htoken)

theorem DeletionWorld.Follows.locked (hf : w.Follows w') (hk : w.Kept h) : ∀ id c,
    w'.cancels.get? id = some c → c.phase ≠ .begun →
    ∃ row, w'.tokens.get? c.token = some row ∧ c.startedAt < row.expiresAt := by
  intro id c' hc' hphase
  rcases hf.cancels id c' hc' with ⟨hbegun, -⟩ | ⟨c, hc, htoken, hstarted, hlocked⟩
  · exact (hphase hbegun).elim
  · have hrow : ∃ row, w.tokens.get? c.token = some row ∧ c.startedAt < row.expiresAt :=
      (hlocked hphase).elim (hk.locked id c hc) fun h => h
    obtain ⟨row, hrow, hlt⟩ := hrow
    obtain ⟨row', hrow', hexpires⟩ := hf.keeps c.token row hrow
    exact ⟨row', htoken ▸ hrow', by rw [hexpires, ← hstarted]; exact hlt⟩

/-- A step that leaves the status and the deadline alone. -/
theorem DeletionWorld.Kept.quiet (hk : w.Kept h) (hf : w.Follows w') (hstatus : w'.status = w.status)
    (hdeadline : w'.deadline = w.deadline) : w'.Kept h where
  deadline hne := by rw [hdeadline, hk.deadline (hstatus ▸ hne)]
  «open» heq := by
    rw [hdeadline]
    exact hk.open (hstatus ▸ heq)
  issued token t hm := by
    obtain ⟨row, hrow⟩ := hk.issued token t hm
    obtain ⟨row', hrow', -⟩ := hf.keeps token row hrow
    exact ⟨row', hrow'⟩
  spent heq token t₀ ho token' row' hne hrow' := by
    obtain ⟨row, hrow, hexpires, hconsumed⟩ := hf.tokens token' row' hrow'
    exact (hk.spent (hstatus ▸ heq) token t₀ ho token' row hne hrow).follows hf hexpires hconsumed
  locked := hf.locked hk
  orderly := hk.orderly

/-- A step after which the user is not deleting. -/
theorem DeletionWorld.Kept.settled (hk : w.Kept h) (hf : w.Follows w') (hstatus : w'.status ≠ .deleting)
    (hdeadline : w'.deadline = none) (hms : ∀ token t, .requested token t ∉ ms)
    (horderly : Orderly DeletionMark.Allowed (h ++ ms)) : w'.Kept (h ++ ms) where
  deadline _ := hdeadline
  «open» heq := (hstatus heq).elim
  issued token t hm := by
    obtain ⟨row, hrow⟩ := hk.issued token t ((List.mem_append.mp hm).resolve_right (hms token t))
    obtain ⟨row', hrow', -⟩ := hf.keeps token row hrow
    exact ⟨row', hrow'⟩
  spent heq := (hstatus heq).elim
  locked := hf.locked hk
  orderly := horderly

/-- The steps that keep the tokens and the cancellations. -/
theorem DeletionWorld.Follows.of_eq (htokens : w'.tokens = w.tokens) (hcancels : w'.cancels = w.cancels)
    (hnow : w.now ≤ w'.now) : w.Follows w' where
  tokens _ row hrow := ⟨row, htokens ▸ hrow, rfl, fun h => h⟩
  keeps _ row hrow := ⟨row, htokens ▸ hrow, rfl⟩
  cancels _ c hc := .inr ⟨c, hcancels ▸ hc, rfl, rfl, .inl⟩
  now := hnow

/-- Some cancellations are over. -/
theorem DeletionWorld.Follows.of_filter (p : CancelId → Cancellation → Bool)
    (htokens : ∀ token row', w'.tokens.get? token = some row' → ∃ row, w.tokens.get? token = some row ∧
      row'.expiresAt = row.expiresAt ∧ (row.consumed = true → row'.consumed = true))
    (hkeeps : ∀ token row, w.tokens.get? token = some row →
      ∃ row', w'.tokens.get? token = some row' ∧ row'.expiresAt = row.expiresAt)
    (hcancels : w'.cancels = w.cancels.filter p) (hnow : w.now ≤ w'.now) : w.Follows w' where
  tokens := htokens
  keeps := hkeeps
  cancels id c hc := by
    rw [hcancels, Table.get?_filter, Option.filter_eq_some_iff] at hc
    exact .inr ⟨c, hc.1, rfl, rfl, .inl⟩
  now := hnow

/-- A cancellation moves on. -/
theorem DeletionWorld.Follows.of_set {phase : CancelPhase} (hc : w.cancels.get? id = some c)
    (hlocked : c.phase ≠ .begun ∨ ∃ row, w.tokens.get? c.token = some row ∧ c.startedAt < row.expiresAt) :
    w.Follows { w with cancels := w.cancels.set id { c with phase := phase } } where
  tokens _ row hrow := ⟨row, hrow, rfl, fun h => h⟩
  keeps _ row hrow := ⟨row, hrow, rfl⟩
  cancels id' c' hc' := by
    rw [Table.get?_set] at hc'
    split at hc'
    · next heq =>
      obtain ⟨_, -, rfl⟩ := Option.map_eq_some_iff.mp hc'
      exact .inr ⟨c, heq ▸ hc, rfl, rfl, fun _ => hlocked⟩
    · exact .inr ⟨c', hc', rfl, rfl, .inl⟩
  now := le_rfl

/-- The request that is accepted becomes the latest one. -/
theorem DeletionWorld.Kept.request {startedAt clock : Time} (hk : w.Kept h)
    (hG : InGrace w (.request token startedAt clock)) (hs : w.request token startedAt clock = .ok w') :
    w'.Kept (h ++ [.requested token startedAt]) := by
  unfold DeletionWorld.request at hs
  obtain ⟨-, hs⟩ := ite_ok_else_error.mp hs
  split at hs
  · cases hs
  · next hnone =>
    obtain ⟨hactive, hs⟩ := ite_ok_else_error.mp hs
    cases hs
    have hget (token' : Token) : (w.tokens.insert token ⟨clock + cancelTtl, false⟩).get? token' =
        if token' = token then some ⟨clock + cancelTtl, false⟩ else w.tokens.get? token' :=
      Table.get?_insert hnone token' _
    have hopen : IsOpen (h ++ [.requested token startedAt]) token startedAt := ⟨h, rfl⟩
    have hold (token' : Token) (row : CancelToken) (hrow : w.tokens.get? token' = some row) :
        (w.tokens.insert token ⟨clock + cancelTtl, false⟩).get? token' = some row := by
      rw [hget, if_neg, hrow]
      rintro rfl
      rw [hnone] at hrow
      cases hrow
    refine ⟨fun hne => (hne rfl).elim, fun _ => ⟨token, startedAt, hopen, rfl⟩, fun token' t hm => ?_,
      fun _ token' t₀ ho token'' row hne hrow => ?_, fun id c hc hphase => ?_,
      hk.orderly.concat fun t hm => ?_⟩
    · rcases List.mem_append.mp hm with hm | hm
      · obtain ⟨row, hrow⟩ := hk.issued token' t hm
        exact ⟨row, hold token' row hrow⟩
      · cases List.mem_singleton.mp hm
        exact ⟨⟨clock + cancelTtl, false⟩, by rw [hget, if_pos rfl]⟩
    · obtain ⟨rfl, -⟩ := ho.inj hopen
      rw [hget, if_neg hne] at hrow
      exact hG token'' row hrow
    · obtain ⟨row, hrow, hlt⟩ := hk.locked id c hc hphase
      exact ⟨row, hold c.token row hrow, hlt⟩
    · obtain ⟨row, hrow⟩ := hk.issued token t hm
      rw [hnone] at hrow
      cases hrow

/-- The token of a cancellation that commits is that of the latest request. -/
theorem DeletionWorld.Kept.isOpen_of_locked (hk : w.Kept h) (hstatus : w.status = .deleting)
    (hc : w.cancels.get? id = some c) (hphase : c.phase ≠ .begun) (hrow : w.tokens.get? c.token = some row)
    (hunconsumed : row.consumed = false) : ∃ t₀, IsOpen h c.token t₀ := by
  obtain ⟨token, t₀, ho, -⟩ := hk.open hstatus
  by_cases htoken : c.token = token
  · exact ⟨t₀, htoken ▸ ho⟩
  · obtain ⟨row', hrow', hlt⟩ := hk.locked id c hc hphase
    rw [hrow] at hrow'
    cases hrow'
    rcases hk.spent hstatus token t₀ ho c.token row htoken hrow with hconsumed | ⟨-, hcancels⟩
    · rw [hunconsumed] at hconsumed
      cases hconsumed
    · exact (Nat.not_le.mpr hlt (hcancels id c hc rfl)).elim

theorem DeletionWorld.Kept.step (hk : w.Kept h) (hG : InGrace w a) (hs : w.step a = .ok w') :
    w'.Kept (h ++ w.marks a) := by
  have hrefl (hmarks : w.marks a = []) (hk' : w'.Kept h) : w'.Kept (h ++ w.marks a) := by
    rw [hmarks, List.append_nil]
    exact hk'
  have hidle (hmarks : w.marks a = []) (hf : w.Follows w') (hstatus : w'.status ≠ .deleting)
      (hdeadline : w'.deadline = none) : w'.Kept (h ++ w.marks a) :=
    hk.settled hf hstatus hdeadline (by rw [hmarks]; simp) (by rw [hmarks, List.append_nil]; exact hk.orderly)
  cases a with
  | tick micros =>
    cases hs
    exact hrefl rfl (hk.quiet (.of_eq rfl rfl (Nat.le_add_right _ _)) rfl rfl)
  | activate =>
    obtain ⟨hstatus, hs⟩ := ite_ok_else_error.mp hs
    cases hs
    exact hidle rfl (.of_eq rfl rfl le_rfl) (by simp) (hk.deadline (by simp [hstatus]))
  | suspend =>
    obtain ⟨hstatus, hs⟩ := ite_ok_else_error.mp hs
    cases hs
    refine hk.settled (.of_eq rfl rfl le_rfl) (by simp) ?_ (by simp [DeletionWorld.marks])
      (hk.orderly.concat trivial)
    show (if w.status = .deleting then none else w.deadline) = none
    split
    · rfl
    · next hne => exact hk.deadline hne
  | unsuspend =>
    obtain ⟨hstatus, hs⟩ := ite_ok_else_error.mp hs
    cases hs
    exact hidle rfl (.of_eq rfl rfl le_rfl) (by simp) (hk.deadline (by simp [hstatus]))
  | cascade =>
    obtain ⟨-, hs⟩ := ite_ok_else_error.mp hs
    cases hs
    refine hrefl rfl (hk.quiet (.of_filter (fun _ _ => true) (fun token row' hrow' => ?_)
      (fun token row hrow => ?_) (by simp [Table.filter]) le_rfl) rfl rfl)
    · rw [Table.get?_map] at hrow'
      obtain ⟨row, hrow, rfl⟩ := Option.map_eq_some_iff.mp hrow'
      exact ⟨row, hrow, rfl, fun _ => rfl⟩
    · exact ⟨{ row with consumed := true }, by rw [Table.get?_map, hrow]; rfl, rfl⟩
  | cascadeFails =>
    obtain ⟨-, hs⟩ := ite_ok_else_error.mp hs
    cases hs
    exact hrefl rfl (hk.quiet (.of_eq rfl rfl le_rfl) rfl rfl)
  | request token startedAt clock => exact hk.request hG hs
  | beginCancel id token =>
    simp only [DeletionWorld.step] at hs
    split at hs
    · cases hs
    · next hnone =>
      cases hs
      refine hrefl rfl (hk.quiet ⟨fun _ row hrow => ⟨row, hrow, rfl, fun h => h⟩,
        fun _ row hrow => ⟨row, hrow, rfl⟩, fun id' c' hc' => ?_, le_rfl⟩ rfl rfl)
      rw [Table.get?_insert hnone] at hc'
      split at hc'
      · cases hc'
        exact .inl ⟨rfl, rfl⟩
      · exact .inr ⟨c', hc', rfl, rfl, .inl⟩
  | abandonCancel id =>
    cases hs
    exact hrefl rfl (hk.quiet (.of_filter (fun id' _ => id' ≠ id) (fun _ row hrow => ⟨row, hrow, rfl, fun h => h⟩)
      (fun _ row hrow => ⟨row, hrow, rfl⟩) rfl le_rfl) rfl rfl)
  | scan | dropCandidate =>
    obtain ⟨-, hs⟩ := ite_ok_else_error.mp hs
    cases hs
    exact hrefl rfl (hk.quiet (.of_eq rfl rfl le_rfl) rfl rfl)
  | anonymise =>
    obtain ⟨⟨-, hstatus⟩, hs⟩ := ite_ok_else_error.mp hs
    cases hs
    obtain ⟨token, t₀, ho, hdeadline⟩ := hk.open hstatus
    exact hk.settled (.of_eq rfl rfl le_rfl) (by simp) rfl (by simp [DeletionWorld.marks])
      (hk.orderly.concat ⟨token, t₀, ho, hG hstatus _ hdeadline⟩)
  | lockToken id =>
    simp only [DeletionWorld.step] at hs
    split at hs
    · next c hc =>
      simp only [DeletionWorld.advance] at hs
      split at hs
      · next row hphase hrow =>
        obtain ⟨-, hs⟩ := ite_error_eq_ok.mp hs
        obtain ⟨⟨-, hlt⟩, hs⟩ := ite_ok_else_error.mp hs
        cases hs
        exact hrefl rfl (hk.quiet (.of_set hc (.inr ⟨row, hrow, hlt⟩)) rfl rfl)
      · cases hs
    · cases hs
  | readUser id password =>
    simp only [DeletionWorld.step] at hs
    split at hs
    · next c hc =>
      simp only [DeletionWorld.advance] at hs
      split at hs
      · next hphase =>
        obtain ⟨-, hs⟩ := ite_ok_else_error.mp hs
        cases hs
        exact hrefl rfl (hk.quiet (.of_set hc (.inl (by simp [hphase]))) rfl rfl)
      · cases hs
    · cases hs
  | commitCancel id =>
    simp only [DeletionWorld.step] at hs
    split at hs
    · next c hc =>
      simp only [DeletionWorld.advance] at hs
      split at hs
      · next row hphase hrow =>
        obtain ⟨⟨hstatus, hunconsumed⟩, hs⟩ := ite_ok_else_error.mp hs
        cases hs
        have hmarks : w.marks (.commitCancel id) = [.cancelled c.token] := by
          simp only [DeletionWorld.marks, hc]
          rfl
        have ho := hk.isOpen_of_locked hstatus hc (by simp [hphase]) hrow hunconsumed
        rw [hmarks]
        refine hk.settled (.of_filter (fun id' _ => id' ≠ id) (fun token row' hrow' => ?_) (fun token row' hrow' => ?_) rfl le_rfl)
          (by simp) rfl (by simp) (hk.orderly.concat ho)
        · rw [Table.get?_set] at hrow'
          split at hrow'
          · next heq =>
            obtain ⟨_, -, rfl⟩ := Option.map_eq_some_iff.mp hrow'
            exact ⟨row, heq ▸ hrow, rfl, fun _ => rfl⟩
          · exact ⟨row', hrow', rfl, fun h => h⟩
        · by_cases heq : token = c.token
          · rw [heq, hrow] at hrow'
            cases hrow'
            exact ⟨{ row with consumed := true }, by rw [heq, Table.get?_set, if_pos rfl, hrow]; rfl, rfl⟩
          · exact ⟨row', by rw [Table.get?_set, if_neg heq, hrow'], rfl⟩
      · cases hs
    · cases hs

/-! ## What the marks tell -/

/-- The latest request has not been cancelled. -/
theorem not_cancelled_of_isOpen (ho : Orderly DeletionMark.Allowed h) (hopen : IsOpen h token t₀) :
    .cancelled token ∉ h := by
  obtain ⟨pre, rfl⟩ := hopen
  obtain ⟨hpre, hnew⟩ := ho.of_concat
  intro hm
  rcases List.mem_append.mp hm with hm | hm
  · obtain ⟨pre', post, rfl, t, q, rfl⟩ := hpre.exists_pre hm
    exact hnew t (by simp)
  · cases List.mem_singleton.mp hm

/-- What was allowed is allowed in the past of any mark. -/
theorem orderly_of_append {pre post : List DeletionMark} (ho : Orderly DeletionMark.Allowed (pre ++ post)) :
    Orderly DeletionMark.Allowed pre :=
  fun pre' m post' heq => ho pre' m (post' ++ post) (by rw [heq]; simp)

/-- A request that has been carried out is not cancelled later: its token would have to be issued again. -/
theorem not_cancelled_of_anonymised {pre post : List DeletionMark}
    (ho : Orderly DeletionMark.Allowed (pre ++ .anonymised t :: post)) (hopen : IsOpen pre token t₀) :
    .cancelled token ∉ post := by
  intro hm
  obtain ⟨a, b, rfl⟩ := List.append_of_mem hm
  have hsplit : pre ++ .anonymised t :: (a ++ .cancelled token :: b) =
      (pre ++ .anonymised t :: a) ++ .cancelled token :: b := by simp
  rw [hsplit] at ho
  obtain ⟨t₁, q, hq⟩ := ho _ _ _ rfl
  have hnew := (orderly_of_append ho)
  rw [hq] at hnew
  have hpre : q = pre ++ (DeletionMark.anonymised t :: a).dropLast := by
    rw [← List.dropLast_append_of_ne_nil (by simp), hq, List.dropLast_concat]
  obtain ⟨p, rfl⟩ := hopen
  exact hnew.of_concat.2 t₀ (by rw [hpre]; simp)

theorem DeletionWorld.Kept.graceKept (hk : w.Kept h) : GraceKept w h where
  deadline := by
    constructor
    · intro hsome
      by_contra hne
      rw [hk.deadline hne] at hsome
      cases hsome
    · intro hstatus
      obtain ⟨token, t₀, -, hdeadline⟩ := hk.open hstatus
      rw [hdeadline]
      rfl
  anonymised pre t post heq := hk.orderly pre (.anonymised t) post heq
  cancelled pre token post heq := hk.orderly pre (.cancelled token) post heq
  once pre token post heq := by
    obtain ⟨t₀, ho⟩ := hk.orderly pre (.cancelled token) post heq
    have horderly := hk.orderly
    rw [heq] at horderly
    exact not_cancelled_of_isOpen (orderly_of_append horderly) ho
  exclusive pre t post token t₀ heq ho := by
    have horderly := hk.orderly
    rw [heq] at horderly ⊢
    intro hm
    rcases List.mem_append.mp hm with hm | hm
    · exact not_cancelled_of_isOpen (orderly_of_append horderly) ho hm
    · rcases List.mem_cons.mp hm with hm | hm
      · cases hm
      · exact not_cancelled_of_anonymised horderly ho hm

theorem DeletionWorld.Initial.kept (h₀ : w.Initial) : w.Kept [] where
  deadline _ := h₀.deadline
  «open» heq := by rcases h₀.status with h | h <;> rw [h] at heq <;> cases heq
  issued _ _ hm := by cases hm
  spent heq := by rcases h₀.status with h | h <;> rw [h] at heq <;> cases heq
  locked id c hc := by
    rw [h₀.cancels] at hc
    cases hc
  orderly := orderly_nil

end Deletion

/-! ## Runs -/

section Runs

variable {w₀ : DeletionWorld} {as : List DeletionAction}

/-- The grace period is kept in every run in which the sweep finds the deadline of its candidate passed, and
in which no request is accepted while an earlier token can still be used. -/
theorem graceKept_of_run (h₀ : w₀.Initial) (hG : deletionSystem.Guarded InGrace w₀ as) :
    GraceKept (deletionSystem.run w₀ as) (deletionHistory w₀ as) :=
  (System.trace_invariant_of_guarded (S := deletionSystem) (fun _ _ _ _ hk hG hs => hk.step hG hs) h₀.kept
    hG).graceKept

/-- An active user. -/
def DeletionWorld.fresh : DeletionWorld := ⟨.active, none, .empty, .empty, 0, 0, 0⟩

theorem DeletionWorld.fresh_initial : DeletionWorld.fresh.Initial :=
  ⟨.inr rfl, rfl, rfl, rfl, rfl⟩

/-- A token is used. -/
def cancelling (token : Token) : List DeletionAction :=
  [.beginCancel 0 token, .lockToken 0, .readUser 0 true, .commitCancel 0]

/-- The first request is cancelled, the second one carried out when its time has come. -/
def secondRequest : List DeletionAction :=
  .request 1 0 0 :: cancelling 1 ++ [.request 2 0 0, .tick gracePeriod, .scan, .anonymise]

theorem graceKept_of_run_second :
    GraceKept (deletionSystem.run .fresh secondRequest) (deletionHistory .fresh secondRequest) := by
  refine graceKept_of_run DeletionWorld.fresh_initial ⟨fun token row hrow => ?_, trivial, trivial, trivial,
    trivial, fun token row hrow => ?_, trivial, trivial, fun _ deadline hdeadline => ?_, trivial⟩
  · cases hrow
  · have hmem := Table.get?_eq_some_iff.mp hrow
    change (token, row) ∈ [(1, (⟨cancelTtl, true⟩ : CancelToken))] at hmem
    cases List.mem_singleton.mp hmem
    exact .inl rfl
  · cases hdeadline
    exact le_rfl

/-- The sweep has found the user, who is suspended and restored and asks again: he is anonymised at once. -/
def staleCandidate : List DeletionAction :=
  [.request 1 0 0, .tick gracePeriod, .scan, .suspend, .cascade, .unsuspend,
    .request 2 gracePeriod gracePeriod, .anonymise]

/-- The cascade of the suspension has failed: the token of the first request cancels the second one. -/
def staleToken : List DeletionAction :=
  [.request 1 0 0, .suspend, .cascadeFails, .unsuspend, .request 2 0 0] ++ cancelling 1

theorem not_graceKept_of_stale :
    ¬ GraceKept (deletionSystem.run .fresh staleCandidate) (deletionHistory .fresh staleCandidate) ∧
    ¬ GraceKept (deletionSystem.run .fresh staleToken) (deletionHistory .fresh staleToken) := by
  refine ⟨fun h => ?_, fun h => ?_⟩
  · have hhistory : deletionHistory .fresh staleCandidate =
        [.requested 1 0, .suspended, .requested 2 gracePeriod] ++ .anonymised gracePeriod :: [] := rfl
    obtain ⟨token, t₀, ⟨pre, heq⟩, hle⟩ := h.anonymised _ _ _ hhistory
    have hlast := congrArg List.getLast? heq
    rw [List.getLast?_concat] at hlast
    cases hlast
    exact absurd hle (by decide)
  · have hhistory : deletionHistory .fresh staleToken =
        [.requested 1 0, .suspended, .requested 2 0] ++ .cancelled 1 :: [] := rfl
    obtain ⟨t₀, pre, heq⟩ := h.cancelled _ _ _ hhistory
    have hlast := congrArg List.getLast? heq
    rw [List.getLast?_concat] at hlast
    cases hlast

end Runs

end AgentCraft.Access
