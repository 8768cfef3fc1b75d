import AgentCraft.Access.Login

/-!
# The life of a login challenge

A challenge is looked up before the code is tested and destroyed afterwards, so what the store promises
is about the calls that come after: once a call has been accepted with a challenge, or five wrong codes
presented with it have been answered as such, it is gone, and a call that presents it afterwards is
turned away untested. A wrong code that the limiter answers with a 429 is not counted.
-/

namespace AgentCraft.Access

open AgentCraft.Relational AgentCraft.Transition

/-- What happens with a challenge: an operation presents it and finds it or not, tests a code with it,
counts a failure on it, or creates a session from it. -/
inductive ChallengeMark
  | presented (id : OpId) (t : Token) (found : Bool)
  | tested (id : OpId) (t : Token) (right : Bool)
  | counted (id : OpId) (t : Token)
  | session (id : OpId) (t : Token)
deriving DecidableEq, Repr

/-- The operation that the mark is about. -/
def ChallengeMark.op : ChallengeMark → OpId
  | .presented id _ _ | .tested id _ _ | .counted id _ | .session id _ => id

/-- A right, or a wrong, code has been tested with the challenge. -/
def ChallengeMark.tests (t : Token) (right : Bool) : ChallengeMark → Bool
  | .tested _ t' right' => t' = t && right' = right
  | _ => false

def ChallengeMark.counts (t : Token) : ChallengeMark → Bool
  | .counted _ t' => t' = t
  | _ => false

def ChallengeMark.starts (t : Token) : ChallengeMark → Bool
  | .session _ t' => t' = t
  | _ => false

/-- The marks that an operation in progress leaves with an action. -/
def Op.challengeMarks (P : Primitives) (w : Portal) (id : OpId) (op : Op) :
    PortalAction → List ChallengeMark
  | .test _ =>
    match op.kind, op.phase with
    | .loginMfa t _, .testing user row => (op.verdict? P w user row).toList.map (.tested id t)
    | _, _ => []
  | .resume _ =>
    match op.kind, op.phase with
    | .loginMfa t _, .refusing _ call =>
      if (w.limiter.calls.get? call).any (·.phase = .admitted) then [.counted id t] else []
    | _, _ => []
  | .finish _ =>
    match op.kind with
    | .loginMfa t _ => [.session id t]
    | _ => []
  | _ => []

/-- The marks of an action that takes effect. -/
def Portal.challengeMarks (P : Primitives) (w : Portal) (a : PortalAction) : List ChallengeMark :=
  match a with
  | .submit id _ (.loginMfa t _) => [.presented id t ((w.challenges.prune w.now).get? t).isSome]
  | a =>
    match a.op?.bind fun id => (w.ops.get? id).map fun op => (id, op) with
    | some (id, op) => op.challengeMarks P w id a
    | none => []

/-- At most one session comes from a challenge, and after five wrong codes no code is accepted. -/
def SingleUse (h : List ChallengeMark) : Prop :=
  ∀ t, h.countP (·.starts t) ≤ 1 ∧
    ∀ pre post, h = pre ++ post → maxAttempts ≤ pre.countP (·.tests t false) →
      post.countP (·.tests t true) = 0

/-- A code has been accepted with the challenge, or five failures have been counted on it. -/
def Spent (h : List ChallengeMark) (t : Token) : Prop :=
  h.countP (·.tests t true) ≠ 0 ∨ maxAttempts ≤ h.countP (·.counts t)

/-- What an operation that presents the challenge `t` does to the store, with the mark it leaves. -/
inductive ChallengeMove (id : OpId) (t : Token) (s : ChallengeStore) :
    OpPhase → OpPhase → ChallengeStore → List ChallengeMark → Prop
  | read (user row) : ChallengeMove id t s (.reading user) (.testing user row) s []
  | untested (user row reply) : ChallengeMove id t s (.testing user row) (.done reply) s []
  | right (user row) :
      ChallengeMove id t s (.testing user row) (.passed user row) (s.destroy t) [.tested id t true]
  | wrong (user row) : ChallengeMove id t s (.testing user row) (.refused user) s [.tested id t false]
  | refuse (user call) : ChallengeMove id t s (.refused user) (.refusing user call) s []
  | counted (user call reply) :
      ChallengeMove id t s (.refusing user call) (.done reply) (s.recordFailure t) [.counted id t]
  | uncounted (user call reply) : ChallengeMove id t s (.refusing user call) (.done reply) s []
  | session (user row reply) :
      ChallengeMove id t s (.passed user row) (.done reply) s [.session id t]

section Steps

variable {P : Primitives} {w w' : Portal} {a : PortalAction} {id : OpId} {op : Op} {user : UserId}
  {row : Option User}

/-- A login creates a challenge or a session. -/
theorem Portal.login_cases {email password : String} (h : w.login P email password = .ok w') :
    ∃ u, w' = w.createChallenge u ∨ w' = w.createSession u false := by
  unfold Portal.login at h
  split at h
  · cases h
  · next u row _ =>
    obtain ⟨-, h⟩ := ite_error_eq_ok.mp h
    obtain ⟨-, h⟩ := ite_error_eq_ok.mp h
    obtain ⟨-, h⟩ := ite_error_eq_ok.mp h
    obtain ⟨-, h⟩ := ite_error_eq_ok.mp h
    split at h <;> cases h
    · exact ⟨u, .inl rfl⟩
    · exact ⟨u, .inr rfl⟩

/-- The operation of an action that is neither a submission nor about no operation. -/
theorem Portal.advance_cases (hno : ∀ id user kind, a ≠ .submit id user kind)
    (h : (match a.op?.bind fun id => (w.ops.get? id).map fun op => (id, op) with
      | some (id, op) => w.advance P id op a
      | none => .error .notEnabled) = .ok w') :
    ∃ id op, a.op? = some id ∧ w.ops.get? id = some op ∧ w.advance P id op a = .ok w' ∧
      w.challengeMarks P a = op.challengeMarks P w id a := by
  split at h
  · next id op hop =>
    have hmarks : w.challengeMarks P a = op.challengeMarks P w id a := by
      unfold Portal.challengeMarks
      split
      · next id user t code => exact absurd rfl (hno id user (.loginMfa t code))
      · simp only [hop]
    obtain ⟨id, hid, hget⟩ := Option.bind_eq_some_iff.mp hop
    obtain ⟨op, hop, heq⟩ := Option.map_eq_some_iff.mp hget
    cases heq
    exact ⟨_, _, hid, hop, h, hmarks⟩
  · cases h

/-- A step moves no operation, begins one, or moves one on. -/
theorem Portal.step_cases (h : w.step P a = .ok w') :
    (w'.ops = w.ops ∧ w.challengeMarks P a = [] ∧
      (w'.challenges = w.challenges ∧ w'.nextToken = w.nextToken ∨ ∃ u, w' = w.createChallenge u)) ∨
    (∃ id user kind, a = .submit id user kind ∧ w.ops.get? id = none ∧ w' = w.submit id user kind) ∨
    ∃ id op, a.op? = some id ∧ w.ops.get? id = some op ∧ w.advance P id op a = .ok w' ∧
      w.challengeMarks P a = op.challengeMarks P w id a := by
  cases a with
  | limiter a =>
    simp only [Portal.step] at h
    obtain ⟨-, h⟩ := ite_error_eq_ok.mp h
    split at h <;> cases h
    exact .inl ⟨rfl, rfl, .inl ⟨rfl, rfl⟩⟩
  | setUser u row =>
    cases h
    exact .inl ⟨rfl, rfl, .inl ⟨rfl, rfl⟩⟩
  | login email password =>
    simp only [Portal.step] at h
    split at h <;> cases h
    next hlogin =>
    obtain ⟨u, rfl | rfl⟩ := Portal.login_cases hlogin
    · exact .inl ⟨rfl, rfl, .inr ⟨u, rfl⟩⟩
    · exact .inl ⟨rfl, rfl, .inl ⟨rfl, rfl⟩⟩
  | submit id user kind =>
    simp only [Portal.step] at h
    split at h <;> cases h
    next hnone => exact .inr (.inl ⟨id, user, kind, rfl, hnone, rfl⟩)
  | read id | test id | refuse id call | resume id | finish id =>
    exact .inr (.inr (Portal.advance_cases (by simp) h))

/-- A test finds the code right or wrong, or does not come to test it. -/
theorem Portal.test_cases (P : Primitives) (w : Portal) (id : OpId) (op : Op) (user : UserId)
    (row : Option User) :
    (op.verdict? P w user row = some true ∧ w.test P id op user row = w.accept id op user row) ∨
    (op.verdict? P w user row = some false ∧
      w.test P id op user row = w.setPhase id op (.refused user)) ∨
    (op.verdict? P w user row = none ∧ ∃ phase, w.test P id op user row = w.setPhase id op phase ∧
      ∀ t code, op.kind = .loginMfa t code → ∃ reply, phase = .done reply) := by
  unfold Portal.test Op.verdict?
  cases row.bind (·.mfaSecretEnc) with
  | none =>
    refine .inr (.inr ⟨rfl, ?_⟩)
    cases op.kind with
    | loginMfa t code => exact ⟨_, rfl, fun _ _ _ => ⟨_, rfl⟩⟩
    | verifyMfa sid code => exact ⟨_, rfl, fun _ _ _ => ⟨_, rfl⟩⟩
    | changePassword sid code current new => exact ⟨_, rfl, fun t' code' h => by cases h⟩
  | some envelope =>
    cases hcode : op.kind.code with
    | none =>
      refine .inr (.inr ⟨rfl, _, rfl, fun t code hkind => ?_⟩)
      rw [hkind] at hcode
      cases hcode
    | some code =>
      simp only [Option.bind_eq_bind, Option.bind_some]
      cases P.decryptText envelope user with
      | none => exact .inr (.inr ⟨rfl, _, rfl, fun _ _ _ => ⟨_, rfl⟩⟩)
      | some secret =>
        cases hverify : P.verifyTotp secret code w.now with
        | true => exact .inl ⟨by simp [hverify], by simp [hverify]⟩
        | false => exact .inr (.inl ⟨by simp [hverify], by simp [hverify]⟩)

/-- An operation that has ended does not move on. -/
theorem Portal.phase_ne_done_of_advance (h : w.advance P id op a = .ok w') (reply : Reply) :
    op.phase ≠ .done reply := by
  intro hdone
  obtain ⟨kind, phase⟩ := op
  cases hdone
  cases a <;> cases h

/-- The step of an operation, as far as challenges are concerned. -/
theorem Portal.advance_moves (hid : a.op? = some id) (h : w.advance P id op a = .ok w') :
    w'.nextToken = w.nextToken ∧ ∃ phase, w'.ops = w.ops.set id { op with phase := phase } ∧
      ((∃ t code, op.kind = .loginMfa t code ∧
          ChallengeMove id t w.challenges op.phase phase w'.challenges (op.challengeMarks P w id a)) ∨
        (∀ t code, op.kind ≠ .loginMfa t code) ∧ w'.challenges = w.challenges ∧
          op.challengeMarks P w id a = []) := by
  obtain ⟨kind, phase⟩ := op
  cases a with
  | limiter | setUser | login | submit => cases hid
  | read id' =>
    cases phase <;> cases h
    next user =>
    refine ⟨rfl, _, rfl, ?_⟩
    cases kind with
    | loginMfa t code => exact .inl ⟨t, code, rfl, .read ..⟩
    | verifyMfa | changePassword => exact .inr ⟨by simp, rfl, rfl⟩
  | test id' =>
    cases phase <;> cases h
    next user row =>
    cases kind with
    | loginMfa t code =>
      rcases Portal.test_cases P w id ⟨.loginMfa t code, .testing user row⟩ user row with ⟨hv, ht⟩ | ⟨hv, ht⟩ | ⟨hv, phase, ht, hdone⟩
      · rw [ht]
        refine ⟨rfl, _, rfl, .inl ⟨t, code, rfl, ?_⟩⟩
        simp only [Op.challengeMarks, hv]
        exact .right ..
      · rw [ht]
        refine ⟨rfl, _, rfl, .inl ⟨t, code, rfl, ?_⟩⟩
        simp only [Op.challengeMarks, hv]
        exact .wrong ..
      · rw [ht]
        obtain ⟨reply, rfl⟩ := hdone t code rfl
        refine ⟨rfl, _, rfl, .inl ⟨t, code, rfl, ?_⟩⟩
        simp only [Op.challengeMarks, hv]
        exact .untested ..
    | verifyMfa sid code =>
      rcases Portal.test_cases P w id ⟨.verifyMfa sid code, .testing user row⟩ user row with ⟨-, ht⟩ | ⟨-, ht⟩ | ⟨-, phase, ht, -⟩ <;>
      · rw [ht]
        exact ⟨rfl, _, rfl, .inr ⟨by simp, rfl, rfl⟩⟩
    | changePassword sid code current new =>
      rcases Portal.test_cases P w id ⟨.changePassword sid code current new, .testing user row⟩ user
        row with ⟨-, ht⟩ | ⟨-, ht⟩ | ⟨-, phase, ht, -⟩ <;>
      · rw [ht]
        exact ⟨rfl, _, rfl, .inr ⟨by simp, rfl, rfl⟩⟩
  | refuse id' call =>
    cases phase <;> simp only [Portal.advance] at h <;> try cases h
    next user =>
    split at h <;> cases h
    refine ⟨rfl, _, rfl, ?_⟩
    cases kind with
    | loginMfa t code => exact .inl ⟨t, code, rfl, .refuse ..⟩
    | verifyMfa | changePassword => exact .inr ⟨by simp, rfl, rfl⟩
  | resume id' =>
    cases phase <;> simp only [Portal.advance] at h <;> try cases h
    next user call =>
    split at h <;> cases h
    next hresume =>
    obtain ⟨c, hc, hresume⟩ := Option.bind_eq_some_iff.mp hresume
    cases kind with
    | loginMfa t code =>
      simp only [Op.challengeMarks, hc, Option.any_some]
      unfold Portal.resume at hresume
      split at hresume <;> cases hresume
      · next hphase =>
        rw [hphase]
        exact ⟨rfl, _, rfl, .inl ⟨t, code, rfl, .counted ..⟩⟩
      · next hphase =>
        rw [hphase]
        exact ⟨rfl, _, rfl, .inl ⟨t, code, rfl, .uncounted ..⟩⟩
      · next hphase =>
        rw [hphase]
        exact ⟨rfl, _, rfl, .inl ⟨t, code, rfl, .uncounted ..⟩⟩
    | verifyMfa | changePassword =>
      unfold Portal.resume at hresume
      split at hresume <;> cases hresume <;> exact ⟨rfl, _, rfl, .inr ⟨by simp, rfl, rfl⟩⟩
  | finish id' =>
    cases phase <;> cases h
    next user row =>
    cases kind with
    | loginMfa t code => exact ⟨rfl, _, rfl, .inl ⟨t, code, rfl, .session ..⟩⟩
    | verifyMfa sid code => exact ⟨rfl, _, rfl, .inr ⟨by simp, rfl, rfl⟩⟩
    | changePassword sid code current new =>
      unfold Portal.finish
      simp only
      split
      · exact ⟨rfl, _, rfl, .inr ⟨by simp, rfl, rfl⟩⟩
      · exact ⟨rfl, _, rfl, .inr ⟨by simp, rfl, rfl⟩⟩

end Steps

/-! ## The invariant -/

/-- What must have happened before: an operation presents one challenge, at its beginning, does not find
one that is spent, and leaves other marks only if it has found it. -/
def ChallengeMark.Allowed (pre : List ChallengeMark) : ChallengeMark → Prop
  | .presented id t found => (∀ m ∈ pre, m.op ≠ id) ∧ (Spent pre t → found = false)
  | .tested id t _ => .presented id t true ∈ pre
  | .counted id t => .presented id t true ∈ pre ∧ .tested id t false ∈ pre ∧ .counted id t ∉ pre
  | .session id t => .presented id t true ∈ pre

/-- What an operation in this phase has done with its challenge. -/
def OpPhase.Marked (h : List ChallengeMark) (id : OpId) (t : Token) : OpPhase → Prop
  | .done _ => True
  | .refused _ | .refusing .. =>
    .presented id t true ∈ h ∧ .counted id t ∉ h ∧ .tested id t false ∈ h
  | _ => .presented id t true ∈ h ∧ .counted id t ∉ h

/-- The operation has found the code right and is about to create its session. -/
def Op.isPassed (t : Token) (op : Op) : Bool :=
  match op.kind, op.phase with
  | .loginMfa t' _, .passed .. => t' = t
  | _, _ => false

/-- The store and the operations agree with the history. -/
structure Portal.Chronicled (w : Portal) (h : List ChallengeMark) : Prop where
  orderly : Orderly ChallengeMark.Allowed h
  entries : ∀ t e, w.challenges.get? t = some e → t < w.nextToken ∧
    e.attempts = h.countP (·.counts t) ∧ e.attempts < maxAttempts ∧ h.countP (·.tests t true) = 0
  issued : ∀ id t, .presented id t true ∈ h → t < w.nextToken
  marked : ∀ id op t code, w.ops.get? id = some op → op.kind = .loginMfa t code →
    op.phase.Marked h id t
  unseen : ∀ id, w.ops.get? id = none → ∀ m ∈ h, m.op ≠ id
  missed : ∀ id t, .presented id t false ∈ h →
    ∃ kind, w.ops.get? id = some ⟨kind, .done (.problem kind.mfaInvalid)⟩
  total : ∀ t, h.countP (·.starts t) + (w.ops.sum fun _ op => if op.isPassed t then 1 else 0) =
    h.countP (·.tests t true)

section Store

variable {s : ChallengeStore} {now : Time} {t t' : Token} {e : Challenge}

/-- Pruning takes entries away and leaves the others alone. -/
theorem ChallengeStore.get?_of_prune (h : (s.prune now).get? t = some e) : s.get? t = some e := by
  rw [ChallengeStore.prune, Table.get?_filter, Option.filter_eq_some_iff] at h
  exact h.1

theorem ChallengeStore.get?_of_destroy (h : (s.destroy t').get? t = some e) :
    s.get? t = some e ∧ t ≠ t' := by
  rw [ChallengeStore.destroy, Table.get?_filter, Option.filter_eq_some_iff] at h
  exact ⟨h.1, of_decide_eq_true h.2⟩

/-- A failure is counted on its entry, unless it is the last one that the entry allows. -/
theorem ChallengeStore.get?_of_recordFailure (h : (s.recordFailure t').get? t = some e) :
    ∃ e₀, s.get? t = some e₀ ∧
      (t ≠ t' ∧ e = e₀ ∨
        t = t' ∧ e = { e₀ with attempts := e₀.attempts + 1 } ∧ e₀.attempts + 1 < maxAttempts) := by
  unfold ChallengeStore.recordFailure at h
  split at h
  · next hnone =>
    refine ⟨e, h, .inl ⟨fun heq => ?_, rfl⟩⟩
    rw [heq, hnone] at h
    cases h
  · next e₀ hget =>
    split at h
    · obtain ⟨hs, hne⟩ := ChallengeStore.get?_of_destroy h
      exact ⟨e, hs, .inl ⟨hne, rfl⟩⟩
    · next hlt =>
      rw [Table.get?_set] at h
      split at h
      · next heq =>
        rw [heq, hget] at h
        cases h
        exact ⟨e₀, heq ▸ hget, .inr ⟨heq, rfl, Nat.not_le.mp hlt⟩⟩
      · next hne => exact ⟨e, h, .inl ⟨hne, rfl⟩⟩

end Store

/-- What other operations do does not concern an operation. -/
theorem OpPhase.Marked.append {phase : OpPhase} {h ms : List ChallengeMark} {id : OpId} {t : Token}
    (hm : phase.Marked h id t) (hne : ∀ m ∈ ms, m.op ≠ id) : phase.Marked (h ++ ms) id t := by
  have hcounted (hno : .counted id t ∉ h) : .counted id t ∉ h ++ ms := fun hmem =>
    (List.mem_append.mp hmem).elim hno fun hms => hne _ hms rfl
  cases phase with
  | done reply => trivial
  | refused user =>
    exact ⟨List.mem_append_left _ hm.1, hcounted hm.2.1, List.mem_append_left _ hm.2.2⟩
  | refusing user call =>
    exact ⟨List.mem_append_left _ hm.1, hcounted hm.2.1, List.mem_append_left _ hm.2.2⟩
  | reading user => exact ⟨List.mem_append_left _ hm.1, hcounted hm.2⟩
  | testing user row => exact ⟨List.mem_append_left _ hm.1, hcounted hm.2⟩
  | passed user row => exact ⟨List.mem_append_left _ hm.1, hcounted hm.2⟩

namespace Portal.Chronicled

variable {P : Primitives} {w w' : Portal} {a : PortalAction} {h : List ChallengeMark} {id : OpId}
  {op : Op} {t : Token}

/-- A spent challenge is not in the store. -/
theorem gone (hc : w.Chronicled h) (hs : Spent h t) : w.challenges.get? t = none := by
  cases hget : w.challenges.get? t with
  | none => rfl
  | some e =>
    obtain ⟨-, hattempts, hlt, hright⟩ := hc.entries t e hget
    rcases hs with hs | hs
    · exact absurd hright hs
    · omega

/-- Tokens that have not been issued have no history. -/
theorem unissued (hc : w.Chronicled h) (ht : w.nextToken ≤ t) :
    h.countP (·.counts t) = 0 ∧ h.countP (·.tests t true) = 0 := by
  have hno (id : OpId) : .presented id t true ∉ h := fun hm =>
    absurd (hc.issued id t hm) (Nat.not_lt.mpr ht)
  refine ⟨List.countP_eq_zero.mpr fun m hm hp => ?_, List.countP_eq_zero.mpr fun m hm hp => ?_⟩
  · obtain ⟨pre, post, rfl, hallowed⟩ := hc.orderly.exists_pre hm
    cases m with
    | counted id t' =>
      cases of_decide_eq_true hp
      exact hno id (List.mem_append_left _ hallowed.1)
    | _ => cases hp
  · obtain ⟨pre, post, rfl, hallowed⟩ := hc.orderly.exists_pre hm
    cases m with
    | tested id t' right =>
      simp only [ChallengeMark.tests, Bool.and_eq_true, decide_eq_true_eq] at hp
      cases hp.1
      exact hno id (List.mem_append_left _ hallowed)
    | _ => cases hp

/-- Nothing that the chronicle is about changes. -/
theorem of_eq (hc : w.Chronicled h) (hops : w'.ops = w.ops) (hstore : w'.challenges = w.challenges)
    (htoken : w'.nextToken = w.nextToken) : w'.Chronicled h where
  orderly := hc.orderly
  entries := by
    rw [hstore, htoken]
    exact hc.entries
  issued := by
    rw [htoken]
    exact hc.issued
  marked := by
    rw [hops]
    exact hc.marked
  unseen := by
    rw [hops]
    exact hc.unseen
  missed := by
    rw [hops]
    exact hc.missed
  total := by
    rw [hops]
    exact hc.total


theorem createChallenge (hc : w.Chronicled h) (u : UserId) : (w.createChallenge u).Chronicled h where
  orderly := hc.orderly
  entries t e he := by
    have hnone : (w.challenges.prune w.now).get? w.nextToken = none := by
      cases hget : (w.challenges.prune w.now).get? w.nextToken with
      | none => rfl
      | some e => exact absurd (hc.entries _ e (ChallengeStore.get?_of_prune hget)).1 (lt_irrefl _)
    simp only [Portal.createChallenge, Table.get?_insert hnone] at he ⊢
    split at he
    · next heq =>
      cases he
      obtain ⟨hcounts, hright⟩ := hc.unissued heq.ge
      exact ⟨heq ▸ Nat.lt_succ_self _, hcounts.symm, Nat.succ_pos 4, hright⟩
    · obtain ⟨hlt, hrest⟩ := hc.entries t e (ChallengeStore.get?_of_prune he)
      exact ⟨hlt.trans (Nat.lt_succ_self _), hrest⟩
  issued id t hm := (hc.issued id t hm).trans (Nat.lt_succ_self _)
  marked := hc.marked
  unseen := hc.unseen
  missed := hc.missed
  total := hc.total

/-- An operation begins, after a look into the store if it presents a challenge. -/
theorem insert (hc : w.Chronicled h) (hnone : w.ops.get? id = none)
    (hops : w'.ops = w.ops.insert id op) (htoken : w'.nextToken = w.nextToken)
    (hstore : ∀ t e, w'.challenges.get? t = some e → w.challenges.get? t = some e)
    (hpassed : ∀ t, op.isPassed t = false) {ms : List ChallengeMark}
    (hms : ms = [] ∧ (∀ t code, op.kind ≠ .loginMfa t code) ∨
      ∃ t code found, ms = [.presented id t found] ∧ op.kind = .loginMfa t code ∧
        (found = true → t < w.nextToken ∧ ¬ Spent h t) ∧
        (found = false → op.phase = .done (.problem op.kind.mfaInvalid)) ∧
        (found = true → ∃ u, op.phase = .reading u)) :
    w'.Chronicled (h ++ ms) := by
  have hfresh : ∀ m ∈ h, m.op ≠ id := hc.unseen id hnone
  have hmem (m : ChallengeMark) (hm : m ∈ ms) : ∃ t code found, m = .presented id t found ∧
      op.kind = .loginMfa t code ∧ (found = true → t < w.nextToken) ∧
      (found = false → op.phase = .done (.problem op.kind.mfaInvalid)) := by
    rcases hms with ⟨rfl, -⟩ | ⟨t, code, found, rfl, hkind, hlt, hdone, -⟩
    · cases hm
    · exact ⟨t, code, found, List.mem_singleton.mp hm, hkind, fun hf => (hlt hf).1, hdone⟩
  have hzero {p : ChallengeMark → Bool} (hp : ∀ t found, p (.presented id t found) = false) :
      (h ++ ms).countP p = h.countP p := by
    have hms : ms.countP p = 0 := List.countP_eq_zero.mpr fun m hm => by
      obtain ⟨t, _, found, rfl, -⟩ := hmem m hm
      simp [hp]
    rw [List.countP_append, hms, Nat.add_zero]
  refine ⟨?_, fun t e he => ?_, fun id' t hm => ?_, fun id' op' t code hop hkind => ?_,
    fun id' hop m hm => ?_, fun id' t hm => ?_, fun t => ?_⟩
  · rcases hms with ⟨rfl, -⟩ | ⟨t, code, found, rfl, -, hlt, -, -⟩
    · rw [List.append_nil]
      exact hc.orderly
    · refine hc.orderly.concat ⟨hfresh, fun hs => ?_⟩
      exact Bool.eq_false_iff.mpr fun hf => (hlt hf).2 hs
  · rw [hzero fun _ _ => rfl, hzero fun _ _ => rfl, htoken]
    exact hc.entries t e (hstore t e he)
  · rw [htoken]
    rcases List.mem_append.mp hm with hm | hm
    · exact hc.issued id' t hm
    · obtain ⟨t', _, found, heq, -, hlt, -⟩ := hmem _ hm
      cases heq
      exact hlt rfl
  · rw [hops, Table.get?_insert hnone] at hop
    split at hop
    · next heq =>
      cases hop
      subst heq
      rcases hms with ⟨-, hno⟩ | ⟨t', code', found, rfl, hkind', -, hdone, hreading⟩
      · exact absurd hkind (hno t code)
      · rw [hkind'] at hkind
        cases hkind
        cases found with
        | false =>
          rw [hdone rfl]
          trivial
        | true =>
          obtain ⟨u, hu⟩ := hreading rfl
          rw [hu]
          refine ⟨List.mem_append_right _ List.mem_cons_self, fun hm => ?_⟩
          rcases List.mem_append.mp hm with hm | hm
          · exact hfresh _ hm rfl
          · cases List.mem_singleton.mp hm
    · next hne =>
      refine (hc.marked id' op' t code hop hkind).append fun m hm => ?_
      obtain ⟨_, _, _, rfl, -⟩ := hmem m hm
      exact Ne.symm hne
  · rw [hops, Table.get?_insert hnone] at hop
    split at hop
    · cases hop
    · next hne =>
      rcases List.mem_append.mp hm with hm | hm
      · exact hc.unseen id' hop m hm
      · obtain ⟨_, _, _, rfl, -⟩ := hmem m hm
        exact Ne.symm hne
  · rw [hops, Table.get?_insert hnone]
    rcases List.mem_append.mp hm with hm | hm
    · obtain ⟨kind, hkind⟩ := hc.missed id' t hm
      have hne : id' ≠ id := hfresh _ hm
      exact ⟨kind, by rw [if_neg hne, hkind]⟩
    · obtain ⟨t', _, found, heq, -, -, hdone⟩ := hmem _ hm
      cases heq
      exact ⟨op.kind, by rw [if_pos rfl, ← hdone rfl]⟩
  · rw [hzero fun _ _ => rfl, hzero fun _ _ => rfl, hops, Table.sum_insert hnone, hpassed, ← hc.total t]
    simp

/-- A submission: the store is pruned, and the operation begins or has ended already. -/
theorem submit (hc : w.Chronicled h) (hnone : w.ops.get? id = none) (user : UserId) (kind : OpKind) :
    (w.submit id user kind).Chronicled (h ++ w.challengeMarks P (.submit id user kind)) := by
  cases kind with
  | loginMfa t code =>
    cases hget : (w.challenges.prune w.now).get? t with
    | none =>
      have hops : (w.submit id user (.loginMfa t code)).ops = w.ops.insert id
          ⟨.loginMfa t code, .done (.problem (OpKind.loginMfa t code).mfaInvalid)⟩ := by
        simp only [Portal.submit, hget]
      have hmarks : w.challengeMarks P (.submit id user (.loginMfa t code)) =
          [.presented id t false] := by
        simp only [Portal.challengeMarks, hget, Option.isSome_none]
      exact hc.insert hnone hops rfl (fun _ _ he => ChallengeStore.get?_of_prune he) (fun _ => rfl)
        (.inr ⟨t, code, false, hmarks, rfl, by simp, fun _ => rfl, by simp⟩)
    | some e =>
      have hops : (w.submit id user (.loginMfa t code)).ops = w.ops.insert id
          ⟨.loginMfa t code, .reading e.userId⟩ := by
        simp only [Portal.submit, hget]
      have hmarks : w.challengeMarks P (.submit id user (.loginMfa t code)) =
          [.presented id t true] := by
        simp only [Portal.challengeMarks, hget, Option.isSome_some]
      have hold := ChallengeStore.get?_of_prune hget
      refine hc.insert hnone hops rfl (fun _ _ he => ChallengeStore.get?_of_prune he) (fun _ => rfl)
        (.inr ⟨t, code, true, hmarks, rfl, fun _ => ⟨(hc.entries t e hold).1, fun hs => ?_⟩, by simp,
          fun _ => ⟨e.userId, rfl⟩⟩)
      rw [hc.gone hs] at hold
      cases hold
  | verifyMfa sid code =>
    have hops : (w.submit id user (.verifyMfa sid code)).ops =
        w.ops.insert id ⟨.verifyMfa sid code, .reading user⟩ := rfl
    exact hc.insert hnone hops rfl (fun _ _ he => he) (fun _ => rfl) (.inl ⟨rfl, by simp⟩)
  | changePassword sid code current new =>
    have hops : (w.submit id user (.changePassword sid code current new)).ops =
        w.ops.insert id ⟨.changePassword sid code current new, .testing user (w.users.get? user)⟩ := rfl
    exact hc.insert hnone hops rfl (fun _ _ he => he) (fun _ => rfl) (.inl ⟨rfl, by simp⟩)

/-- An operation in progress moves on, with at most one mark of its own. -/
theorem set (hc : w.Chronicled h) (hop : w.ops.get? id = some op) {phase : OpPhase}
    (hnotDone : ∀ reply, op.phase ≠ .done reply)
    (hops : w'.ops = w.ops.set id { op with phase := phase }) (htoken : w'.nextToken = w.nextToken)
    {ms : List ChallengeMark} (hown : ∀ m ∈ ms, m.op = id ∧ ∀ id t found, m ≠ .presented id t found)
    (horderly : Orderly ChallengeMark.Allowed (h ++ ms))
    (hentries : ∀ t e, w'.challenges.get? t = some e → t < w.nextToken ∧
      e.attempts = (h ++ ms).countP (·.counts t) ∧ e.attempts < maxAttempts ∧
        (h ++ ms).countP (·.tests t true) = 0)
    (hmarked : ∀ t code, op.kind = .loginMfa t code → phase.Marked (h ++ ms) id t)
    (htotal : ∀ t, ms.countP (·.starts t) +
        (if ({ op with phase := phase } : Op).isPassed t then 1 else 0) =
      ms.countP (·.tests t true) + if op.isPassed t then 1 else 0) :
    w'.Chronicled (h ++ ms) := by
  have hpresented {id' : OpId} {t : Token} {found : Bool} (hm : .presented id' t found ∈ h ++ ms) :
      .presented id' t found ∈ h :=
    (List.mem_append.mp hm).resolve_right fun hms => (hown _ hms).2 _ _ _ rfl
  refine ⟨horderly, by rw [htoken]; exact hentries, fun id' t hm => ?_,
    fun id' op' t code hop' hkind => ?_, fun id' hop' m hm => ?_, fun id' t hm => ?_, fun t => ?_⟩
  · rw [htoken]
    exact hc.issued id' t (hpresented hm)
  · rw [hops, Table.get?_set] at hop'
    split at hop'
    · next heq =>
      rw [heq, hop] at hop'
      cases hop'
      exact heq ▸ hmarked t code hkind
    · next hne =>
      exact (hc.marked id' op' t code hop' hkind).append fun m hm heq =>
        hne (heq.symm.trans (hown m hm).1)
  · rw [hops, Table.get?_set] at hop'
    split at hop'
    · next heq =>
      rw [heq, hop] at hop'
      cases hop'
    · next hne =>
      rcases List.mem_append.mp hm with hm | hm
      · exact hc.unseen id' hop' m hm
      · rw [(hown m hm).1]
        exact Ne.symm hne
  · obtain ⟨kind, hkind⟩ := hc.missed id' t (hpresented hm)
    refine ⟨kind, ?_⟩
    rw [hops, Table.get?_set, if_neg, hkind]
    rintro rfl
    rw [hop] at hkind
    cases hkind
    exact hnotDone _ rfl
  · have hsum := Table.sum_set hop { op with phase := phase } fun _ op =>
      if op.isPassed t then 1 else 0
    have hbefore := hc.total t
    have hstep := htotal t
    rw [hops, List.countP_append, List.countP_append]
    omega

/-- An operation moves on without a mark. -/
theorem silent (hc : w.Chronicled h) (hop : w.ops.get? id = some op) {phase : OpPhase}
    (hnotDone : ∀ reply, op.phase ≠ .done reply)
    (hops : w'.ops = w.ops.set id { op with phase := phase }) (htoken : w'.nextToken = w.nextToken)
    (hstore : w'.challenges = w.challenges)
    (hmarked : ∀ t code, op.kind = .loginMfa t code → phase.Marked h id t)
    (hpassed : ∀ t, ({ op with phase := phase } : Op).isPassed t = op.isPassed t) :
    w'.Chronicled h := by
  rw [← List.append_nil h]
  refine hc.set hop hnotDone hops htoken (fun m hm => ?_) ?_ ?_ ?_ fun t => ?_
  · cases hm
  · rw [List.append_nil]
    exact hc.orderly
  · rw [List.append_nil, hstore]
    exact hc.entries
  · rw [List.append_nil]
    exact hmarked
  · rw [hpassed]
    rfl

/-- An operation that presents a challenge moves on. -/
theorem move (hc : w.Chronicled h) (hop : w.ops.get? id = some op) {code : String}
    (hkind : op.kind = .loginMfa t code) {phase : OpPhase} {ms : List ChallengeMark}
    (hmove : ChallengeMove id t w.challenges op.phase phase w'.challenges ms)
    (hops : w'.ops = w.ops.set id { op with phase := phase }) (htoken : w'.nextToken = w.nextToken) :
    w'.Chronicled (h ++ ms) := by
  obtain ⟨kind, phase₀⟩ := op
  have hm := hc.marked id _ t code hop hkind
  simp only at hkind hmove hm
  subst hkind
  have hkind {t' : Token} {code' : String} (heq : OpKind.loginMfa t code = .loginMfa t' code') :
      t' = t := (OpKind.loginMfa.inj heq).1.symm
  generalize hstore : w'.challenges = s at hmove
  cases hmove with
  | read user row =>
    rw [List.append_nil]
    exact hc.silent hop (by simp) hops htoken hstore (fun t' code' heq => hkind heq ▸ hm) fun _ => rfl
  | untested user row reply =>
    rw [List.append_nil]
    exact hc.silent hop (by simp) hops htoken hstore (fun _ _ _ => trivial) fun _ => rfl
  | refuse user call =>
    rw [List.append_nil]
    exact hc.silent hop (by simp) hops htoken hstore (fun t' code' heq => hkind heq ▸ hm) fun _ => rfl
  | uncounted user call reply =>
    rw [List.append_nil]
    exact hc.silent hop (by simp) hops htoken hstore (fun _ _ _ => trivial) fun _ => rfl
  | right user row =>
    refine hc.set hop (by simp) hops htoken (by simp [ChallengeMark.op]) (hc.orderly.concat hm.1)
      (fun t' e he => ?_) (fun t' code' heq => ?_) fun t' => ?_
    · rw [hstore] at he
      obtain ⟨hget, hne⟩ := ChallengeStore.get?_of_destroy he
      simpa [ChallengeMark.counts, ChallengeMark.tests, hne.symm] using hc.entries t' e hget
    · cases hkind heq
      simpa [OpPhase.Marked] using hm
    · by_cases ht : t = t' <;>
        simp [ChallengeMark.starts, ChallengeMark.tests, Op.isPassed, ht]
  | wrong user row =>
    refine hc.set hop (by simp) hops htoken (by simp [ChallengeMark.op]) (hc.orderly.concat hm.1)
      (fun t' e he => ?_) (fun t' code' heq => ?_) fun t' => ?_
    · rw [hstore] at he
      simpa [ChallengeMark.counts, ChallengeMark.tests] using hc.entries t' e he
    · cases hkind heq
      simpa [OpPhase.Marked] using hm
    · simp [ChallengeMark.starts, ChallengeMark.tests, Op.isPassed]
  | counted user call reply =>
    refine hc.set hop (by simp) hops htoken (by simp [ChallengeMark.op])
      (hc.orderly.concat ⟨hm.1, hm.2.2, hm.2.1⟩) (fun t' e he => ?_) (fun _ _ _ => trivial) fun t' => ?_
    · rw [hstore] at he
      obtain ⟨e₀, hget, ⟨hne, rfl⟩ | ⟨rfl, rfl, hlt⟩⟩ := ChallengeStore.get?_of_recordFailure he
      · simpa [ChallengeMark.counts, ChallengeMark.tests, hne.symm] using hc.entries t' e hget
      · obtain ⟨htoken, hattempts, -, hright⟩ := hc.entries t' e₀ hget
        refine ⟨htoken, ?_, hlt, ?_⟩
        · simp [ChallengeMark.counts, hattempts]
        · simpa [ChallengeMark.tests] using hright
    · simp [ChallengeMark.starts, ChallengeMark.tests, Op.isPassed]
  | session user row reply =>
    refine hc.set hop (by simp) hops htoken (by simp [ChallengeMark.op]) (hc.orderly.concat hm.1)
      (fun t' e he => ?_) (fun _ _ _ => trivial) fun t' => ?_
    · rw [hstore] at he
      simpa [ChallengeMark.counts, ChallengeMark.tests] using hc.entries t' e he
    · by_cases ht : t = t' <;>
        simp [ChallengeMark.starts, ChallengeMark.tests, Op.isPassed, ht]

/-- A step keeps the chronicle. -/
theorem step (hc : w.Chronicled h) (hs : w.step P a = .ok w') :
    w'.Chronicled (h ++ w.challengeMarks P a) := by
  rcases Portal.step_cases hs with ⟨hops, hmarks, hsame⟩ | ⟨id, user, kind, rfl, hnone, rfl⟩ |
    ⟨id, op, hid, hop, hadv, hmarks⟩
  · rw [hmarks, List.append_nil]
    rcases hsame with ⟨hstore, htoken⟩ | ⟨u, rfl⟩
    · exact hc.of_eq hops hstore htoken
    · exact hc.createChallenge u
  · exact hc.submit hnone user kind
  · obtain ⟨htoken, phase, hops, ⟨t, code, hkind, hmove⟩ | ⟨hno, hstore, hnil⟩⟩ :=
      Portal.advance_moves hid hadv
    · rw [hmarks]
      exact hc.move hop hkind hmove hops htoken
    · rw [hmarks, hnil, List.append_nil]
      have hpassed (op : Op) (hno : ∀ t code, op.kind ≠ .loginMfa t code) (t : Token) :
          op.isPassed t = false := by
        unfold Op.isPassed
        split
        · next hk _ => exact absurd hk (hno _ _)
        · rfl
      refine hc.silent hop (fun reply hdone => ?_) hops htoken hstore
        (fun t code hk => absurd hk (hno t code)) fun t => ?_
      · exact Portal.phase_ne_done_of_advance hadv reply hdone
      · rw [hpassed op hno, hpassed { op with phase := phase } hno]

theorem initial (h₀ : w.Initial) : w.Chronicled [] where
  orderly := orderly_nil
  entries t e he := by
    rw [h₀.challenges] at he
    cases he
  issued _ _ hm := by cases hm
  marked id op t code hop := by
    rw [h₀.ops] at hop
    cases hop
  unseen _ _ _ hm := by cases hm
  missed _ _ hm := by cases hm
  total t := by
    rw [h₀.ops]
    rfl

end Portal.Chronicled

/-! ## Runs -/

section Runs

variable {P : Primitives} {w₀ : Portal} {as : List PortalAction}

/-- Primitives to run the model with: the code of a user is their secret. -/
def Primitives.plain : Primitives where
  hmacSubject domain x := domain ++ ":" ++ x
  hashtext s := s.length
  verifyPassword password hash := password = hash
  hashPassword password := password
  decryptText envelope _ := some envelope
  verifyTotp secret code _ := code = secret
  normalizeEmail email := email

/-- One user with a second factor and a session. -/
def Portal.small : Portal where
  limiter := ⟨[], .empty, 0⟩
  users := Table.empty.insert "u" ⟨"u@example.com", "password", .active, some "right"⟩
  sessions := Table.empty.insert 0 ⟨"u", none, false⟩
  challenges := .empty
  nextToken := 0
  nextSession := 1
  ops := .empty

theorem Portal.small_initial : Portal.small.Initial := ⟨⟨rfl, rfl⟩, rfl, rfl⟩

/-- An operation with a right code. -/
def rightCode (id : OpId) (kind : OpKind) : List PortalAction :=
  [.submit id "u" kind, .read id, .test id, .finish id]

/-- An operation with a wrong code whose failure the limiter records. -/
def wrongCode (id : OpId) (kind : OpKind) : List PortalAction :=
  [.submit id "u" kind, .read id, .test id, .refuse id id, .limiter (.lock id), .limiter (.count id),
    .limiter (.commit id), .resume id]

end Runs

end AgentCraft.Access
