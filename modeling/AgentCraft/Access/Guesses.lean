import AgentCraft.Access.Challenges
import AgentCraft.Access.Tally

/-!
# Guessing codes

Only a wrong code reaches the limiter: it counts the failures of the user, and its count decides
whether the code is answered as wrong or with a 429. A right code is accepted whatever has been counted,
so the limit bounds the failures that are recorded, not the codes that are tested.
-/

namespace AgentCraft.Access

open AgentCraft.Relational AgentCraft.Transition

/-- What happens with codes: one is tested, a call of the limiter is made for a wrong one, and the
limiter counts and records. -/
inductive GuessMark
  | tested (id : OpId) (scope : Scope) (user : UserId) (right : Bool) (time : Time)
  | asked (id : OpId) (call : CallId)
  | limiter (m : LimiterMark)
deriving DecidableEq, Repr

/-- The marks of an action that takes effect. -/
def Portal.guessMarks (P : Primitives) (w : Portal) : PortalAction → List GuessMark
  | .limiter a => (w.limiter.marks a).map .limiter
  | .test id =>
    match w.ops.get? id with
    | none => []
    | some op =>
      match op.phase with
      | .testing user row => (op.verdict? P w user row).toList.map fun right =>
          .tested id op.kind.scope user right w.now
      | _ => []
  | .refuse id call => [.asked id call]
  | _ => []

/-- What happens with codes along a run. -/
def guessHistory (P : Primitives) (w₀ : Portal) (as : List PortalAction) : List GuessMark :=
  (portal P).trace (Portal.guessMarks P) w₀ as

def GuessMark.limiter? : GuessMark → Option LimiterMark
  | .limiter m => some m
  | _ => none

/-- What the limiter has counted and recorded. -/
def limiterPart (h : List GuessMark) : List LimiterMark := h.filterMap (·.limiter?)

/-- The wrong codes of the user that have been recorded and are recent. -/
def recordedFailures (P : Primitives) (h : List GuessMark) (scope : Scope) (user : UserId)
    (now : Time) : ℕ :=
  (limiterPart h).countP fun
    | .recorded _ e => e.subjectHash = P.hmacSubject "user" user && e.isRecent scope now
    | .weighed _ _ => false

/-- The times at which codes of the user have been tested. -/
def testTimes (h : List GuessMark) (scope : Scope) (user : UserId) : Multiset Time :=
  h.filterMap fun
    | .tested _ scope' user' _ now => if scope' = scope ∧ user' = user then some now else none
    | _ => none

/-- No code is accepted once the limit is reached, and no window sees more codes tested. -/
def GuessesBounded (P : Primitives) (h : List GuessMark) : Prop :=
  (∀ pre id scope user now post, h = pre ++ .tested id scope user true now :: post →
    recordedFailures P pre scope user now < scope.limit) ∧
  ∀ scope user, Windowed scope.window scope.limit (testTimes h scope user)

/-- What becomes of a wrong code: it waits for the limiter, or the count of its own call has decided the
answer, which is the last word about it. -/
def Op.Weighed (P : Primitives) (w : Portal) (h : List GuessMark) (id : OpId) (op : Op)
    (user : UserId) : Prop :=
  match op.phase with
  | .refused user' => user' = user
  | .refusing user' call => user' = user ∧ .asked id call ∈ h ∧
      ∃ c, w.limiter.calls.get? call = some c ∧ c.enforce = failureCall P op.kind user
  | .done reply => ∃ call c, .asked id call ∈ h ∧ w.limiter.calls.get? call = some c ∧
      c.enforce = failureCall P op.kind user ∧
      ((∃ n, n < op.kind.scope.limit ∧ weighedBy (limiterPart h) call = [n] ∧
          reply = .problem op.kind.mfaInvalid ∧ recordedBy (limiterPart h) call =
            [⟨op.kind.scope, P.hmacSubject "user" user, c.startedAt⟩]) ∨
        (∃ n r, op.kind.scope.limit ≤ n ∧ weighedBy (limiterPart h) call = [n] ∧
          reply = .problem (tooManyRequests r) ∧ recordedBy (limiterPart h) call = []) ∨
        (reply = .problem internalError ∧ recordedBy (limiterPart h) call = []))
  | _ => False

/-- What becomes of a right code: the final transaction of its operation. -/
def Op.Accepted (op : Op) (user : UserId) : Prop :=
  match op.phase with
  | .passed user' _ => user' = user
  | .done (.problem p) => p = invalidCurrent
  | .done _ => True
  | _ => False

/-- Wrong codes are weighed, right ones are accepted. -/
structure GuessesWeighed (P : Primitives) (w : Portal) (h : List GuessMark) : Prop where
  wrong : ∀ id scope user now, .tested id scope user false now ∈ h →
    ∃ op, w.ops.get? id = some op ∧ op.kind.scope = scope ∧ op.Weighed P w h id user
  right : ∀ id scope user now, .tested id scope user true now ∈ h →
    ∃ op, w.ops.get? id = some op ∧ op.kind.scope = scope ∧ op.Accepted user
  /-- Every wrong code has a call of its own. -/
  own : ∀ id id' call, .asked id call ∈ h → .asked id' call ∈ h → id = id'
  /-- The table never holds more failures of a user in a window than the limit. -/
  windows : ∀ scope user, scope.isGuess = true →
    Windowed scope.window scope.limit (stamps w.limiter.events scope (P.hmacSubject "user" user))

/-! ## What a step does -/

/-- The answer that the end of the call gives. -/
def OpKind.answer? (kind : OpKind) : CallPhase → Option Reply
  | .admitted => some (.problem kind.mfaInvalid)
  | .rejected r => some (.problem (tooManyRequests r))
  | .lost => some (.problem internalError)
  | _ => none

/-- What an action does to the operation that it is about, and to the limiter. -/
inductive OpMove (P : Primitives) (w : Portal) (id : OpId) (op : Op) :
    OpPhase → Limiter → List GuessMark → Prop
  | read (user : UserId) (hphase : op.phase = .reading user) :
      OpMove P w id op (.testing user (w.users.get? user)) w.limiter []
  | right (user : UserId) (row : Option User) (hphase : op.phase = .testing user row) :
      OpMove P w id op (.passed user row) w.limiter [.tested id op.kind.scope user true w.now]
  | wrong (user : UserId) (row : Option User) (hphase : op.phase = .testing user row) :
      OpMove P w id op (.refused user) w.limiter [.tested id op.kind.scope user false w.now]
  | untested (user : UserId) (row : Option User) (phase : OpPhase)
      (hphase : op.phase = .testing user row) : OpMove P w id op phase w.limiter []
  | refuse (user : UserId) (call : CallId) (limiter : Limiter) (hphase : op.phase = .refused user)
      (hstep : w.limiter.step P.hashtext (.enter call (failureCall P op.kind user)) = .ok limiter) :
      OpMove P w id op (.refusing user call) limiter [.asked id call]
  | resume (user : UserId) (call : CallId) (c : Call) (reply : Reply)
      (hphase : op.phase = .refusing user call) (hc : w.limiter.calls.get? call = some c)
      (hanswer : op.kind.answer? c.phase = some reply) : OpMove P w id op (.done reply) w.limiter []
  | finish (user : UserId) (row : Option User) (reply : Reply) (hphase : op.phase = .passed user row)
      (hreply : Op.Accepted { op with phase := .done reply } user) :
      OpMove P w id op (.done reply) w.limiter []

section Steps

variable {P : Primitives} {w w' : Portal} {a : PortalAction} {id : OpId} {op : Op} {user : UserId}
  {h ms : List GuessMark}

/-- The answers of the limiter. -/
theorem Portal.resume_answer {phase : CallPhase} (hr : w.resume id op phase = some w') :
    ∃ reply, op.kind.answer? phase = some reply ∧
      w'.ops = w.ops.set id { op with phase := .done reply } ∧ w'.limiter = w.limiter := by
  cases phase with
  | admitted =>
    simp only [Portal.resume] at hr
    split at hr <;> cases hr <;> exact ⟨_, rfl, rfl, rfl⟩
  | rejected r =>
    cases hr
    exact ⟨_, rfl, rfl, rfl⟩
  | lost =>
    cases hr
    exact ⟨_, rfl, rfl, rfl⟩
  | waiting | locked | counted => cases hr

/-- The final transaction of an operation. -/
theorem Portal.finish_reply (P : Primitives) (w : Portal) (id : OpId) (op : Op) (user : UserId)
    (row : Option User) : ∃ reply, Op.Accepted { op with phase := .done reply } user ∧
      (w.finish P id op user row).ops = w.ops.set id { op with phase := .done reply } ∧
      (w.finish P id op user row).limiter = w.limiter := by
  unfold Portal.finish
  split
  · exact ⟨.session w.nextSession, trivial, rfl, rfl⟩
  · exact ⟨.ok, trivial, rfl, rfl⟩
  · split
    · exact ⟨.problem invalidCurrent, rfl, rfl, rfl⟩
    · exact ⟨.ok, trivial, rfl, rfl⟩

theorem Portal.advance_guess (hid : a.op? = some id) (hop : w.ops.get? id = some op)
    (hs : w.advance P id op a = .ok w') : ∃ phase,
      w'.ops = w.ops.set id { op with phase := phase } ∧
        OpMove P w id op phase w'.limiter (w.guessMarks P a) := by
  cases a with
  | limiter | setUser | login | submit => cases hid
  | read id' =>
    simp only [Portal.advance] at hs
    split at hs <;> cases hs
    next user hphase => exact ⟨_, rfl, .read user hphase⟩
  | test id' =>
    cases hid
    simp only [Portal.advance] at hs
    split at hs <;> cases hs
    next user row hphase =>
    have hmarks : w.guessMarks P (.test id) = (op.verdict? P w user row).toList.map fun right =>
        .tested id op.kind.scope user right w.now := by
      simp only [Portal.guessMarks, hop, hphase]
    rw [hmarks]
    rcases Portal.test_cases P w id op user row with ⟨hv, ht⟩ | ⟨hv, ht⟩ | ⟨hv, phase, ht, -⟩
    · rw [ht, hv]
      have hlimiter : (w.accept id op user row).limiter = w.limiter ∧
          (w.accept id op user row).ops = w.ops.set id { op with phase := .passed user row } := by
        unfold Portal.accept
        split <;> exact ⟨rfl, rfl⟩
      rw [hlimiter.1]
      exact ⟨_, hlimiter.2, .right user row hphase⟩
    · rw [ht, hv]
      exact ⟨_, rfl, .wrong user row hphase⟩
    · rw [ht, hv]
      exact ⟨_, rfl, .untested user row phase hphase⟩
  | refuse id' call =>
    cases hid
    simp only [Portal.advance] at hs
    split at hs
    · next user hphase =>
      split at hs <;> cases hs
      next limiter hstep => exact ⟨_, rfl, .refuse user call limiter hphase hstep⟩
    · cases hs
  | resume id' =>
    cases hid
    simp only [Portal.advance] at hs
    split at hs
    · next user call hphase =>
      split at hs <;> cases hs
      next hr =>
      obtain ⟨c, hc, hr⟩ := Option.bind_eq_some_iff.mp hr
      obtain ⟨reply, hanswer, hops, hlimiter⟩ := Portal.resume_answer hr
      rw [hlimiter]
      exact ⟨_, hops, .resume user call c reply hphase hc hanswer⟩
    · cases hs
  | finish id' =>
    cases hid
    simp only [Portal.advance] at hs
    split at hs <;> cases hs
    next user row hphase =>
    obtain ⟨reply, hreply, hops, hlimiter⟩ := Portal.finish_reply P w id op user row
    rw [hlimiter]
    exact ⟨_, hops, .finish user row reply hphase hreply⟩

/-- A step is one of the limiter, changes neither operations nor limiter, begins an operation, or moves
one on. -/
theorem Portal.step_guess (hs : w.step P a = .ok w') :
    (w'.ops = w.ops ∧ ((∃ b, a = .limiter b ∧ b.countsSeveral = false ∧
        w.limiter.step P.hashtext b = .ok w'.limiter) ∨
      w'.limiter = w.limiter ∧ w.guessMarks P a = [])) ∨
    (∃ id kind phase, w.ops.get? id = none ∧ w'.ops = w.ops.insert id ⟨kind, phase⟩ ∧
      w'.limiter = w.limiter ∧ w.guessMarks P a = []) ∨
    ∃ id op phase, w.ops.get? id = some op ∧ w'.ops = w.ops.set id { op with phase := phase } ∧
      OpMove P w id op phase w'.limiter (w.guessMarks P a) := by
  cases a with
  | limiter b =>
    simp only [Portal.step] at hs
    obtain ⟨hseveral, hs⟩ := ite_error_eq_ok.mp hs
    split at hs <;> cases hs
    next hstep => exact .inl ⟨rfl, .inl ⟨b, rfl, Bool.eq_false_iff.mpr hseveral, hstep⟩⟩
  | setUser u row =>
    cases hs
    exact .inl ⟨rfl, .inr ⟨rfl, rfl⟩⟩
  | login email password =>
    simp only [Portal.step] at hs
    split at hs <;> cases hs
    next hlogin =>
    obtain ⟨u, rfl | rfl⟩ := Portal.login_cases hlogin <;> exact .inl ⟨rfl, .inr ⟨rfl, rfl⟩⟩
  | submit id user kind =>
    simp only [Portal.step] at hs
    split at hs <;> cases hs
    next hnone =>
    refine .inr (.inl ⟨id, kind, ?_⟩)
    cases kind <;> exact ⟨_, hnone, rfl, rfl, rfl⟩
  | read id | test id | refuse id call | resume id | finish id =>
    obtain ⟨id, op, hid, hop, hadv, -⟩ := Portal.advance_cases (by simp) hs
    obtain ⟨phase, hops, hmove⟩ := Portal.advance_guess hid hop hadv
    exact .inr (.inr ⟨id, op, phase, hop, hops, hmove⟩)

end Steps

/-! ## The invariant -/

/-- A wrong code waits for the limiter, or has the answer of its call. -/
def Op.Held (P : Primitives) (w : Portal) (h : List GuessMark) (id : OpId) (op : Op)
    (user : UserId) : Prop :=
  match op.phase with
  | .refused user' => user' = user
  | .refusing user' call => user' = user ∧ .asked id call ∈ h ∧
      ∃ c, w.limiter.calls.get? call = some c ∧ c.enforce = failureCall P op.kind user
  | .done reply => ∃ call c, .asked id call ∈ h ∧ w.limiter.calls.get? call = some c ∧
      c.enforce = failureCall P op.kind user ∧ op.kind.answer? c.phase = some reply
  | _ => False

/-- No code of the operation has been tested yet. -/
def OpPhase.isEarly : OpPhase → Bool
  | .reading _ | .testing _ _ => true
  | _ => false

/-- The operations and the limiter agree with what has been observed. -/
structure Portal.Guessed (P : Primitives) (w : Portal) (h : List GuessMark) : Prop where
  tallied : w.limiter.Tallied (limiterPart h)
  serial : w.limiter.Serial P.hashtext Scope.isGuess
  tested : ∀ id scope user right now, .tested id scope user right now ∈ h →
    ∃ op, w.ops.get? id = some op ∧ op.phase.isEarly = false ∧ op.kind.scope = scope ∧
      (right = false → op.Held P w h id user) ∧ (right = true → op.Accepted user)
  asked : ∀ id call, .asked id call ∈ h → ∃ c, w.limiter.calls.get? call = some c
  own : ∀ id id' call, .asked id call ∈ h → .asked id' call ∈ h → id = id'

section Invariant

variable {P : Primitives} {w w' : Portal} {a : PortalAction} {id : OpId} {op : Op} {user : UserId}
  {h ms : List GuessMark}

@[simp]
theorem limiterPart_append (h ms : List GuessMark) :
    limiterPart (h ++ ms) = limiterPart h ++ limiterPart ms :=
  List.filterMap_append

theorem limiterPart_map (ms : List LimiterMark) : limiterPart (ms.map .limiter) = ms := by
  simp [limiterPart, GuessMark.limiter?]

/-- The calls that have begun go on, and those that have ended stay as they are. -/
def Limiter.Keeps (w w' : Limiter) : Prop :=
  ∀ call c, w.calls.get? call = some c → ∃ c', w'.calls.get? call = some c' ∧ c'.enforce = c.enforce ∧
    (c' = c ∨ c.phase.isUncounted = true ∨ c.phase = .counted)

theorem Limiter.Keeps.refl (w : Limiter) : w.Keeps w := fun _ c hc => ⟨c, hc, rfl, .inl rfl⟩

/-- What has become of a wrong code stays so. -/
theorem Op.Held.mono (hheld : op.Held P w h id user) (hkeep : w.limiter.Keeps w'.limiter)
    (ms : List GuessMark) : op.Held P w' (h ++ ms) id user := by
  unfold Op.Held at hheld ⊢
  split
  · next hphase =>
    rw [hphase] at hheld
    exact hheld
  · next hphase =>
    rw [hphase] at hheld
    obtain ⟨huser, hasked, c, hc, henforce⟩ := hheld
    obtain ⟨c', hc', henforce', -⟩ := hkeep _ c hc
    exact ⟨huser, List.mem_append_left _ hasked, c', hc', henforce'.trans henforce⟩
  · next hphase =>
    rw [hphase] at hheld
    obtain ⟨call, c, hasked, hc, henforce, hanswer⟩ := hheld
    obtain ⟨c', hc', henforce', rfl | hopen⟩ := hkeep _ c hc
    · exact ⟨call, c', List.mem_append_left _ hasked, hc', henforce, hanswer⟩
    · -- a call that is still open has not answered
      exfalso
      cases hp : c.phase <;> simp [hp, OpKind.answer?, CallPhase.isUncounted] at hopen hanswer
  · next hphase₁ hphase₂ hphase₃ =>
    split at hheld
    · next heq => exact hphase₁ _ heq
    · next heq => exact hphase₂ _ _ heq
    · next heq => exact hphase₃ _ heq
    · exact hheld

theorem Limiter.Keeps.of_step {hashtext : String → ℤ} {w w' : Limiter} {b : LimiterAction}
    (hs : w.step hashtext b = .ok w') : w.Keeps w' := fun _ _ hc => Limiter.step_enforce hs hc

namespace Portal.Guessed

/-- The limiter moves on by itself. -/
theorem limiter (hi : w.Guessed P h) {b : LimiterAction} (hseveral : b.countsSeveral = false)
    (hs : w.limiter.step P.hashtext b = .ok w'.limiter) (hops : w'.ops = w.ops) :
    w'.Guessed P (h ++ (w.limiter.marks b).map .limiter) := by
  have hkeep := Limiter.Keeps.of_step hs
  have hasked {id : OpId} {call : CallId}
      (hm : .asked id call ∈ h ++ (w.limiter.marks b).map GuessMark.limiter) : .asked id call ∈ h := by
    rcases List.mem_append.mp hm with hm | hm
    · exact hm
    · obtain ⟨_, -, heq⟩ := List.mem_map.mp hm
      cases heq
  refine ⟨?_, hi.serial.step (fun id e hb hp => ?_) hs, fun id scope user right now hm => ?_,
    fun id call hm => ?_, fun id id' call hm hm' => hi.own id id' call (hasked hm) (hasked hm')⟩
  · rw [limiterPart_append, limiterPart_map]
    exact hi.tallied.step hs
  · subst hb
    have hle : e.subjects.length ≤ 1 := by simpa [LimiterAction.countsSeveral, hp] using hseveral
    have hne : e.subjects ≠ [] := (ite_error_eq_ok.mp hs).1
    obtain ⟨x, xs, hx⟩ := List.exists_cons_of_ne_nil hne
    rw [hx, List.length_cons] at hle
    exact ⟨x, by rw [hx, List.eq_nil_of_length_eq_zero (Nat.le_zero.mp (Nat.le_of_succ_le_succ hle))]⟩
  · rcases List.mem_append.mp hm with hm | hm
    · obtain ⟨op, hop, hearly, hscope, hwrong, hright⟩ := hi.tested id scope user right now hm
      rw [hops]
      exact ⟨op, hop, hearly, hscope, fun hf => (hwrong hf).mono hkeep _, hright⟩
    · obtain ⟨_, -, heq⟩ := List.mem_map.mp hm
      cases heq
  · obtain ⟨c, hc⟩ := hi.asked id call (hasked hm)
    obtain ⟨c', hc', -⟩ := hkeep call c hc
    exact ⟨c', hc'⟩

/-- An operation begins, or nothing happens to operations and limiter. -/
theorem of_ops (hi : w.Guessed P h) (hlimiter : w'.limiter = w.limiter)
    (hops : ∀ id op, w.ops.get? id = some op → w'.ops.get? id = some op) : w'.Guessed P h := by
  refine ⟨by rw [hlimiter]; exact hi.tallied, by rw [hlimiter]; exact hi.serial,
    fun id scope user right now hm => ?_, by rw [hlimiter]; exact hi.asked, hi.own⟩
  obtain ⟨op, hop, hearly, hscope, hwrong, hright⟩ := hi.tested id scope user right now hm
  refine ⟨op, hops id op hop, hearly, hscope, fun hf => ?_, hright⟩
  rw [← List.append_nil h]
  exact (hwrong hf).mono (by rw [hlimiter]; exact Limiter.Keeps.refl _) []

/-- An operation moves on, with marks of its own: what is to show is what has become of its code. -/
theorem set (hi : w.Guessed P h) (hop : w.ops.get? id = some op) {phase : OpPhase}
    (hops : w'.ops = w.ops.set id { op with phase := phase })
    (htallied : w'.limiter.Tallied (limiterPart h)) (hserial : w'.limiter.Serial P.hashtext Scope.isGuess)
    (hkeep : w.limiter.Keeps w'.limiter) (hpart : limiterPart ms = [])
    (hms : ∀ id' scope user right now, .tested id' scope user right now ∈ ms → id' = id)
    (hasked : ∀ id' call, .asked id' call ∈ ms → id' = id ∧ w.limiter.calls.get? call = none ∧
      ∃ c, w'.limiter.calls.get? call = some c)
    (hself : ∀ scope user right now, .tested id scope user right now ∈ h ++ ms →
      phase.isEarly = false ∧ op.kind.scope = scope ∧
        (right = false → Op.Held P w' (h ++ ms) id { op with phase := phase } user) ∧
        (right = true → Op.Accepted { op with phase := phase } user)) :
    w'.Guessed P (h ++ ms) := by
  refine ⟨by rw [limiterPart_append, hpart, List.append_nil]; exact htallied, hserial,
    fun id' scope user right now hm => ?_, fun id' call hm => ?_, fun id₁ id₂ call h₁ h₂ => ?_⟩
  · by_cases heq : id' = id
    · rw [heq] at hm ⊢
      exact ⟨_, by rw [hops, Table.get?_set_self hop], hself scope user right now hm⟩
    · have hold := (List.mem_append.mp hm).resolve_right fun hm => heq (hms _ _ _ _ _ hm)
      obtain ⟨op', hop', hearly, hscope, hwrong, hright⟩ := hi.tested id' scope user right now hold
      exact ⟨op', by rw [hops, Table.get?_set_ne _ heq, hop'], hearly, hscope,
        fun hf => (hwrong hf).mono hkeep ms, hright⟩
  · rcases List.mem_append.mp hm with hm | hm
    · obtain ⟨c, hc⟩ := hi.asked id' call hm
      obtain ⟨c', hc', -⟩ := hkeep call c hc
      exact ⟨c', hc'⟩
    · exact (hasked id' call hm).2.2
  · -- a call that has been asked for is there, so nobody asks for it again
    have hnew {id₁ id₂ : OpId} (hm₁ : .asked id₁ call ∈ h) (hm₂ : .asked id₂ call ∈ ms) : False := by
      obtain ⟨c, hc⟩ := hi.asked id₁ call hm₁
      rw [(hasked id₂ call hm₂).2.1] at hc
      cases hc
    rcases List.mem_append.mp h₁ with h₁ | h₁
    · rcases List.mem_append.mp h₂ with h₂ | h₂
      · exact hi.own id₁ id₂ call h₁ h₂
      · exact (hnew h₁ h₂).elim
    · rcases List.mem_append.mp h₂ with h₂ | h₂
      · exact (hnew h₂ h₁).elim
      · rw [(hasked id₁ call h₁).1, (hasked id₂ call h₂).1]

/-- An operation moves on without the limiter. -/
theorem setAlone (hi : w.Guessed P h) (hop : w.ops.get? id = some op) {phase : OpPhase}
    (hops : w'.ops = w.ops.set id { op with phase := phase }) (hlimiter : w'.limiter = w.limiter)
    (hms : ∀ m ∈ ms, ∃ scope user right now, m = .tested id scope user right now)
    (hself : ∀ scope user right now, .tested id scope user right now ∈ h ++ ms →
      phase.isEarly = false ∧ op.kind.scope = scope ∧
        (right = false → Op.Held P w' (h ++ ms) id { op with phase := phase } user) ∧
        (right = true → Op.Accepted { op with phase := phase } user)) :
    w'.Guessed P (h ++ ms) := by
  refine hi.set hop hops (by rw [hlimiter]; exact hi.tallied) (by rw [hlimiter]; exact hi.serial)
    (by rw [hlimiter]; exact Limiter.Keeps.refl _) ?_ (fun id' scope user right now hm => ?_)
    (fun id' call hm => ?_) hself
  · rw [limiterPart, List.filterMap_eq_nil_iff]
    intro m hm
    obtain ⟨_, _, _, _, rfl⟩ := hms m hm
    rfl
  · obtain ⟨_, _, _, _, heq⟩ := hms _ hm
    cases heq
    rfl
  · obtain ⟨_, _, _, _, heq⟩ := hms _ hm
    cases heq

/-- No code of an early operation has been tested. -/
theorem not_tested (hi : w.Guessed P h) (hop : w.ops.get? id = some op)
    (hearly : op.phase.isEarly = true) {scope : Scope} {right : Bool} {now : Time}
    (hm : .tested id scope user right now ∈ h) : False := by
  obtain ⟨op', hop', hearly', -⟩ := hi.tested id scope user right now hm
  rw [hop] at hop'
  cases hop'
  rw [hearly] at hearly'
  cases hearly'

/-- An operation moves on. -/
theorem move (hi : w.Guessed P h) (hop : w.ops.get? id = some op) {phase : OpPhase}
    (hops : w'.ops = w.ops.set id { op with phase := phase })
    (hm : OpMove P w id op phase w'.limiter ms) : w'.Guessed P (h ++ ms) := by
  -- what has become of the code of an operation that has one
  have hcode {scope : Scope} {user : UserId} {right : Bool} {now : Time}
      (hm : .tested id scope user right now ∈ h) : op.kind.scope = scope ∧
        (right = false → op.Held P w h id user) ∧ (right = true → op.Accepted user) := by
    obtain ⟨op', hop', -, hrest⟩ := hi.tested id scope user right now hm
    rw [hop] at hop'
    cases hop'
    exact hrest
  generalize hlimiter : w'.limiter = l at hm
  cases hm with
  | read user hphase =>
    refine hi.setAlone hop hops hlimiter (by simp) fun scope user right now hm => ?_
    rw [List.append_nil] at hm
    exact (hi.not_tested hop (by rw [hphase]; rfl) hm).elim
  | right user row hphase =>
    refine hi.setAlone hop hops hlimiter (by simp) fun scope user' right now hm => ?_
    rcases List.mem_append.mp hm with hm | hm
    · exact (hi.not_tested hop (by rw [hphase]; rfl) hm).elim
    · cases List.mem_singleton.mp hm
      exact ⟨rfl, rfl, by simp, fun _ => rfl⟩
  | wrong user row hphase =>
    refine hi.setAlone hop hops hlimiter (by simp) fun scope user' right now hm => ?_
    rcases List.mem_append.mp hm with hm | hm
    · exact (hi.not_tested hop (by rw [hphase]; rfl) hm).elim
    · cases List.mem_singleton.mp hm
      exact ⟨rfl, rfl, fun _ => rfl, by simp⟩
  | untested user row phase hphase =>
    refine hi.setAlone hop hops hlimiter (by simp) fun scope user right now hm => ?_
    rw [List.append_nil] at hm
    exact (hi.not_tested hop (by rw [hphase]; rfl) hm).elim
  | refuse user call limiter hphase hstep =>
    have hnone : w.limiter.calls.get? call = none := by
      cases Limiter.step_move hstep with
      | enter _ _ hnone => exact hnone
    have hget : w'.limiter.calls.get? call =
        some ⟨failureCall P op.kind user, w.limiter.now, .waiting⟩ := by
      rw [hlimiter]
      cases Limiter.step_move hstep with
      | enter _ _ hnone => rw [Table.get?_insert hnone, if_pos rfl]
    have htallied := hi.tallied.step hstep
    rw [show w.limiter.marks (.enter call (failureCall P op.kind user)) = [] from rfl,
      List.append_nil, ← hlimiter] at htallied
    have hserial : w'.limiter.Serial P.hashtext Scope.isGuess := by
      rw [hlimiter]
      refine hi.serial.step (fun id e he _ => ?_) hstep
      cases he
      exact ⟨_, rfl⟩
    refine hi.set hop hops htallied hserial (by rw [hlimiter]; exact Limiter.Keeps.of_step hstep) rfl
      (by simp) (fun id' call' hm => ?_) fun scope user' right now hm => ?_
    · cases List.mem_singleton.mp hm
      exact ⟨rfl, hnone, _, hget⟩
    · have hold : .tested id scope user' right now ∈ h := by simpa using hm
      obtain ⟨hscope, hwrong, hright⟩ := hcode hold
      refine ⟨rfl, hscope, fun hf => ?_, fun ht => ?_⟩
      · have hheld := hwrong hf
        simp only [Op.Held, hphase] at hheld
        subst hheld
        exact ⟨rfl, List.mem_append_right _ List.mem_cons_self, _, hget, rfl⟩
      · have hacc := hright ht
        simp only [Op.Accepted, hphase] at hacc
  | resume user call c reply hphase hc hanswer =>
    refine hi.setAlone hop hops hlimiter (by simp) fun scope user' right now hm => ?_
    rw [List.append_nil] at hm
    obtain ⟨hscope, hwrong, hright⟩ := hcode hm
    refine ⟨rfl, hscope, fun hf => ?_, fun ht => ?_⟩
    · have hheld := hwrong hf
      simp only [Op.Held, hphase] at hheld
      obtain ⟨rfl, hasked, c', hc', henforce⟩ := hheld
      rw [hc] at hc'
      cases hc'
      exact ⟨call, c, List.mem_append_left _ hasked, by rw [hlimiter, hc], henforce, hanswer⟩
    · have hacc := hright ht
      simp only [Op.Accepted, hphase] at hacc
  | finish user row reply hphase hreply =>
    refine hi.setAlone hop hops hlimiter (by simp) fun scope user' right now hm => ?_
    rw [List.append_nil] at hm
    obtain ⟨hscope, hwrong, hright⟩ := hcode hm
    refine ⟨rfl, hscope, fun hf => ?_, fun ht => ?_⟩
    · have hheld := hwrong hf
      simp only [Op.Held, hphase] at hheld
    · have hacc := hright ht
      simp only [Op.Accepted, hphase] at hacc
      exact hacc ▸ hreply

theorem step (hi : w.Guessed P h) (hs : w.step P a = .ok w') :
    w'.Guessed P (h ++ w.guessMarks P a) := by
  rcases Portal.step_guess hs with ⟨hops, ⟨b, rfl, hseveral, hstep⟩ | ⟨hlimiter, hmarks⟩⟩ |
    ⟨id, kind, phase, hnone, hops, hlimiter, hmarks⟩ | ⟨id, op, phase, hop, hops, hmove⟩
  · exact hi.limiter hseveral hstep hops
  · rw [hmarks, List.append_nil]
    exact hi.of_ops hlimiter fun id op hop => by rw [hops, hop]
  · rw [hmarks, List.append_nil]
    refine hi.of_ops hlimiter fun id' op hop => ?_
    rw [hops, Table.get?_insert hnone, if_neg, hop]
    rintro rfl
    rw [hnone] at hop
    cases hop
  · exact hi.move hop hops hmove

theorem initial (h₀ : w.Initial) : w.Guessed P [] where
  tallied := h₀.limiter.tallied
  serial := h₀.limiter.serial
  tested _ _ _ _ _ hm := by cases hm
  asked _ _ hm := by cases hm
  own _ _ _ hm := by cases hm

/-- The answer to a wrong code is the one that its count has decided. -/
theorem weighed (hi : w.Guessed P h) (hheld : op.Held P w h id user) : op.Weighed P w h id user := by
  unfold Op.Held at hheld
  unfold Op.Weighed
  split at hheld
  · exact hheld
  · exact hheld
  · obtain ⟨call, c, hasked, hc, henforce, hanswer⟩ := hheld
    refine ⟨call, c, hasked, hc, henforce, ?_⟩
    have htally := hi.tallied.calls call c hc
    have hscope : c.enforce.scope = op.kind.scope := by rw [henforce, failureCall]
    have hrows : c.rows = [⟨op.kind.scope, P.hmacSubject "user" user, c.startedAt⟩] := by
      rw [Call.rows, henforce, failureCall]
      rfl
    unfold Call.Tally at htally
    cases hp : c.phase with
    | admitted =>
      simp only [hp, hscope] at htally
      obtain ⟨⟨n, hlt, hweights⟩, hevents⟩ := htally
      rw [hp] at hanswer
      cases hanswer
      exact .inl ⟨n, hlt, hweights, rfl, by rw [hevents, hrows]⟩
    | rejected r =>
      simp only [hp, hscope] at htally
      obtain ⟨⟨n, hle, hweights⟩, hevents⟩ := htally
      rw [hp] at hanswer
      cases hanswer
      exact .inr (.inl ⟨n, r, hle, hweights, rfl, hevents⟩)
    | lost =>
      simp only [hp] at htally
      rw [hp] at hanswer
      cases hanswer
      exact .inr (.inr ⟨rfl, htally⟩)
    | waiting | locked | counted =>
      rw [hp] at hanswer
      cases hanswer
  · exact hheld.elim

theorem guessesWeighed (hi : w.Guessed P h) : GuessesWeighed P w h where
  wrong id scope user now hm := by
    obtain ⟨op, hop, -, hscope, hwrong, -⟩ := hi.tested id scope user false now hm
    exact ⟨op, hop, hscope, hi.weighed (hwrong rfl)⟩
  right id scope user now hm := by
    obtain ⟨op, hop, -, hscope, -, hright⟩ := hi.tested id scope user true now hm
    exact ⟨op, hop, hscope, hright rfl⟩
  own := hi.own
  windows scope user hguess := hi.serial.windows scope hguess _

end Portal.Guessed

end Invariant

/-! ## Runs -/

section Runs

variable {P : Primitives} {w₀ : Portal} {as : List PortalAction}

/-- In every run wrong codes are weighed and right ones accepted. -/
theorem guessesWeighed_of_run (h₀ : w₀.Initial) :
    GuessesWeighed P ((portal P).run w₀ as) (guessHistory P w₀ as) :=
  (System.trace_invariant (S := portal P) (fun _ _ _ _ hi hs => hi.step hs)
    (Portal.Guessed.initial h₀) as).guessesWeighed

/-- Six wrong codes: the sixth is answered with a 429. -/
theorem guessesWeighed_of_run_six : GuessesWeighed .plain
    ((portal .plain).run .small ((List.range 6).flatMap fun id =>
      wrongCode id (.changePassword 0 (some "wrong") "password" "new")))
    (guessHistory .plain .small ((List.range 6).flatMap fun id =>
      wrongCode id (.changePassword 0 (some "wrong") "password" "new"))) :=
  guessesWeighed_of_run Portal.small_initial

/-- Five wrong codes and then the right one. -/
def sixthRight : List PortalAction :=
  (List.range 5).flatMap (fun id =>
    wrongCode id (.changePassword 0 (some "wrong") "password" "new")) ++
    rightCode 5 (.changePassword 0 (some "right") "password" "new")

/-- Five failures are recorded when the right code comes, and it is accepted. -/
theorem not_guessesBounded_of_right : ¬ GuessesBounded .plain (guessHistory .plain .small sixthRight) := by
  intro h
  have hlt := h.1 ((guessHistory .plain .small sixthRight).take 20) 5 .passwordChangeTotp "u" 0 []
    (by decide +kernel)
  exact absurd hlt (by decide +kernel)

end Runs

end AgentCraft.Access
