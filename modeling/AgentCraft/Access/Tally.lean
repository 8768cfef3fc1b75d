import AgentCraft.Access.RateSound

/-!
# One count for each call

A call of the limiter is counted once, and its count decides whether its events are recorded. Calls of
one subject have the same lock key, so they count one after the other; where every call has one subject,
the table never holds more events of a subject in a window than the limit.
-/

namespace AgentCraft.Access

open AgentCraft.Relational AgentCraft.Transition

/-- What happens to a call: it finds a number of recent events, and an event is recorded for it. -/
inductive LimiterMark
  | weighed (id : CallId) (n : ℕ)
  | recorded (id : CallId) (e : RateLimitEvent)
deriving DecidableEq, Repr

def LimiterMark.call : LimiterMark → CallId
  | .weighed id _ | .recorded id _ => id

def LimiterMark.weight? (id : CallId) : LimiterMark → Option ℕ
  | .weighed id' n => if id' = id then some n else none
  | .recorded _ _ => none

def LimiterMark.event? (id : CallId) : LimiterMark → Option RateLimitEvent
  | .weighed _ _ => none
  | .recorded id' e => if id' = id then some e else none

/-- The number of events that the call finds. -/
def Limiter.weight (w : Limiter) (c : Call) : ℕ :=
  (eventCount w.events c.enforce.scope c.startedAt c.enforce.subjects).1

/-- The marks of a step that takes effect. -/
def Limiter.marks (w : Limiter) : LimiterAction → List LimiterMark
  | .count id =>
    match w.calls.get? id with
    | none => []
    | some c => [.weighed id (w.weight c)]
  | .commit id =>
    match w.calls.get? id with
    | none => []
    | some c => c.rows.map (.recorded id)
  | _ => []

/-- The counts of the call. -/
def weighedBy (h : List LimiterMark) (id : CallId) : List ℕ := h.filterMap (·.weight? id)

/-- The events that have been recorded for the call. -/
def recordedBy (h : List LimiterMark) (id : CallId) : List RateLimitEvent := h.filterMap (·.event? id)

/-- What has been counted and recorded for a call, by how far it has come. -/
def Call.Tally (c : Call) (weights : List ℕ) (events : List RateLimitEvent) : Prop :=
  match c.phase with
  | .waiting | .locked => weights = [] ∧ events = []
  | .counted => (∃ n, n < c.enforce.scope.limit ∧ weights = [n]) ∧ events = []
  | .admitted => (∃ n, n < c.enforce.scope.limit ∧ weights = [n]) ∧ events = c.rows
  | .rejected _ => (∃ n, c.enforce.scope.limit ≤ n ∧ weights = [n]) ∧ events = []
  | .lost => events = []

/-- Every call has the tally of its phase. -/
structure Limiter.Tallied (w : Limiter) (h : List LimiterMark) : Prop where
  calls : ∀ id c, w.calls.get? id = some c → c.Tally (weighedBy h id) (recordedBy h id)
  unseen : ∀ id, w.calls.get? id = none → weighedBy h id = [] ∧ recordedBy h id = []

section Marks

variable {h h' : List LimiterMark} {id id' : CallId} {c : Call}

@[simp]
theorem weighedBy_append : weighedBy (h ++ h') id = weighedBy h id ++ weighedBy h' id :=
  List.filterMap_append

@[simp]
theorem recordedBy_append : recordedBy (h ++ h') id = recordedBy h id ++ recordedBy h' id :=
  List.filterMap_append

/-- Marks of other calls do not count. -/
theorem weighedBy_of_ne (hne : ∀ m ∈ h, m.call ≠ id) : weighedBy h id = [] := by
  rw [weighedBy, List.filterMap_eq_nil_iff]
  intro m hm
  cases m with
  | weighed id' n => exact if_neg (hne _ hm)
  | recorded id' e => rfl

theorem recordedBy_of_ne (hne : ∀ m ∈ h, m.call ≠ id) : recordedBy h id = [] := by
  rw [recordedBy, List.filterMap_eq_nil_iff]
  intro m hm
  cases m with
  | weighed id' n => rfl
  | recorded id' e => exact if_neg (hne _ hm)

theorem weighedBy_map_recorded (events : List RateLimitEvent) :
    weighedBy (events.map (.recorded id)) id = [] := by
  simp [weighedBy, LimiterMark.weight?]

theorem recordedBy_map_recorded (events : List RateLimitEvent) :
    recordedBy (events.map (.recorded id)) id = events := by
  simp [recordedBy, LimiterMark.event?]

end Marks

/-! ## Steps -/

/-- What a step does to the call that it is about, with the marks it leaves. -/
inductive CallMove (w : Limiter) (id : CallId) (c : Call) : List LimiterMark → CallPhase → Prop
  | lock (hphase : c.phase = .waiting) : CallMove w id c [] .locked
  | pass (hphase : c.phase = .locked) (hlt : w.weight c < c.enforce.scope.limit) :
      CallMove w id c [.weighed id (w.weight c)] .counted
  | reject (r : ℤ) (hphase : c.phase = .locked) (hle : c.enforce.scope.limit ≤ w.weight c) :
      CallMove w id c [.weighed id (w.weight c)] (.rejected r)
  | commit (hphase : c.phase = .counted) : CallMove w id c (c.rows.map (.recorded id)) .admitted
  | lose (hphase : c.phase.isUncounted = true ∨ c.phase = .counted) : CallMove w id c [] .lost

section Steps

variable {hashtext : String → ℤ} {w w' : Limiter} {h ms : List LimiterMark} {id : CallId} {c : Call}
  {phase : CallPhase} {a : LimiterAction}

/-- A count admits the call or turns it away. -/
theorem Limiter.count_cases (w : Limiter) (id : CallId) (c : Call) :
    (w.weight c < c.enforce.scope.limit ∧ w.count id c = w.setPhase id c .counted) ∨
    ∃ r, c.enforce.scope.limit ≤ w.weight c ∧ w.count id c = w.setPhase id c (.rejected r) := by
  unfold Limiter.count Limiter.weight
  split
  next n oldest hcount =>
  simp only [hcount]
  split
  · next hle => exact .inr ⟨_, hle, rfl⟩
  · next hlt => exact .inl ⟨Nat.not_le.mp hlt, rfl⟩

/-- A step touches no call, begins one, or moves one on. -/
theorem Limiter.step_calls (hs : w.step hashtext a = .ok w') :
    (w.marks a = [] ∧ (w'.calls = w.calls ∨
      ∃ id e, w.calls.get? id = none ∧ w'.calls = w.calls.insert id ⟨e, w.now, .waiting⟩)) ∨
    ∃ id c phase, w.calls.get? id = some c ∧ w'.calls = w.calls.set id { c with phase := phase } ∧
      CallMove w id c (w.marks a) phase := by
  cases Limiter.step_move hs with
  | tick micros => exact .inl ⟨rfl, .inl rfl⟩
  | enter id e hnone => exact .inl ⟨rfl, .inr ⟨id, e, hnone, rfl⟩⟩
  | lock id c hc hphase hfree => exact .inr ⟨id, c, _, hc, rfl, .lock hphase⟩
  | count id c hc hphase =>
    have hmarks : w.marks (.count id) = [.weighed id (w.weight c)] := by simp only [Limiter.marks, hc]
    rw [hmarks]
    rcases w.count_cases id c with ⟨hlt, hcount⟩ | ⟨r, hle, hcount⟩
    · rw [hcount]
      exact .inr ⟨id, c, _, hc, rfl, .pass hphase hlt⟩
    · rw [hcount]
      exact .inr ⟨id, c, _, hc, rfl, .reject r hphase hle⟩
  | commit id c hc hphase =>
    have hmarks : w.marks (.commit id) = c.rows.map (.recorded id) := by simp only [Limiter.marks, hc]
    rw [hmarks]
    exact .inr ⟨id, c, _, hc, rfl, .commit hphase⟩
  | lose id c hc hphase => exact .inr ⟨id, c, _, hc, rfl, .lose hphase⟩

/-- The marks of a step are about its call. -/
theorem CallMove.call (hm : CallMove w id c ms phase) : ∀ m ∈ ms, m.call = id := by
  cases hm with
  | lock | lose => simp
  | pass | reject => simp [LimiterMark.call]
  | commit =>
    intro m hm
    obtain ⟨e, -, rfl⟩ := List.mem_map.mp hm
    rfl

/-- A call that moves on has the tally of its new phase. -/
theorem CallMove.tally (hm : CallMove w id c ms phase)
    (ht : c.Tally (weighedBy h id) (recordedBy h id)) :
    ({ c with phase := phase } : Call).Tally (weighedBy (h ++ ms) id) (recordedBy (h ++ ms) id) := by
  rw [weighedBy_append, recordedBy_append]
  cases hm with
  | lock hphase =>
    simp only [Call.Tally, hphase] at ht
    simpa [Call.Tally, weighedBy, recordedBy] using ht
  | pass hphase hlt =>
    simp only [Call.Tally, hphase] at ht
    rw [ht.1, ht.2]
    exact ⟨⟨_, hlt, by simp [weighedBy, LimiterMark.weight?]⟩, by simp [recordedBy, LimiterMark.event?]⟩
  | reject r hphase hle =>
    simp only [Call.Tally, hphase] at ht
    rw [ht.1, ht.2]
    exact ⟨⟨_, hle, by simp [weighedBy, LimiterMark.weight?]⟩, by simp [recordedBy, LimiterMark.event?]⟩
  | commit hphase =>
    simp only [Call.Tally, hphase] at ht
    rw [weighedBy_map_recorded, recordedBy_map_recorded, List.append_nil, ht.2, List.nil_append]
    exact ⟨ht.1, rfl⟩
  | lose hphase =>
    have hnil : recordedBy h id = [] := by
      unfold Call.Tally at ht
      rcases hphase with hphase | hphase
      · cases hp : c.phase <;> simp [hp, CallPhase.isUncounted] at hphase ht <;> exact ht.2
      · rw [hphase] at ht
        exact ht.2
    simp [Call.Tally, recordedBy, ← hnil]

/-- A step keeps the tallies. -/
theorem Limiter.Tallied.step (ht : w.Tallied h) (hs : w.step hashtext a = .ok w') :
    w'.Tallied (h ++ w.marks a) := by
  rcases Limiter.step_calls hs with ⟨hmarks, hcalls | ⟨id, e, hnone, hcalls⟩⟩ |
    ⟨id, c, phase, hc, hcalls, hmove⟩
  · rw [hmarks, List.append_nil]
    exact ⟨by rw [hcalls]; exact ht.calls, by rw [hcalls]; exact ht.unseen⟩
  · rw [hmarks, List.append_nil]
    refine ⟨fun id' c' hc' => ?_, fun id' hc' => ?_⟩
    · rw [hcalls, Table.get?_insert hnone] at hc'
      split at hc'
      · next heq =>
        cases hc'
        exact ht.unseen id' (heq ▸ hnone)
      · exact ht.calls id' c' hc'
    · rw [hcalls, Table.get?_insert hnone] at hc'
      split at hc'
      · cases hc'
      · exact ht.unseen id' hc'
  · -- marks about another call leave a tally as it is
    have hsame {id' : CallId} (hne : id' ≠ id) : weighedBy (h ++ w.marks a) id' = weighedBy h id' ∧
        recordedBy (h ++ w.marks a) id' = recordedBy h id' := by
      have hother : ∀ m ∈ w.marks a, m.call ≠ id' := fun m hm => (hmove.call m hm).trans_ne hne.symm
      rw [weighedBy_append, recordedBy_append, weighedBy_of_ne hother, recordedBy_of_ne hother]
      simp
    refine ⟨fun id' c' hc' => ?_, fun id' hc' => ?_⟩
    · rw [hcalls, Table.get?_set] at hc'
      split at hc'
      · next heq =>
        rw [heq, hc] at hc'
        cases hc'
        rw [heq]
        exact hmove.tally (ht.calls id c hc)
      · next hne =>
        rw [(hsame hne).1, (hsame hne).2]
        exact ht.calls id' c' hc'
    · rw [hcalls, Table.get?_set] at hc'
      split at hc'
      · next heq =>
        rw [heq, hc] at hc'
        cases hc'
      · next hne =>
        rw [(hsame hne).1, (hsame hne).2]
        exact ht.unseen id' hc'

theorem Limiter.Initial.tallied (h₀ : w.Initial) : w.Tallied [] where
  calls id c hc := by
    rw [h₀.calls] at hc
    cases hc
  unseen _ _ := ⟨rfl, rfl⟩

/-- A call that has begun keeps its arguments. -/
theorem Limiter.step_enforce (hs : w.step hashtext a = .ok w') (hc : w.calls.get? id = some c) :
    ∃ c', w'.calls.get? id = some c' ∧ c'.enforce = c.enforce ∧
      (c' = c ∨ c.phase.isUncounted = true ∨ c.phase = .counted) := by
  rcases Limiter.step_calls hs with ⟨-, hcalls | ⟨id', e, hnone, hcalls⟩⟩ |
    ⟨id', c₀, phase, hc₀, hcalls, hmove⟩
  · rw [hcalls]
    exact ⟨c, hc, rfl, .inl rfl⟩
  · rw [hcalls, Table.get?_insert hnone, if_neg, hc]
    · exact ⟨c, rfl, rfl, .inl rfl⟩
    · rintro rfl
      rw [hnone] at hc
      cases hc
  · by_cases heq : id = id'
    · subst heq
      rw [hc] at hc₀
      cases hc₀
      rw [hcalls, Table.get?_set_self hc]
      refine ⟨_, rfl, rfl, .inr ?_⟩
      generalize w.marks a = ms at hmove
      cases hmove with
      | lock hphase => exact .inl (by rw [hphase]; rfl)
      | pass hphase hlt => exact .inl (by rw [hphase]; rfl)
      | reject r hphase hle => exact .inl (by rw [hphase]; rfl)
      | commit hphase => exact .inr hphase
      | lose hphase => exact hphase
    · rw [hcalls, Table.get?_set_ne _ heq]
      exact ⟨c, hc, rfl, .inl rfl⟩

end Steps

/-! ## Calls of one subject -/

/-- The scopes in `p` are only called with one subject at a time, and no window of a subject is over the
limit; what an admitted call is about to record fits in. -/
structure Limiter.Serial (hashtext : String → ℤ) (p : Scope → Bool) (w : Limiter) : Prop where
  single : ∀ id c, w.calls.get? id = some c → p c.enforce.scope = true →
    ∃ x, c.enforce.subjects = [x]
  exclusive : ∀ id id' c c', w.calls.get? id = some c → w.calls.get? id' = some c' →
    c.phase.holdsLock = true → c'.phase.holdsLock = true →
    hashtext c.enforce.lockKey = hashtext c'.enforce.lockKey → id = id'
  counted : ∀ id c, w.calls.get? id = some c → c.phase = .counted → p c.enforce.scope = true →
    ∀ x ∈ c.enforce.subjects, subjectCount w.events c.enforce.scope c.startedAt x < c.enforce.scope.limit
  windows : ∀ scope, p scope = true → ∀ x,
    Windowed scope.window scope.limit (stamps w.events scope x)

section Serial

variable {hashtext : String → ℤ} {p : Scope → Bool} {w w' : Limiter} {id : CallId} {c : Call}
  {scope : Scope} {x : Subject} {phase : CallPhase} {a : LimiterAction}

theorem stamps_cleanup_le (events : List RateLimitEvent) (scope' : Scope) (now : Time) :
    stamps (cleanup events scope' now) scope x ≤ stamps events scope x :=
  Multiset.coe_le.mpr ((List.filter_sublist.filter _).map _).subperm

/-- A call that moves on without touching the events. -/
theorem Limiter.Serial.setPhase (hi : w.Serial hashtext p) (hc : w.calls.get? id = some c)
    (hlock : phase.holdsLock = true → c.phase.holdsLock = true ∨ w.isBlocked hashtext c = false)
    (hcounted : phase = .counted → ∀ x ∈ c.enforce.subjects,
      subjectCount w.events c.enforce.scope c.startedAt x < c.enforce.scope.limit) :
    (w.setPhase id c phase).Serial hashtext p := by
  have hget (id' : CallId) (c' : Call) (hc' : (w.setPhase id c phase).calls.get? id' = some c') :
      (id' = id ∧ c' = { c with phase := phase }) ∨ (id' ≠ id ∧ w.calls.get? id' = some c') := by
    simp only [Limiter.setPhase, Table.get?_set] at hc'
    split at hc'
    · next heq =>
      rw [heq, hc] at hc'
      exact .inl ⟨heq, (Option.some.inj hc').symm⟩
    · next hne => exact .inr ⟨hne, hc'⟩
  -- nobody else holds the lock that `id` takes or has
  have halone (id' : CallId) (c' : Call) (hne : id' ≠ id) (hc' : w.calls.get? id' = some c')
      (hphase : phase.holdsLock = true) (hholds : c'.phase.holdsLock = true)
      (hkey : hashtext c'.enforce.lockKey = hashtext c.enforce.lockKey) : False := by
    rcases hlock hphase with hold | hfree
    · exact hne (hi.exclusive id' id c' c hc' hc hholds hold hkey)
    · have hmem := List.any_eq_false.mp hfree (id', c') (Table.get?_eq_some_iff.mp hc')
      simp [hholds, hkey] at hmem
  refine ⟨fun id' c' hc' hp => ?_, fun id₁ id₂ c₁ c₂ h₁ h₂ hl₁ hl₂ hkey => ?_,
    fun id' c' hc' hphase hp => ?_, hi.windows⟩
  · rcases hget id' c' hc' with ⟨-, rfl⟩ | ⟨-, hc'⟩
    · exact hi.single id c hc hp
    · exact hi.single id' c' hc' hp
  · rcases hget id₁ c₁ h₁ with ⟨rfl, rfl⟩ | ⟨hne₁, g₁⟩ <;>
      rcases hget id₂ c₂ h₂ with ⟨rfl, rfl⟩ | ⟨hne₂, g₂⟩
    · rfl
    · exact (halone id₂ c₂ hne₂ g₂ hl₁ hl₂ hkey.symm).elim
    · exact (halone id₁ c₁ hne₁ g₁ hl₂ hl₁ hkey).elim
    · exact hi.exclusive id₁ id₂ c₁ c₂ g₁ g₂ hl₁ hl₂ hkey
  · rcases hget id' c' hc' with ⟨-, rfl⟩ | ⟨-, hc'⟩
    · exact hcounted hphase
    · exact hi.counted id' c' hc' hphase hp

/-- A commit adds events that fit in; calls of the same subject have to wait for it. -/
theorem Limiter.Serial.commit (hi : w.Serial hashtext p) (hc : w.calls.get? id = some c)
    (hphase : c.phase = .counted) : (w.commit id c).Serial hashtext p := by
  have hbase : (w.setPhase id c .admitted).Serial hashtext p :=
    hi.setPhase hc (by simp [CallPhase.holdsLock]) (by simp)
  refine ⟨hbase.single, hbase.exclusive, fun id' c' hc' hphase' hp x hx => ?_, fun scope hp x => ?_⟩
  · refine subjectCount_cleanup_le.trans_lt ?_
    rw [subjectCount_append]
    have hzero : subjectCount c.rows c'.enforce.scope c'.startedAt x = 0 := by
      rw [subjectCount_eq, stamps_rows, if_neg]
      · simp
      · -- the same scope and the same subject are the same key
        rintro ⟨hscope, hmem⟩
        have hold : id' ≠ id ∧ w.calls.get? id' = some c' := by
          change (w.calls.set id { c with phase := .admitted }).get? id' = some c' at hc'
          rw [Table.get?_set] at hc'
          split at hc'
          · next heq =>
            rw [heq, hc] at hc'
            cases hc'
            cases hphase'
          · next hne => exact ⟨hne, hc'⟩
        obtain ⟨y, hy⟩ := hi.single id' c' hold.2 hp
        obtain ⟨z, hz⟩ := hi.single id c hc (hscope ▸ hp)
        rw [hy, List.mem_singleton] at hx
        rw [hz, List.mem_singleton] at hmem
        refine hold.1 (hi.exclusive id' id c' c hold.2 hc (by rw [hphase']; rfl) (by rw [hphase]; rfl) ?_)
        rw [Enforce.lockKey, Enforce.lockKey, hy, hz, hscope, ← hx, hmem]
    rw [hzero, add_zero]
    exact hbase.counted id' c' hc' hphase' hp x hx
  · refine Windowed.mono ?_ (stamps_cleanup_le _ _ _)
    rw [stamps_append, stamps_rows]
    split
    · next hx =>
      obtain ⟨rfl, hx⟩ := hx
      refine (hi.windows _ hp x).add_singleton ?_
      rw [← subjectCount_eq]
      exact hi.counted id c hc hphase hp x hx
    · rw [add_zero]
      exact hi.windows scope hp x

/-- A step keeps the windows, if the calls that begin have one subject. -/
theorem Limiter.Serial.step (hi : w.Serial hashtext p)
    (ha : ∀ id e, a = .enter id e → p e.scope = true → ∃ x, e.subjects = [x])
    (hs : w.step hashtext a = .ok w') : w'.Serial hashtext p := by
  cases Limiter.step_move hs with
  | tick micros => exact ⟨hi.single, hi.exclusive, hi.counted, hi.windows⟩
  | enter id e hnone =>
    have hget (id' : CallId) (c' : Call)
        (hc' : (w.calls.insert id ⟨e, w.now, .waiting⟩).get? id' = some c') :
        c' = ⟨e, w.now, .waiting⟩ ∨ w.calls.get? id' = some c' := by
      rw [Table.get?_insert hnone] at hc'
      split at hc'
      · exact .inl (Option.some.inj hc').symm
      · exact .inr hc'
    refine ⟨fun id' c' hc' hp => ?_, fun id₁ id₂ c₁ c₂ h₁ h₂ hl₁ hl₂ hkey => ?_,
      fun id' c' hc' hphase hp => ?_, hi.windows⟩
    · rcases hget id' c' hc' with rfl | hc'
      · exact ha id e rfl hp
      · exact hi.single id' c' hc' hp
    · rcases hget id₁ c₁ h₁ with rfl | h₁
      · cases hl₁
      · rcases hget id₂ c₂ h₂ with rfl | h₂
        · cases hl₂
        · exact hi.exclusive id₁ id₂ c₁ c₂ h₁ h₂ hl₁ hl₂ hkey
    · rcases hget id' c' hc' with rfl | hc'
      · cases hphase
      · exact hi.counted id' c' hc' hphase hp
  | lock id c hc hphase hfree => exact hi.setPhase hc (fun _ => .inr hfree) (by simp)
  | count id c hc hphase =>
    have hlock (phase : CallPhase) (_ : phase.holdsLock = true) :
        c.phase.holdsLock = true ∨ w.isBlocked hashtext c = false := by
      rw [hphase]
      exact .inl rfl
    rcases w.count_cases id c with ⟨hlt, hcount⟩ | ⟨r, hle, hcount⟩
    · rw [hcount]
      exact hi.setPhase hc (hlock _) fun _ x hx => (subjectCount_le_eventCount hx).trans_lt hlt
    · rw [hcount]
      exact hi.setPhase hc (hlock _) (by simp)
  | commit id c hc hphase => exact hi.commit hc hphase
  | lose id c hc hphase => exact hi.setPhase hc (by simp [CallPhase.holdsLock]) (by simp)

theorem Limiter.Initial.serial (h₀ : w.Initial) : w.Serial hashtext p := by
  have hnone (id : CallId) : w.calls.get? id = none := by
    rw [h₀.calls]
    rfl
  refine ⟨fun id c hc => ?_, fun id id' c c' hc => ?_, fun id c hc => ?_, fun scope _ x => ?_⟩
  · rw [hnone] at hc
    cases hc
  · rw [hnone] at hc
    cases hc
  · rw [hnone] at hc
    cases hc
  · rw [h₀.events]
    exact windowed_zero

end Serial

end AgentCraft.Access
