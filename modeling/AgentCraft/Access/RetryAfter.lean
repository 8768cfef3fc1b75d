import AgentCraft.Access.RateSound

/-!
# What `Retry-After` promises

`enforce` derives the waiting time of a 429 from the oldest event of all subjects together. That event
need not belong to the subject that is at its limit, and one event less need not bring a subject under
its limit, so a call made when the time is up can be turned away again. It is let through exactly if no
subject has as many events as the limit after the oldest one has left the window.
-/

namespace AgentCraft.Access

open AgentCraft.Relational AgentCraft.Transition

/-- The event is none that a call with these arguments counts. -/
def Enforce.Spares (e : Enforce) (ev : RateLimitEvent) : Prop :=
  ev.scope = e.scope → ev.subjectHash ∉ e.subjects

/-- The times of the events that a call counts. -/
def Call.recentTimes (c : Call) (events : List RateLimitEvent) : List Time :=
  (events.filter fun ev => ev.subjectHash ∈ c.enforce.subjects &&
    ev.isRecent c.enforce.scope c.startedAt).map (·.occurredAt)

/-- The events of one subject later than an instant. -/
def laterCount (events : List RateLimitEvent) (scope : Scope) (θ : ℤ) (x : Subject) : ℕ :=
  events.countP fun ev => ev.subjectHash = x && (ev.scope = scope && θ < ev.occurredAt)

/-- The oldest event of all subjects is the one to wait for: no subject has as many events as the limit
after it. The waiting time is in whole seconds and begins when the call is turned away. -/
def OldestSettles (w : Limiter) (c : Call) : Prop :=
  ∀ o ∈ c.recentTimes w.events, (∀ o' ∈ c.recentTimes w.events, o ≤ o') →
    ∀ x ∈ c.enforce.subjects,
      laterCount w.events c.enforce.scope
        (o + ((c.startedAt : ℤ) - o) % 1000000 + ((w.now : ℤ) - c.startedAt)) x < c.enforce.scope.limit

instance (w : Limiter) (c : Call) : Decidable (OldestSettles w c) := by
  unfold OldestSettles
  infer_instance

/-- Whatever happens without an event of the subjects: a call of theirs that begins `r` seconds later
is let through. -/
def WaitSuffices (hashtext : String → ℤ) (w : Limiter) (e : Enforce) (r : ℤ) : Prop :=
  ∀ bs id c, (∀ ev ∈ (limiter hashtext).trace Limiter.recorded w bs, e.Spares ev) →
    ((limiter hashtext).run w bs).calls.get? id = some c → c.enforce = e →
    (c.startedAt : ℤ) = w.now + r * 1000000 → c.phase = .locked →
    ((limiter hashtext).run w (bs ++ [.count id, .commit id])).calls.get? id =
      some { c with phase := .admitted }

/-! ## Counting later -/

section Counting

variable {events : List RateLimitEvent} {w : Limiter} {c : Call} {id : CallId} {x : Subject}
  {scope scope' : Scope} {now t : Time}

theorem Scope.limit_pos (s : Scope) : 0 < s.limit := by
  cases s <;> decide

/-- A call that does not count any event of a subject has nothing to count. -/
theorem eventCount_eq_zero (h : c.recentTimes events = []) :
    (eventCount events c.enforce.scope c.startedAt c.enforce.subjects).1 = 0 := by
  have hzero (x : Subject) (hx : x ∈ c.enforce.subjects) :
      subjectCount events c.enforce.scope c.startedAt x = 0 := by
    rw [subjectCount, List.countP_eq_zero]
    intro ev hev hcount
    rw [Bool.and_eq_true, decide_eq_true_eq] at hcount
    have hmem : ev.occurredAt ∈ c.recentTimes events := by
      refine List.mem_map_of_mem (List.mem_filter.mpr ⟨hev, ?_⟩)
      rw [Bool.and_eq_true, decide_eq_true_eq]
      exact ⟨hcount.1 ▸ hx, hcount.2⟩
    rw [h] at hmem
    cases hmem
  simp only [eventCount]
  generalize c.enforce.subjects = xs at hzero
  induction xs with
  | nil => rfl
  | cons y ys ih =>
    rw [List.map_cons, List.foldr_cons, hzero y (by simp), ih fun z hz => hzero z (by simp [hz])]
    rfl

/-- The largest count is under a positive bound iff every count is. -/
theorem eventCount_lt_iff {subjects : List Subject} {n : ℕ} (hn : 0 < n) :
    (eventCount events scope t subjects).1 < n ↔ ∀ x ∈ subjects, subjectCount events scope t x < n := by
  simp only [eventCount]
  induction subjects with
  | nil => simpa using hn
  | cons y ys ih => rw [List.map_cons, List.foldr_cons, max_lt_iff, ih, List.forall_mem_cons]

/-- The events in the window when the waiting time is up are those after the oldest event, rounded up
to the whole second. -/
theorem lt_add_window_iff {o t₀ now t₁ s : ℤ} (hrecent : t₀ < o + scope.window)
    (ht₁ : t₁ = now + max 1 ((scope.window + o - t₀ + 999999) / 1000000) * 1000000) :
    t₁ < s + scope.window ↔ o + (t₀ - o) % 1000000 + (now - t₀) < s := by
  obtain ⟨k, hk⟩ : ∃ k : ℤ, (scope.window : ℤ) = k * 1000000 :=
    ⟨(limits scope).2, by rw [Scope.window]; push_cast; rfl⟩
  rw [hk] at hrecent ht₁ ⊢
  have hone : max 1 ((k * 1000000 + o - t₀ + 999999) / 1000000) =
      (k * 1000000 + o - t₀ + 999999) / 1000000 := by
    rw [max_eq_right]
    omega
  rw [hone] at ht₁
  omega

/-- What a call counts that begins when the waiting time is up. -/
theorem subjectCount_eq_laterCount (events : List RateLimitEvent) (now : Time) (x : Subject)
    {o t₀ t₁ : Time} {r : ℤ} (hrecent : t₀ < o + scope.window)
    (hr : r = retryAfter scope t₀ (some o)) (ht₁ : (t₁ : ℤ) = now + r * 1000000) :
    subjectCount events scope t₁ x =
      laterCount events scope (o + ((t₀ : ℤ) - o) % 1000000 + ((now : ℤ) - t₀)) x := by
  rw [subjectCount, laterCount]
  refine List.countP_congr fun ev _ => ?_
  have hiff : (t₁ : ℤ) < (ev.occurredAt : ℤ) + scope.window ↔
      (o : ℤ) + ((t₀ : ℤ) - o) % 1000000 + ((now : ℤ) - t₀) < ev.occurredAt :=
    lt_add_window_iff (by exact_mod_cast hrecent) (by rw [ht₁, hr]; rfl)
  have hcast : t₁ < ev.occurredAt + scope.window ↔
      (t₁ : ℤ) < (ev.occurredAt : ℤ) + scope.window := by
    norm_cast
  simp only [RateLimitEvent.isRecent, Bool.and_eq_true, decide_eq_true_eq]
  rw [hcast, hiff]

end Counting

/-! ## The waiting time -/

section Waiting

variable {hashtext : String → ℤ} {w w' : Limiter} {c c' : Call} {e : Enforce} {id id' : CallId}
  {a : LimiterAction} {r : ℤ}

/-- A step that records no event of the subjects leaves no more of them to count. -/
theorem subjectCount_step_le (h : w.step hashtext a = .ok w')
    (hspares : ∀ ev ∈ w.recorded a, e.Spares ev) {x : Subject} (hx : x ∈ e.subjects) (t : Time) :
    subjectCount w'.events e.scope t x ≤ subjectCount w.events e.scope t x := by
  cases Limiter.step_move h with
  | tick micros => exact le_rfl
  | enter id e' hnone => exact le_rfl
  | lock id c hc hphase hfree => exact le_rfl
  | count id c hc hphase =>
    unfold Limiter.count
    split
    split <;> exact le_rfl
  | commit id c hc hphase =>
    rw [show w.recorded (.commit id) = c.rows by simp only [Limiter.recorded, hc]] at hspares
    refine subjectCount_cleanup_le.trans ?_
    rw [subjectCount_append]
    have hnone : subjectCount c.rows e.scope t x = 0 := by
      rw [subjectCount, List.countP_eq_zero]
      intro ev hev hcount
      simp only [RateLimitEvent.isRecent, Bool.and_eq_true, decide_eq_true_eq] at hcount
      exact hspares ev hev hcount.2.1 (hcount.1 ▸ hx)
    rw [hnone, add_zero]
  | lose id c hc hphase => exact le_rfl

/-- A run that records no event of the subjects leaves no more of them to count. -/
theorem subjectCount_run_le {bs : List LimiterAction}
    (hspares : ∀ ev ∈ (limiter hashtext).trace Limiter.recorded w bs, e.Spares ev) {x : Subject}
    (hx : x ∈ e.subjects) (t : Time) :
    subjectCount ((limiter hashtext).run w bs).events e.scope t x ≤
      subjectCount w.events e.scope t x := by
  revert hspares
  refine System.trace_invariant (S := limiter hashtext)
    (I := fun w' evs => (∀ ev ∈ evs, e.Spares ev) →
      subjectCount w'.events e.scope t x ≤ subjectCount w.events e.scope t x)
    (fun w' evs a w'' ih hs hall => ?_) (fun _ => le_rfl) bs
  have hold := ih fun ev hev => hall ev (List.mem_append_left _ hev)
  have hstep := subjectCount_step_le hs (fun ev hev => hall ev (List.mem_append_right _ hev)) hx t
  exact hstep.trans hold

theorem Limiter.count_of_lt
    (h : (eventCount w.events c.enforce.scope c.startedAt c.enforce.subjects).1 <
      c.enforce.scope.limit) : w.count id c = w.setPhase id c .counted := by
  unfold Limiter.count
  split
  next cnt oldest hcnt =>
  rw [hcnt] at h
  exact if_neg (Nat.not_le.mpr h)

theorem Limiter.count_of_le
    (h : c.enforce.scope.limit ≤
      (eventCount w.events c.enforce.scope c.startedAt c.enforce.subjects).1) :
    w.count id c = w.setPhase id c (.rejected (retryAfter c.enforce.scope c.startedAt
      (eventCount w.events c.enforce.scope c.startedAt c.enforce.subjects).2)) := by
  unfold Limiter.count
  split
  next cnt oldest hcnt =>
  rw [hcnt] at h ⊢
  exact if_pos h

/-- A call that counts is let through iff no subject is at its limit. -/
theorem counted_iff (hc : w.calls.get? id = some c) (hphase : c.phase = .locked) :
    ((limiter hashtext).run w [.count id, .commit id]).calls.get? id =
        some { c with phase := .admitted } ↔
      ∀ x ∈ c.enforce.subjects,
        subjectCount w.events c.enforce.scope c.startedAt x < c.enforce.scope.limit := by
  have hcount : (limiter hashtext).next w (.count id) = w.count id c :=
    System.next_eq_of_step (by simp [limiter, Limiter.step, hc, hphase])
  rw [← eventCount_lt_iff c.enforce.scope.limit_pos, System.run_cons, hcount]
  have hget (phase : CallPhase) :
      (w.setPhase id c phase).calls.get? id = some { c with phase := phase } :=
    Table.get?_set_self hc _
  by_cases hlt : (eventCount w.events c.enforce.scope c.startedAt c.enforce.subjects).1 <
      c.enforce.scope.limit
  · have hcommit : (limiter hashtext).next (w.setPhase id c .counted) (.commit id) =
        (w.setPhase id c .counted).commit id { c with phase := .counted } :=
      System.next_eq_of_step (by simp [limiter, Limiter.step, hget])
    rw [Limiter.count_of_lt hlt, System.run_cons, hcommit]
    exact iff_of_true (Table.get?_set_self (hget .counted) _) hlt
  · obtain ⟨r, hrejected⟩ : ∃ r, w.count id c = w.setPhase id c (.rejected r) :=
      ⟨_, Limiter.count_of_le (Nat.not_lt.mp hlt)⟩
    have hcommit : (limiter hashtext).next (w.setPhase id c (.rejected r)) (.commit id) =
        w.setPhase id c (.rejected r) :=
      System.next_eq_self_of_error (e := .notEnabled) (by simp [limiter, Limiter.step, hget])
    rw [hrejected, System.run_cons, hcommit, System.run_nil, hget]
    exact iff_of_false (by simp) hlt

/-- A call that is turned away waits for the oldest event of its subjects. -/
theorem rejected_retryAfter (hc : w.calls.get? id = some c)
    (hr : (w.count id c).calls.get? id = some { c with phase := .rejected r }) :
    ∃ o ∈ c.recentTimes w.events, (∀ o' ∈ c.recentTimes w.events, o ≤ o') ∧
      r = retryAfter c.enforce.scope c.startedAt (some o) ∧ w.count id c = w.setPhase id c (.rejected r) := by
  by_cases hlt : (eventCount w.events c.enforce.scope c.startedAt c.enforce.subjects).1 <
      c.enforce.scope.limit
  · rw [Limiter.count_of_lt hlt, Limiter.setPhase, Table.get?_set_self hc] at hr
    cases hr
  · have hne : c.recentTimes w.events ≠ [] := by
      intro hnil
      rw [eventCount_eq_zero hnil] at hlt
      exact hlt c.enforce.scope.limit_pos
    obtain ⟨o, ho⟩ := Option.ne_none_iff_exists'.mp (mt List.min?_eq_none_iff.mp hne)
    have hcount : w.count id c =
        w.setPhase id c (.rejected (retryAfter c.enforce.scope c.startedAt (some o))) := by
      rw [← ho]
      exact Limiter.count_of_le (Nat.not_lt.mp hlt)
    have hsame : r = retryAfter c.enforce.scope c.startedAt (some o) := by
      rw [hcount, Limiter.setPhase, Table.get?_set_self hc] at hr
      cases hr
      rfl
    have hmin := List.min?_eq_some_iff.mp ho
    exact ⟨o, hmin.1, hmin.2, hsame, by rw [hcount, hsame]⟩

end Waiting

/-! ## The lock -/

section Exclusion

variable {hashtext : String → ℤ} {w w' : Limiter} {c : Call} {id : CallId} {a : LimiterAction}

/-- One call at a time holds the lock of a key. -/
def Limiter.Exclusive (hashtext : String → ℤ) (w : Limiter) : Prop :=
  ∀ id c id' c', w.calls.get? id = some c → w.calls.get? id' = some c' → c.phase.holdsLock = true →
    c'.phase.holdsLock = true → hashtext c.enforce.lockKey = hashtext c'.enforce.lockKey → id = id'

theorem Limiter.isBlocked_eq_false_iff : w.isBlocked hashtext c = false ↔
    ∀ id' c', w.calls.get? id' = some c' → c'.phase.holdsLock = true →
      hashtext c'.enforce.lockKey ≠ hashtext c.enforce.lockKey := by
  rw [Limiter.isBlocked, List.any_eq_false]
  constructor
  · intro h id' c' hc' hholds heq
    exact h (id', c') (Table.get?_eq_some_iff.mp hc') (by simp [hholds, heq])
  · intro h row hrow hheld
    rw [Bool.and_eq_true, decide_eq_true_eq] at hheld
    exact h row.1 row.2 (Table.get?_eq_some_iff.mpr hrow) hheld.1 hheld.2

/-- A call that gets no lock by moving on leaves the locks exclusive. -/
theorem Limiter.Exclusive.setPhase (hx : w.Exclusive hashtext) (hc : w.calls.get? id = some c)
    (phase : CallPhase) (hphase : phase.holdsLock = true → c.phase.holdsLock = true) :
    (w.setPhase id c phase).Exclusive hashtext := by
  have hold (id₁ : CallId) (c₁ : Call) (h₁ : (w.setPhase id c phase).calls.get? id₁ = some c₁)
      (hholds : c₁.phase.holdsLock = true) :
      ∃ c₂, w.calls.get? id₁ = some c₂ ∧ c₂.enforce = c₁.enforce ∧ c₂.phase.holdsLock = true := by
    rcases Table.get?_set_cases h₁ with h₁ | ⟨rfl, rfl⟩
    · exact ⟨c₁, h₁, rfl, hholds⟩
    · exact ⟨c, hc, rfl, hphase hholds⟩
  intro id₁ c₁ id₂ c₂ h₁ h₂ hl₁ hl₂ hkey
  obtain ⟨d₁, hd₁, he₁, hl₁⟩ := hold id₁ c₁ h₁ hl₁
  obtain ⟨d₂, hd₂, he₂, hl₂⟩ := hold id₂ c₂ h₂ hl₂
  exact hx id₁ d₁ id₂ d₂ hd₁ hd₂ hl₁ hl₂ (by rw [he₁, he₂, hkey])

/-- A call gets its lock only when nobody else holds it. -/
theorem Limiter.Exclusive.lock (hx : w.Exclusive hashtext)
    (hfree : w.isBlocked hashtext c = false) : (w.setPhase id c .locked).Exclusive hashtext := by
  rw [Limiter.isBlocked_eq_false_iff] at hfree
  intro id₁ c₁ id₂ c₂ h₁ h₂ hl₁ hl₂ hkey
  rcases Table.get?_set_cases h₁ with h₁ | ⟨hid₁, hc₁⟩
  · rcases Table.get?_set_cases h₂ with h₂ | ⟨-, hc₂⟩
    · exact hx id₁ c₁ id₂ c₂ h₁ h₂ hl₁ hl₂ hkey
    · rw [hc₂] at hkey
      exact absurd hkey (hfree id₁ c₁ h₁ hl₁)
  · rcases Table.get?_set_cases h₂ with h₂ | ⟨hid₂, -⟩
    · rw [hc₁] at hkey
      exact absurd hkey.symm (hfree id₂ c₂ h₂ hl₂)
    · exact hid₁.trans hid₂.symm

theorem Limiter.Exclusive.step (hx : w.Exclusive hashtext) (h : w.step hashtext a = .ok w') :
    w'.Exclusive hashtext := by
  cases Limiter.step_move h with
  | tick micros => exact hx
  | enter id e hnone =>
    have hold (id₁ : CallId) (c₁ : Call)
        (h₁ : (w.calls.insert id ⟨e, w.now, .waiting⟩).get? id₁ = some c₁)
        (hholds : c₁.phase.holdsLock = true) : w.calls.get? id₁ = some c₁ := by
      rcases Table.get?_insert_cases h₁ with h₁ | ⟨-, rfl⟩
      · exact h₁
      · cases hholds
    intro id₁ c₁ id₂ c₂ h₁ h₂ hl₁ hl₂ hkey
    exact hx id₁ c₁ id₂ c₂ (hold id₁ c₁ h₁ hl₁) (hold id₂ c₂ h₂ hl₂) hl₁ hl₂ hkey
  | lock id c hc hphase hfree => exact hx.lock hfree
  | count id c hc hphase =>
    have hheld : c.phase.holdsLock = true := by rw [hphase]; rfl
    unfold Limiter.count
    split
    split
    · exact hx.setPhase hc _ fun _ => hheld
    · exact hx.setPhase hc _ fun _ => hheld
  | commit id c hc hphase =>
    have hset := hx.setPhase hc .admitted fun h => by cases h
    exact hset
  | lose id c hc hphase => exact hx.setPhase hc .lost fun h => by cases h

/-- The locks are exclusive in every run that begins without a call. -/
theorem Limiter.exclusive_run (hashtext : String → ℤ) {w₀ : Limiter} (h₀ : w₀.calls = .empty) (as : List LimiterAction) :
    ((limiter hashtext).run w₀ as).Exclusive hashtext := by
  refine System.invariant_run (S := limiter hashtext) (I := Limiter.Exclusive hashtext)
    (fun w a w' hx h => hx.step h) as ?_
  intro id c id' c' hc
  rw [h₀] at hc
  cases hc

end Exclusion

/-! ## Runs -/

section Runs

variable {hashtext : String → ℤ} {w₀ w : Limiter} {as : List LimiterAction} {id : CallId} {c : Call}
  {r : ℤ}

/-- Only commits record events. -/
theorem trace_eq_nil (w : Limiter) {bs : List LimiterAction}
    (h : ∀ a ∈ bs, ∀ w : Limiter, w.recorded a = []) :
    (limiter hashtext).trace Limiter.recorded w bs = [] := by
  have hrun (x : Limiter × List RateLimitEvent) :
      (((limiter hashtext).traced Limiter.recorded).run x bs).2 = x.2 := by
    induction bs generalizing x with
    | nil => rfl
    | cons a bs ih =>
      rw [System.run_cons, ih fun a' ha' => h a' (List.mem_cons_of_mem _ ha')]
      rcases System.next_cases (S := (limiter hashtext).traced Limiter.recorded) x a with hs | hs
      · rw [(System.traced_step_eq_ok hs).2, h a List.mem_cons_self, List.append_nil]
      · rw [hs]
  exact hrun (w, [])

/-- When the lock is free, a call that enters after a wait comes to its count. -/
theorem exists_locked (hashtext : String → ℤ) (w : Limiter) (e : Enforce) (hsubjects : e.subjects ≠ []) (micros : ℕ)
    (hfree : ∀ id' c', w.calls.get? id' = some c' → c'.phase.holdsLock = true →
      hashtext c'.enforce.lockKey ≠ hashtext e.lockKey) :
    ∃ id, ((limiter hashtext).run w [.tick micros, .enter id e, .lock id]).calls.get? id =
        some ⟨e, w.now + micros, .locked⟩ ∧
      ((limiter hashtext).run w [.tick micros, .enter id e, .lock id]).events = w.events := by
  obtain ⟨id, hid⟩ := Infinite.exists_notMem_finset (w.calls.rows.map Prod.fst).toFinset
  rw [List.mem_toFinset, ← Table.get?_eq_none_iff] at hid
  have hget : (w.calls.insert id ⟨e, w.now + micros, .waiting⟩).get? id =
      some ⟨e, w.now + micros, .waiting⟩ := by
    rw [Table.get?_insert hid, if_pos rfl]
  set w₁ : Limiter := { w with now := w.now + micros } with hw₁
  set w₂ : Limiter :=
    { w₁ with calls := w.calls.insert id ⟨e, w.now + micros, .waiting⟩ } with hw₂
  have hunblocked : w₂.isBlocked hashtext ⟨e, w.now + micros, .waiting⟩ = false := by
    rw [Limiter.isBlocked_eq_false_iff]
    intro id' c' hc' hholds
    rcases Table.get?_insert_cases hc' with hc' | ⟨-, rfl⟩
    · exact hfree id' c' hc' hholds
    · cases hholds
  have htick : (limiter hashtext).next w (.tick micros) = w₁ := System.next_eq_of_step rfl
  have henter : (limiter hashtext).next w₁ (.enter id e) = w₂ :=
    System.next_eq_of_step (by simp [limiter, Limiter.step, hsubjects, hid, hw₁, hw₂])
  have hlock : (limiter hashtext).next w₂ (.lock id) =
      w₂.setPhase id ⟨e, w.now + micros, .waiting⟩ .locked :=
    System.next_eq_of_step (by simp only [limiter, Limiter.step]; rw [hget]; simp [hunblocked])
  refine ⟨id, ?_⟩
  rw [System.run_cons, System.run_cons, System.run_cons, System.run_nil, htick, henter, hlock]
  exact ⟨Table.get?_set_self hget _, rfl⟩

theorem retryAfter_pos {scope : Scope} {t : Time} {o : Time} : 1 ≤ retryAfter scope t (some o) :=
  le_max_left _ _

/-- A 429 keeps its promise iff no subject is at its limit once the oldest event is gone. -/
theorem waitSuffices_iff (h₀ : w₀.calls = .empty)
    (hc : ((limiter hashtext).run w₀ as).calls.get? id = some c) (hphase : c.phase = .locked)
    (hr : ((limiter hashtext).run w₀ (as ++ [.count id])).calls.get? id =
      some { c with phase := .rejected r }) :
    WaitSuffices hashtext ((limiter hashtext).run w₀ (as ++ [.count id])) c.enforce r ↔
      OldestSettles ((limiter hashtext).run w₀ as) c := by
  have hx := Limiter.exclusive_run hashtext h₀ as
  rw [System.run_append] at hr ⊢
  generalize (limiter hashtext).run w₀ as = w at *
  have hcount : (limiter hashtext).run w [.count id] = w.count id c :=
    System.next_eq_of_step (by simp [limiter, Limiter.step, hc, hphase])
  rw [hcount] at hr ⊢
  obtain ⟨o, ho, hleast, hretry, hrejected⟩ := rejected_retryAfter hc hr
  rw [hrejected]
  have hpos : 1 ≤ r := hretry ▸ retryAfter_pos
  obtain ⟨ev, hev, hevo⟩ := List.mem_map.mp ho
  rw [List.mem_filter, Bool.and_eq_true, decide_eq_true_eq] at hev
  have hrecent : c.startedAt < o + c.enforce.scope.window := by
    have hin := hev.2.2
    simp only [RateLimitEvent.isRecent, Bool.and_eq_true, decide_eq_true_eq] at hin
    rw [← hevo]
    exact hin.2
  -- What is counted `r` seconds later is what stands after the oldest event.
  have hlater (t : Time) (ht : (t : ℤ) = w.now + r * 1000000) (x : Subject) :=
    subjectCount_eq_laterCount w.events w.now x hrecent hretry ht
  constructor
  · intro hwait o' ho' hleast' x hx'
    obtain rfl : o = o' := le_antisymm (hleast o' ho') (hleast' o ho)
    have hr' : ((r.toNat * 1000000 : ℕ) : ℤ) = r * 1000000 := by omega
    have hfree (id' : CallId) (c' : Call)
        (hc' : (w.setPhase id c (.rejected r)).calls.get? id' = some c')
        (hholds : c'.phase.holdsLock = true) :
        hashtext c'.enforce.lockKey ≠ hashtext c.enforce.lockKey := by
      intro hkey
      by_cases hid : id' = id
      · rw [hid, Limiter.setPhase, Table.get?_set_self hc] at hc'
        cases hc'
        cases hholds
      · rw [Limiter.setPhase, Table.get?_set_ne _ hid] at hc'
        exact hid (hx id' c' id c hc' hc hholds (by rw [hphase]; rfl) hkey)
    obtain ⟨id', hget, hevents⟩ := exists_locked hashtext
      (w.setPhase id c (.rejected r)) c.enforce (List.ne_nil_of_mem hev.2.1) (r.toNat * 1000000) hfree
    have hthen := hwait [.tick (r.toNat * 1000000), .enter id' c.enforce, .lock id'] id' _
      (by rw [trace_eq_nil _ (by simp [Limiter.recorded])]; simp) hget rfl
      (by rw [← hr']; rfl) rfl
    rw [System.run_append, counted_iff hget rfl, hevents] at hthen
    have hunder := hthen x hx'
    rw [← hlater _ (by rw [← hr']; rfl)]
    exact hunder
  · intro hsettles bs id' c' hspares hc' he hstarted hphase'
    rw [System.run_append, counted_iff hc' hphase']
    intro x hx'
    rw [he] at hx' ⊢
    have hle := subjectCount_run_le hspares hx' c'.startedAt
    have hunder := hsettles o ho hleast x hx'
    rw [← hlater _ hstarted] at hunder
    exact hle.trans_lt hunder

/-- A subject other than the one that is turned away asks from address `a`; half an hour later three
calls bring the account to its limit. -/
def olderStranger : List LimiterAction :=
  passes 0 ⟨.passwordResetRequest, ["other", "a"], by decide⟩ ++ [.tick 1800000000] ++
    passes 1 (resetFrom "b") ++ passes 2 (resetFrom "c") ++ passes 3 (resetFrom "d") ++
    [.enter 4 (resetFrom "a"), .lock 4]

/-- The call waits for the stranger's event, and the account is still at its limit afterwards. -/
theorem not_waitSuffices :
    (((limiter sumOfCodes).run .fresh (olderStranger ++ [.count 4])).calls.get? 4).map (·.phase) =
        some (.rejected 1800) ∧
      ¬ WaitSuffices sumOfCodes ((limiter sumOfCodes).run .fresh (olderStranger ++ [.count 4]))
        (resetFrom "a") 1800 := by
  refine ⟨by decide +kernel, fun h => ?_⟩
  have hthen := h [.tick 1800000000, .enter 5 (resetFrom "a"), .lock 5] 5
    ⟨resetFrom "a", 3600000000, .locked⟩ (by rw [trace_eq_nil _ (by simp [Limiter.recorded])]; simp)
    (by decide +kernel) rfl (by decide +kernel) rfl
  exact absurd hthen (by decide +kernel)

/-- Three calls of one subject, the first of them older than the others by more than a second. -/
def ownOldest : List LimiterAction :=
  passes 0 ⟨.passwordResetRequest, ["mail"], by decide⟩ ++ [.tick 1800000000] ++
    passes 1 ⟨.passwordResetRequest, ["mail"], by decide⟩ ++
    passes 2 ⟨.passwordResetRequest, ["mail"], by decide⟩ ++
    [.enter 3 ⟨.passwordResetRequest, ["mail"], by decide⟩, .lock 3]

/-- There the waiting time is enough. -/
theorem waitSuffices_own :
    WaitSuffices sumOfCodes ((limiter sumOfCodes).run .fresh (ownOldest ++ [.count 3]))
      ⟨.passwordResetRequest, ["mail"], by decide⟩ 1800 :=
  (waitSuffices_iff (show Limiter.fresh.calls = .empty from rfl)
    (show ((limiter sumOfCodes).run .fresh ownOldest).calls.get? 3 =
      some ⟨⟨.passwordResetRequest, ["mail"], by decide⟩, 1800000000, .locked⟩ by decide +kernel)
    rfl (by decide +kernel)).mpr (by decide +kernel)

end Runs

end AgentCraft.Access
