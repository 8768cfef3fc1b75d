import AgentCraft.Access.RateLimit
import AgentCraft.Transition.Window

/-!
# What the rate limiter bounds

The lock of `enforce` is keyed by the whole subject set, so calls that share one subject of several
count next to each other, and each of them is admitted. A clean-up of a later call can also take events
away that an earlier one still has to count. Apart from these two the count is enough: no subject ever
has more events in a window than the limit of the scope allows.
-/

namespace AgentCraft.Access

open AgentCraft.Relational AgentCraft.Transition

/-- The times of the events of one subject. -/
def stamps (events : List RateLimitEvent) (scope : Scope) (x : Subject) : Multiset Time :=
  (events.filter fun e => e.scope = scope && e.subjectHash = x).map (·.occurredAt)

/-- The call has been admitted and is about to record an event of the subject. -/
def Call.isPending (scope : Scope) (x : Subject) (c : Call) : Bool :=
  c.phase = .counted && c.enforce.scope = scope && x ∈ c.enforce.subjects

/-- The times of the events that admitted calls are about to record. -/
def Limiter.pending (w : Limiter) (scope : Scope) (x : Subject) : Multiset Time :=
  w.calls.sum fun _ c => if c.isPending scope x then {c.startedAt} else 0

/-- No subject has more events in a window than the limit allows. -/
def RateSound (events : List RateLimitEvent) : Prop :=
  ∀ scope x, Windowed scope.window scope.limit (stamps events scope x)

/-- A call that its count admits would also be admitted if the events that admitted calls are about to
record were there already, and a clean-up takes no event away that a call still has to count. -/
def CountsSettled (w : Limiter) : LimiterAction → Prop
  | .count id => ∀ c ∈ w.calls.get? id,
      (eventCount w.events c.enforce.scope c.startedAt c.enforce.subjects).1 < c.enforce.scope.limit →
      ∀ x ∈ c.enforce.subjects, subjectCount w.events c.enforce.scope c.startedAt x +
        recentCount c.enforce.scope.window c.startedAt (w.pending c.enforce.scope x) <
          c.enforce.scope.limit
  | .commit id => ∀ c ∈ w.calls.get? id, ∀ r ∈ w.calls.rows, r.2.phase.isUncounted = true →
      r.2.enforce.scope = c.enforce.scope → ∀ e ∈ w.events, e.subjectHash ∈ r.2.enforce.subjects →
      e.isRecent c.enforce.scope r.2.startedAt = true →
      c.startedAt < e.occurredAt + c.enforce.scope.window
  | _ => True

instance (w : Limiter) (a : LimiterAction) : Decidable (CountsSettled w a) := by
  unfold CountsSettled
  split <;> infer_instance

/-! ## Counting -/

section Counting

variable {events : List RateLimitEvent} {scope scope' : Scope} {now t : Time} {x : Subject}
  {w : Limiter} {c : Call} {id : CallId}

theorem stamps_append (events' : List RateLimitEvent) :
    stamps (events ++ events') scope x = stamps events scope x + stamps events' scope x := by
  simp [stamps]

/-- A call records one event for each of its subjects. -/
theorem stamps_rows : stamps c.rows scope x =
    if c.enforce.scope = scope ∧ x ∈ c.enforce.subjects then {c.startedAt} else 0 := by
  have hnd := c.enforce.nodup
  simp only [stamps, Call.rows]
  generalize c.enforce.subjects = xs at hnd
  by_cases hs : c.enforce.scope = scope
  · induction xs with
    | nil => simp
    | cons y ys ih =>
      rw [List.nodup_cons] at hnd
      by_cases hx : y = x
      · subst hx
        have hrest := ih hnd.2
        simp_all
      · have hrest := ih hnd.2
        simp_all [eq_comm]
  · simp [hs]

/-- The count of the query is a count of time stamps. -/
theorem subjectCount_eq : subjectCount events scope t x =
    recentCount scope.window t (stamps events scope x) := by
  rw [subjectCount, stamps, recentCount_coe, List.countP_map, List.countP_filter]
  refine List.countP_congr fun e _ => ?_
  rw [RateLimitEvent.isRecent, Function.comp_apply]
  simp only [Bool.and_eq_true]
  exact ⟨fun ⟨hx, hs, ht⟩ => ⟨ht, hs, hx⟩, fun ⟨ht, hs, hx⟩ => ⟨hx, hs, ht⟩⟩

theorem subjectCount_append (events' : List RateLimitEvent) :
    subjectCount (events ++ events') scope t x =
      subjectCount events scope t x + subjectCount events' scope t x :=
  List.countP_append

/-- A clean-up does not change a count whose events it does not take away. -/
theorem subjectCount_cleanup (h : scope' = scope → ∀ e ∈ events, e.subjectHash = x →
    e.isRecent scope t = true → now < e.occurredAt + scope.window) :
    subjectCount (cleanup events scope' now) scope t x = subjectCount events scope t x := by
  simp only [subjectCount, cleanup, List.countP_filter]
  refine List.countP_congr fun e he => ?_
  simp only [Bool.and_eq_true, Bool.not_eq_true', Bool.and_eq_false_iff, decide_eq_true_eq,
    decide_eq_false_iff_not, and_iff_left_iff_imp]
  rintro ⟨hx, hrecent⟩
  by_cases hs : scope' = scope
  · have hlt := h hs e he hx hrecent
    subst hs
    exact .inr (Nat.not_le.mpr hlt)
  · left
    intro he'
    simp only [RateLimitEvent.isRecent, Bool.and_eq_true, decide_eq_true_eq] at hrecent
    exact hs (he'.symm.trans hrecent.1)

/-- A clean-up takes events away. -/
theorem subjectCount_cleanup_le :
    subjectCount (cleanup events scope' now) scope t x ≤ subjectCount events scope t x :=
  List.filter_sublist.countP_le

/-- The largest count bounds the count of every subject. -/
theorem subjectCount_le_eventCount {subjects : List Subject} (hx : x ∈ subjects) :
    subjectCount events scope t x ≤ (eventCount events scope t subjects).1 := by
  simp only [eventCount]
  induction subjects with
  | nil => cases hx
  | cons y ys ih =>
    rw [List.map_cons, List.foldr_cons]
    rcases List.mem_cons.mp hx with rfl | hx
    · exact le_max_left _ _
    · exact (ih hx).trans (le_max_right _ _)

/-- A call that moves on changes the pending events by its own. -/
theorem Limiter.pending_setPhase (hc : w.calls.get? id = some c) (phase : CallPhase) (scope : Scope)
    (x : Subject) :
    (w.setPhase id c phase).pending scope x + (if c.isPending scope x then {c.startedAt} else 0) =
      w.pending scope x +
        if ({ c with phase := phase } : Call).isPending scope x then {c.startedAt} else 0 :=
  Table.sum_set hc _ _

theorem Limiter.pending_setPhase_of_ne (hc : w.calls.get? id = some c) (h : c.phase ≠ .counted)
    {phase : CallPhase} (h' : phase ≠ .counted) :
    (w.setPhase id c phase).pending scope x = w.pending scope x := by
  have hsum := Limiter.pending_setPhase hc phase scope x
  simpa [Call.isPending, h, h'] using hsum

/-- A call that is admitted adds its events to the pending ones. -/
theorem Limiter.pending_counted (hc : w.calls.get? id = some c) (h : c.phase ≠ .counted) :
    (w.setPhase id c .counted).pending scope x = w.pending scope x + stamps c.rows scope x := by
  have hsum := Limiter.pending_setPhase hc .counted scope x
  rw [stamps_rows]
  simpa [Call.isPending, h] using hsum

/-- A call that ends takes its events from the pending ones. -/
theorem Limiter.pending_of_counted (hc : w.calls.get? id = some c) (h : c.phase = .counted)
    (phase : CallPhase) (h' : phase ≠ .counted) :
    (w.setPhase id c phase).pending scope x + stamps c.rows scope x = w.pending scope x := by
  have hsum := Limiter.pending_setPhase hc phase scope x
  rw [stamps_rows]
  simpa [Call.isPending, h, h'] using hsum

end Counting

/-! ## The invariant -/

/-- The history with what admitted calls are about to record is under the limits, and what a call has
to count, or may have to, is still in the table. -/
structure Limiter.Settled (w : Limiter) (history : List RateLimitEvent) : Prop where
  sound : ∀ scope x, Windowed scope.window scope.limit (stamps history scope x + w.pending scope x)
  counted : ∀ id c, w.calls.get? id = some c → c.phase.isUncounted = true →
    ∀ x ∈ c.enforce.subjects, subjectCount history c.enforce.scope c.startedAt x ≤
      subjectCount w.events c.enforce.scope c.startedAt x
  kept : ∀ scope x t, w.now ≤ t → subjectCount history scope t x ≤ subjectCount w.events scope t x
  begun : ∀ id c, w.calls.get? id = some c → c.startedAt ≤ w.now

section Steps

variable {hashtext : String → ℤ} {w w' : Limiter} {history : List RateLimitEvent} {id : CallId}
  {c : Call} {a : LimiterAction}

/-- Calls that move on have begun, and those that still have to count were among them before. -/
theorem Limiter.Settled.setPhase (hi : w.Settled history) (hc : w.calls.get? id = some c)
    (phase : CallPhase) (hphase : phase.isUncounted = true → c.phase.isUncounted = true)
    (hsound : ∀ scope x, Windowed scope.window scope.limit
      (stamps history scope x + (w.setPhase id c phase).pending scope x)) :
    (w.setPhase id c phase).Settled history where
  sound := hsound
  counted id' c' hc' hun x hx := by
    simp only [Limiter.setPhase, Table.get?_set] at hc'
    split at hc'
    · next heq =>
      rw [heq, hc] at hc'
      cases hc'
      exact hi.counted id c hc (hphase hun) x hx
    · exact hi.counted id' c' hc' hun x hx
  kept := hi.kept
  begun id' c' hc' := by
    simp only [Limiter.setPhase, Table.get?_set] at hc'
    split at hc'
    · next heq =>
      rw [heq, hc] at hc'
      cases hc'
      exact hi.begun id c hc
    · exact hi.begun id' c' hc'

/-- A call that its count admits: its events are under the limits with all the others. -/
theorem Limiter.Settled.count (hi : w.Settled history) (hc : w.calls.get? id = some c)
    (hphase : c.phase = .locked) (hG : CountsSettled w (.count id)) :
    (w.count id c).Settled history := by
  have hne : c.phase ≠ .counted := by rw [hphase]; simp
  unfold Limiter.count
  split
  next cnt oldest hcnt =>
  split
  · refine hi.setPhase hc _ (by simp [CallPhase.isUncounted]) fun scope x => ?_
    rw [Limiter.pending_setPhase_of_ne hc hne (by simp)]
    exact hi.sound scope x
  · next hlt =>
    refine hi.setPhase hc _ (by simp [CallPhase.isUncounted]) fun scope x => ?_
    rw [Limiter.pending_counted hc hne, stamps_rows, ← add_assoc]
    split
    · next hx =>
      obtain ⟨rfl, hx⟩ := hx
      refine (hi.sound _ x).add_singleton ?_
      have hle := hi.counted id c hc (by rw [hphase]; rfl) x hx
      have hroom := hG c hc (by rw [hcnt]; exact Nat.not_le.mp hlt) x hx
      rw [recentCount_add, ← subjectCount_eq]
      omega
    · rw [add_zero]
      exact hi.sound scope x

/-- What a clean-up leaves of a count that it does not interfere with. -/
theorem subjectCount_commit {scope : Scope} {t : Time} {x : Subject}
    (h : c.enforce.scope = scope → ∀ e ∈ w.events, e.subjectHash = x → e.isRecent scope t = true →
      c.startedAt < e.occurredAt + scope.window) :
    subjectCount (w.commit id c).events scope t x =
      subjectCount w.events scope t x + subjectCount c.rows scope t x := by
  rw [← subjectCount_append]
  refine subjectCount_cleanup fun hs e he hx hrecent => ?_
  rcases List.mem_append.mp he with he | he
  · exact h hs e he hx hrecent
  · obtain ⟨y, -, rfl⟩ := List.mem_map.mp he
    have hpos : 0 < scope.window := by cases scope <;> decide
    exact Nat.lt_add_of_pos_right hpos

/-- A commit moves the events of its call from the pending ones to the recorded ones, and takes away
only what nobody has to count any more. -/
theorem Limiter.Settled.commit (hi : w.Settled history) (hc : w.calls.get? id = some c)
    (hphase : c.phase = .counted) (hG : CountsSettled w (.commit id)) :
    (w.commit id c).Settled (history ++ c.rows) := by
  have hmoved (scope : Scope) (x : Subject) :
      stamps (history ++ c.rows) scope x + (w.commit id c).pending scope x =
        stamps history scope x + w.pending scope x := by
    rw [stamps_append, add_assoc, ← Limiter.pending_of_counted hc hphase .admitted (by simp),
      add_comm (stamps c.rows scope x)]
    rfl
  have hbase := hi.setPhase hc .admitted (by simp [CallPhase.isUncounted]) fun scope x =>
    (hi.sound scope x).mono (by
      rw [← Limiter.pending_of_counted hc hphase .admitted (by simp), ← add_assoc]
      exact Multiset.le_add_right _ _)
  refine ⟨fun scope x => ?_, fun id' c' hc' hun x hx => ?_, fun scope x t ht => ?_, hbase.begun⟩
  · rw [hmoved]
    exact hi.sound scope x
  · rw [subjectCount_append, subjectCount_commit]
    · exact Nat.add_le_add_right (hbase.counted id' c' hc' hun x hx) _
    · intro hs e he hex hrecent
      have hold : w.calls.get? id' = some c' := by
        change (w.calls.set id { c with phase := .admitted }).get? id' = some c' at hc'
        rw [Table.get?_set] at hc'
        split at hc'
        · next heq =>
          rw [heq, hc] at hc'
          cases hc'
          cases hun
        · exact hc'
      rw [← hs] at hrecent ⊢
      exact hG c hc (id', c') (Table.get?_eq_some_iff.mp hold) hun hs.symm e he (hex ▸ hx) hrecent
  · rw [subjectCount_append, subjectCount_commit]
    · exact Nat.add_le_add_right (hi.kept scope x t ht) _
    · intro hs e he hex hrecent
      have hbegun := hi.begun id c hc
      have hlt : t < e.occurredAt + scope.window := by
        simp only [RateLimitEvent.isRecent, Bool.and_eq_true, decide_eq_true_eq] at hrecent
        exact hrecent.2
      exact (hbegun.trans ht).trans_lt hlt

theorem Limiter.Settled.step (hi : w.Settled history) (hG : CountsSettled w a)
    (h : w.step hashtext a = .ok w') : w'.Settled (history ++ w.recorded a) := by
  have hnil : history = history ++ [] := (List.append_nil _).symm
  cases Limiter.step_move h with
  | tick micros =>
    rw [show w.recorded (.tick micros) = [] from rfl, ← hnil]
    exact ⟨hi.sound, hi.counted, fun scope x t ht => hi.kept scope x t ((Nat.le_add_right _ _).trans ht),
      fun id c hc => (hi.begun id c hc).trans (Nat.le_add_right _ _)⟩
  | enter id e hnone =>
    rw [show w.recorded (.enter id e) = [] from rfl, ← hnil]
    have hget (id' : CallId) (c' : Call)
        (hc' : (w.calls.insert id ⟨e, w.now, .waiting⟩).get? id' = some c') :
        c' = ⟨e, w.now, .waiting⟩ ∨ w.calls.get? id' = some c' := by
      rw [Table.get?_insert hnone] at hc'
      split at hc'
      · exact .inl (Option.some.inj hc').symm
      · exact .inr hc'
    refine ⟨fun scope x => ?_, fun id' c' hc' hun x hx => ?_, hi.kept, fun id' c' hc' => ?_⟩
    · have hsame : Limiter.pending { w with calls := w.calls.insert id ⟨e, w.now, .waiting⟩ }
          scope x = w.pending scope x + 0 :=
        Table.sum_insert hnone _ _
      rw [hsame, add_zero]
      exact hi.sound scope x
    · rcases hget id' c' hc' with rfl | hc'
      · exact hi.kept _ x _ le_rfl
      · exact hi.counted id' c' hc' hun x hx
    · rcases hget id' c' hc' with rfl | hc'
      · exact le_rfl
      · exact hi.begun id' c' hc'
  | lock id c hc hphase hfree =>
    rw [show w.recorded (.lock id) = [] from rfl, ← hnil]
    refine hi.setPhase hc _ (fun _ => by rw [hphase]; rfl) fun scope x => ?_
    rw [Limiter.pending_setPhase_of_ne hc (by rw [hphase]; simp) (by simp)]
    exact hi.sound scope x
  | count id c hc hphase =>
    rw [show w.recorded (.count id) = [] from rfl, ← hnil]
    exact hi.count hc hphase hG
  | commit id c hc hphase =>
    rw [show w.recorded (.commit id) = c.rows by simp only [Limiter.recorded, hc]]
    exact hi.commit hc hphase hG
  | lose id c hc hphase =>
    rw [show w.recorded (.lose id) = [] from rfl, ← hnil]
    refine hi.setPhase hc _ (by simp [CallPhase.isUncounted]) fun scope x => (hi.sound scope x).mono ?_
    by_cases hphase : c.phase = .counted
    · rw [← Limiter.pending_of_counted hc hphase .lost (by simp), ← add_assoc]
      exact Multiset.le_add_right _ _
    · rw [Limiter.pending_setPhase_of_ne hc hphase (by simp)]

theorem Limiter.Initial.settled (h : w.Initial) : w.Settled [] := by
  have hnone (id : CallId) : w.calls.get? id = none := by
    rw [h.calls]
    rfl
  refine ⟨fun scope x => ?_, fun id c hc => ?_, fun scope x t _ => Nat.zero_le _, fun id c hc => ?_⟩
  · have hpending : w.pending scope x = 0 := by
      rw [Limiter.pending, h.calls]
      rfl
    rw [hpending]
    exact windowed_zero
  · rw [hnone] at hc
    cases hc
  · rw [hnone] at hc
    cases hc

end Steps

/-! ## Runs -/

section Runs

variable {hashtext : String → ℤ} {w₀ : Limiter} {as : List LimiterAction}

/-- Every window of every subject stays under the limit in every run whose counts are settled. -/
theorem rateSound_of_run (h₀ : w₀.Initial) (hG : (limiter hashtext).Guarded CountsSettled w₀ as) :
    RateSound ((limiter hashtext).trace Limiter.recorded w₀ as) := by
  have hinv := System.trace_invariant_of_guarded (S := limiter hashtext) (G := CountsSettled)
    (I := Limiter.Settled) (fun w h a w' hi hG hs => hi.step hG hs) h₀.settled hG
  exact fun scope x => (hinv.sound scope x).mono (Multiset.le_add_right _ _)

/-- The steps of a call that is let through. -/
def passes (id : CallId) (e : Enforce) : List LimiterAction :=
  [.enter id e, .lock id, .count id, .commit id]

/-- A hash that tells the keys below apart. -/
def sumOfCodes (s : String) : ℤ := (s.toList.map fun c => (c.toNat : ℤ)).sum

/-- A password reset of one account that is requested from an address. -/
def resetFrom (ip : Subject) : Enforce :=
  ⟨.passwordResetRequest, ["mail", ip].dedup, List.nodup_dedup _⟩

/-- Nothing has happened yet. -/
def Limiter.fresh : Limiter := ⟨[], .empty, 0⟩

theorem Limiter.fresh_initial : Limiter.fresh.Initial := ⟨rfl, rfl⟩

/-- Four calls one after the other: the fourth is turned away until the window has passed. -/
theorem rateSound_of_run_sequential : RateSound ((limiter sumOfCodes).trace Limiter.recorded .fresh
    (passes 0 (resetFrom "a") ++ passes 1 (resetFrom "b") ++ passes 2 (resetFrom "c") ++
      passes 3 (resetFrom "d") ++ [.tick 3600000000] ++ passes 4 (resetFrom "e"))) :=
  rateSound_of_run Limiter.fresh_initial (by decide)

/-- Two calls for one account from two addresses count next to each other. -/
theorem not_rateSound_of_overlap : ¬ RateSound ((limiter sumOfCodes).trace Limiter.recorded .fresh
    (passes 0 (resetFrom "a") ++ passes 1 (resetFrom "b") ++
      [.enter 2 (resetFrom "c"), .enter 3 (resetFrom "d"), .lock 2, .lock 3, .count 2, .count 3,
        .commit 2, .commit 3])) := by
  intro h
  exact absurd (h .passwordResetRequest "mail" 0) (by decide)

/-- A call that waits while a later one cleans up finds an empty table, and is admitted into a window
that is full. -/
example : ¬ RateSound ((limiter sumOfCodes).trace Limiter.recorded .fresh
    ([.tick 1] ++ passes 0 (resetFrom "a") ++ passes 1 (resetFrom "a") ++ passes 2 (resetFrom "a") ++
      [.tick 3599999999, .enter 3 (resetFrom "a"), .tick 1] ++
      passes 4 ⟨.passwordResetRequest, ["other", "b"], by decide⟩ ++
      [.lock 3, .count 3, .commit 3])) := by
  intro h
  exact absurd (h .passwordResetRequest "mail" 1) (by decide)

end Runs

end AgentCraft.Access
