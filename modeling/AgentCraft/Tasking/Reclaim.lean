import AgentCraft.Tasking.Rounds

/-!
# Reclaiming expired leases

The scan of `reclaim_once` selects running rounds whose lease has expired; the transaction that
follows, possibly much later, compares owner, epoch and state. A renewal changes none of these, so a
round whose lease was renewed in between is reclaimed all the same. Without such a renewal the rounds
of the candidates in flight stay expired (`ExpiredCandidate.Stale`) and every live lease is respected.
-/

namespace AgentCraft.Tasking

open AgentCraft.Relational AgentCraft.Transition

/-- The round runs under a lease that has not expired. -/
def TaskRound.isLeased (now : Time) (r : TaskRound) : Bool :=
  r.state = .running && r.leaseExpiresAt.any (now < ·)

/-- If the action reclaims an expired round, it leaves every round with a live lease as it is. -/
def RespectsLeases (cfg : Settings) (nfc : String → String) (w : World) : Action → Prop
  | .perform (.reclaimExpired c) locked => ∀ tid r, w.db.HasRound tid r →
      r.isLeased w.db.now = true →
      ((system cfg nfc).next w (.perform (.reclaimExpired c) locked)).db.HasRound tid r
  | _ => True

/-- The candidate was scanned under the lease `c`. -/
def Job.reclaims (c : RoundContext) : Job → Bool
  | .reclaimExpired e => e.round = c.round && e.leaseOwner = some c.inst && e.leaseEpoch = c.epoch
  | _ => false

/-- The action renews no lease that a candidate in flight was scanned under. -/
def RenewsNoCandidate (w : World) : Action → Prop
  | .write (.renew c) => recheckRound w.db c = true → ∀ j ∈ w.jobs, j.reclaims c = false
  | _ => True

instance (w : World) (a : Action) : Decidable (RenewsNoCandidate w a) := by
  unfold RenewsNoCandidate
  split <;> infer_instance

/-- What is known of a candidate in flight: a round that its fence finds has expired. -/
structure ExpiredCandidate.Stale (db : Db) (c : ExpiredCandidate) : Prop where
  issued : c.round < db.nextId
  epoch : ∀ tid r, db.HasRound tid r → r.id = c.round → c.leaseEpoch ≤ r.leaseEpoch
  expired : ∀ tid r, db.HasRound tid r → c.fences r = true → r.isLeased db.now = false

theorem ExpiredCandidate.fences_iff (c : ExpiredCandidate) {r : TaskRound} (h : c.fences r = true) :
    r.id = c.round ∧ r.state = .running ∧ r.leaseOwner = c.leaseOwner ∧
      r.leaseEpoch = c.leaseEpoch := by
  simp only [ExpiredCandidate.fences, Bool.and_eq_true, decide_eq_true_eq] at h
  exact ⟨h.1.1.1.1, h.1.1.1.2, h.1.2, h.2⟩

/-- A lease that has expired stays expired. -/
theorem TaskRound.isLeased_eq_false_of_le {now now' : Time} (hle : now ≤ now') {r : TaskRound}
    (h : r.isLeased now = false) : r.isLeased now' = false := by
  rw [← Bool.not_eq_true] at h ⊢
  intro hl
  apply h
  simp only [TaskRound.isLeased, Bool.and_eq_true, Option.any_eq_true, decide_eq_true_eq] at hl ⊢
  obtain ⟨hs, x, hx, hlt⟩ := hl
  exact ⟨hs, x, hx, hle.trans_lt hlt⟩

/-! ## Candidates stay stale -/

namespace ExpiredCandidate.Stale

variable {expects : Expects} {db db' : Db} {c : ExpiredCandidate}

/-- One change: only a renewal could give the round of the candidate a live lease. -/
theorem change (h : c.Stale db) (hco : db.Coherent) (hc : Change expects db db')
    (hrenew : ∀ tid t, db.tasks.get? tid = some t → expects .renew tid t →
      ∀ r ∈ t.rounds, c.fences r = false) : c.Stale db' := by
  refine ⟨h.issued.trans_le hc.nextId_le, fun tid r' hr' hid => ?_, fun tid r' hr' hf => ?_⟩
  · rcases hc.round hco hr' with ⟨k, t, r, ht, hr, hstep, -⟩ | ⟨-, hn, -⟩
    · exact (h.epoch tid r ⟨t, ht, hr⟩ (hstep.id_eq.symm.trans hid)).trans hstep.leaseEpoch_le
    · rw [hid] at hn
      exact absurd h.issued (Nat.not_lt.mpr hn)
  · obtain ⟨hid, hstate, -, hepoch⟩ := c.fences_iff hf
    rcases hc.round hco hr' with ⟨k, t, r, ht, hr, hstep, hexp⟩ | ⟨-, hn, -⟩
    · have hround : db.HasRound tid r := ⟨t, ht, hr⟩
      have hsame (heq : r' = r) : r'.isLeased db'.now = false := by
        rw [heq] at hf ⊢
        exact TaskRound.isLeased_eq_false_of_le hc.now_le (h.expired tid r hround hf)
      rcases hexp with heq | hexp
      · exact hsame heq
      · cases hstep with
        | refl => exact hsame rfl
        | renew _ e hs =>
          have hno : c.fences r = false := hrenew tid t ht hexp r hr
          rw [show c.fences (r.renew e) = c.fences r from rfl, hno] at hf
          cases hf
        | claim _ iid e hs =>
          -- the claim has started a later epoch
          have hle := h.epoch tid r hround hid
          rw [← hepoch] at hle
          exact absurd hle (Nat.not_succ_le_self _)
        | cancelling => cases hstate
        | requeue _ _ hs ha =>
          rw [show (r.reclaim r.attempt).state = .pending by
            rw [TaskRound.reclaim, reclaimOutcome, if_neg (Nat.not_le.mpr ha)]] at hstate
          cases hstate
        | close _ _ s o e hs hs' =>
          rw [show s = .running from hstate] at hs'
          cases hs'
    · rw [hid] at hn
      exact absurd h.issued (Nat.not_lt.mpr hn)

/-- A sequence of changes; the lease is not among those that are renewed. -/
theorem changes (h : c.Stale db) (hco : db.Coherent) (hc : Changes expects db db')
    (hrenew : ∀ tid t q, t.control.phase? = some q → expects .renew tid t →
      ∀ r ∈ t.rounds, c.fences r = false) : c.Stale db' := by
  have hboth : db'.Coherent ∧ c.Stale db' := by
    induction hc with
    | refl => exact ⟨hco, h⟩
    | tail _ hc ih =>
      refine ⟨hc.coherent ih.1, ih.2.change ih.1 hc fun tid t ht hexp => ?_⟩
      obtain ⟨q, hq⟩ := ih.1.phases tid t ht
      exact hrenew tid t q hq hexp
  exact hboth.2

/-- Rows that vanish make no candidate live. -/
theorem of_rows (h : c.Stale db) (hid : db'.nextId = db.nextId) (hnow : db'.now = db.now)
    (hrows : ∀ tid t, db'.tasks.get? tid = some t → db.tasks.get? tid = some t) : c.Stale db' := by
  have hround {tid : TaskId} {r : TaskRound} (hr : db'.HasRound tid r) : db.HasRound tid r := by
    obtain ⟨t, ht, hmem⟩ := hr
    exact ⟨t, hrows tid t ht, hmem⟩
  refine ⟨?_, fun tid r hr => h.epoch tid r (hround hr), fun tid r hr => ?_⟩
  · rw [hid]
    exact h.issued
  · rw [hnow]
    exact h.expired tid r (hround hr)

end ExpiredCandidate.Stale

/-- The scan of `reclaim_once` finds what is stale. -/
theorem stale_of_expiredCandidate {db : Db} (hv : db.RoundsValid) {c : ExpiredCandidate}
    (h : c ∈ expiredCandidates db) : c.Stale db := by
  obtain ⟨⟨x, r₀⟩, hx, rfl⟩ := List.mem_map.mp h
  obtain ⟨⟨tid₀, t₀⟩, hrow, hr₀⟩ := List.mem_flatMap.mp hx
  obtain ⟨r₁, hmem, heq⟩ := List.mem_map.mp hr₀
  obtain ⟨rfl, rfl⟩ := Prod.mk.inj heq
  obtain ⟨hmem, hp⟩ := List.mem_filter.mp hmem
  have hround : db.HasRound tid₀ r₁ := ⟨t₀, Table.get?_eq_some_iff.mpr hrow, hmem⟩
  refine ⟨hv.issued tid₀ r₁ hround, fun tid r hr hid => ?_, fun tid r hr hf => ?_⟩
  · rw [hv.eq_of_id_eq hr hround hid]
  · rw [hv.eq_of_id_eq hr hround (ExpiredCandidate.fences_iff _ hf).1]
    simp only [Bool.and_eq_true, Option.any_eq_true, decide_eq_true_eq] at hp
    obtain ⟨hs, x, hx, hlt⟩ := hp
    rw [TaskRound.isLeased, hx, hs, Option.any_some, decide_eq_false (Nat.not_lt.mpr hlt.le)]
    exact Bool.and_false _

/-! ## Runs -/

section Runs

variable {cfg : Settings} {nfc : String → String} {w w' w₀ : World} {a : Action} {as : List Action}

theorem recheckRound_of_renewLease {db db' : Db} {c : RoundContext}
    (h : renewLease cfg db c = .ok db') : recheckRound db c = true := by
  unfold renewLease at h
  unfold recheckRound
  split at h
  · cases h
  · next t hvis =>
    obtain ⟨hr, -⟩ := ite_error_eq_ok.mp h
    exact List.any_eq_true.mpr (List.countP_pos_iff.mp (Nat.pos_of_ne_zero hr))

/-- A step that renews no candidate leaves all candidates stale. -/
theorem step_stale (hco : w.Coherent) (hv : w.db.RoundsValid)
    (hstale : ∀ c, .reclaimExpired c ∈ w.jobs → c.Stale w.db) (hG : RenewsNoCandidate w a)
    (h : step cfg nfc w a = .ok w') : ∀ c, .reclaimExpired c ∈ w'.jobs → c.Stale w'.db := by
  intro c hj
  rcases step_jobs h hj with hj | ⟨s, -, hdb, hj⟩
  · rcases step_changes hco.db hco.jobs h with hc | ⟨u, ids, locked, -, -, hdb⟩
    · refine (hstale c hj).changes hco.db hc fun tid t q hq hexp r hr => ?_
      unfold Action.Expects at hexp
      split at hexp <;> try contradiction
      next x _ =>
      -- the renewal finds the only running round of the task
      obtain ⟨db', hdb, -⟩ := bind_eq_ok.mp h
      obtain ⟨r₀, hr₀, hp₀⟩ := List.countP_pos_iff.mp (Nat.pos_of_ne_zero hexp.2)
      rw [← Bool.not_eq_true]
      intro hf
      obtain ⟨hid, hs, howner, hepoch⟩ := c.fences_iff hf
      have heq : r = r₀ := Control.Move.eq_of_fences hq (p := fun r => r.state = .running)
        (fun _ => of_decide_eq_true) rfl hr (decide_eq_true hs) hr₀
        (decide_eq_true (x.state_of_fences hp₀))
      simp only [RoundContext.fences, Bool.and_eq_true, decide_eq_true_eq, ← heq] at hp₀
      have hno := hG (recheckRound_of_renewLease hdb) _ hj
      simp only [Job.reclaims, ← hid, ← howner, ← hepoch, hp₀, decide_true, Bool.and_self] at hno
      cases hno
    · obtain ⟨hnow, hid⟩ := terminateTasksHook_frame w.db u ids
      refine (hstale c hj).of_rows (by rw [hdb, hid]) (by rw [hdb, hnow]) ?_
      rw [hdb]
      exact fun _ _ => terminateTasksHook_row_of u ids
  · rw [hdb]
    cases s with
    | reclaim =>
      rcases List.mem_append.mp hj with hj | hj <;> obtain ⟨c', hc', heq⟩ := List.mem_map.mp hj <;>
        cases heq
      exact stale_of_expiredCandidate hv hc'
    | accountHook u => cases List.mem_singleton.mp hj
    | _ =>
      obtain ⟨c', -, heq⟩ := List.mem_map.mp hj
      cases heq

/-- A reclaim under a stale candidate respects every live lease. -/
theorem respectsLeases_of_stale (hstale : ∀ c, .reclaimExpired c ∈ w.jobs → c.Stale w.db) :
    RespectsLeases cfg nfc w a := by
  unfold RespectsLeases
  split
  · next c locked =>
    rintro tid r ⟨t, ht, hr⟩ hlease
    rcases System.next_cases (S := system cfg nfc) w (.perform (.reclaimExpired c) locked) with h | h
    · obtain ⟨hj, h⟩ := ite_ok_else_error.mp h
      obtain ⟨db', hdb, h⟩ := bind_eq_ok.mp h
      rw [← Except.ok.inj h]
      obtain ⟨t₀, t', r₀, -, -, hrounds, hm⟩ := reclaimExpired_moved hdb
      by_cases heq : tid = c.task
      · subst heq
        rw [hm.found] at ht
        cases ht
        refine ⟨t', hm.get?_self, ?_⟩
        rw [hrounds]
        refine mem_updateWhere.mpr ⟨r, hr, if_neg fun hf => ?_⟩
        rw [(hstale c hj).expired c.task r ⟨t, hm.found, hr⟩ hf] at hlease
        cases hlease
      · exact ⟨t, (hm.get?_ne heq).trans ht, hr⟩
    · rw [h]
      exact ⟨t, ht, hr⟩
  · trivial

/-- Reclaim respects live leases in every run that renews no lease between scan and transaction. -/
theorem respectsLeases_of_run (h₀ : w₀.Initial)
    (hG : (system cfg nfc).Guarded RenewsNoCandidate w₀ as) :
    (system cfg nfc).Guarded (RespectsLeases cfg nfc) w₀ as := by
  refine System.Guarded.of_invariant (I := fun w => w.Coherent ∧ w.db.RoundsValid ∧
      ∀ c, .reclaimExpired c ∈ w.jobs → c.Stale w.db) (fun w a w' hw hg hs => ?_)
    (fun w a hw _ => ?_) ?_ hG
  · exact ⟨hw.1.step hs, step_roundsValid hw.1 hw.2.1 hs, step_stale hw.1 hw.2.1 hw.2.2 hg hs⟩
  · exact respectsLeases_of_stale hw.2.2
  · exact ⟨h₀.coherent, h₀.roundsValid, fun c hc => by simp [h₀.jobs] at hc⟩

/-- The lease of executor 7 expires and its round is queued again; the renewal comes too late. -/
theorem respectsLeases_of_run_requeue :
    (system {} id).Guarded (RespectsLeases {} id) World.small
      (claimedRun ++ [.tick 30, .write (.renew ⟨12, 10, 1, 7, 1⟩), .tick 100, .scan .reclaim,
        .perform (.reclaimExpired ⟨12, 10, 1, some 7, 1⟩) [], .write (.renew ⟨12, 10, 1, 7, 1⟩)]) :=
  respectsLeases_of_run World.small_initial (by decide)

/-- Executor 7 renews its lease between the scan and the transaction, and loses the round. -/
theorem not_respectsLeases_of_renewal : ¬ (system {} id).Guarded (RespectsLeases {} id) World.small
    (claimedRun ++ [.tick 100, .scan .reclaim, .write (.renew ⟨12, 10, 1, 7, 1⟩),
      .perform (.reclaimExpired ⟨12, 10, 1, some 7, 1⟩) []]) := by
  intro h
  obtain ⟨-, -, -, hlast, -⟩ := (System.Guarded.append.mp h).2
  have hround := hlast 10 ⟨12, 11, .running, some 7, 1, some 190, 1⟩ (by decide) (by decide)
  exact absurd hround (by decide)

end Runs

end AgentCraft.Tasking
