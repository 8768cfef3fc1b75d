import AgentCraft.Tasking.Coupling

/-!
# Rounds over whole runs

Identifiers of rounds are never used twice, every claim counts both the epoch and the attempts of a
round, and a round that was closed stays closed. `Db.RoundsGrow` is what every transaction but a claim
does to the rounds of the database; `claimRound_rounds` is what a claim does.
-/

namespace AgentCraft.Tasking

open AgentCraft.Relational AgentCraft.Transition

/-- The task has the round. -/
def Db.HasRound (db : Db) (tid : TaskId) (r : TaskRound) : Prop :=
  ∃ t, db.tasks.get? tid = some t ∧ r ∈ t.rounds

instance (db : Db) (tid : TaskId) (r : TaskRound) : Decidable (db.HasRound tid r) :=
  decidable_of_iff (((db.tasks.get? tid).any fun t => r ∈ t.rounds) = true) (by
    simp [Db.HasRound, Option.any_eq_true])

/-- Epoch and attempts count the claims, which are at most `attemptLimit`. -/
structure TaskRound.AttemptsValid (r : TaskRound) : Prop where
  epoch : r.attempt = r.leaseEpoch
  limit : r.attempt ≤ attemptLimit
  pending : r.state = .pending → r.attempt < attemptLimit

/-- The rounds of the database: identified by their identifiers, which have all been issued. -/
structure Db.RoundsValid (db : Db) : Prop where
  nodup : ∀ tid t, db.tasks.get? tid = some t → (t.rounds.map (·.id)).Nodup
  disjoint : ∀ tid tid' r r', db.HasRound tid r → db.HasRound tid' r' → r.id = r'.id → tid = tid'
  issued : ∀ tid r, db.HasRound tid r → r.id < db.nextId
  attempts : ∀ tid r, db.HasRound tid r → r.AttemptsValid

theorem Db.RoundsValid.eq_of_id_eq {db : Db} (h : db.RoundsValid) {tid tid' : TaskId}
    {r r' : TaskRound} (hr : db.HasRound tid r) (hr' : db.HasRound tid' r') (hid : r.id = r'.id) :
    r = r' := by
  have htid := h.disjoint tid tid' r r' hr hr' hid
  subst htid
  obtain ⟨t, ht, hmem⟩ := hr
  obtain ⟨t', ht', hmem'⟩ := hr'
  rw [ht] at ht'
  cases ht'
  exact List.inj_on_of_nodup_map (h.nodup tid t ht) hmem hmem' hid

/-! ## One step of a round -/

namespace TaskRound.Step

variable {k : MoveKind} {r r' : TaskRound}

theorem id_eq (h : TaskRound.Step k r r') : r'.id = r.id := by
  cases h <;> rfl

/-- A round that is not active stays as it is. -/
theorem isActive (h : TaskRound.Step k r r') (ha : r'.state.isActive = true) :
    r.state.isActive = true := by
  cases h with
  | refl => exact ha
  | renew _ e h => rw [h]; rfl
  | claim _ iid e h => rw [h]; rfl
  | cancelling _ _ h => exact h
  | requeue _ _ h => rw [h]; rfl
  | close _ _ s o e h => exact h

/-- Only a claim moves the epoch. -/
theorem leaseEpoch_eq (h : TaskRound.Step k r r') (hk : k ≠ .claim) :
    r'.leaseEpoch = r.leaseEpoch := by
  cases h <;> first | rfl | exact absurd rfl hk

theorem leaseEpoch_le (h : TaskRound.Step k r r') : r.leaseEpoch ≤ r'.leaseEpoch := by
  cases h <;> first | exact le_rfl | exact Nat.le_succ _

theorem attemptsValid (h : TaskRound.Step k r r') (hr : r.AttemptsValid) : r'.AttemptsValid := by
  cases h with
  | refl => exact hr
  | renew _ e hs => exact ⟨hr.epoch, hr.limit, hr.pending⟩
  | claim _ iid e hs =>
    refine ⟨congrArg (· + 1) hr.epoch, hr.pending hs, fun hp => ?_⟩
    cases hp
  | cancelling _ _ hs =>
    refine ⟨hr.epoch, hr.limit, fun hp => ?_⟩
    cases hp
  | requeue _ _ hs ha => exact ⟨hr.epoch, hr.limit, fun _ => ha⟩
  | close _ _ s o e hs hc =>
    refine ⟨hr.epoch, hr.limit, fun hp => ?_⟩
    rw [show s = .pending from hp] at hc
    cases hc

end TaskRound.Step

/-! ## Rounds under a change -/

section Changes

variable {expects : Expects} {db db' : Db} {tid : TaskId} {r r' : TaskRound}

/-- Where a round of the new database comes from: a step of a round of the same task, or a pending
round under a fresh identifier. -/
theorem Change.round (hc : Change expects db db') (hco : db.Coherent) (hr : db'.HasRound tid r') :
    (∃ k t r, db.tasks.get? tid = some t ∧ r ∈ t.rounds ∧ TaskRound.Step k r r' ∧
      (r' = r ∨ expects k tid t)) ∨
      (∃ mid, r' = Control.pendingRound r'.id mid) ∧ db.nextId ≤ r'.id ∧ r'.id < db'.nextId := by
  obtain ⟨x, hx, hmem⟩ := hr
  cases hc with
  | still htasks =>
    rw [htasks] at hx
    exact .inl ⟨.quiet, x, r', hx, hmem, .refl _ r', .inl rfl⟩
  | born tid₀ t h =>
    rw [h.get?] at hx
    split at hx
    · cases hx
      have hnil : x.rounds = [] := congrArg Control.rounds h.control
      rw [hnil] at hmem
      cases hmem
    · exact .inl ⟨.quiet, x, r', hx, hmem, .refl _ r', .inl rfl⟩
  | moved k tid₀ t t' h hexp =>
    by_cases heq : tid = tid₀
    · subst heq
      rw [h.get?_self] at hx
      cases hx
      obtain ⟨q, hq⟩ := hco.phases tid t h.found
      rcases h.control.rounds_step hq hmem with ⟨r, hr, hstep⟩ | ⟨rid, mid, hn, hm, rfl⟩
      · exact .inl ⟨k, t, r, h.found, hr, hstep, .inr hexp⟩
      · exact .inr ⟨⟨mid, rfl⟩, hn, hm⟩
    · rw [h.get?_ne heq] at hx
      exact .inl ⟨.quiet, x, r', hx, hmem, .refl _ r', .inl rfl⟩

/-- A change touches the rounds of at most one task. -/
theorem Change.round_of_ne (hc : Change expects db db') :
    ∃ tid₀, ∀ tid r, tid ≠ tid₀ → db'.HasRound tid r → db.HasRound tid r := by
  cases hc with
  | still htasks =>
    refine ⟨0, fun tid r _ ⟨t, ht, hr⟩ => ⟨t, ?_, hr⟩⟩
    rw [← htasks]
    exact ht
  | born tid₀ t h =>
    refine ⟨tid₀, fun tid r hne ⟨x, hx, hr⟩ => ⟨x, ?_, hr⟩⟩
    rw [h.get?, if_neg hne] at hx
    exact hx
  | moved k tid₀ t t' h =>
    refine ⟨tid₀, fun tid r hne ⟨x, hx, hr⟩ => ⟨x, ?_, hr⟩⟩
    rw [h.get?_ne hne] at hx
    exact hx

theorem Change.roundsValid (hc : Change expects db db') (hco : db.Coherent) (h : db.RoundsValid) :
    db'.RoundsValid := by
  -- a round of the new database has the identifier of an old one, or a fresh one
  have hid {tid : TaskId} {r' : TaskRound} (hr' : db'.HasRound tid r') :
      (∃ r, db.HasRound tid r ∧ r.id = r'.id) ∨ db.nextId ≤ r'.id := by
    rcases hc.round hco hr' with ⟨k, t, r, ht, hr, hstep, -⟩ | ⟨-, hn, -⟩
    · exact .inl ⟨r, ⟨t, ht, hr⟩, hstep.id_eq.symm⟩
    · exact .inr hn
  refine ⟨fun tid x hx => ?_, fun tid tid' r r' hr hr' heq => ?_, fun tid r' hr' => ?_,
    fun tid r' hr' => ?_⟩
  · rcases hc.row hx with hx | hb | ⟨k, t, hm, -⟩
    · exact h.nodup tid x hx
    · rw [show x.rounds = [] from congrArg Control.rounds hb.control]
      exact List.nodup_nil
    · have hnd := h.nodup tid t hm.found
      rcases hm.control.rounds_ids with hids | ⟨rid, hn, -, hids⟩ | hids
      · rw [show x.rounds.map (·.id) = t.rounds.map (·.id) from hids]
        exact hnd
      · rw [show x.rounds.map (·.id) = t.rounds.map (·.id) ++ [rid] from hids]
        refine List.Nodup.append hnd (List.nodup_singleton rid) fun rid' hmem hmem' => ?_
        rw [List.mem_singleton.mp hmem'] at hmem
        obtain ⟨r, hr, rfl⟩ := List.mem_map.mp hmem
        exact absurd (h.issued tid r ⟨t, hm.found, hr⟩) (Nat.not_lt.mpr hn)
      · rw [show x.rounds = [] from hids]
        exact List.nodup_nil
  · by_contra hne
    rcases hid hr with ⟨r₀, hr₀, hid₀⟩ | hfresh <;> rcases hid hr' with ⟨r₁, hr₁, hid₁⟩ | hfresh'
    · exact hne (h.disjoint tid tid' r₀ r₁ hr₀ hr₁ (by rw [hid₀, hid₁, heq]))
    · exact absurd (h.issued tid r₀ hr₀) (by rw [hid₀, heq]; exact Nat.not_lt.mpr hfresh')
    · exact absurd (h.issued tid' r₁ hr₁) (by rw [hid₁, ← heq]; exact Nat.not_lt.mpr hfresh)
    · -- both would be fresh, but one of the two tasks has not been touched
      obtain ⟨tid₀, hsame⟩ := hc.round_of_ne
      by_cases h₀ : tid = tid₀
      · have hold := hsame tid' r' (fun h' => hne (h₀.trans h'.symm)) hr'
        exact absurd (h.issued tid' r' hold) (Nat.not_lt.mpr hfresh')
      · exact absurd (h.issued tid r (hsame tid r h₀ hr)) (Nat.not_lt.mpr hfresh)
  · rcases hc.round hco hr' with ⟨k, t, r, ht, hr, hstep, -⟩ | ⟨-, -, hm⟩
    · rw [hstep.id_eq]
      exact (h.issued tid r ⟨t, ht, hr⟩).trans_le hc.nextId_le
    · exact hm
  · rcases hc.round hco hr' with ⟨k, t, r, ht, hr, hstep, -⟩ | ⟨⟨mid, hpending⟩, -, -⟩
    · exact hstep.attemptsValid (h.attempts tid r ⟨t, ht, hr⟩)
    · rw [hpending]
      exact ⟨rfl, Nat.zero_le _, fun _ => Nat.succ_pos 2⟩

theorem Changes.roundsValid (hc : Changes expects db db') (hco : db.Coherent) (h : db.RoundsValid) :
    db'.RoundsValid := by
  have hboth : db'.Coherent ∧ db'.RoundsValid := by
    induction hc with
    | refl => exact ⟨hco, h⟩
    | tail _ hc ih => exact ⟨hc.coherent ih.1, hc.roundsValid ih.1 ih.2⟩
  exact hboth.2

/-- What a transaction does to the rounds, `claimed` being the round it claims if it claims one: that
round's epoch goes up by one, the other epochs stay, no round becomes active, and new rounds start at
epoch zero under fresh identifiers. -/
structure Db.RoundsGrow (claimed : Option RoundId) (db db' : Db) : Prop where
  rounds : ∀ tid r', db'.HasRound tid r' →
    (∃ r, db.HasRound tid r ∧ r.id = r'.id ∧
      r'.leaseEpoch = r.leaseEpoch + (if claimed = some r.id then 1 else 0) ∧
      (r'.state.isActive = true → r.state.isActive = true)) ∨
      (db.nextId ≤ r'.id ∧ r'.leaseEpoch = 0)
  nextId : db.nextId ≤ db'.nextId

theorem Db.RoundsGrow.refl (db : Db) : Db.RoundsGrow none db db :=
  ⟨fun _ r' h => .inl ⟨r', h, rfl, rfl, id⟩, le_rfl⟩

theorem Db.RoundsGrow.trans {db₁ db₂ db₃ : Db} (h : Db.RoundsGrow none db₁ db₂)
    (h' : Db.RoundsGrow none db₂ db₃) : Db.RoundsGrow none db₁ db₃ := by
  refine ⟨fun tid r'' hr'' => ?_, h.nextId.trans h'.nextId⟩
  rcases h'.rounds tid r'' hr'' with ⟨r', hr', hid', he', ha'⟩ | ⟨hn, he⟩
  · rcases h.rounds tid r' hr' with ⟨r, hr, hid, he, ha⟩ | ⟨hn, he⟩
    · exact .inl ⟨r, hr, hid.trans hid', he'.trans he, fun h => ha (ha' h)⟩
    · exact .inr ⟨hid' ▸ hn, he'.trans he⟩
  · exact .inr ⟨h.nextId.trans hn, he⟩

/-- Rows that vanish take their rounds along. -/
theorem Db.RoundsGrow.of_rows (hid : db'.nextId = db.nextId)
    (hrows : ∀ tid t, db'.tasks.get? tid = some t → db.tasks.get? tid = some t) :
    Db.RoundsGrow none db db' :=
  ⟨fun tid r' ⟨t, ht, hr⟩ => .inl ⟨r', ⟨t, hrows tid t ht, hr⟩, rfl, rfl, id⟩, hid.ge⟩

theorem Db.RoundsValid.of_rows (h : db.RoundsValid) (hid : db'.nextId = db.nextId)
    (hrows : ∀ tid t, db'.tasks.get? tid = some t → db.tasks.get? tid = some t) :
    db'.RoundsValid := by
  have hround {tid : TaskId} {r : TaskRound} (hr : db'.HasRound tid r) : db.HasRound tid r := by
    obtain ⟨t, ht, hmem⟩ := hr
    exact ⟨t, hrows tid t ht, hmem⟩
  exact ⟨fun tid t ht => h.nodup tid t (hrows tid t ht),
    fun tid tid' r r' hr hr' => h.disjoint tid tid' r r' (hround hr) (hround hr'),
    fun tid r hr => by rw [hid]; exact h.issued tid r (hround hr),
    fun tid r hr => h.attempts tid r (hround hr)⟩

theorem Change.roundsGrow (hc : Change expects db db') (hco : db.Coherent)
    (hno : ∀ tid t, ¬ expects .claim tid t) : Db.RoundsGrow none db db' := by
  refine ⟨fun tid r' hr' => ?_, hc.nextId_le⟩
  rcases hc.round hco hr' with ⟨k, t, r, ht, hr, hstep, hexp⟩ | ⟨⟨mid, hpending⟩, hn, -⟩
  · have hepoch : r'.leaseEpoch = r.leaseEpoch := by
      rcases hexp with rfl | hexp
      · rfl
      · refine hstep.leaseEpoch_eq ?_
        rintro rfl
        exact hno tid t hexp
    exact .inl ⟨r, ⟨t, ht, hr⟩, hstep.id_eq.symm, hepoch, hstep.isActive⟩
  · refine .inr ⟨hn, ?_⟩
    rw [hpending]
    rfl

theorem Changes.roundsGrow (hc : Changes expects db db') (hco : db.Coherent)
    (hno : ∀ tid t, ¬ expects .claim tid t) : Db.RoundsGrow none db db' := by
  have hboth : db'.Coherent ∧ Db.RoundsGrow none db db' := by
    induction hc with
    | refl => exact ⟨hco, .refl db⟩
    | tail _ hc ih => exact ⟨hc.coherent ih.1, ih.2.trans (hc.roundsGrow ih.1 hno)⟩
  exact hboth.2

end Changes

/-! ## Claims -/

/-- The round that a claim is about to take: the pending round of the candidate. -/
def Db.claimable? (db : Db) (c : RoundCandidate) : Option TaskRound :=
  (db.tasks.get? c.task).bind fun t => t.rounds.find? (·.claimable c.round)

/-- What a claim does to the rounds. -/
theorem claimRound_rounds {cfg : Settings} {db db' : Db} {locked : List ℕ} {c : RoundCandidate}
    {iid : InstanceId} (hv : db.RoundsValid) (h : claimRound cfg db locked c iid = .ok db') :
    ∃ r₀, db.claimable? c = some r₀ ∧ db.HasRound c.task r₀ ∧ r₀.id = c.round ∧
      r₀.state = .pending ∧ Db.RoundsGrow (some c.round) db db' := by
  obtain ⟨t, t', hr, hrounds, hm⟩ := claimRound_moved h
  obtain ⟨r₀, hfind⟩ : ∃ r₀, t.rounds.find? (·.claimable c.round) = some r₀ := by
    rw [← Option.isSome_iff_exists, List.find?_isSome]
    obtain ⟨r, hmem, hp⟩ := List.countP_pos_iff.mp (Nat.pos_of_ne_zero hr)
    exact ⟨r, hmem, hp⟩
  have hclaim := List.find?_some hfind
  have hid : r₀.id = c.round := by
    simp only [TaskRound.claimable, Bool.and_eq_true, decide_eq_true_eq] at hclaim
    exact hclaim.1
  have hr₀ : db.HasRound c.task r₀ := ⟨t, hm.found, List.mem_of_find?_eq_some hfind⟩
  refine ⟨r₀, by rw [Db.claimable?, hm.found, Option.bind_some, hfind], hr₀, hid,
    TaskRound.state_of_claimable hclaim, fun tid r' hr' => .inl ?_, hm.nextId⟩
  obtain ⟨x, hx, hmem⟩ := hr'
  by_cases heq : tid = c.task
  · subst heq
    rw [hm.get?_self] at hx
    cases hx
    rw [hrounds] at hmem
    obtain ⟨r, hr, rfl⟩ := mem_updateWhere.mp hmem
    have hround : db.HasRound c.task r := ⟨t, hm.found, hr⟩
    by_cases hp : r.claimable c.round = true
    · rw [if_pos hp]
      have hrid : r.id = c.round := by
        simp only [TaskRound.claimable, Bool.and_eq_true, decide_eq_true_eq] at hp
        exact hp.1
      refine ⟨r, hround, rfl, by rw [hrid, if_pos rfl]; rfl, fun _ => ?_⟩
      rw [TaskRound.state_of_claimable hp]
      rfl
    · rw [if_neg hp]
      have hne : some c.round ≠ some r.id := by
        intro hsame
        have heq := hv.eq_of_id_eq hround hr₀ ((Option.some.inj hsame).symm.trans hid.symm)
        exact hp (heq ▸ hclaim)
      exact ⟨r, hround, rfl, by rw [if_neg hne]; rfl, id⟩
  · rw [hm.get?_ne heq] at hx
    have hround : db.HasRound tid r' := ⟨x, hx, hmem⟩
    have hne : some c.round ≠ some r'.id := by
      intro hsame
      exact heq (hv.disjoint tid c.task r' r₀ hround hr₀
        ((Option.some.inj hsame).symm.trans hid.symm))
    exact ⟨r', hround, rfl, by rw [if_neg hne]; rfl, id⟩

/-! ## Steps -/

/-- The round that an action claims, if it is a claim. -/
def Action.claims : Action → Option RoundId
  | .perform (.dispatch _ c) _ => some c.round
  | _ => none

section Steps

variable {cfg : Settings} {nfc : String → String} {w w' : World} {a : Action}

theorem step_roundsValid (hco : w.Coherent) (hv : w.db.RoundsValid)
    (h : step cfg nfc w a = .ok w') : w'.db.RoundsValid := by
  rcases step_changes hco.db hco.jobs h with hc | ⟨u, ids, locked, -, -, hdb⟩
  · exact hc.roundsValid hco.db hv
  · rw [hdb]
    exact hv.of_rows (terminateTasksHook_frame _ _ _).2 fun _ _ => terminateTasksHook_row_of u ids

theorem Action.not_expects_claim {db : Db} (h : a.claims = none) (tid : TaskId) (t : Task) :
    ¬ a.Expects db .claim tid t := by
  intro hexp
  cases a with
  | perform j locked =>
    cases j with
    | dispatch iid c => cases h
    | _ => exact hexp
  | _ => exact hexp

theorem step_roundsGrow (hco : w.Coherent) (hv : w.db.RoundsValid)
    (h : step cfg nfc w a = .ok w') : Db.RoundsGrow a.claims w.db w'.db := by
  cases hcl : a.claims with
  | none =>
    rcases step_changes hco.db hco.jobs h with hc | ⟨u, ids, locked, -, -, hdb⟩
    · exact hc.roundsGrow hco.db (Action.not_expects_claim hcl)
    · rw [hdb]
      exact .of_rows (terminateTasksHook_frame _ _ _).2 fun _ _ => terminateTasksHook_row_of u ids
  | some rid =>
    obtain ⟨iid, c, locked, rfl, rfl⟩ : ∃ iid c locked, a = .perform (.dispatch iid c) locked ∧
        c.round = rid := by
      unfold Action.claims at hcl
      split at hcl
      · next iid c locked => exact ⟨iid, c, locked, rfl, Option.some.inj hcl⟩
      · cases hcl
    obtain ⟨-, h⟩ := ite_ok_else_error.mp h
    obtain ⟨db', hdb, h⟩ := bind_eq_ok.mp h
    cases h
    obtain ⟨r₀, -, -, -, -, hgrow⟩ := claimRound_rounds hv hdb
    exact hgrow

theorem World.Initial.roundsValid (h₀ : w.Initial) : w.db.RoundsValid := by
  have hno {tid : TaskId} {r : TaskRound} (hr : w.db.HasRound tid r) : False := by
    obtain ⟨t, ht, -⟩ := hr
    simp [h₀.db.tasks] at ht
  exact ⟨fun tid t ht => by simp [h₀.db.tasks] at ht, fun _ _ _ _ hr => (hno hr).elim,
    fun _ _ hr => (hno hr).elim, fun _ _ hr => (hno hr).elim⟩

end Steps

end AgentCraft.Tasking
