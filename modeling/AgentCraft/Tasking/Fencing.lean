import AgentCraft.Tasking.Rounds
import AgentCraft.Transition.Trace

/-!
# Lease fencing

Every write that an executor or a sandbox attempts names a round and an epoch. The trace of a run lists
the effects that have been committed under each epoch (`Entry`); this file shows that effects of an
epoch happen while the round runs at it, and so before the claim of the next one. The answers of
read-only tool callbacks and MCP calls are the exception: their check is a plain read in a transaction
of its own, and the answer goes out afterwards.
-/

namespace AgentCraft.Tasking

open AgentCraft.Relational AgentCraft.Transition

/-- The kinds of effects that are attributed to a round and an epoch. -/
inductive Effect
  | claimed | fact | settled | failed | output | checked | answered
deriving DecidableEq, Repr

/-- An effect, attributed to a round and an epoch. -/
structure Entry where
  round : RoundId
  epoch : ℕ
  effect : Effect
deriving DecidableEq, Repr

/-- The effect of an action, if it takes effect; a claim is attributed to the epoch it starts. -/
def Action.entries (w : World) : Action → List Entry
  | .perform (.dispatch _ c) _ => (w.db.claimable? c).toList.map fun r =>
      ⟨c.round, r.leaseEpoch + 1, .claimed⟩
  | .write (.fact c _ _) => [⟨c.round, c.epoch, .fact⟩]
  | .write (.settle c _ _ _) => [⟨c.round, c.epoch, .settled⟩]
  | .write (.deadline c) => [⟨c.round, c.epoch, .failed⟩]
  | .write (.output c _ _) => [⟨c.round, c.epoch, .output⟩]
  | .toolCheck c => [⟨c.round, c.epoch, .checked⟩]
  | .toolAnswer c => [⟨c.round, c.epoch, .answered⟩]
  | _ => []

/-- The effects of the kinds `covered`. -/
def Action.observed (covered : Effect → Bool) (w : World) (a : Action) : List Entry :=
  (a.entries w).filter fun e => covered e.effect

/-- The round runs at the epoch. -/
def Db.RunsAt (db : Db) (rid : RoundId) (epoch : ℕ) : Prop :=
  ∃ tid r, db.HasRound tid r ∧ r.id = rid ∧ r.state = .running ∧ r.leaseEpoch = epoch

/-- The order of two effects of one round: epochs grow, and a claim starts a new one. -/
def Entry.Precedes (x y : Entry) : Prop :=
  x.round = y.round → x.epoch ≤ y.epoch ∧ (y.effect = .claimed → x.epoch < y.epoch)

instance : DecidableRel Entry.Precedes := fun _ _ => by
  unfold Entry.Precedes
  infer_instance

/-- How often a round has an effect. -/
def effectCount (h : List Entry) (effect : Effect) (rid : RoundId) : ℕ :=
  h.countP fun e => e.round = rid && e.effect = effect

/-- The effects of a run, in the order in which they are committed. -/
def history (cfg : Settings) (nfc : String → String) (covered : Effect → Bool) (w₀ : World)
    (as : List Action) : List Entry :=
  (system cfg nfc).trace (Action.observed covered) w₀ as

/-- The effects of the kinds `covered` are fenced along the run. -/
structure Fenced (cfg : Settings) (nfc : String → String) (covered : Effect → Bool) (w₀ : World)
    (as : List Action) : Prop where
  /-- Every effect but a claim is committed while its round runs at exactly its epoch. -/
  live : (system cfg nfc).Guarded (fun w a => (system cfg nfc).Commits w a →
    ∀ e ∈ a.observed covered w, e.effect ≠ .claimed → w.db.RunsAt e.round e.epoch) w₀ as
  /-- A claim moves the epoch of its round on by one; nothing else moves an epoch. -/
  epochs : (system cfg nfc).Guarded (fun w a => ∀ w', step cfg nfc w a = .ok w' →
    ∀ tid tid' r r', w.db.HasRound tid r → w'.db.HasRound tid' r' → r'.id = r.id →
      r'.leaseEpoch = r.leaseEpoch + if a.claims = some r.id then 1 else 0) w₀ as
  /-- Effects of an epoch precede the claim of the next. -/
  ordered : (history cfg nfc covered w₀ as).Pairwise Entry.Precedes
  settledOnce : ∀ rid, effectCount (history cfg nfc covered w₀ as) .settled rid ≤ 1
  claimLimit : ∀ rid, effectCount (history cfg nfc covered w₀ as) .claimed rid ≤ attemptLimit

/-! ## Effects under the fence -/

section Live

variable {cfg : Settings} {nfc : String → String} {w w' : World} {a : Action}

theorem RunsAt.of_countP {db : Db} {tid : TaskId} {t : Task} {p : TaskRound → Bool} {rid : RoundId}
    {epoch : ℕ} (hfound : db.tasks.get? tid = some t)
    (hp : ∀ r, p r = true → r.id = rid ∧ r.leaseEpoch = epoch ∧ r.state = .running)
    (h : t.rounds.countP p ≠ 0) :
    ∃ r, t.rounds.countP p ≠ 0 ∧ r ∈ t.rounds ∧ p r = true ∧ db.HasRound tid r ∧ r.id = rid ∧
      r.leaseEpoch = epoch ∧ r.state = .running := by
  obtain ⟨r, hr, hpr⟩ := List.countP_pos_iff.mp (Nat.pos_of_ne_zero h)
  obtain ⟨hid, hepoch, hstate⟩ := hp r hpr
  exact ⟨r, h, hr, hpr, ⟨t, hfound, hr⟩, hid, hepoch, hstate⟩

theorem RoundContext.fences_iff (c : RoundContext) {r : TaskRound} (h : c.fences r = true) :
    r.id = c.round ∧ r.leaseEpoch = c.epoch ∧ r.state = .running := by
  simp only [RoundContext.fences, Bool.and_eq_true, decide_eq_true_eq] at h
  exact ⟨h.1.1.1, h.1.2, h.2⟩

theorem TaskRound.runsAt_iff {rid : RoundId} {epoch : ℕ} {r : TaskRound}
    (h : r.runsAt rid epoch = true) : r.id = rid ∧ r.leaseEpoch = epoch ∧ r.state = .running := by
  simp only [TaskRound.runsAt, Bool.and_eq_true, decide_eq_true_eq] at h
  exact ⟨h.1.1, h.1.2, h.2⟩

/-- Every effect but a claim and an answer finds its round running at its epoch. -/
theorem runsAt_of_entry (hco : w.Coherent) (h : step cfg nfc w a = .ok w') {e : Entry}
    (he : e ∈ a.entries w) (hcl : e.effect ≠ .claimed) (han : e.effect ≠ .answered) :
    w.db.RunsAt e.round e.epoch := by
  have hruns {tid : TaskId} {t : Task} {p : TaskRound → Bool} {rid : RoundId} {epoch : ℕ}
      (hfound : w.db.tasks.get? tid = some t)
      (hp : ∀ r, p r = true → r.id = rid ∧ r.leaseEpoch = epoch ∧ r.state = .running)
      (hr : t.rounds.countP p ≠ 0) : w.db.RunsAt rid epoch := by
    obtain ⟨r, -, -, -, hround, hid, hepoch, hstate⟩ := RunsAt.of_countP hfound hp hr
    exact ⟨tid, r, hround, hid, hstate, hepoch⟩
  cases a with
  | write x =>
    obtain ⟨db', hdb, -⟩ := bind_eq_ok.mp h
    cases x with
    | fact c author content =>
      obtain rfl := List.mem_singleton.mp he
      obtain ⟨t, t', hr, hm⟩ := persistFact_moved hdb
      exact hruns hm.found (fun _ => c.fences_iff) hr
    | settle c pending finishReason usage =>
      obtain rfl := List.mem_singleton.mp he
      obtain ⟨t, t', hr, -, hm⟩ := settle_moved (hco.db.phases c.task) hdb
      exact hruns hm.found (fun _ => c.fences_iff) hr
    | deadline c =>
      obtain rfl := List.mem_singleton.mp he
      obtain ⟨t, t', hr, hm⟩ := failAtDeadline_moved (hco.db.phases c.task) hdb
      exact hruns hm.found (fun _ => c.fences_iff) hr
    | renew c => cases he
    | output c fileName content =>
      obtain rfl := List.mem_singleton.mp he
      obtain ⟨⟨db₁, fid⟩, hrun, -⟩ := map_eq_ok.mp hdb
      obtain ⟨t, t', hr, hm⟩ := registerOutput_moved hrun
      exact hruns hm.found (fun _ => TaskRound.runsAt_iff) hr
  | perform j locked =>
    cases j with
    | dispatch iid c =>
      obtain ⟨r, -, rfl⟩ := List.mem_map.mp he
      exact absurd rfl hcl
    | _ => cases he
  | toolCheck c =>
    obtain rfl := List.mem_singleton.mp he
    obtain ⟨hlive, -⟩ := ite_ok_else_error.mp h
    unfold assertRoundLive at hlive
    split at hlive
    · cases hlive
    · next t hvis =>
      refine hruns (Db.visibleTask_eq_some.mp hvis).1 (fun _ => TaskRound.runsAt_iff) ?_
      rw [← List.countP_pos_iff.trans List.any_eq_true.symm] at hlive
      exact hlive.ne'
  | toolAnswer c =>
    obtain rfl := List.mem_singleton.mp he
    exact absurd rfl han
  | _ => cases he

end Live

/-! ## What the history says about the rounds -/

/-- The rounds of the database against the effects committed so far. -/
structure Chronicle (db : Db) (h : List Entry) : Prop where
  issued : ∀ e ∈ h, e.round < db.nextId
  epoch : ∀ tid r, db.HasRound tid r → ∀ e ∈ h, e.round = r.id → e.epoch ≤ r.leaseEpoch
  claims : ∀ tid r, db.HasRound tid r → effectCount h .claimed r.id = r.leaseEpoch
  settled : ∀ tid r, db.HasRound tid r → effectCount h .settled r.id ≠ 0 → r.state.isActive = false
  ordered : h.Pairwise Entry.Precedes
  settledOnce : ∀ rid, effectCount h .settled rid ≤ 1
  claimLimit : ∀ rid, effectCount h .claimed rid ≤ attemptLimit

theorem effectCount_append (h : List Entry) (e : Entry) (effect : Effect) (rid : RoundId) :
    effectCount (h ++ [e]) effect rid =
      effectCount h effect rid + if e.round = rid ∧ e.effect = effect then 1 else 0 := by
  rw [effectCount, List.countP_append, effectCount]
  by_cases hr : e.round = rid <;> by_cases hf : e.effect = effect <;> simp [hr, hf]

/-- A round without history has no effects. -/
theorem effectCount_eq_zero {h : List Entry} {n : Uuid} (hissued : ∀ e ∈ h, e.round < n)
    {rid : RoundId} (hn : n ≤ rid) (effect : Effect) : effectCount h effect rid = 0 := by
  refine List.countP_eq_zero.mpr fun e he hp => ?_
  simp only [Bool.and_eq_true, decide_eq_true_eq] at hp
  exact absurd (hissued e he) (by rw [hp.1]; exact Nat.not_lt.mpr hn)

namespace Chronicle

variable {db db' : Db} {h : List Entry}

theorem grow (hc : Chronicle db h) (hgrow : Db.RoundsGrow none db db') : Chronicle db' h := by
  refine ⟨fun e he => (hc.issued e he).trans_le hgrow.nextId, fun tid r' hr' e he hid => ?_,
    fun tid r' hr' => ?_, fun tid r' hr' h0 => ?_, hc.ordered, hc.settledOnce, hc.claimLimit⟩
  · rcases hgrow.rounds tid r' hr' with ⟨r, hr, hrid, hepoch, -⟩ | ⟨hn, -⟩
    · rw [hepoch]
      exact hc.epoch tid r hr e he (hid.trans hrid.symm)
    · exact absurd (hc.issued e he) (by rw [hid]; exact Nat.not_lt.mpr hn)
  · rcases hgrow.rounds tid r' hr' with ⟨r, hr, hrid, hepoch, -⟩ | ⟨hn, hepoch⟩
    · rw [← hrid, hc.claims tid r hr, hepoch]
      rfl
    · rw [effectCount_eq_zero hc.issued hn, hepoch]
  · rcases hgrow.rounds tid r' hr' with ⟨r, hr, hrid, -, hact⟩ | ⟨hn, -⟩
    · rw [← hrid] at h0
      have hinactive := hc.settled tid r hr h0
      cases ha : r'.state.isActive with
      | false => rfl
      | true =>
        rw [hact ha] at hinactive
        cases hinactive
    · exact absurd (effectCount_eq_zero hc.issued hn _) h0

/-- An effect that is neither a claim nor a settlement, of a round that runs at its epoch. -/
theorem append (hc : Chronicle db h) (hv : db.RoundsValid) {e : Entry}
    (hruns : db.RunsAt e.round e.epoch) (hcl : e.effect ≠ .claimed) (hse : e.effect ≠ .settled) :
    Chronicle db (h ++ [e]) := by
  obtain ⟨tid₀, r₀, hr₀, hid₀, -, hepoch₀⟩ := hruns
  have hcount {effect : Effect} (hne : e.effect ≠ effect) (rid : RoundId) :
      effectCount (h ++ [e]) effect rid = effectCount h effect rid := by
    rw [effectCount_append, if_neg (fun hx => hne hx.2), add_zero]
  refine ⟨fun x hx => ?_, fun tid r hr x hx hid => ?_, fun tid r hr => ?_, fun tid r hr => ?_, ?_,
    fun rid => ?_, fun rid => ?_⟩
  · rcases List.mem_append.mp hx with hx | hx
    · exact hc.issued x hx
    · rw [List.mem_singleton.mp hx, ← hid₀]
      exact hv.issued tid₀ r₀ hr₀
  · rcases List.mem_append.mp hx with hx | hx
    · exact hc.epoch tid r hr x hx hid
    · rw [List.mem_singleton.mp hx] at hid ⊢
      rw [hv.eq_of_id_eq hr hr₀ (hid.symm.trans hid₀.symm), hepoch₀]
  · rw [hcount hcl, hc.claims tid r hr]
  · rw [hcount hse]
    exact hc.settled tid r hr
  · refine List.pairwise_append.mpr ⟨hc.ordered, List.pairwise_singleton _ _, fun x hx y hy => ?_⟩
    rw [List.mem_singleton.mp hy]
    intro hround
    refine ⟨?_, fun heff => absurd heff hcl⟩
    rw [← hepoch₀]
    exact hc.epoch tid₀ r₀ hr₀ x hx (hround.trans hid₀.symm)
  · rw [hcount hse]
    exact hc.settledOnce rid
  · rw [hcount hcl]
    exact hc.claimLimit rid

/-- A settlement: the round was active, and is not any more. -/
theorem settle (hc : Chronicle db h) (hv : db.RoundsValid) {e : Entry}
    (hruns : db.RunsAt e.round e.epoch) (hse : e.effect = .settled)
    (hgrow : Db.RoundsGrow none db db')
    (hclosed : ∀ tid r', db'.HasRound tid r' → r'.id = e.round → r'.state.isActive = false) :
    Chronicle db' (h ++ [e]) := by
  obtain ⟨tid₀, r₀, hr₀, hid₀, hstate₀, hepoch₀⟩ := hruns
  have hzero : effectCount h .settled e.round = 0 := by
    by_contra h0
    rw [← hid₀] at h0
    have hinactive := hc.settled tid₀ r₀ hr₀ h0
    rw [hstate₀] at hinactive
    cases hinactive
  have hclaims (rid : RoundId) :
      effectCount (h ++ [e]) .claimed rid = effectCount h .claimed rid := by
    rw [effectCount_append, if_neg (fun hx => by rw [hse] at hx; cases hx.2), add_zero]
  have hc' := hc.grow hgrow
  refine ⟨fun x hx => ?_, fun tid r' hr' x hx hid => ?_, fun tid r' hr' => ?_, fun tid r' hr' h0 => ?_,
    ?_, fun rid => ?_, fun rid => ?_⟩
  · rcases List.mem_append.mp hx with hx | hx
    · exact hc'.issued x hx
    · rw [List.mem_singleton.mp hx, ← hid₀]
      exact (hv.issued tid₀ r₀ hr₀).trans_le hgrow.nextId
  · rcases List.mem_append.mp hx with hx | hx
    · exact hc'.epoch tid r' hr' x hx hid
    · rw [List.mem_singleton.mp hx] at hid ⊢
      rcases hgrow.rounds tid r' hr' with ⟨r, hr, hrid, hepoch, -⟩ | ⟨hn, -⟩
      · rw [hepoch, hv.eq_of_id_eq hr hr₀ ((hrid.trans hid.symm).trans hid₀.symm), hepoch₀]
        exact le_rfl
      · exact absurd (hv.issued tid₀ r₀ hr₀) (by rw [hid₀, hid]; exact Nat.not_lt.mpr hn)
  · rw [hclaims, hc'.claims tid r' hr']
  · rw [effectCount_append] at h0
    by_cases hid : e.round = r'.id
    · exact hclosed tid r' hr' hid.symm
    · rw [if_neg (fun hx => hid hx.1), add_zero] at h0
      exact hc'.settled tid r' hr' h0
  · refine List.pairwise_append.mpr ⟨hc.ordered, List.pairwise_singleton _ _, fun x hx y hy => ?_⟩
    rw [List.mem_singleton.mp hy]
    intro hround
    refine ⟨?_, fun heff => by rw [hse] at heff; cases heff⟩
    rw [← hepoch₀]
    exact hc.epoch tid₀ r₀ hr₀ x hx (hround.trans hid₀.symm)
  · rw [effectCount_append]
    split
    · next hx => rw [← hx.1, hzero]
    · exact hc.settledOnce rid
  · rw [hclaims]
    exact hc.claimLimit rid

/-- A claim: the round was pending, and starts its next epoch. -/
theorem claim (hc : Chronicle db h) (hv : db.RoundsValid) {tid₀ : TaskId} {r₀ : TaskRound}
    (hr₀ : db.HasRound tid₀ r₀) (hpending : r₀.state = .pending)
    (hgrow : Db.RoundsGrow (some r₀.id) db db') :
    Chronicle db' (h ++ [⟨r₀.id, r₀.leaseEpoch + 1, .claimed⟩]) := by
  have hatt := hv.attempts tid₀ r₀ hr₀
  have hsettled (rid : RoundId) :
      effectCount (h ++ [⟨r₀.id, r₀.leaseEpoch + 1, .claimed⟩]) .settled rid =
        effectCount h .settled rid := by
    rw [effectCount_append, if_neg (fun hx => by cases hx.2), add_zero]
  refine ⟨fun x hx => ?_, fun tid r' hr' x hx hid => ?_, fun tid r' hr' => ?_, fun tid r' hr' h0 => ?_,
    ?_, fun rid => ?_, fun rid => ?_⟩
  · rcases List.mem_append.mp hx with hx | hx
    · exact (hc.issued x hx).trans_le hgrow.nextId
    · rw [List.mem_singleton.mp hx]
      exact (hv.issued tid₀ r₀ hr₀).trans_le hgrow.nextId
  · rcases hgrow.rounds tid r' hr' with ⟨r, hr, hrid, hepoch, -⟩ | ⟨hn, -⟩
    · rcases List.mem_append.mp hx with hx | hx
      · rw [hepoch]
        exact (hc.epoch tid r hr x hx (hid.trans hrid.symm)).trans (Nat.le_add_right _ _)
      · rw [List.mem_singleton.mp hx] at hid ⊢
        have heq := hv.eq_of_id_eq hr hr₀ (hrid.trans hid.symm)
        rw [hepoch, heq, if_pos rfl]
    · rcases List.mem_append.mp hx with hx | hx
      · exact absurd (hc.issued x hx) (by rw [hid]; exact Nat.not_lt.mpr hn)
      · rw [List.mem_singleton.mp hx] at hid
        have hfresh : db.nextId ≤ r₀.id := by rw [show r₀.id = r'.id from hid]; exact hn
        exact absurd (hv.issued tid₀ r₀ hr₀) (Nat.not_lt.mpr hfresh)
  · rw [effectCount_append]
    rcases hgrow.rounds tid r' hr' with ⟨r, hr, hrid, hepoch, -⟩ | ⟨hn, hepoch⟩
    · rw [← hrid, hc.claims tid r hr, hepoch]
      by_cases hid : r₀.id = r.id <;> simp [hid]
    · have hne : r₀.id ≠ r'.id := fun heq =>
        absurd (hv.issued tid₀ r₀ hr₀) (by rw [heq]; exact Nat.not_lt.mpr hn)
      rw [effectCount_eq_zero hc.issued hn, hepoch, if_neg fun hx => hne hx.1]
  · rw [hsettled] at h0
    rcases hgrow.rounds tid r' hr' with ⟨r, hr, hrid, -, hact⟩ | ⟨hn, -⟩
    · rw [← hrid] at h0
      have hinactive := hc.settled tid r hr h0
      cases ha : r'.state.isActive with
      | false => rfl
      | true =>
        rw [hact ha] at hinactive
        cases hinactive
    · exact absurd (effectCount_eq_zero hc.issued hn _) h0
  · refine List.pairwise_append.mpr ⟨hc.ordered, List.pairwise_singleton _ _, fun x hx y hy => ?_⟩
    rw [List.mem_singleton.mp hy]
    intro hround
    have hle := hc.epoch tid₀ r₀ hr₀ x hx hround
    exact ⟨hle.trans (Nat.le_succ _), fun _ => Nat.lt_succ_of_le hle⟩
  · rw [hsettled]
    exact hc.settledOnce rid
  · rw [effectCount_append]
    split
    · next hx =>
      rw [← hx.1, hc.claims tid₀ r₀ hr₀, ← hatt.epoch]
      exact hatt.pending hpending
    · exact hc.claimLimit rid

end Chronicle

/-! ## Runs -/

/-- The effects that the fences cover: all but the answers of read-only callbacks. -/
def Effect.isFenced (e : Effect) : Bool := e ≠ .answered

section Runs

variable {cfg : Settings} {nfc : String → String} {w w' w₀ : World} {a : Action} {as : List Action}

theorem settle_closed {db db' : Db} {c : RoundContext} {pending : Option String}
    {finishReason usage : String} (hco : db.Coherent) (hv : db.RoundsValid)
    (h : settle db c pending finishReason usage = .ok db') {tid : TaskId} {r' : TaskRound}
    (hr' : db'.HasRound tid r') (hid : r'.id = c.round) : r'.state.isActive = false := by
  obtain ⟨t, t', hr, hrounds, hm⟩ := settle_moved (hco.phases c.task) h
  obtain ⟨r₀, -, hmem₀, hp₀, hr₀, hid₀, -, -⟩ := RunsAt.of_countP hm.found (fun _ => c.fences_iff) hr
  obtain ⟨x, hx, hmem⟩ := hr'
  by_cases heq : tid = c.task
  · subst heq
    rw [hm.get?_self] at hx
    cases hx
    rw [hrounds] at hmem
    obtain ⟨r, hr, rfl⟩ := mem_updateWhere.mp hmem
    have hrid : r.id = c.round := by
      split at hid <;> exact hid
    have hsame := hv.eq_of_id_eq ⟨t, hm.found, hr⟩ hr₀ (hrid.trans hid₀.symm)
    rw [hsame, if_pos hp₀]
    rfl
  · rw [hm.get?_ne heq] at hx
    exact absurd (hv.disjoint tid c.task r' r₀ ⟨x, hx, hmem⟩ hr₀ (hid.trans hid₀.symm)) heq

/-- A step keeps the chronicle. -/
theorem step_chronicle {h : List Entry} (hco : w.Coherent) (hv : w.db.RoundsValid)
    (hc : Chronicle w.db h) (hs : step cfg nfc w a = .ok w') :
    Chronicle w'.db (h ++ a.observed Effect.isFenced w) := by
  have hgrow := step_roundsGrow hco hv hs
  -- an effect under the fence that is neither a claim nor a settlement
  have happend {e : Entry} (he : a.entries w = [e]) (hcl : e.effect ≠ .claimed)
      (hse : e.effect ≠ .settled) (han : e.effect ≠ .answered) (hno : a.claims = none) :
      Chronicle w'.db (h ++ a.observed Effect.isFenced w) := by
    have hobs : a.observed Effect.isFenced w = [e] := by
      rw [Action.observed, he]
      exact List.filter_cons_of_pos (decide_eq_true han)
    rw [hobs]
    rw [hno] at hgrow
    have hruns := runsAt_of_entry hco hs (by rw [he]; exact List.mem_singleton.mpr rfl) hcl han
    exact (hc.append hv hruns hcl hse).grow hgrow
  have hquiet (hno : a.claims = none) (he : a.observed Effect.isFenced w = []) :
      Chronicle w'.db (h ++ a.observed Effect.isFenced w) := by
    rw [he, List.append_nil]
    rw [hno] at hgrow
    exact hc.grow hgrow
  cases a with
  | write x =>
    cases x with
    | fact c author content => exact happend rfl (by simp) (by simp) (by simp) rfl
    | settle c pending finishReason usage =>
      have hruns := runsAt_of_entry hco hs (List.mem_singleton.mpr rfl) (by simp) (by simp)
      obtain ⟨db', hdb, hs'⟩ := bind_eq_ok.mp hs
      cases hs'
      exact hc.settle hv hruns rfl hgrow fun _ _ hr' hid => settle_closed hco.db hv hdb hr' hid
    | deadline c => exact happend rfl (by simp) (by simp) (by simp) rfl
    | renew c => exact hquiet rfl rfl
    | output c fileName content => exact happend rfl (by simp) (by simp) (by simp) rfl
  | perform j locked =>
    cases j with
    | dispatch iid c =>
      obtain ⟨-, hs'⟩ := ite_ok_else_error.mp hs
      obtain ⟨db', hdb, hs'⟩ := bind_eq_ok.mp hs'
      cases hs'
      obtain ⟨r₀, hcl, hr₀, hid, hpending, hgrow⟩ := claimRound_rounds hv hdb
      have hobs : (Action.perform (.dispatch iid c) locked).observed Effect.isFenced w =
          [⟨r₀.id, r₀.leaseEpoch + 1, .claimed⟩] := by
        rw [Action.observed, Action.entries, hcl, hid]
        rfl
      rw [hobs]
      rw [← hid] at hgrow
      exact hc.claim hv hr₀ hpending hgrow
    | _ => exact hquiet rfl rfl
  | toolCheck c => exact happend rfl (by simp) (by simp) (by simp) rfl
  | _ => exact hquiet rfl rfl

/-- An empty database has no history. -/
theorem chronicle_initial (h₀ : w₀.Initial) : Chronicle w₀.db [] := by
  have hno {tid : TaskId} {r : TaskRound} (hr : w₀.db.HasRound tid r) : False := by
    obtain ⟨t, ht, -⟩ := hr
    simp [h₀.db.tasks] at ht
  exact ⟨by simp, fun _ _ hr => (hno hr).elim, fun _ _ hr => (hno hr).elim,
    fun _ _ hr => (hno hr).elim, .nil, fun _ => Nat.zero_le _, fun _ => Nat.zero_le _⟩

/-- Everything but the answers of read-only callbacks is fenced, in every run. -/
theorem fenced_of_run (h₀ : w₀.Initial) (as : List Action) : Fenced cfg nfc Effect.isFenced w₀ as := by
  have hinit : w₀.Coherent ∧ w₀.db.RoundsValid := ⟨h₀.coherent, h₀.roundsValid⟩
  have hkeep : ∀ w a w', w.Coherent ∧ w.db.RoundsValid → True →
      (system cfg nfc).step w a = .ok w' → w'.Coherent ∧ w'.db.RoundsValid :=
    fun w a w' hw _ hs => ⟨hw.1.step hs, step_roundsValid hw.1 hw.2 hs⟩
  let I (w : World) (h : List Entry) : Prop := w.Coherent ∧ w.db.RoundsValid ∧ Chronicle w.db h
  have hinv : I ((system cfg nfc).run w₀ as) (history cfg nfc Effect.isFenced w₀ as) :=
    System.trace_invariant (fun w h a w' hw hs => ⟨hw.1.step hs,
        step_roundsValid hw.1 hw.2.1 hs, step_chronicle hw.1 hw.2.1 hw.2.2 hs⟩)
      ⟨h₀.coherent, h₀.roundsValid, chronicle_initial h₀⟩ as
  have hchron := hinv.2.2
  refine ⟨?_, ?_, hchron.ordered, hchron.settledOnce, hchron.claimLimit⟩
  · refine System.Guarded.of_invariant hkeep (fun w a hw _ ⟨w', hs⟩ e he hcl => ?_) hinit
      (System.guarded_true w₀ as)
    obtain ⟨hmem, hcov⟩ := List.mem_filter.mp he
    exact runsAt_of_entry hw.1 hs hmem hcl (of_decide_eq_true hcov)
  · refine System.Guarded.of_invariant hkeep (fun w a hw _ w' hs tid tid' r r' hr hr' hid => ?_) hinit
      (System.guarded_true w₀ as)
    rcases (step_roundsGrow hw.1 hw.2 hs).rounds tid' r' hr' with ⟨r₁, hr₁, hid₁, hepoch, -⟩ | ⟨hn, -⟩
    · rw [hw.2.eq_of_id_eq hr hr₁ (hid.symm.trans hid₁.symm)]
      exact hepoch
    · exact absurd (hw.2.issued tid r hr) (by rw [← hid]; exact Nat.not_lt.mpr hn)

/-- The executor 7 stalls; its round is reclaimed and claimed by executor 8. -/
def reclaimedRun : List Action :=
  [.tick 100, .scan .reclaim, .perform (.reclaimExpired ⟨12, 10, 1, some 7, 1⟩) [],
    .scan (.dispatch 8), .perform (.dispatch 8 ⟨12, 10, 1⟩) []]

/-- A fact of the stalled executor is refused, that of its successor is kept. -/
theorem fenced_of_run_zombie : Fenced {} id Effect.isFenced World.small
    (claimedRun ++ reclaimedRun ++ [.write (.fact ⟨12, 10, 1, 7, 1⟩ .assistant "late"),
      .write (.fact ⟨12, 10, 1, 8, 2⟩ .assistant "in time"),
      .write (.settle ⟨12, 10, 1, 8, 2⟩ none "stop" "{}")]) :=
  fenced_of_run World.small_initial _

/-- A callback that has passed its check is answered after the round has been claimed again. -/
theorem not_fenced_of_lateAnswer : ¬ Fenced {} id (fun _ => true) World.small
    (claimedRun ++ [.toolCheck ⟨12, 10, 1, 7, 1⟩] ++ reclaimedRun ++
      [.toolAnswer ⟨12, 10, 1, 7, 1⟩]) := by
  intro h
  exact absurd h.ordered (by decide)

end Runs

end AgentCraft.Tasking
