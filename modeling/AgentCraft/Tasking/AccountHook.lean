import AgentCraft.Tasking.Ledger

/-!
# The account hook on the ledger

The hook marks the tasks of a user as deleted, releases those that its scan has seen, one by one, and
deletes all of them. Each release is a posting like any other, so the ledger is balanced until the rows
go; it stays balanced exactly when the rows that go hold nothing.
-/

namespace AgentCraft.Tasking

open AgentCraft.Relational AgentCraft.Transition

variable {db : Db} {u : UserId} {tid : TaskId} {t x : Task} {c : Column} {ids : List TaskId}

/-! ## The releases of the hook -/

theorem releaseTaskHoldings_posted (hvis : db.visibleTask u tid = some t) :
    Posted db (db.releaseTaskHoldings tid u) tid t t.releaseHoldings (.close false) := by
  refine .close false rfl ?_
  rw [Db.releaseTaskHoldings, hvis]
  simp only [Db.applyReleaseAccounting_setTask]
  rw [(Db.visibleTask_eq_some.mp hvis).2]
  rfl

/-- An invariant of one release is an invariant of all. -/
theorem foldl_releaseTaskHoldings_invariant {P : Db → Prop}
    (hstep : ∀ db tid, P db → P (db.releaseTaskHoldings tid u)) (h : P db) :
    P (ids.foldl (fun db tid => db.releaseTaskHoldings tid u) db) := by
  induction ids generalizing db with
  | nil => exact h
  | cons id ids ih => exact ih (hstep db id h)

/-- Every task of the database is well held. -/
def Db.WellHeld (db : Db) : Prop := ∀ tid t, db.tasks.get? tid = some t → t.WellHeld

theorem Db.WellHeld.release (h : db.WellHeld) (tid : TaskId) (u : UserId) :
    (db.releaseTaskHoldings tid u).WellHeld := by
  cases hvis : db.visibleTask u tid with
  | none =>
    rw [Db.releaseTaskHoldings_of_none hvis]
    exact h
  | some t =>
    have hfound := (Db.visibleTask_eq_some.mp hvis).1
    intro tid' t' ht'
    rw [Db.releaseTaskHoldings_tasks hvis, Table.get?_set] at ht'
    split at ht'
    · obtain ⟨t₀, -, rfl⟩ := Option.map_eq_some_iff.mp ht'
      exact (releaseTaskHoldings_posted hvis).wellHeld rfl (h tid t hfound)
    · exact h tid' t' ht'

/-- A release is a posting, or does nothing. -/
theorem releaseTaskHoldings_cases (db : Db) (tid : TaskId) (u : UserId) :
    db.releaseTaskHoldings tid u = db ∨ ∃ t, db.tasks.get? tid = some t ∧
      (db.releaseTaskHoldings tid u).tasks = db.tasks.set tid t.releaseHoldings ∧
      Posted db (db.releaseTaskHoldings tid u) tid t t.releaseHoldings (.close false) := by
  cases hvis : db.visibleTask u tid with
  | none => exact .inl (Db.releaseTaskHoldings_of_none hvis)
  | some t =>
    exact .inr ⟨t, (Db.visibleTask_eq_some.mp hvis).1, Db.releaseTaskHoldings_tasks hvis,
      releaseTaskHoldings_posted hvis⟩

theorem Db.Balanced.release (hw : db.WellHeld) (hb : db.Balanced c) (tid : TaskId) (u : UserId) :
    (db.releaseTaskHoldings tid u).Balanced c := by
  rcases releaseTaskHoldings_cases db tid u with heq | ⟨t, hfound, hwritten, hp⟩
  · rw [heq]
    exact hb
  · exact hb.posted hfound hwritten rfl (hw tid t hfound) hp (by simp)

theorem Db.PlatformBalanced.release (hw : db.WellHeld) (hb : db.PlatformBalanced) (tid : TaskId)
    (u : UserId) : (db.releaseTaskHoldings tid u).PlatformBalanced := by
  rcases releaseTaskHoldings_cases db tid u with heq | ⟨t, hfound, hwritten, hp⟩
  · rw [heq]
    exact hb
  · exact hb.posted hfound hwritten (hw tid t hfound) hp (by simp)

theorem Db.LeasesMatch.release (hw : db.WellHeld) (hm : db.LeasesMatch) (tid : TaskId) (u : UserId) :
    (db.releaseTaskHoldings tid u).LeasesMatch := by
  rcases releaseTaskHoldings_cases db tid u with heq | ⟨t, hfound, hwritten, hp⟩
  · rw [heq]
    exact hm
  · exact hm.posted hfound hwritten (hw tid t hfound) hp (by simp)

theorem Db.SlotsMatch.release (hw : db.WellHeld) (hm : db.SlotsMatch) (tid : TaskId) (u : UserId) :
    (db.releaseTaskHoldings tid u).SlotsMatch := by
  refine ⟨Db.LeasesMatch.release hw hm.leases tid u, ?_⟩
  rcases releaseTaskHoldings_cases db tid u with heq | ⟨t, hfound, hwritten, hp⟩
  · rw [heq]
    exact hm.named
  · exact hm.named.posted hp

/-- Where a row of the user comes from when one task of the user has been released. -/
theorem releaseTaskHoldings_row_of {tid' : TaskId}
    (hx : (db.releaseTaskHoldings tid' u).tasks.get? tid = some x) (hown : x.ownerId = u)
    (hdel : ∀ tid t, db.tasks.get? tid = some t → t.ownerId = u → t.status = .deleted) :
    ∃ t, db.tasks.get? tid = some t ∧ t.ownerId = u ∧ x.status = .deleted ∧
      (∀ c, x.holds c ≤ t.holds c) ∧ (tid = tid' → ∀ c, x.holds c = 0) := by
  cases hvis : db.visibleTask u tid' with
  | none =>
    rw [Db.releaseTaskHoldings_of_none hvis] at hx
    refine ⟨x, hx, hown, hdel tid x hx hown, fun _ => le_rfl, ?_⟩
    rintro rfl
    rw [Db.visibleTask_eq_some.mpr ⟨hx, hown⟩] at hvis
    cases hvis
  | some t =>
    obtain ⟨hfound, hu⟩ := Db.visibleTask_eq_some.mp hvis
    rw [Db.releaseTaskHoldings_tasks hvis, Table.get?_set] at hx
    split at hx
    · next heq =>
      subst heq
      rw [hfound] at hx
      cases hx
      have hst := hdel tid t hfound hu
      have hzero (c : Column) : t.releaseHoldings.holds c = 0 := by
        rw [(releaseTaskHoldings_posted hvis).holds_close,
          show t.releaseHoldings.status = .deleted from hst, TaskStatus.releases_deleted, if_pos rfl]
      exact ⟨t, hfound, hu, hst, fun c => by rw [hzero]; exact Nat.zero_le _, fun _ => hzero⟩
    · next hne =>
      exact ⟨x, hx, hown, hdel tid x hx hown, fun _ => le_rfl, fun h => absurd h hne⟩

/-- After the releases, the tasks released hold nothing, and the others no more than before. -/
theorem foldl_releaseTaskHoldings_row_of
    (hx : (ids.foldl (fun db tid => db.releaseTaskHoldings tid u) db).tasks.get? tid = some x)
    (hown : x.ownerId = u)
    (hdel : ∀ tid t, db.tasks.get? tid = some t → t.ownerId = u → t.status = .deleted) :
    ∃ t, db.tasks.get? tid = some t ∧ t.ownerId = u ∧
      (∀ c, x.holds c ≤ t.holds c) ∧ (tid ∈ ids → ∀ c, x.holds c = 0) := by
  induction ids generalizing db with
  | nil => exact ⟨x, hx, hown, fun _ => le_rfl, by simp⟩
  | cons id ids ih =>
    have hdel' : ∀ tid t, (db.releaseTaskHoldings id u).tasks.get? tid = some t → t.ownerId = u →
        t.status = .deleted := by
      intro tid t ht hu
      obtain ⟨-, -, -, hst, -⟩ := releaseTaskHoldings_row_of ht hu hdel
      exact hst
    obtain ⟨t₁, ht₁, hu₁, hle₁, hzero₁⟩ := ih hx hdel'
    obtain ⟨t, ht, hu, -, hle, hzero⟩ := releaseTaskHoldings_row_of ht₁ hu₁ hdel
    refine ⟨t, ht, hu, fun c => (hle₁ c).trans (hle c), fun hmem c => ?_⟩
    rcases List.mem_cons.mp hmem with rfl | hmem
    · exact Nat.eq_zero_of_le_zero ((hle₁ c).trans_eq (hzero rfl c))
    · exact hzero₁ hmem c

/-! ## Marking -/

theorem Task.markDeleted_holds (t : Task) (c : Column) : t.markDeleted.holds c = t.holds c := by
  unfold Task.markDeleted
  simp only
  split <;> rfl

theorem Task.markDeleted_status (t : Task) : t.markDeleted.status = .deleted := by
  unfold Task.markDeleted
  simp only
  split
  · next h => exact h
  · rfl

theorem Task.WellHeld.markDeleted (h : t.WellHeld) : t.markDeleted.WellHeld := by
  unfold Task.markDeleted
  simp only
  split <;> exact h

/-- A row after the marking. -/
theorem markUserTasks_row_of (hx : (db.markUserTasks u).tasks.get? tid = some x) :
    ∃ t, db.tasks.get? tid = some t ∧ x = (if t.ownerId = u then t.markDeleted else t) := by
  rw [Db.markUserTasks, Table.get?_map] at hx
  obtain ⟨t, ht, rfl⟩ := Option.map_eq_some_iff.mp hx
  exact ⟨t, ht, rfl⟩

theorem markUserTasks_sum {M : Type*} [AddCommMonoid M] (f : UserId → ℕ → M) (c : Column) :
    ((db.markUserTasks u).tasks.sum fun _ t => f t.ownerId (t.holds c)) =
      db.tasks.sum fun _ t => f t.ownerId (t.holds c) := by
  rw [Db.markUserTasks, Table.sum_map]
  refine Table.sum_congr fun tid t _ => ?_
  split
  · rw [Task.markDeleted_ownerId, Task.markDeleted_holds]
  · rfl

theorem Db.Balanced.mark (hb : db.Balanced c) (u : UserId) : (db.markUserTasks u).Balanced c := by
  intro u'
  rw [Db.holds, markUserTasks_sum (fun o n => if o = u' then (n : ℤ) else 0)]
  exact hb u'

theorem Db.PlatformBalanced.mark (hb : db.PlatformBalanced) (u : UserId) :
    (db.markUserTasks u).PlatformBalanced := by
  rw [Db.PlatformBalanced, markUserTasks_sum (fun _ n => (n : ℤ))]
  exact hb

theorem runs_markUserTasks (db : Db) (u : UserId) (tid : TaskId) :
    (db.markUserTasks u).runs tid = db.runs tid := by
  rw [Db.runs, Db.markUserTasks, Table.get?_map, Db.runs]
  cases db.tasks.get? tid with
  | none => rfl
  | some t =>
    simp only [Option.map_some, Option.getD_some]
    split
    · exact t.markDeleted_holds .running
    · rfl

theorem Db.LeasesMatch.mark (hm : db.LeasesMatch) (u : UserId) :
    (db.markUserTasks u).LeasesMatch := by
  intro tid
  rw [runs_markUserTasks]
  exact hm tid

theorem Db.SlotsMatch.mark (hm : db.SlotsMatch) (u : UserId) : (db.markUserTasks u).SlotsMatch :=
  ⟨Db.LeasesMatch.mark hm.leases u, hm.named⟩

theorem Db.WellHeld.mark (hw : db.WellHeld) (u : UserId) : (db.markUserTasks u).WellHeld := by
  intro tid x hx
  obtain ⟨t, ht, rfl⟩ := markUserTasks_row_of hx
  split
  · exact (hw tid t ht).markDeleted
  · exact hw tid t ht

/-- What the tasks of the user hold after the hook's releases: nothing, if the tasks that were not
scanned held nothing before. -/
theorem holds_before_delete {c : Column}
    (hrest : ∀ tid t, db.tasks.get? tid = some t → t.ownerId = u → tid ∉ ids → t.holds c = 0)
    (hx : (ids.foldl (fun db tid => db.releaseTaskHoldings tid u) (db.markUserTasks u)).tasks.get?
      tid = some x) (hown : x.ownerId = u) : x.holds c = 0 := by
  have hdel : ∀ tid t, (db.markUserTasks u).tasks.get? tid = some t → t.ownerId = u →
      t.status = .deleted := by
    intro tid t ht hu
    obtain ⟨t₀, -, rfl⟩ := markUserTasks_row_of ht
    split at hu
    · next h => rw [if_pos h, Task.markDeleted_status]
    · next h => exact absurd hu h
  obtain ⟨t₁, ht₁, hu₁, hle, hzero⟩ := foldl_releaseTaskHoldings_row_of hx hown hdel
  by_cases hmem : tid ∈ ids
  · exact hzero hmem c
  · obtain ⟨t, ht, rfl⟩ := markUserTasks_row_of ht₁
    have hu : t.ownerId = u := by
      split at hu₁
      · next h => exact h
      · exact hu₁
    have hholds := hle c
    rw [if_pos hu, Task.markDeleted_holds, hrest tid t ht hu hmem] at hholds
    exact Nat.eq_zero_of_le_zero hholds

/-! ## Deleting -/

/-- Deleting rows that hold nothing keeps a total. -/
theorem Db.Balanced.delete (hb : db.Balanced c)
    (hzero : ∀ tid t, db.tasks.get? tid = some t → t.ownerId = u → t.holds c = 0) :
    (db.deleteUserTasks u).Balanced c := by
  intro u'
  have hsum : (db.deleteUserTasks u).holds c u' = db.holds c u' := by
    rw [Db.holds, Db.deleteUserTasks, Table.sum_filter, Db.holds]
    refine Table.sum_congr fun tid t ht => ?_
    by_cases hu : t.ownerId = u
    · simp [hu, hzero tid t ht hu]
    · simp [hu]
  rw [hsum]
  exact hb u'

theorem Db.PlatformBalanced.delete (hb : db.PlatformBalanced)
    (hzero : ∀ tid t, db.tasks.get? tid = some t → t.ownerId = u → t.holds .storage = 0) :
    (db.deleteUserTasks u).PlatformBalanced := by
  have hsum : ((db.deleteUserTasks u).tasks.sum fun _ t => (t.holds .storage : ℤ)) =
      db.tasks.sum fun _ t => (t.holds .storage : ℤ) := by
    rw [Db.deleteUserTasks, Table.sum_filter]
    refine Table.sum_congr fun tid t ht => ?_
    by_cases hu : t.ownerId = u
    · simp [hu, hzero tid t ht hu]
    · simp [hu]
  rw [Db.PlatformBalanced, hsum]
  exact hb

/-- A task that goes takes its leases along, one that stays keeps them. -/
theorem Db.LeasesMatch.delete (hm : db.LeasesMatch) (u : UserId) :
    (db.deleteUserTasks u).LeasesMatch := by
  intro tid
  have hruns : (db.deleteUserTasks u).runs tid =
      if (db.visibleTask u tid).isSome then 0 else db.runs tid := by
    rw [Db.runs, Db.deleteUserTasks, Table.get?_filter, Db.runs, Db.visibleTask]
    cases db.tasks.get? tid with
    | none => rfl
    | some t => by_cases hu : t.ownerId = u <;> simp [Option.filter, hu]
  rw [hruns, Db.leases, Db.deleteUserTasks, Table.sum_map]
  by_cases hvis : (db.visibleTask u tid).isSome = true
  · rw [if_pos hvis]
    refine (Table.sum_congr (g := fun _ _ => 0) fun n s _ => ?_).trans (by simp [Table.sum])
    cases htask : s.taskId with
    | none => simp [htask]
    | some tid' =>
      by_cases heq : tid' = tid
      · subst heq
        simp [hvis]
      · simp only [Option.any_some]
        split <;> simp [htask, heq]
  · rw [if_neg hvis, ← hm tid, Db.leases]
    refine Table.sum_congr fun n s _ => ?_
    cases htask : s.taskId with
    | none => simp [htask]
    | some tid' =>
      by_cases heq : tid' = tid
      · subst heq
        simp [hvis, htask]
      · simp only [Option.any_some]
        split <;> simp [htask, heq]

theorem Db.SlotsMatch.delete (hm : db.SlotsMatch)
    (hzero : ∀ tid t, db.tasks.get? tid = some t → t.ownerId = u → t.holds .running = 0) :
    (db.deleteUserTasks u).SlotsMatch := by
  refine ⟨Db.LeasesMatch.delete hm.leases u, fun n s hs hst => ?_⟩
  rw [Db.deleteUserTasks, Table.get?_map] at hs
  obtain ⟨s₀, hs₀, rfl⟩ := Option.map_eq_some_iff.mp hs
  have hst₀ : s₀.state = .leased := by
    split at hst <;> exact hst
  -- a leased slot never loses its task: the tasks that go lease none
  have hkeep : (s₀.taskId.any fun tid => (db.visibleTask u tid).isSome) = false := by
    cases htask : s₀.taskId with
    | none => rfl
    | some tid =>
      cases hvis : db.visibleTask u tid with
      | none => simp [hvis]
      | some t =>
        obtain ⟨hfound, hu⟩ := Db.visibleTask_eq_some.mp hvis
        have hleases := hm.leases tid
        rw [Db.runs, hfound, Option.map_some, Option.getD_some, hzero tid t hfound hu, Db.leases,
          Table.sum] at hleases
        have hone := List.sum_eq_zero_iff.mp hleases 1 (List.mem_map.mpr
          ⟨(n, s₀), Table.get?_eq_some_iff.mp hs₀, by simp [hst₀, htask]⟩)
        cases hone
  rw [hkeep, if_neg (by simp)]
  exact hm.named n s₀ hs₀ hst₀

/-! ## The hook -/

section Hook

variable (hw : db.WellHeld)
include hw

theorem foldl_release_keeps (ids : List TaskId) (u : UserId) {P : Db → Prop}
    (hstep : ∀ db tid, db.WellHeld → P db → P (db.releaseTaskHoldings tid u)) (h : P db) :
    P (ids.foldl (fun db tid => db.releaseTaskHoldings tid u) db) :=
  (foldl_releaseTaskHoldings_invariant (P := fun db => db.WellHeld ∧ P db)
    (fun db tid h => ⟨h.1.release tid u, hstep db tid h.1 h.2⟩) ⟨hw, h⟩).2

theorem terminateTasksHook_balanced (hb : db.Balanced c)
    (hrest : ids ≠ [] → ∀ tid t, db.tasks.get? tid = some t → t.ownerId = u → tid ∉ ids →
      t.holds c = 0) : (terminateTasksHook db u ids).Balanced c := by
  unfold terminateTasksHook
  split
  · exact hb
  · next hids =>
    have hfold := foldl_release_keeps (hw.mark u) ids u
      (fun _ tid hw hb => Db.Balanced.release hw hb tid u) (hb.mark u)
    exact hfold.delete fun tid x hx hown => holds_before_delete (hrest hids) hx hown

theorem terminateTasksHook_platformBalanced (hb : db.PlatformBalanced)
    (hrest : ids ≠ [] → ∀ tid t, db.tasks.get? tid = some t → t.ownerId = u → tid ∉ ids →
      t.holds .storage = 0) : (terminateTasksHook db u ids).PlatformBalanced := by
  unfold terminateTasksHook
  split
  · exact hb
  · next hids =>
    have hfold := foldl_release_keeps (hw.mark u) ids u
      (fun _ tid hw hb => Db.PlatformBalanced.release hw hb tid u) (hb.mark u)
    exact hfold.delete fun tid x hx hown => holds_before_delete (hrest hids) hx hown

theorem terminateTasksHook_leasesMatch (hm : db.LeasesMatch) (u : UserId) (ids : List TaskId) :
    (terminateTasksHook db u ids).LeasesMatch := by
  unfold terminateTasksHook
  split
  · exact hm
  · have hfold := foldl_release_keeps (hw.mark u) ids u
      (fun _ tid hw hm => Db.LeasesMatch.release hw hm tid u) (hm.mark u)
    exact hfold.delete u

theorem terminateTasksHook_slotsMatch (hm : db.SlotsMatch)
    (hrest : ids ≠ [] → ∀ tid t, db.tasks.get? tid = some t → t.ownerId = u → tid ∉ ids →
      t.holds .running = 0) : (terminateTasksHook db u ids).SlotsMatch := by
  unfold terminateTasksHook
  split
  · exact hm
  · next hids =>
    have hfold := foldl_release_keeps (hw.mark u) ids u
      (fun _ tid hw hm => Db.SlotsMatch.release hw hm tid u) (hm.mark u)
    exact hfold.delete fun tid x hx hown => holds_before_delete (hrest hids) hx hown

end Hook

end AgentCraft.Tasking
