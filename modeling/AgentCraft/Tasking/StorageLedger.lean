import AgentCraft.Tasking.AccountHook

/-!
# The storage ledger

The storage counters of the users and of the platform against the reservations that are held. They
agree in every run in which the provider service fails only tasks without storage and the account hook
deletes unscanned tasks without storage only: the provider service releases `task_root` reservations
without refunding their bytes, and the hook deletes whatever the user has.
-/

namespace AgentCraft.Tasking

open AgentCraft.Relational AgentCraft.Transition

/-- The bytes of the held `task_root` and `artifact_copy` reservations of a user. -/
def Db.heldStorage (db : Db) (u : UserId) : ℤ :=
  db.tasks.sum fun _ t => (t.reservations.map fun r =>
    if r.userId = u ∧ r.state = .held ∧ r.kind.isStorage = true then (r.bytes : ℤ) else 0).sum

/-- The bytes of the held `task_root` and `artifact_copy` reservations of all users. -/
def Db.heldStorageTotal (db : Db) : ℤ :=
  db.tasks.sum fun _ t => (t.reservations.map fun r =>
    if r.state = .held ∧ r.kind.isStorage = true then (r.bytes : ℤ) else 0).sum

/-- The counters say what is held; a user who holds nothing any more is back at zero. -/
structure World.StorageConserved (w : World) : Prop where
  user : ∀ u, w.db.reads .storage u = w.db.heldStorage u
  platform : w.db.platform = w.db.heldStorageTotal
  drained : ∀ u, (∀ tid t, w.db.tasks.get? tid = some t →
    ∀ r ∈ t.reservations, r.userId = u → r.state ≠ .held) → w.db.reads .storage u = 0

/-! ## The two readings of the total -/

theorem sum_heldStorage {t : Task} (hw : t.WellHeld) (u : UserId) :
    (t.reservations.map fun r =>
      if r.userId = u ∧ r.state = .held ∧ r.kind.isStorage = true then (r.bytes : ℤ) else 0).sum =
      if t.ownerId = u then (t.holds .storage : ℤ) else 0 := by
  have hrow : ∀ r ∈ t.reservations,
      (if r.userId = u ∧ r.state = .held ∧ r.kind.isStorage = true then (r.bytes : ℤ) else 0) =
        if t.ownerId = u then ((Column.storage.weight r : ℕ) : ℤ) else 0 := by
    intro r hr
    rw [(hw r hr).1, Column.weight, Column.amount]
    by_cases hu : t.ownerId = u <;> by_cases hs : r.state = .held <;>
      by_cases hk : r.kind.isStorage = true <;> simp [hu, hs, hk]
  rw [List.map_congr_left hrow, Task.holds]
  split
  · simp [List.map_map, Function.comp_def]
  · simp

theorem sum_heldStorageTotal (t : Task) :
    (t.reservations.map fun r =>
      if r.state = .held ∧ r.kind.isStorage = true then (r.bytes : ℤ) else 0).sum =
      t.holds .storage := by
  have hrow : ∀ r ∈ t.reservations,
      (if r.state = .held ∧ r.kind.isStorage = true then (r.bytes : ℤ) else 0) =
        ((Column.storage.weight r : ℕ) : ℤ) := by
    intro r hr
    rw [Column.weight, Column.amount]
    by_cases hs : r.state = .held <;> by_cases hk : r.kind.isStorage = true <;> simp [hs, hk]
  rw [List.map_congr_left hrow, Task.holds]
  simp [List.map_map, Function.comp_def]

theorem Db.Held.heldStorage {db : Db} (hheld : db.Held) (u : UserId) :
    db.heldStorage u = db.holds .storage u :=
  Table.sum_congr fun tid t ht => sum_heldStorage (hheld tid t ht).wellHeld u

/-- Balanced accounts are conserved storage. -/
theorem storageConserved_of_balanced {w : World} (hheld : w.db.Held) (hb : w.db.Balanced .storage)
    (hp : w.db.PlatformBalanced) : w.StorageConserved := by
  refine ⟨fun u => ?_, ?_, fun u hdrained => ?_⟩
  · rw [hb u, hheld.heldStorage]
  · rw [hp, Db.heldStorageTotal]
    exact Table.sum_congr fun tid t _ => (sum_heldStorageTotal t).symm
  · rw [hb u, ← hheld.heldStorage]
    refine Table.sum_eq_zero fun tid t ht => ?_
    have hrow : ∀ r ∈ t.reservations, (if r.userId = u ∧ r.state = .held ∧
        r.kind.isStorage = true then (r.bytes : ℤ) else 0) = 0 := by
      intro r hr
      rw [if_neg]
      rintro ⟨hu, hs, -⟩
      exact hdrained tid t ht r hr hu hs
    rw [List.map_congr_left hrow]
    simp

/-! ## Runs -/

/-- The provider service fails no task that holds storage, and the account hook deletes no unscanned
task that does. -/
def SparesStorage (w : World) : Action → Prop
  | .request (.rotateKey owner pid) | .request (.revokeProvider owner pid) =>
    (∃ row, getProviderRow w.db owner pid = .ok row) →
      ∀ tid ∈ unstartedTasks w.db pid, ∀ t, w.db.tasks.get? tid = some t → t.holds .storage = 0
  | .perform (.terminateUser u ids) _ => .terminateUser u ids ∈ w.jobs → ids ≠ [] →
    ∀ tid t, w.db.tasks.get? tid = some t → t.ownerId = u → tid ∉ ids → t.holds .storage = 0
  | _ => True

section Runs

variable {cfg : Settings} {nfc : String → String} {w w' w₀ : World} {a : Action} {as : List Action}

/-- What a committed step that spares storage is expected to fail. -/
theorem SparesStorage.expects (hG : SparesStorage w a) (h : step cfg nfc w a = .ok w') {tid : TaskId}
    {t : Task} (hexp : a.Expects w.db .fail tid t) : t.holds .storage = 0 := by
  cases a with
  | request r =>
    obtain ⟨db', hdb, -⟩ := bind_eq_ok.mp h
    cases r with
    | rotateKey owner pid | revokeProvider owner pid =>
      obtain ⟨row, hrow, -⟩ := bind_eq_ok.mp hdb
      exact hG ⟨row, hrow⟩ tid hexp.2.1 t hexp.2.2
    | _ => cases hexp.2.1
  | perform j locked => cases j <;> exact hexp.elim
  | _ => exact hexp.elim

theorem step_held (hco : w.Coherent) (hheld : w.db.Held) (h : step cfg nfc w a = .ok w') :
    w'.db.Held := by
  rcases step_changes hco.db hco.jobs h with hc | ⟨u, ids, locked, -, -, hdb⟩
  · exact hc.held hheld
  · rw [hdb]
    exact fun tid t ht => hheld tid t (terminateTasksHook_row_of u ids ht)

theorem Db.Held.wellHeld {db : Db} (h : db.Held) : db.WellHeld := fun tid t ht => (h tid t ht).wellHeld

theorem step_storage (hco : w.Coherent) (hheld : w.db.Held) (hb : w.db.Balanced .storage)
    (hp : w.db.PlatformBalanced) (hG : SparesStorage w a) (h : step cfg nfc w a = .ok w') :
    w'.db.Balanced .storage ∧ w'.db.PlatformBalanced := by
  rcases step_changes hco.db hco.jobs h with hc | ⟨u, ids, locked, rfl, hmem, hdb⟩
  · exact ⟨(hc.balanced hheld (fun _ _ hexp _ => hG.expects h hexp) hb).2,
      hc.platformBalanced hheld (fun _ _ hexp => hG.expects h hexp) hp⟩
  · rw [hdb]
    exact ⟨terminateTasksHook_balanced hheld.wellHeld hb (hG hmem),
      terminateTasksHook_platformBalanced hheld.wellHeld hp (hG hmem)⟩

theorem World.Initial.held (h₀ : w.Initial) : w.db.Held := by
  intro tid t ht
  simp [h₀.db.tasks] at ht

theorem World.Initial.balanced (h₀ : w.Initial) (c : Column) : w.db.Balanced c := by
  intro u
  have hreads : w.db.reads c u = 0 := by
    rw [Db.reads]
    cases hrow : w.db.usage.get? u with
    | none => cases c <;> rfl
    | some row =>
      rw [h₀.db.usage u row hrow]
      cases c <;> rfl
  rw [hreads, Db.holds, h₀.db.tasks]
  rfl

/-- Storage is conserved in every run whose steps spare it. -/
theorem storageConserved_of_run (h₀ : w₀.Initial)
    (hG : (system cfg nfc).Guarded SparesStorage w₀ as) :
    ((system cfg nfc).run w₀ as).StorageConserved := by
  have hinv := System.invariant_run_of_guarded (S := system cfg nfc) (G := SparesStorage)
    (I := fun w => w.Coherent ∧ w.db.Held ∧ w.db.Balanced .storage ∧ w.db.PlatformBalanced)
    (fun w a w' hw hG hs => ⟨hw.1.step hs, step_held hw.1 hw.2.1 hs,
      step_storage hw.1 hw.2.1 hw.2.2.1 hw.2.2.2 hG hs⟩)
    ⟨h₀.coherent, h₀.held, h₀.balanced .storage, ?_⟩ hG
  · exact storageConserved_of_balanced hinv.2.1 hinv.2.2.1 hinv.2.2.2
  · rw [Db.PlatformBalanced, h₀.db.tasks]
    exact h₀.db.storage

/-- User 1 uploads a hundred bytes and commits them. -/
def committedRun : List Action :=
  [.request (.createTask 1 5 none "hi" []),
    .request (.uploadFiles 1 10 [("notes.txt", ⟨100, "sha"⟩)]),
    .request (.commitInput 1 10 "manifest")]

/-- The storage of a task that its user deletes is refunded. -/
theorem storageConserved_of_run_delete :
    ((system {} id).run World.small (committedRun ++ [.request (.delete 1 10)])).StorageConserved :=
  storageConserved_of_run World.small_initial (by
    simp [committedRun, System.Guarded, SparesStorage])

/-- The storage of a queued task is not refunded when its provider key is rotated. -/
theorem not_storageConserved_of_rotateKey :
    ¬ ((system {} id).run World.small
      (committedRun ++ [.request (.rotateKey 1 3)])).StorageConserved := by
  intro h
  have hread : ((system {} id).run World.small
      (committedRun ++ [.request (.rotateKey 1 3)])).db.reads .storage 1 = 100 := by decide
  have hheld : ((system {} id).run World.small
      (committedRun ++ [.request (.rotateKey 1 3)])).db.heldStorage 1 = 0 := by decide
  rw [h.user 1, hheld] at hread
  cases hread

end Runs

end AgentCraft.Tasking
