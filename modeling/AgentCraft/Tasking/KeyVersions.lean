import AgentCraft.Tasking.KeyChanges

/-!
# Key versions

A rotation writes the version that it has read, plus one. As long as the row still has that version when
the rotation commits, versions increase and no two keys share one. `update_provider` does not check that:
its read takes no lock and its final `UPDATE` addresses the row by its identifier only.
-/

namespace AgentCraft.Tasking

open AgentCraft.Relational AgentCraft.Transition

/-- The key that was stored last for a provider. -/
def KeyWorld.latest (w : KeyWorld) (pid : ProviderId) : Option StoredKey :=
  w.stored.find? (·.provider = pid)

/-- Versions identify the keys of a provider and increase with every key stored; the row has the last
one. Keys are listed with the newest first. -/
structure KeyWorld.KeysIdentified (w : KeyWorld) : Prop where
  unique : ∀ e ∈ w.stored, ∀ e' ∈ w.stored, e.provider = e'.provider → e.version = e'.version →
    e.key = e'.key
  increasing : w.stored.Pairwise fun e e' => e.provider = e'.provider → e'.version < e.version
  current : ∀ pid row, w.world.db.providers.get? pid = some row →
    (w.latest pid).map (·.version) = some row.keyVersion

/-- The invariant: the versions of the stored keys increase up to the version that the row has. -/
structure KeyWorld.Versioned (w : KeyWorld) : Prop where
  bounded : ∀ e ∈ w.stored, ∃ row, w.world.db.providers.get? e.provider = some row ∧
    e.version ≤ row.keyVersion
  increasing : w.stored.Pairwise fun e e' => e.provider = e'.provider → e'.version < e.version
  current : ∀ pid row, w.world.db.providers.get? pid = some row →
    (w.latest pid).map (·.version) = some row.keyVersion

/-- A rotation finds, when it commits, the version that it has read. -/
def RotatesCurrent (w : KeyWorld) : KeyAction → Prop
  | .commitChange k => k ∈ w.changes → k.newKey.isSome = true →
    ∀ row ∈ w.world.db.providers.get? k.provider, row.keyVersion = k.row.keyVersion
  | _ => True

section Versions

variable {cfg : Settings} {nfc : String → String} {w w' w₀ : KeyWorld} {a : KeyAction}
  {as : List KeyAction} {k : KeyChange} {db db' : Db}

/-- A new provider starts with version 1, the others keep theirs. -/
theorem createProvider_keyVersion {owner : UserId} {modelId : String} {isDefault : Bool}
    (h : createProvider db owner modelId isDefault = .ok db') :
    db.providers.get? db.nextId = none ∧
      (db'.providers.get? db.nextId).map (·.keyVersion) = some 1 ∧
      ∀ pid, pid ≠ db.nextId →
        (db'.providers.get? pid).map (·.keyVersion) = (db.providers.get? pid).map (·.keyVersion) := by
  unfold createProvider at h
  simp only at h
  split at h
  · cases h
  · next hnone =>
    cases h
    refine ⟨?_, ?_, fun pid hne => ?_⟩
    · rw [Table.get?_map] at hnone
      exact Option.map_eq_none_iff.mp hnone
    · show (Table.get? (Table.insert _ _ _) _).map _ = _
      rw [Table.get?_insert hnone, if_pos rfl]
      rfl
    · show (Table.get? (Table.insert _ _ _) _).map _ = _
      rw [Table.get?_insert hnone, if_neg hne, Table.get?_map, Option.map_map]
      congr 1
      funext row
      simp only [Function.comp_apply]
      split <;> rfl

/-- No key is stored, and no version moves. -/
theorem KeyWorld.Versioned.of_stored (h : w.Versioned) (hstored : w'.stored = w.stored)
    (hrows : ∀ pid, (w'.world.db.providers.get? pid).map (·.keyVersion) =
      (w.world.db.providers.get? pid).map (·.keyVersion)) : w'.Versioned := by
  refine ⟨fun e he => ?_, hstored ▸ h.increasing, fun pid row' hrow' => ?_⟩
  · rw [hstored] at he
    obtain ⟨row, hrow, hle⟩ := h.bounded e he
    have hversion := hrows e.provider
    rw [hrow, Option.map_some] at hversion
    obtain ⟨row', hrow', heq⟩ := Option.map_eq_some_iff.mp hversion
    exact ⟨row', hrow', hle.trans_eq heq.symm⟩
  · have hversion := hrows pid
    rw [hrow', Option.map_some] at hversion
    obtain ⟨row, hrow, heq⟩ := Option.map_eq_some_iff.mp hversion.symm
    rw [KeyWorld.latest, hstored, ← heq]
    exact h.current pid row hrow

/-- A key is stored under a version above all those of its provider. -/
theorem KeyWorld.Versioned.store (h : w.Versioned) {e : StoredKey} (hstored : w'.stored = e :: w.stored)
    (hnew : (w'.world.db.providers.get? e.provider).map (·.keyVersion) = some e.version)
    (habove : ∀ row, w.world.db.providers.get? e.provider = some row → row.keyVersion < e.version)
    (hrows : ∀ pid, pid ≠ e.provider → (w'.world.db.providers.get? pid).map (·.keyVersion) =
      (w.world.db.providers.get? pid).map (·.keyVersion)) : w'.Versioned := by
  obtain ⟨new, hget, hversion⟩ := Option.map_eq_some_iff.mp hnew
  refine ⟨fun e' he' => ?_, ?_, fun pid row' hrow' => ?_⟩
  · rw [hstored] at he'
    rcases List.mem_cons.mp he' with rfl | he'
    · exact ⟨new, hget, hversion.ge⟩
    · obtain ⟨row, hrow, hle⟩ := h.bounded e' he'
      by_cases hp : e'.provider = e.provider
      · rw [hp] at hrow ⊢
        exact ⟨new, hget, hle.trans ((habove row hrow).le.trans_eq hversion.symm)⟩
      · have hsame := hrows e'.provider hp
        rw [hrow, Option.map_some] at hsame
        obtain ⟨row', hrow', heq⟩ := Option.map_eq_some_iff.mp hsame
        exact ⟨row', hrow', hle.trans_eq heq.symm⟩
  · rw [hstored]
    refine List.pairwise_cons.mpr ⟨fun e' he' hp => ?_, h.increasing⟩
    obtain ⟨row, hrow, hle⟩ := h.bounded e' he'
    rw [← hp] at hrow
    exact hle.trans_lt (habove row hrow)
  · rw [KeyWorld.latest, hstored, List.find?_cons]
    by_cases hp : e.provider = pid
    · subst hp
      rw [hget] at hrow'
      cases hrow'
      simp [hversion]
    · have hsame := hrows pid (Ne.symm hp)
      rw [hrow', Option.map_some] at hsame
      obtain ⟨row, hrow, heq⟩ := Option.map_eq_some_iff.mp hsame.symm
      rw [decide_eq_false hp, ← heq]
      exact h.current pid row hrow

theorem KeyWorld.Versioned.keysIdentified (h : w.Versioned) : w.KeysIdentified := by
  refine ⟨?_, h.increasing, h.current⟩
  have hsame : w.stored.Pairwise fun e e' =>
      e.provider = e'.provider → e.version = e'.version → e.key = e'.key :=
    h.increasing.imp fun hlt hp hv => absurd hv (hlt hp).ne'
  have hflip : w.stored.Pairwise (flip fun e e' =>
      e.provider = e'.provider → e.version = e'.version → e.key = e'.key) :=
    h.increasing.imp fun hlt hp hv => absurd hv (hlt hp.symm).ne
  exact hsame.forall_of_forall_of_flip (fun _ _ _ _ => rfl) hflip

theorem KeyChange.keyVersion_write (k : KeyChange) (row : UserProvider) :
    (k.write row).keyVersion = if k.newKey.isSome then k.row.keyVersion + 1 else row.keyVersion := by
  unfold KeyChange.write
  cases k.newKey <;> rfl

/-- What a committed change leaves as the version of a row. -/
theorem KeyChange.keyVersion_apply (k : KeyChange) (tids : List TaskId) (db : Db) (pid : ProviderId) :
    ((k.apply tids db).providers.get? pid).map (·.keyVersion) =
      (db.providers.get? pid).map fun row =>
        if pid = k.provider ∧ k.newKey.isSome then k.row.keyVersion + 1 else row.keyVersion := by
  rw [k.apply_providers, Option.map_map]
  congr 1
  funext row
  by_cases hp : pid = k.provider <;> simp [hp, k.keyVersion_write]

theorem KeyMove.versioned (h : KeyMove w w' a) (hv : w.Versioned) (hG : RotatesCurrent w a) :
    w'.Versioned := by
  cases h with
  | moved hf hstored => exact hv.of_stored hstored fun pid => by rw [hf.providers]
  | inserted c t ha hmem hi hstored =>
    exact hv.of_stored hstored fun pid => by rw [hi.creates.providers]
  | provided owner modelId isDefault key hdb hstored =>
    obtain ⟨hfresh, hnew, hrows⟩ := createProvider_keyVersion hdb
    refine hv.store hstored hnew (fun row hrow => ?_) hrows
    rw [hfresh] at hrow
    cases hrow
  | committed k tids row ha hmem hrow htids hdb hstored =>
    subst ha
    cases hkey : k.newKey with
    | none =>
      refine hv.of_stored (by rw [hstored, KeyChange.storedKeys, hkey]; rfl) fun pid => ?_
      rw [hdb, k.keyVersion_apply, hkey]
      simp
    | some key =>
      have hsome : k.newKey.isSome = true := by rw [hkey]; rfl
      refine hv.store (e := ⟨k.provider, k.row.keyVersion + 1, key⟩) ?_ ?_ (fun row₁ hrow₁ => ?_)
        fun pid hp => ?_
      · rw [hstored, KeyChange.storedKeys, hkey]
        rfl
      · rw [hdb, k.keyVersion_apply, hrow, Option.map_some, if_pos ⟨rfl, hsome⟩]
      · rw [hG hmem hsome row₁ hrow₁]
        exact Nat.lt_succ_self _
      · rw [hdb, k.keyVersion_apply]
        congr 1
        funext row
        rw [if_neg fun h => hp h.1]

theorem KeyWorld.Initial.versioned (h₀ : w.Initial) : w.Versioned := by
  obtain ⟨key, hstored⟩ := h₀.stored
  refine ⟨fun e he => ?_, ?_, fun pid row hrow => ?_⟩
  · rw [hstored] at he
    obtain ⟨r, hr, rfl⟩ := List.mem_map.mp he
    exact ⟨r.2, Table.get?_eq_some_iff.mpr hr, le_rfl⟩
  · rw [hstored, List.pairwise_map]
    have hkeys := List.pairwise_map.mp w.world.db.providers.nodup
    exact hkeys.imp fun hne heq => absurd heq hne
  · have hmem : (⟨pid, row.keyVersion, key pid⟩ : StoredKey) ∈ w.stored := by
      rw [hstored]
      exact List.mem_map.mpr ⟨(pid, row), Table.get?_eq_some_iff.mp hrow, rfl⟩
    have hfound : (w.latest pid).isSome = true := by
      rw [KeyWorld.latest, List.find?_isSome]
      exact ⟨_, hmem, by simp⟩
    obtain ⟨e, he⟩ := Option.isSome_iff_exists.mp hfound
    -- one key for each row, so the one found is that of the row
    have hmem' := List.mem_of_find?_eq_some he
    rw [hstored] at hmem'
    obtain ⟨r, hr, rfl⟩ := List.mem_map.mp hmem'
    have hpid : r.1 = pid := by simpa using List.find?_some he
    have hrow' := Table.get?_eq_some_iff.mpr hr
    rw [hpid, hrow] at hrow'
    rw [he, Option.map_some, Option.some.inj hrow']

/-- In every run in which each rotation finds, when it commits, the version that it has read, versions
identify keys and increase. -/
theorem keysIdentified_of_run (h₀ : w₀.Initial) (hG : (keySystem cfg nfc).Guarded RotatesCurrent w₀ as) :
    ((keySystem cfg nfc).run w₀ as).KeysIdentified :=
  (System.invariant_run_of_guarded (S := keySystem cfg nfc) (G := RotatesCurrent)
    (I := KeyWorld.Versioned) (fun _ _ _ hv hG hs => (KeyWorld.step_move hs).versioned hv hG)
    h₀.versioned hG).keysIdentified

/-- Two rotations of provider 3, one after the other. -/
theorem keysIdentified_of_run_twice : ((keySystem {} id).run KeyWorld.small
    [.readProvider 1 3 (some "new"), .lockTasks ⟨1, 3, ⟨1, "model", 1, .active, true⟩, some "new", none⟩,
      .commitChange ⟨1, 3, ⟨1, "model", 1, .active, true⟩, some "new", some []⟩,
      .readProvider 1 3 (some "newer"),
      .lockTasks ⟨1, 3, ⟨1, "model", 2, .active, true⟩, some "newer", none⟩,
      .commitChange ⟨1, 3, ⟨1, "model", 2, .active, true⟩, some "newer", some []⟩]).KeysIdentified :=
  keysIdentified_of_run KeyWorld.small_initial (by
    refine ⟨trivial, trivial, ?_, trivial, trivial, ?_, trivial⟩
    · intro _ _
      decide
    · intro _ _
      decide)

/-- Two rotations of provider 3 that overlap: both have read version 1. -/
def overlappingRotations : List KeyAction :=
  [.readProvider 1 3 (some "new"), .readProvider 1 3 (some "newer"),
    .lockTasks ⟨1, 3, ⟨1, "model", 1, .active, true⟩, some "new", none⟩,
    .lockTasks ⟨1, 3, ⟨1, "model", 1, .active, true⟩, some "newer", none⟩,
    .commitChange ⟨1, 3, ⟨1, "model", 1, .active, true⟩, some "new", some []⟩,
    .commitChange ⟨1, 3, ⟨1, "model", 1, .active, true⟩, some "newer", some []⟩]

/-- Both keys are stored under version 2. -/
theorem not_keysIdentified_of_overlap :
    ¬ ((keySystem {} id).run KeyWorld.small overlappingRotations).KeysIdentified := by
  intro h
  have hstored : ((keySystem {} id).run KeyWorld.small overlappingRotations).stored =
      [⟨3, 2, "newer"⟩, ⟨3, 2, "new"⟩, ⟨3, 1, "one"⟩, ⟨4, 1, "two"⟩] := by decide +kernel
  have hkeys := h.unique ⟨3, 2, "newer"⟩ (by simp [hstored]) ⟨3, 2, "new"⟩ (by simp [hstored]) rfl rfl
  exact absurd hkeys (by decide)

end Versions

end AgentCraft.Tasking
