import Mathlib

/-!
# Keyed tables

A `Table κ α` is a table with primary key `κ`: its rows in insertion order, no key twice. The
invariant is a field, so a table with a duplicate key cannot be built. Totals over a table
(`Table.sum`) are what the ledger invariants speak about; each operation comes with the equation
that says how it moves a total.
-/

namespace AgentCraft.Relational

/-- A table with primary key `κ`, rows in insertion order. -/
structure Table (κ α : Type*) where
  rows : List (κ × α)
  nodup : (rows.map Prod.fst).Nodup

namespace Table

variable {κ α : Type*}

/-- The table without rows. -/
def empty : Table κ α := ⟨[], List.nodup_nil⟩

/-- Rewrite every row, keys untouched: `UPDATE … SET f`. -/
def map (t : Table κ α) (f : κ → α → α) : Table κ α where
  rows := t.rows.map fun r => (r.1, f r.1 r.2)
  nodup := by
    have hkeys : (t.rows.map fun r => (r.1, f r.1 r.2)).map Prod.fst = t.rows.map Prod.fst := by
      simp [List.map_map, Function.comp_def]
    rw [hkeys]
    exact t.nodup

/-- Keep the rows that satisfy `p`: `DELETE … WHERE ¬ p`. -/
def filter (t : Table κ α) (p : κ → α → Bool) : Table κ α where
  rows := t.rows.filter fun r => p r.1 r.2
  nodup := t.nodup.sublist (List.filter_sublist.map Prod.fst)

/-- The total of `f` over the rows. -/
def sum {M : Type*} [AddMonoid M] (t : Table κ α) (f : κ → α → M) : M :=
  (t.rows.map fun r => f r.1 r.2).sum

variable [DecidableEq κ]

/-- The row with key `k`. -/
def get? (t : Table κ α) (k : κ) : Option α := t.rows.lookup k

/-- Replace the row with key `k`, if there is one. -/
def set (t : Table κ α) (k : κ) (v : α) : Table κ α := t.map fun k' v' => if k' = k then v else v'

/-- Append a row; a key already present leaves the table unchanged (`ON CONFLICT DO NOTHING`). -/
def insert (t : Table κ α) (k : κ) (v : α) : Table κ α :=
  if h : k ∈ t.rows.map Prod.fst then t
  else
    { rows := t.rows ++ [(k, v)]
      nodup := by
        rw [List.map_append]
        refine List.Nodup.append t.nodup (List.nodup_singleton k) ?_
        intro k' hk' hk
        rw [List.mem_singleton.mp hk] at hk'
        exact h hk' }

/-! ## Lookup -/

/-- With distinct keys, the lookup finds exactly the rows of the list. -/
theorem get?_eq_some_iff {t : Table κ α} {k : κ} {v : α} :
    t.get? k = some v ↔ (k, v) ∈ t.rows := by
  obtain ⟨rows, hnd⟩ := t
  simp only [get?]
  induction rows with
  | nil => simp
  | cons r rows ih =>
    obtain ⟨k', v'⟩ := r
    rw [List.map_cons, List.nodup_cons] at hnd
    by_cases hk : k = k'
    · subst hk
      have hnot : (k, v) ∉ rows := fun hm => hnd.1 (List.mem_map.mpr ⟨(k, v), hm, rfl⟩)
      simp [hnot, eq_comm]
    · have hbeq : (k == k') = false := by simpa using hk
      rw [List.lookup_cons, hbeq]
      simp [ih hnd.2, hk]

theorem get?_eq_none_iff {t : Table κ α} {k : κ} :
    t.get? k = none ↔ k ∉ t.rows.map Prod.fst := by
  constructor
  · intro h hk
    obtain ⟨r, hr, rfl⟩ := List.mem_map.mp hk
    have hsome : t.get? r.1 = some r.2 := get?_eq_some_iff.mpr hr
    rw [h] at hsome
    cases hsome
  · intro h
    cases hg : t.get? k with
    | none => rfl
    | some v =>
      exact absurd (List.mem_map.mpr ⟨(k, v), get?_eq_some_iff.mp hg, rfl⟩) h

@[simp]
theorem get?_empty (k : κ) : (empty : Table κ α).get? k = none := rfl

@[simp]
theorem get?_map (t : Table κ α) (f : κ → α → α) (k : κ) :
    (t.map f).get? k = (t.get? k).map (f k) := by
  obtain ⟨rows, hnd⟩ := t
  simp only [get?, map]
  clear hnd
  induction rows with
  | nil => rfl
  | cons r rows ih =>
    obtain ⟨k', v'⟩ := r
    by_cases hk : k = k'
    · subst hk
      simp
    · have hbeq : (k == k') = false := by simpa using hk
      simp only [List.map_cons, List.lookup_cons, hbeq]
      exact ih

theorem get?_set (t : Table κ α) (k k' : κ) (v : α) :
    (t.set k v).get? k' = if k' = k then (t.get? k').map fun _ => v else t.get? k' := by
  rw [set, get?_map]
  by_cases h : k' = k
  · simp [h]
  · simp [h]

theorem get?_set_self {t : Table κ α} {k : κ} {v₀ : α} (h : t.get? k = some v₀) (v : α) :
    (t.set k v).get? k = some v := by
  simp [get?_set, h]

theorem get?_set_ne (t : Table κ α) {k k' : κ} (h : k' ≠ k) (v : α) :
    (t.set k v).get? k' = t.get? k' := by
  simp [get?_set, h]

/-- Writing what is there changes nothing. -/
theorem set_self {t : Table κ α} {k : κ} {v : α} (h : t.get? k = some v) : t.set k v = t := by
  obtain ⟨rows, hnd⟩ := t
  simp only [set, map, mk.injEq]
  refine (List.map_congr_left fun r hr => ?_).trans (List.map_id rows)
  by_cases hk : r.1 = k
  · -- the key determines the row
    have hrow : (Table.mk rows hnd).get? k = some r.2 := get?_eq_some_iff.mpr (hk ▸ hr)
    rw [h] at hrow
    rw [if_pos hk, Option.some.inj hrow]
    rfl
  · rw [if_neg hk]
    rfl

/-- The last write to a row wins. -/
@[simp]
theorem set_set (t : Table κ α) (k : κ) (v v' : α) : (t.set k v).set k v' = t.set k v' := by
  simp only [set, map, List.map_map]
  congr 1
  refine List.map_congr_left fun r _ => ?_
  by_cases h : r.1 = k <;> simp [h]

theorem get?_insert {t : Table κ α} {k : κ} (h : t.get? k = none) (k' : κ) (v : α) :
    (t.insert k v).get? k' = if k' = k then some v else t.get? k' := by
  have hk := get?_eq_none_iff.mp h
  simp only [insert, hk, dite_false]
  by_cases hkk : k' = k
  · subst hkk
    rw [if_pos rfl, get?_eq_some_iff]
    simp
  · rw [if_neg hkk]
    cases hg : t.get? k' with
    | none =>
      rw [get?_eq_none_iff] at hg ⊢
      simp only [List.map_append, List.map_cons, List.map_nil, List.mem_append,
        List.mem_singleton, not_or]
      exact ⟨hg, hkk⟩
    | some v' =>
      rw [get?_eq_some_iff] at hg ⊢
      exact List.mem_append_left _ hg

theorem insert_of_some {t : Table κ α} {k : κ} {v₀ : α} (h : t.get? k = some v₀) (v : α) :
    t.insert k v = t := by
  have hk : k ∈ t.rows.map Prod.fst :=
    List.mem_map.mpr ⟨(k, v₀), get?_eq_some_iff.mp h, rfl⟩
  simp only [insert, hk, dite_true]

/-- A row after an insertion is an old one or the new one. -/
theorem get?_insert_cases {t : Table κ α} {k k' : κ} {v x : α}
    (h : (t.insert k v).get? k' = some x) : t.get? k' = some x ∨ k' = k ∧ x = v := by
  cases hk : t.get? k with
  | none =>
    rw [get?_insert hk] at h
    split at h
    · next heq => exact .inr ⟨heq, (Option.some.inj h).symm⟩
    · exact .inl h
  | some v₁ =>
    rw [insert_of_some hk] at h
    exact .inl h

/-- A row after a write is an old one or the new one. -/
theorem get?_set_cases {t : Table κ α} {k k' : κ} {v x : α} (h : (t.set k v).get? k' = some x) :
    t.get? k' = some x ∨ k' = k ∧ x = v := by
  rw [get?_set] at h
  split at h
  · next heq =>
    obtain ⟨-, -, hx⟩ := Option.map_eq_some_iff.mp h
    exact .inr ⟨heq, hx.symm⟩
  · exact .inl h

/-- An upsert: the row is inserted if it is missing, and written in any case. -/
theorem get?_set_insert (t : Table κ α) (k k' : κ) (v₀ v : α) :
    ((t.insert k v₀).set k v).get? k' = if k' = k then some v else t.get? k' := by
  rw [get?_set]
  cases hk : t.get? k with
  | none =>
    rw [get?_insert hk]
    split <;> rfl
  | some v₁ =>
    rw [insert_of_some hk]
    split
    · next heq =>
      rw [heq, hk]
      rfl
    · rfl

@[simp]
theorem get?_filter (t : Table κ α) (p : κ → α → Bool) (k : κ) :
    (t.filter p).get? k = (t.get? k).filter (p k) := by
  cases hg : t.get? k with
  | none =>
    rw [get?_eq_none_iff] at hg
    simp only [Option.filter_none]
    rw [get?_eq_none_iff]
    exact fun hk => hg (List.map_subset _ (List.filter_subset_self _) hk)
  | some v =>
    have hmem := get?_eq_some_iff.mp hg
    by_cases hp : p k v = true
    · rw [Option.filter_some_pos hp, get?_eq_some_iff]
      exact List.mem_filter.mpr ⟨hmem, hp⟩
    · have hnone : Option.filter (p k) (some v) = none := by simp [hp]
      rw [hnone, Option.eq_none_iff_forall_ne_some]
      intro v' hv'
      have hm := List.mem_filter.mp (get?_eq_some_iff.mp hv')
      have hv : v' = v := by
        have hsome := get?_eq_some_iff.mpr hm.1
        rw [hg] at hsome
        exact (Option.some.inj hsome).symm
      exact hp (hv ▸ hm.2)

/-! ## Totals -/

section Sum

variable {M : Type*} [AddCommMonoid M]

omit [DecidableEq κ] in
@[simp]
theorem sum_empty (f : κ → α → M) : (empty : Table κ α).sum f = 0 := rfl

omit [DecidableEq κ] in
theorem sum_map (t : Table κ α) (h : κ → α → α) (f : κ → α → M) :
    (t.map h).sum f = t.sum fun k v => f k (h k v) := by
  simp [sum, map, List.map_map, Function.comp_def]

/-- A total depends only on the rows that the table has. -/
theorem sum_congr {t : Table κ α} {f g : κ → α → M}
    (h : ∀ k v, t.get? k = some v → f k v = g k v) : t.sum f = t.sum g := by
  refine congrArg List.sum (List.map_congr_left ?_)
  intro r hr
  exact h r.1 r.2 (get?_eq_some_iff.mpr hr)

omit [DecidableEq κ] in
theorem sum_add (t : Table κ α) (f g : κ → α → M) :
    (t.sum fun k v => f k v + g k v) = t.sum f + t.sum g :=
  List.sum_map_add

omit [DecidableEq κ] in
/-- Deleting rows drops their part of the total. -/
theorem sum_filter (t : Table κ α) (p : κ → α → Bool) (f : κ → α → M) :
    (t.filter p).sum f = t.sum fun k v => if p k v then f k v else 0 := by
  simp only [sum, filter]
  induction t.rows with
  | nil => rfl
  | cons r rows ih =>
    by_cases hp : p r.1 r.2 = true <;> simp [hp, ih]

/-- Replacing one row moves a total by the difference of that row. -/
theorem sum_set {t : Table κ α} {k : κ} {v : α} (h : t.get? k = some v) (v' : α)
    (f : κ → α → M) : (t.set k v').sum f + f k v = t.sum f + f k v' := by
  rw [set, sum_map]
  obtain ⟨rows, hnd⟩ := t
  have hmem := get?_eq_some_iff.mp h
  clear h
  simp only [sum] at *
  induction rows with
  | nil => cases hmem
  | cons r rows ih =>
    obtain ⟨k₀, v₀⟩ := r
    rw [List.map_cons, List.nodup_cons] at hnd
    rcases List.mem_cons.mp hmem with heq | htail
    · obtain ⟨rfl, rfl⟩ := Prod.mk.inj heq
      have hrest : (rows.map fun r => f r.1 (if r.1 = k then v' else r.2))
          = rows.map fun r => f r.1 r.2 := by
        refine List.map_congr_left fun r hr => ?_
        have hne : r.1 ≠ k := fun he => hnd.1 (List.mem_map.mpr ⟨r, hr, he⟩)
        rw [if_neg hne]
      simp only [List.map_cons, List.sum_cons, if_true, hrest]
      rw [add_right_comm, add_comm (f k v'), add_right_comm, add_comm (f k v)]
    · have hne : k₀ ≠ k := fun he => hnd.1 (List.mem_map.mpr ⟨(k, v), htail, he.symm⟩)
      simp only [List.map_cons, List.sum_cons, if_neg hne]
      rw [add_assoc, ih hnd.2 htail, ← add_assoc]

/-- Inserting a fresh row adds it to a total. -/
theorem sum_insert {t : Table κ α} {k : κ} (h : t.get? k = none) (v : α) (f : κ → α → M) :
    (t.insert k v).sum f = t.sum f + f k v := by
  have hk := get?_eq_none_iff.mp h
  simp only [insert, hk, dite_false, sum]
  simp

end Sum

/-- A count of one is one row. -/
theorem existsUnique_of_sum_eq_one {t : Table κ α} {p : κ → α → Prop} [∀ k v, Decidable (p k v)]
    (h : (t.sum fun k v => if p k v then 1 else 0) = 1) : ∃! k, ∃ v, t.get? k = some v ∧ p k v := by
  have hcount (rows : List (κ × α)) : (rows.map fun r => if p r.1 r.2 then 1 else 0).sum =
      (rows.filter fun r => p r.1 r.2).length := by
    induction rows with
    | nil => rfl
    | cons r rows ih => by_cases hp : p r.1 r.2 <;> simp [hp, ih, Nat.add_comm]
  rw [sum, hcount] at h
  obtain ⟨r, hr⟩ := List.length_eq_one_iff.mp h
  have hmem (k : κ) (v : α) : t.get? k = some v ∧ p k v ↔ (k, v) = r := by
    rw [get?_eq_some_iff, ← List.mem_singleton, ← hr, List.mem_filter, decide_eq_true_eq]
  refine ⟨r.1, ⟨r.2, (hmem r.1 r.2).mpr rfl⟩, ?_⟩
  rintro k ⟨v, hv⟩
  rw [← (hmem k v).mp hv]

/-- One part is at most a total of nonnegative parts. -/
theorem le_sum {t : Table κ α} {f : κ → α → ℤ}
    (h : ∀ k v, t.get? k = some v → 0 ≤ f k v) {k : κ} {v : α} (hk : t.get? k = some v) :
    f k v ≤ t.sum f := by
  refine List.single_le_sum ?_ _ (List.mem_map.mpr ⟨(k, v), get?_eq_some_iff.mp hk, rfl⟩)
  intro x hx
  obtain ⟨r, hr, rfl⟩ := List.mem_map.mp hx
  exact h r.1 r.2 (get?_eq_some_iff.mpr hr)

/-- A total whose parts all vanish vanishes. -/
theorem sum_eq_zero {t : Table κ α} {f : κ → α → ℤ}
    (h : ∀ k v, t.get? k = some v → f k v = 0) : t.sum f = 0 := by
  rw [sum_congr h]
  simp [sum]

end Table

end AgentCraft.Relational
