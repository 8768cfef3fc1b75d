import Mathlib

/-!
# Rows under `UPDATE … WHERE`

A table without a key is a list of rows in insertion order. `updateWhere p f` is the statement
`UPDATE … SET f WHERE p`, and the number of rows it reports is `countP p`. The lemmas say what such a
statement leaves alone: a projection `f` does not touch, the rows outside `p`, and the selections that
`p` refines.
-/

namespace AgentCraft.Relational

variable {α β : Type*}

/-- `UPDATE … SET f WHERE p`: rewrite the rows that satisfy `p`, in place. -/
def updateWhere (p : α → Bool) (f : α → α) (rows : List α) : List α :=
  rows.map fun x => if p x then f x else x

@[simp]
theorem updateWhere_nil (p : α → Bool) (f : α → α) : updateWhere p f [] = [] := rfl

@[simp]
theorem updateWhere_cons (p : α → Bool) (f : α → α) (x : α) (rows : List α) :
    updateWhere p f (x :: rows) = (if p x then f x else x) :: updateWhere p f rows := rfl

/-- A row of the updated table comes from a row of the old one. -/
theorem mem_updateWhere {p : α → Bool} {f : α → α} {rows : List α} {y : α} :
    y ∈ updateWhere p f rows ↔ ∃ x ∈ rows, (if p x then f x else x) = y := by
  simp [updateWhere]

/-- A statement that reports no row changes nothing. -/
theorem updateWhere_of_countP_eq_zero {p : α → Bool} {f : α → α} {rows : List α}
    (h : rows.countP p = 0) : updateWhere p f rows = rows := by
  have hp : ∀ x ∈ rows, (if p x then f x else x) = x := by
    intro x hx
    have hpx := List.countP_eq_zero.mp h x hx
    rw [if_neg hpx]
  exact List.map_congr_left hp |>.trans (List.map_id rows)

/-- A property of every row survives if the update preserves it on the rows it rewrites. -/
theorem forall_updateWhere {P : α → Prop} {p : α → Bool} {f : α → α} {rows : List α}
    (h : ∀ x ∈ rows, P x) (hf : ∀ x ∈ rows, p x = true → P x → P (f x)) :
    ∀ y ∈ updateWhere p f rows, P y := by
  intro y hy
  obtain ⟨x, hx, rfl⟩ := mem_updateWhere.mp hy
  by_cases hp : p x = true
  · rw [if_pos hp]
    exact hf x hx hp (h x hx)
  · rw [if_neg hp]
    exact h x hx

/-- A projection that `f` does not touch reads the same before and after. -/
theorem map_updateWhere (g : α → β) {p : α → Bool} {f : α → α} (rows : List α)
    (hg : ∀ x, p x = true → g (f x) = g x) : (updateWhere p f rows).map g = rows.map g := by
  induction rows with
  | nil => rfl
  | cons x rows ih =>
    by_cases hp : p x = true
    · simp [hp, hg x hp, ih]
    · simp [hp, ih]

/-- A selection that `f` neither enters nor leaves selects the rows that it selected, updated. -/
theorem filter_updateWhere {q p : α → Bool} {f : α → α} (rows : List α)
    (hq : ∀ x, p x = true → q (f x) = q x) :
    (updateWhere p f rows).filter q = updateWhere p f (rows.filter q) := by
  induction rows with
  | nil => rfl
  | cons x rows ih =>
    by_cases hp : p x = true
    · by_cases hx : q x = true
      · simp [hp, hx, hq x hp, ih]
      · simp [hp, hx, hq x hp, ih]
    · by_cases hx : q x = true <;> simp [hp, hx, ih]

/-- If `p` lies inside `q` and nothing satisfies `q`, an update at `p` is empty. -/
theorem updateWhere_of_filter_eq_nil {q p : α → Bool} {f : α → α} {rows : List α}
    (hpq : ∀ x, p x = true → q x = true) (h : rows.filter q = []) :
    rows.countP p = 0 ∧ updateWhere p f rows = rows := by
  have h0 : rows.countP p = 0 := by
    rw [List.countP_eq_zero]
    intro x hx hp
    exact List.filter_eq_nil_iff.mp h x hx (hpq x hp)
  exact ⟨h0, updateWhere_of_countP_eq_zero h0⟩

/-- Rows outside the update keep their place in a selection; rows inside it are selected afresh. -/
theorem filter_updateWhere_of_subset {q p : α → Bool} {f : α → α} (rows : List α)
    (hpq : ∀ x, p x = true → q x = true) :
    (updateWhere p f rows).filter q = (updateWhere p f (rows.filter q)).filter q := by
  induction rows with
  | nil => rfl
  | cons x rows ih =>
    by_cases hx : q x = true
    · by_cases hp : p x = true <;> by_cases hfx : q (f x) = true <;> simp [hx, hp, hfx, ih]
    · have hp : p x = false := by
        cases hpx : p x with
        | false => rfl
        | true => exact absurd (hpq x hpx) hx
      simp [hx, hp, ih]

/-- When `q` selects exactly one row and `p` refines `q`, an update that reports a row hit that row. -/
theorem filter_updateWhere_singleton {q p : α → Bool} {f : α → α} {rows : List α} {a : α}
    (hpq : ∀ x, p x = true → q x = true) (ha : rows.filter q = [a])
    (hne : rows.countP p ≠ 0) :
    p a = true ∧ (updateWhere p f rows).filter q = [f a].filter q := by
  have hpa : p a = true := by
    obtain ⟨x, hx, hpx⟩ := List.countP_pos_iff.mp (Nat.pos_of_ne_zero hne)
    have hxa : x ∈ rows.filter q := List.mem_filter.mpr ⟨hx, hpq x hpx⟩
    rw [ha, List.mem_singleton] at hxa
    exact hxa ▸ hpx
  refine ⟨hpa, ?_⟩
  rw [filter_updateWhere_of_subset rows hpq, ha]
  simp [hpa]

/-- Rows that leave a selection are the rows the update hit. -/
theorem countP_updateWhere_of_leave {q p : α → Bool} {f : α → α} (rows : List α)
    (hpq : ∀ x, p x = true → q x = true) (hf : ∀ x, p x = true → q (f x) = false) :
    (updateWhere p f rows).countP q + rows.countP p = rows.countP q := by
  induction rows with
  | nil => rfl
  | cons x rows ih =>
    by_cases hp : p x = true
    · simp only [updateWhere_cons, hp, if_true, List.countP_cons, hf x hp, hpq x hp]
      simp only [Bool.false_eq_true, if_false]
      omega
    · simp only [updateWhere_cons, hp, List.countP_cons]
      simp only [Bool.false_eq_true, if_false]
      omega

/-- A count that the update does not move. -/
theorem countP_updateWhere_of_eq {q p : α → Bool} {f : α → α} (rows : List α)
    (hq : ∀ x, p x = true → q (f x) = q x) :
    (updateWhere p f rows).countP q = rows.countP q := by
  rw [List.countP_eq_length_filter, List.countP_eq_length_filter, filter_updateWhere rows hq]
  simp [updateWhere]

/-- The weight that an update removes from a total is the weight of the rows it hit. -/
theorem sum_updateWhere_of_leave (g : α → ℤ) {p : α → Bool} {f : α → α} (rows : List α)
    (hf : ∀ x, p x = true → g (f x) = 0) :
    ((updateWhere p f rows).map g).sum + ((rows.filter p).map g).sum = (rows.map g).sum := by
  induction rows with
  | nil => rfl
  | cons x rows ih =>
    by_cases hp : p x = true
    · simp only [updateWhere_cons, hp, if_true, List.map_cons, List.sum_cons, hf x hp,
        List.filter_cons_of_pos hp]
      omega
    · simp only [updateWhere_cons, hp, List.map_cons, List.sum_cons,
        List.filter_cons_of_neg hp]
      simp only [Bool.false_eq_true, if_false]
      omega

end AgentCraft.Relational
