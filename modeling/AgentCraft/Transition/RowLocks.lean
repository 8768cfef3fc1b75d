import AgentCraft.Relational.Table

/-!
# Rows held by transactions

A table of transactions in progress, each of which holds some rows. A transaction may take rows that no other
one holds, and may give rows up at any time; then no row is ever held twice.
-/

namespace AgentCraft.Transition

open AgentCraft.Relational

variable {τ σ ρ : Type*} [DecidableEq τ] {holds : σ → List ρ} {txs : Table τ σ} {t : τ} {x x' : σ}

/-- No row is held by two transactions. -/
def HeldOnce (holds : σ → List ρ) (txs : Table τ σ) : Prop :=
  ∀ t x t' x' r, txs.get? t = some x → txs.get? t' = some x' → r ∈ holds x → r ∈ holds x' → t = t'

/-- No other transaction holds the row. -/
def FreeFor (holds : σ → List ρ) (txs : Table τ σ) (t : τ) (r : ρ) : Prop :=
  ∀ t' x', txs.get? t' = some x' → t' ≠ t → r ∉ holds x'

/-- The transaction that has changed, or an old one. -/
theorem get?_set_of_some {t' : τ} {y : σ} (hx : txs.get? t = some x) (h : (txs.set t x').get? t' = some y) :
    t' ≠ t ∧ txs.get? t' = some y ∨ t' = t ∧ y = x' := by
  by_cases heq : t' = t
  · rw [heq, Table.get?_set_self hx] at h
    exact .inr ⟨heq, (Option.some.inj h).symm⟩
  · rw [Table.get?_set_ne _ heq] at h
    exact .inl ⟨heq, h⟩

/-- The test for a free row, as it is computed. -/
theorem freeFor_iff [DecidableEq ρ] {r : ρ} :
    (txs.rows.any fun row => row.1 ≠ t && (holds row.2).contains r) = false ↔ FreeFor holds txs t r := by
  rw [List.any_eq_false]
  constructor
  · intro hall t' x' hx' hne hmem
    exact hall (t', x') (Table.get?_eq_some_iff.mp hx') (by simpa [hne] using hmem)
  · intro hall row hrow hheld
    simp only [ne_eq, decide_not, Bool.and_eq_true, Bool.not_eq_true', decide_eq_false_iff_not,
      List.contains_eq_mem, decide_eq_true_eq] at hheld
    exact hall row.1 row.2 (Table.get?_eq_some_iff.mpr hrow) hheld.1 hheld.2

theorem heldOnce_empty : HeldOnce holds (.empty : Table τ σ) := by
  intro t x t' x' r hx
  cases hx

/-- What a transaction holds, another one cannot take. -/
theorem HeldOnce.freeFor (h : HeldOnce holds txs) {r : ρ} (hx : txs.get? t = some x) (hr : r ∈ holds x) :
    FreeFor holds txs t r :=
  fun t' x' hx' hne hr' => hne (h t' x' t x r hx' hx hr' hr)

/-- A transaction that comes in without rows. -/
theorem HeldOnce.insert (h : HeldOnce holds txs) (hx : holds x = []) : HeldOnce holds (txs.insert t x) := by
  intro t₁ x₁ t₂ x₂ r h₁ h₂ hr₁ hr₂
  rcases Table.get?_insert_cases h₁ with hold₁ | ⟨-, rfl⟩
  · rcases Table.get?_insert_cases h₂ with hold₂ | ⟨-, rfl⟩
    · exact h t₁ x₁ t₂ x₂ r hold₁ hold₂ hr₁ hr₂
    · rw [hx] at hr₂
      cases hr₂
  · rw [hx] at hr₁
    cases hr₁

/-- A transaction that keeps rows, takes free ones and gives others up. -/
theorem HeldOnce.set (h : HeldOnce holds txs) (hx : txs.get? t = some x)
    (hrows : ∀ r ∈ holds x', r ∈ holds x ∨ FreeFor holds txs t r) : HeldOnce holds (txs.set t x') := by
  -- Whatever the transaction holds now, nobody else does.
  have hfree (r : ρ) (hr : r ∈ holds x') : FreeFor holds txs t r := by
    rcases hrows r hr with hold | hfree
    · exact h.freeFor hx hold
    · exact hfree
  intro t₁ x₁ t₂ x₂ r h₁ h₂ hr₁ hr₂
  rcases get?_set_of_some hx h₁ with ⟨hne₁, hold₁⟩ | ⟨heq₁, rfl⟩
  · rcases get?_set_of_some hx h₂ with ⟨-, hold₂⟩ | ⟨-, rfl⟩
    · exact h t₁ x₁ t₂ x₂ r hold₁ hold₂ hr₁ hr₂
    · exact absurd hr₁ (hfree r hr₂ t₁ x₁ hold₁ hne₁)
  · rcases get?_set_of_some hx h₂ with ⟨hne₂, hold₂⟩ | ⟨heq₂, -⟩
    · exact absurd hr₂ (hfree r hr₁ t₂ x₂ hold₂ hne₂)
    · exact heq₁.trans heq₂.symm

/-- Transactions go. -/
theorem HeldOnce.filter (h : HeldOnce holds txs) (p : τ → σ → Bool) : HeldOnce holds (txs.filter p) := by
  intro t₁ x₁ t₂ x₂ r h₁ h₂
  rw [Table.get?_filter, Option.filter_eq_some_iff] at h₁ h₂
  exact h t₁ x₁ t₂ x₂ r h₁.1 h₂.1

/-- After a transaction has ended, nobody holds its rows. -/
theorem HeldOnce.not_mem_of_ended (h : HeldOnce holds txs) (hx : txs.get? t = some x) (hx' : holds x' = [])
    {t₁ : τ} {x₁ : σ} {r : ρ} (h₁ : (txs.set t x').get? t₁ = some x₁) (hr : r ∈ holds x₁) : r ∉ holds x := by
  rcases get?_set_of_some hx h₁ with ⟨hne, hold⟩ | ⟨-, rfl⟩
  · exact fun hmem => hne (h t₁ x₁ t x r hold hx hr hmem)
  · rw [hx'] at hr
    cases hr

end AgentCraft.Transition
