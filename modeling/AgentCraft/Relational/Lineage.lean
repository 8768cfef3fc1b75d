import AgentCraft.Relational.Table

/-!
# Where rows come from

`t.Descends R t'` says that every row of `t'` comes, in the way `R` says, from the row of `t` under the
same key; rows may vanish. A statement of the form "what a transaction does to a row" is proved for the
single write and carried through the table operations by the rules below.
-/

namespace AgentCraft.Relational.Table

variable {κ α : Type*} [DecidableEq κ] {R S : κ → α → α → Prop} {t t' t'' : Table κ α}

/-- Every row of `t'` comes, as `R` says, from the row of `t` under its key. -/
def Descends (R : κ → α → α → Prop) (t t' : Table κ α) : Prop :=
  ∀ k v', t'.get? k = some v' → ∃ v, t.get? k = some v ∧ R k v v'

theorem Descends.refl (hR : ∀ k v, R k v v) (t : Table κ α) : t.Descends R t :=
  fun k v hv => ⟨v, hv, hR k v⟩

theorem Descends.mono (h : t.Descends R t') (hRS : ∀ k v v', R k v v' → S k v v') :
    t.Descends S t' := by
  intro k v' hv'
  obtain ⟨v, hv, hvv'⟩ := h k v' hv'
  exact ⟨v, hv, hRS k v v' hvv'⟩

/-- Two steps, the second of which `R` absorbs. -/
theorem Descends.trans (h : t.Descends R t') (h' : t'.Descends S t'')
    (hRS : ∀ k v v' v'', R k v v' → S k v' v'' → R k v v'') : t.Descends R t'' := by
  intro k v'' hv''
  obtain ⟨v', hv', hS⟩ := h' k v'' hv''
  obtain ⟨v, hv, hR⟩ := h k v' hv'
  exact ⟨v, hv, hRS k v v' v'' hR hS⟩

/-- One row is written. -/
theorem Descends.set (hR : ∀ k v, R k v v) {k : κ} {v v' : α} (hk : t.get? k = some v)
    (hv : R k v v') : t.Descends R (t.set k v') := by
  intro k' x hx
  rw [get?_set] at hx
  split at hx
  · next heq =>
    subst heq
    rw [hk] at hx
    cases hx
    exact ⟨v, hk, hv⟩
  · exact ⟨x, hx, hR k' x⟩

/-- Every row is rewritten. -/
theorem Descends.map (f : κ → α → α) (hf : ∀ k v, R k v (f k v)) (t : Table κ α) :
    t.Descends R (t.map f) := by
  intro k x hx
  rw [get?_map] at hx
  obtain ⟨v, hv, rfl⟩ := Option.map_eq_some_iff.mp hx
  exact ⟨v, hv, hf k v⟩

/-- Rows are deleted. -/
theorem Descends.filter (hR : ∀ k v, R k v v) (p : κ → α → Bool) (t : Table κ α) :
    t.Descends R (t.filter p) := by
  intro k x hx
  rw [get?_filter] at hx
  exact ⟨x, (Option.filter_eq_some_iff.mp hx).1, hR k x⟩

/-- A sequence of steps, each absorbed. -/
theorem Descends.foldl {σ ι : Type*} (table : σ → Table κ α) {f : σ → ι → σ}
    (hR : ∀ k v, R k v v) (hRR : ∀ k v v' v'', R k v v' → R k v' v'' → R k v v'')
    (hf : ∀ s i, (table s).Descends R (table (f s i))) (s : σ) (is : List ι) :
    (table s).Descends R (table (is.foldl f s)) := by
  induction is generalizing s with
  | nil => exact .refl hR _
  | cons i is ih => exact (hf s i).trans (ih (f s i)) hRR

end AgentCraft.Relational.Table
