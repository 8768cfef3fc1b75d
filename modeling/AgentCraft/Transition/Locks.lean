import AgentCraft.Relational.Table
import AgentCraft.Transition.System

/-!
# Row locks

Transactions that lock rows one after the other, in the order of their statements, and keep them until
they end. A transaction waits for another one that holds the row it has to lock next; a cycle of
waiting transactions is a deadlock. Two transactions are opposed when each holds a row that the other
one has yet to lock: unless one of them gives up, they end in a deadlock. The converse holds for
programs whose waiting transactions can be ranked: without opposed transactions there is no cycle of
any length.
-/

namespace AgentCraft.Transition

open AgentCraft.Relational

/-- A transaction in progress: the rows it holds, the last one first, and those that its statements
have yet to lock. -/
structure LockTx (ρ : Type*) where
  held : List ρ
  rest : List ρ
  deriving DecidableEq

/-- What transactions do. They may end at any statement, by an early return or by an error. -/
inductive LockAction (τ π : Type*)
  | start (t : τ) (program : π)
  | lock (t : τ)
  | finish (t : τ)
  deriving DecidableEq

/-- Why a transaction cannot go on. -/
inductive LockFailure
  | known
  | unknown
  | complete
  | waits
  deriving DecidableEq

/-- The transactions in progress. -/
abbrev LockTable (τ ρ : Type*) := Table τ (LockTx ρ)

namespace LockTable

variable {τ ρ π : Type*} [DecidableEq τ] {s s' : LockTable τ ρ} {t t' : τ} {h h' : LockTx ρ} {x : ρ}
  {a : LockAction τ π} {rows : π → List ρ}

/-- Another transaction holds the row. -/
def Taken (s : LockTable τ ρ) (t : τ) (x : ρ) : Prop := ∃ r ∈ s.rows, r.1 ≠ t ∧ x ∈ r.2.held

theorem taken_iff : s.Taken t x ↔ ∃ t' h', t' ≠ t ∧ s.get? t' = some h' ∧ x ∈ h'.held := by
  constructor
  · rintro ⟨⟨t', h'⟩, hmem, hne, hx⟩
    exact ⟨t', h', hne, Table.get?_eq_some_iff.mpr hmem, hx⟩
  · rintro ⟨t', h', hne, hget, hx⟩
    exact ⟨(t', h'), Table.get?_eq_some_iff.mp hget, hne, hx⟩

/-- No row is held by two transactions. -/
def Exclusive (s : LockTable τ ρ) : Prop :=
  ∀ t t' h h' x, s.get? t = some h → s.get? t' = some h' → x ∈ h.held → x ∈ h'.held → t = t'

/-! ## Waiting -/

/-- The transaction has to lock a row next that another one holds. -/
def Waits (s : LockTable τ ρ) (t t' : τ) : Prop :=
  t ≠ t' ∧ ∃ h h' x, s.get? t = some h ∧ s.get? t' = some h' ∧ h.rest.head? = some x ∧ x ∈ h'.held

/-- Transactions wait for each other in a cycle. -/
def Deadlocked (s : LockTable τ ρ) : Prop := ∃ t, Relation.TransGen s.Waits t t

/-- A state is not deadlocked where the transactions can be ranked such that one that waits for a
waiting one has the lower rank. -/
theorem not_deadlocked_of_rank (rank : τ → ℕ)
    (hrank : ∀ t t' t'', s.Waits t t' → s.Waits t' t'' → rank t < rank t') : ¬ s.Deadlocked := by
  rintro ⟨t, hcycle⟩
  have hlt (t₁ t₂ t₃) (hpath : Relation.TransGen s.Waits t₁ t₂) (hwaits : s.Waits t₂ t₃) :
      rank t₁ < rank t₂ := by
    induction hpath generalizing t₃ with
    | single h => exact hrank _ _ _ h hwaits
    | tail _ h ih => exact (ih _ h).trans (hrank _ _ _ h hwaits)
  obtain ⟨t', hwaits, -⟩ := Relation.TransGen.head'_iff.mp hcycle
  exact absurd (hlt t t t' hcycle hwaits) (lt_irrefl _)

/-! ## Opposed transactions -/

/-- Each of the transactions holds a row that the other one has yet to lock. -/
def Opposed (s : LockTable τ ρ) (t t' : τ) : Prop :=
  t ≠ t' ∧ ∃ h h', s.get? t = some h ∧ s.get? t' = some h' ∧
    (∃ x ∈ h.held, x ∈ h'.rest) ∧ ∃ y ∈ h'.held, y ∈ h.rest

/-- Another transaction has yet to lock the row `x` and holds one of the rows `rest`. -/
def Crosses (s : LockTable τ ρ) (t : τ) (x : ρ) (rest : List ρ) : Prop :=
  ∃ r ∈ s.rows, r.1 ≠ t ∧ x ∈ r.2.rest ∧ ∃ y ∈ r.2.held, y ∈ rest

/-- The step does not lock a free row that another transaction has yet to lock while that one holds a
row which the transaction of the step needs later. -/
def Uncrossed (s : LockTable τ ρ) : LockAction τ π → Prop
  | .lock t => ∀ h ∈ s.get? t, ∀ x ∈ h.rest.head?, s.Taken t x ∨ ¬ s.Crosses t x h.rest.tail
  | .start .. => True
  | .finish _ => True

theorem Uncrossed.lock {held rest : List ρ} {y : ρ}
    (ha : s.Uncrossed (LockAction.lock t : LockAction τ π))
    (hget : s.get? t = some { held := held, rest := x :: rest }) (hfree : ¬ s.Taken t x)
    (hne : t' ≠ t) (hget' : s.get? t' = some h') (hx : x ∈ h'.rest) (hy : y ∈ h'.held) :
    y ∉ rest := by
  intro hrest
  refine (ha _ hget x rfl).resolve_left hfree ?_
  exact ⟨(t', h'), Table.get?_eq_some_iff.mp hget', hne, hx, y, hy, hrest⟩

/-! ## The system -/

variable [DecidableEq ρ]

instance : Decidable (s.Taken t x) :=
  inferInstanceAs (Decidable (∃ r ∈ s.rows, r.1 ≠ t ∧ x ∈ r.2.held))

instance (rest : List ρ) : Decidable (s.Crosses t x rest) :=
  inferInstanceAs (Decidable (∃ r ∈ s.rows, r.1 ≠ t ∧ x ∈ r.2.rest ∧ ∃ y ∈ r.2.held, y ∈ rest))

instance : ∀ a : LockAction τ π, Decidable (s.Uncrossed a)
  | .lock t => inferInstanceAs
    (Decidable (∀ h ∈ s.get? t, ∀ x ∈ h.rest.head?, s.Taken t x ∨ ¬ s.Crosses t x h.rest.tail))
  | .start .. => isTrue trivial
  | .finish _ => isTrue trivial

/-- The next row of the transaction is locked, unless another transaction holds it. -/
def lockNext (s : LockTable τ ρ) (t : τ) (h : LockTx ρ) : Except LockFailure (LockTable τ ρ) :=
  match h.rest with
  | [] => .error .complete
  | x :: rest =>
    if s.Taken t x then .error .waits
    else .ok (s.set t { held := x :: h.held, rest := rest })

/-- The transactions of programs that lock `rows`. -/
def system (rows : π → List ρ) : System (LockTable τ ρ) (LockAction τ π) LockFailure where
  step s a :=
    match a with
    | .start t p =>
      if (s.get? t).isSome then .error .known
      else .ok (s.insert t { held := [], rest := rows p })
    | .lock t =>
      match s.get? t with
      | none => .error .unknown
      | some h => s.lockNext t h
    | .finish t => .ok (s.filter fun t' _ => t' ≠ t)

/-- What a step does. -/
theorem step_cases (hstep : (system rows).step s a = .ok s') :
    (∃ t p, a = .start t p ∧ s.get? t = none ∧ s' = s.insert t { held := [], rest := rows p }) ∨
    (∃ t held x rest, a = .lock t ∧ s.get? t = some { held := held, rest := x :: rest } ∧
      ¬ s.Taken t x ∧ s' = s.set t { held := x :: held, rest := rest }) ∨
    (∃ t, a = .finish t ∧ s' = s.filter fun t' _ => t' ≠ t) := by
  cases a with
  | start t p =>
    simp only [system] at hstep
    split at hstep
    · cases hstep
    · next hnone =>
      cases hstep
      exact .inl ⟨t, p, rfl, by simpa using hnone, rfl⟩
  | lock t =>
    simp only [system] at hstep
    split at hstep
    · cases hstep
    · next h hget =>
      obtain ⟨held, rest⟩ := h
      unfold lockNext at hstep
      split at hstep
      · cases hstep
      · next x rest' hrest =>
        split at hstep
        · cases hstep
        · next hfree =>
          cases hstep
          subst hrest
          exact .inr (.inl ⟨t, held, x, rest', rfl, hget, hfree, rfl⟩)
  | finish t =>
    cases hstep
    exact .inr (.inr ⟨t, rfl, rfl⟩)

/-- Where a transaction comes from: it was there, it has just started, or it has locked its next row. -/
theorem origin_of_step (hstep : (system rows).step s a = .ok s') (hget : s'.get? t = some h) :
    s.get? t = some h ∨ (∃ p, h = { held := [], rest := rows p }) ∨
    ∃ held x rest, a = .lock t ∧ s.get? t = some { held := held, rest := x :: rest } ∧
      ¬ s.Taken t x ∧ h = { held := x :: held, rest := rest } := by
  obtain ⟨t₀, p, -, hnone, rfl⟩ | ⟨t₀, held, x, rest, rfl, hold, hfree, rfl⟩ | ⟨t₀, -, rfl⟩ :=
    step_cases hstep
  · rcases Table.get?_insert_cases hget with hget | ⟨-, rfl⟩
    · exact .inl hget
    · exact .inr (.inl ⟨p, rfl⟩)
  · rcases Table.get?_set_cases hget with hget | ⟨rfl, rfl⟩
    · exact .inl hget
    · exact .inr (.inr ⟨held, x, rest, rfl, hold, hfree, rfl⟩)
  · rw [Table.get?_filter] at hget
    exact .inl (Option.filter_eq_some_iff.mp hget).1

/-- What holds of a transaction that starts, and is kept when it locks its next row, holds of all. -/
theorem forall_of_step {P : LockTx ρ → Prop} (hstart : ∀ p, P { held := [], rest := rows p })
    (hlock : ∀ held x rest, P { held := held, rest := x :: rest } →
      P { held := x :: held, rest := rest })
    (hs : ∀ t h, s.get? t = some h → P h) (hstep : (system rows).step s a = .ok s') :
    ∀ t h, s'.get? t = some h → P h := by
  intro t h hget
  obtain hold | ⟨p, rfl⟩ | ⟨held, x, rest, -, hold, -, rfl⟩ := origin_of_step hstep hget
  · exact hs t h hold
  · exact hstart p
  · exact hlock held x rest (hs t _ hold)

theorem Exclusive.step (hs : s.Exclusive) (hstep : (system rows).step s a = .ok s') :
    Exclusive s' := by
  intro t t' h h' x hget hget' hx hx'
  by_contra hne
  obtain hold | ⟨p, rfl⟩ | ⟨held, y, rest, ha, hold, hfree, rfl⟩ := origin_of_step hstep hget
  · obtain hold' | ⟨p, rfl⟩ | ⟨held, y, rest, -, hold', hfree, rfl⟩ := origin_of_step hstep hget'
    · exact hne (hs t t' h h' x hold hold' hx hx')
    · cases hx'
    · rcases List.mem_cons.mp hx' with rfl | hx'
      · exact hfree (taken_iff.mpr ⟨t, h, hne, hold, hx⟩)
      · exact hne (hs t t' h _ x hold hold' hx hx')
  · cases hx
  · obtain hold' | ⟨p, rfl⟩ | ⟨held', y', rest', ha', hold', -, rfl⟩ := origin_of_step hstep hget'
    · rcases List.mem_cons.mp hx with rfl | hx
      · exact hfree (taken_iff.mpr ⟨t', h', Ne.symm hne, hold', hx'⟩)
      · exact hne (hs t t' _ h' x hold hold' hx hx')
    · cases hx'
    · -- one step locks a row for one transaction
      rw [ha] at ha'
      cases ha'
      exact hne rfl

/-- Steps that do not cross another transaction keep all transactions unopposed. -/
theorem unopposed_step (hs : ∀ t t', ¬ s.Opposed t t') (ha : s.Uncrossed a)
    (hstep : (system rows).step s a = .ok s') (t t' : τ) : ¬ Opposed s' t t' := by
  rintro ⟨hne, h, h', hget, hget', ⟨x, hx, hx'⟩, y, hy', hy⟩
  obtain hold | ⟨p, rfl⟩ | ⟨held, w, rest, rfl, hold, hfree, rfl⟩ := origin_of_step hstep hget
  · obtain hold' | ⟨p, rfl⟩ | ⟨held, w, rest, rfl, hold', hfree, rfl⟩ := origin_of_step hstep hget'
    · exact hs t t' ⟨hne, h, h', hold, hold', ⟨x, hx, hx'⟩, y, hy', hy⟩
    · cases hy'
    · rcases List.mem_cons.mp hy' with rfl | hy'
      · exact ha.lock hold' hfree hne hold hy hx hx'
      · exact hs t t' ⟨hne, h, _, hold, hold', ⟨x, hx, List.mem_cons_of_mem w hx'⟩, y, hy', hy⟩
  · cases hx
  · obtain hold' | ⟨p, rfl⟩ | ⟨held', w', rest', ha', -, -, -⟩ := origin_of_step hstep hget'
    · rcases List.mem_cons.mp hx with rfl | hx
      · exact ha.lock hold hfree (Ne.symm hne) hold' hx' hy' hy
      · exact hs t t' ⟨hne, _, h', hold, hold', ⟨x, hx, hx'⟩, y, hy', List.mem_cons_of_mem w hy⟩
    · cases hy'
    · cases ha'
      exact hne rfl

/-- What a step makes of a transaction that does not end. -/
theorem get?_of_step (hstep : (system rows).step s a = .ok s') (hget : s.get? t = some h)
    (ha : a ≠ .finish t) : s'.get? t = some h ∨
      ∃ x rest, h.rest = x :: rest ∧ ¬ s.Taken t x ∧
        s'.get? t = some { held := x :: h.held, rest := rest } := by
  obtain ⟨t₀, p, -, hnone, rfl⟩ | ⟨t₀, held, x, rest, rfl, hold, hfree, rfl⟩ | ⟨t₀, rfl, rfl⟩ :=
    step_cases hstep
  · have hne : t ≠ t₀ := by
      rintro rfl
      rw [hget] at hnone
      cases hnone
    rw [Table.get?_insert hnone, if_neg hne]
    exact .inl hget
  · by_cases heq : t = t₀
    · subst heq
      obtain rfl := Option.some.inj (hold.symm.trans hget)
      exact .inr ⟨x, rest, rfl, hfree, Table.get?_set_self hold _⟩
    · rw [Table.get?_set_ne s heq]
      exact .inl hget
  · have hne : t ≠ t₀ := fun heq => ha (heq ▸ rfl)
    rw [Table.get?_filter, hget]
    exact .inl (by simp [hne])

/-- Opposed transactions stay opposed as long as neither ends. -/
theorem Opposed.step (hopp : s.Opposed t t') (hstep : (system rows).step s a = .ok s')
    (ha : a ≠ .finish t) (ha' : a ≠ .finish t') : Opposed s' t t' := by
  obtain ⟨hne, h, h', hget, hget', ⟨x, hx, hx'⟩, y, hy', hy⟩ := hopp
  -- neither can lock a row that the other one holds
  have hkeep (t₁ t₂ h₁ h₂ z) (hne : t₂ ≠ t₁) (hget₁ : s.get? t₁ = some h₁)
      (hget₂ : s.get? t₂ = some h₂) (ha : a ≠ .finish t₁) (hz : z ∈ h₁.rest) (hz' : z ∈ h₂.held) :
      ∃ h₃, Table.get? s' t₁ = some h₃ ∧ z ∈ h₃.rest ∧ ∀ w ∈ h₁.held, w ∈ h₃.held := by
    obtain hsame | ⟨w, rest, hrest, hfree, hnew⟩ := get?_of_step hstep hget₁ ha
    · exact ⟨h₁, hsame, hz, fun _ hw => hw⟩
    · refine ⟨_, hnew, ?_, fun _ hw => List.mem_cons_of_mem _ hw⟩
      rw [hrest] at hz
      refine (List.mem_cons.mp hz).resolve_left ?_
      rintro rfl
      exact hfree (taken_iff.mpr ⟨t₂, h₂, hne, hget₂, hz'⟩)
  obtain ⟨h₁, hget₁, hy₁, hheld₁⟩ := hkeep t t' h h' y (Ne.symm hne) hget hget' ha hy hy'
  obtain ⟨h₂, hget₂, hx₂, hheld₂⟩ := hkeep t' t h' h x hne hget' hget ha' hx' hx
  exact ⟨hne, h₁, h₂, hget₁, hget₂, ⟨x, hheld₁ x hx, hx₂⟩, y, hheld₂ y hy', hy₁⟩

theorem Opposed.run (hopp : s.Opposed t t') (as : List (LockAction τ π)) (ha : .finish t ∉ as)
    (ha' : .finish t' ∉ as) : Opposed ((system rows).run s as) t t' := by
  induction as generalizing s with
  | nil => exact hopp
  | cons a as ih =>
    rw [List.mem_cons, not_or] at ha ha'
    refine ih ?_ ha.2 ha'.2
    rcases System.next_cases (S := system rows) s a with hstep | heq
    · exact hopp.step hstep (Ne.symm ha.1) (Ne.symm ha'.1)
    · rw [heq]
      exact hopp

end LockTable

end AgentCraft.Transition
