import Mathlib.Data.List.Basic

/-!
# Labelled transition systems

A `System` is a partial step function on states, labelled by actions; an action that fails leaves the
state as it was. Runs are lists of actions. The rules at the end package the inductions: an invariant
kept by every step holds after every run, and one kept by the steps that satisfy a guard holds after
every run whose steps all do.
-/

namespace AgentCraft.Transition

/-- A transition system with states `σ`, actions `α` and failures `ε`. -/
structure System (σ α ε : Type*) where
  step : σ → α → Except ε σ

namespace System

variable {σ α ε : Type*} (S : System σ α ε)

/-- The state after an action: a failed action is rolled back. -/
def next (s : σ) (a : α) : σ :=
  match S.step s a with
  | .ok s' => s'
  | .error _ => s

/-- The state after a list of actions. -/
def run (s : σ) (as : List α) : σ := as.foldl S.next s

/-- The action takes effect at the state. -/
def Commits (s : σ) (a : α) : Prop := ∃ s', S.step s a = .ok s'

/-- Every action of the run satisfies `G` at the state in which it is taken. -/
@[grind] def Guarded (G : σ → α → Prop) : σ → List α → Prop
  | _, [] => True
  | s, a :: as => G s a ∧ Guarded G (S.next s a) as

/-- Guards that can be evaluated can be evaluated along a run. -/
instance decidableGuarded (G : σ → α → Prop) [∀ s a, Decidable (G s a)] :
    ∀ s as, Decidable (S.Guarded G s as)
  | _, [] => inferInstanceAs (Decidable True)
  | s, a :: as =>
    have := decidableGuarded G (S.next s a) as
    inferInstanceAs (Decidable (G s a ∧ S.Guarded G (S.next s a) as))

/-- The states that runs reach from the states in `init`. -/
def Reachable (init : σ → Prop) (s : σ) : Prop := ∃ s₀ as, init s₀ ∧ S.run s₀ as = s

/-- The states that guarded runs reach from the states in `init`. -/
def ReachableBy (G : σ → α → Prop) (init : σ → Prop) (s : σ) : Prop :=
  ∃ s₀ as, init s₀ ∧ S.Guarded G s₀ as ∧ S.run s₀ as = s

variable {S}

@[simp]
theorem run_nil (s : σ) : S.run s [] = s := rfl

@[simp]
theorem run_cons (s : σ) (a : α) (as : List α) : S.run s (a :: as) = S.run (S.next s a) as := rfl

theorem run_append (s : σ) (as bs : List α) : S.run s (as ++ bs) = S.run (S.run s as) bs :=
  List.foldl_append

theorem next_eq_of_step {s s' : σ} {a : α} (h : S.step s a = .ok s') : S.next s a = s' := by
  simp [next, h]

theorem next_eq_self_of_error {s : σ} {a : α} {e : ε} (h : S.step s a = .error e) :
    S.next s a = s := by
  simp [next, h]

/-- A step either commits or changes nothing. -/
theorem next_cases (s : σ) (a : α) : S.step s a = .ok (S.next s a) ∨ S.next s a = s := by
  cases h : S.step s a with
  | ok s' => exact .inl (by rw [next_eq_of_step h])
  | error e => exact .inr (next_eq_self_of_error h)

/-- A run that does nothing to a state-dependent guard beyond a prefix is guarded on the prefix. -/
theorem Guarded.append {G : σ → α → Prop} {s : σ} {as bs : List α} :
    S.Guarded G s (as ++ bs) ↔ S.Guarded G s as ∧ S.Guarded G (S.run s as) bs := by
  induction as generalizing s with
  | nil => simp [Guarded]
  | cons a as ih => simp [Guarded, ih, and_assoc]

/-- A guard may be weakened. -/
theorem Guarded.mono {G H : σ → α → Prop} (hGH : ∀ s a, G s a → H s a) {s : σ} {as : List α}
    (h : S.Guarded G s as) : S.Guarded H s as := by
  induction as generalizing s with
  | nil => trivial
  | cons a as ih => exact ⟨hGH s a h.1, ih h.2⟩

/-! ## Invariant rules -/

/-- An invariant kept by every committed step that satisfies the guard holds after a guarded run. -/
theorem invariant_run_of_guarded {I : σ → Prop} {G : σ → α → Prop}
    (hstep : ∀ s a s', I s → G s a → S.step s a = .ok s' → I s')
    {s : σ} {as : List α} (hs : I s) (hG : S.Guarded G s as) : I (S.run s as) := by
  induction as generalizing s with
  | nil => exact hs
  | cons a as ih =>
    refine ih ?_ hG.2
    rcases next_cases (S := S) s a with hc | he
    · exact hstep s a _ hs hG.1 hc
    · rw [he]
      exact hs

/-- The trivial guard. -/
theorem guarded_true (s : σ) (as : List α) : S.Guarded (fun _ _ => True) s as := by
  induction as generalizing s with
  | nil => trivial
  | cons a as ih => exact ⟨trivial, ih _⟩

/-- An invariant kept by every committed step holds after every run. -/
theorem invariant_run {I : σ → Prop} (hstep : ∀ s a s', I s → S.step s a = .ok s' → I s')
    {s : σ} (as : List α) (hs : I s) : I (S.run s as) :=
  invariant_run_of_guarded (fun s a s' h _ => hstep s a s' h) hs (guarded_true s as)

/-- What an invariant and the guard imply together holds at every step of a guarded run. -/
theorem Guarded.of_invariant {I : σ → Prop} {G H : σ → α → Prop}
    (hstep : ∀ s a s', I s → G s a → S.step s a = .ok s' → I s')
    (hGH : ∀ s a, I s → G s a → H s a) {s : σ} {as : List α} (hs : I s) (hG : S.Guarded G s as) :
    S.Guarded H s as := by
  induction as generalizing s with
  | nil => trivial
  | cons a as ih =>
    refine ⟨hGH s a hs hG.1, ih ?_ hG.2⟩
    rcases next_cases (S := S) s a with hc | he
    · exact hstep s a _ hs hG.1 hc
    · rw [he]
      exact hs

/-- The invariant rule for reachable states. -/
theorem Reachable.invariant {I init : σ → Prop} (hinit : ∀ s, init s → I s)
    (hstep : ∀ s a s', I s → S.step s a = .ok s' → I s') {s : σ}
    (h : S.Reachable init s) : I s := by
  obtain ⟨s₀, as, h₀, rfl⟩ := h
  exact invariant_run hstep as (hinit s₀ h₀)

/-- The invariant rule for states reached by guarded runs. -/
theorem ReachableBy.invariant {I init : σ → Prop} {G : σ → α → Prop}
    (hinit : ∀ s, init s → I s)
    (hstep : ∀ s a s', I s → G s a → S.step s a = .ok s' → I s') {s : σ}
    (h : S.ReachableBy G init s) : I s := by
  obtain ⟨s₀, as, h₀, hG, rfl⟩ := h
  exact invariant_run_of_guarded hstep (hinit s₀ h₀) hG

/-- What a guarded run reaches, a run reaches. -/
theorem ReachableBy.reachable {init : σ → Prop} {G : σ → α → Prop} {s : σ}
    (h : S.ReachableBy G init s) : S.Reachable init s := by
  obtain ⟨s₀, as, h₀, -, hs⟩ := h
  exact ⟨s₀, as, h₀, hs⟩

/-- Reachability is closed under further actions. -/
theorem Reachable.run {init : σ → Prop} {s : σ} (h : S.Reachable init s) (as : List α) :
    S.Reachable init (S.run s as) := by
  obtain ⟨s₀, bs, h₀, rfl⟩ := h
  exact ⟨s₀, bs ++ as, h₀, run_append s₀ bs as⟩

end System

end AgentCraft.Transition
