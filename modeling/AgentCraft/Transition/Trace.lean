import AgentCraft.Transition.System
import Mathlib.Data.List.Induction

/-!
# Traces

A run together with what an observer writes down: `obs s a` when the action `a` takes effect at `s`,
nothing when it fails. The trace is carried along as a second component of the state, so that an
invariant can relate what has been observed to the state that has been reached.
-/

namespace AgentCraft.Transition

namespace System

variable {σ α ε β : Type*} (S : System σ α ε) (obs : σ → α → List β)

/-- The system with the observations of its steps, oldest first. -/
def traced : System (σ × List β) α ε where
  step x a :=
    match S.step x.1 a with
    | .ok s => .ok (s, x.2 ++ obs x.1 a)
    | .error e => .error e

/-- What is observed along a run. -/
def trace (s : σ) (as : List α) : List β := ((S.traced obs).run (s, []) as).2

variable {S obs}

theorem traced_step_eq_ok {x y : σ × List β} {a : α} (h : (S.traced obs).step x a = .ok y) :
    S.step x.1 a = .ok y.1 ∧ y.2 = x.2 ++ obs x.1 a := by
  unfold traced at h
  simp only at h
  split at h
  · next s hs =>
    cases h
    exact ⟨hs, rfl⟩
  · cases h

theorem traced_next_fst (x : σ × List β) (a : α) : ((S.traced obs).next x a).1 = S.next x.1 a := by
  cases h : S.step x.1 a with
  | ok s =>
    have hx : (S.traced obs).step x a = .ok (s, x.2 ++ obs x.1 a) := by simp [traced, h]
    rw [next_eq_of_step h, next_eq_of_step hx]
  | error e =>
    have hx : (S.traced obs).step x a = .error e := by simp [traced, h]
    rw [next_eq_self_of_error h, next_eq_self_of_error hx]

/-- The trace does not influence the run. -/
theorem traced_run_fst (x : σ × List β) (as : List α) :
    ((S.traced obs).run x as).1 = S.run x.1 as := by
  induction as generalizing x with
  | nil => rfl
  | cons a as ih => rw [run_cons, ih, traced_next_fst, run_cons]

/-- The trace of a run grows by what is observed of its last step. -/
theorem trace_concat {s s' : σ} {as : List α} {a : α} (h : S.step (S.run s as) a = .ok s') :
    S.trace obs s (as ++ [a]) = S.trace obs s as ++ obs (S.run s as) a := by
  have hstep (x : σ × List β) (hx : x.1 = S.run s as) :
      (S.traced obs).step x a = .ok (s', x.2 ++ obs (S.run s as) a) := by
    rw [← hx] at h ⊢
    simp [traced, h]
  rw [trace, run_append, run_cons, run_nil, next_eq_of_step (hstep _ (traced_run_fst (s, []) as))]
  rfl

/-- The guards of a run are those of the traced run. -/
theorem traced_guarded {G : σ → α → Prop} {x : σ × List β} {as : List α} (h : S.Guarded G x.1 as) :
    (S.traced obs).Guarded (fun x a => G x.1 a) x as := by
  induction as generalizing x with
  | nil => trivial
  | cons a as ih =>
    refine ⟨h.1, ih ?_⟩
    rw [traced_next_fst]
    exact h.2

/-- An invariant that relates the state to the trace of a guarded run. -/
theorem trace_invariant_of_guarded {I : σ → List β → Prop} {G : σ → α → Prop}
    (hstep : ∀ s h a s', I s h → G s a → S.step s a = .ok s' → I s' (h ++ obs s a))
    {s : σ} {as : List α} (hs : I s []) (hG : S.Guarded G s as) : I (S.run s as) (S.trace obs s as) := by
  have hinv := invariant_run_of_guarded (S := S.traced obs) (I := fun x => I x.1 x.2)
    (G := fun x a => G x.1 a)
    (fun x a y hx hG hxy => by
      obtain ⟨hs, hh⟩ := traced_step_eq_ok hxy
      rw [hh]
      exact hstep _ _ _ _ hx hG hs) (s := (s, [])) hs (traced_guarded hG)
  rw [traced_run_fst] at hinv
  exact hinv

/-- An invariant that relates the state to the trace. -/
theorem trace_invariant {I : σ → List β → Prop}
    (hstep : ∀ s h a s', I s h → S.step s a = .ok s' → I s' (h ++ obs s a))
    {s : σ} (hs : I s []) (as : List α) : I (S.run s as) (S.trace obs s as) :=
  trace_invariant_of_guarded (fun s h a s' hi _ => hstep s h a s' hi) hs (guarded_true s as)

end System

/-! ## Orderly histories -/

section Orderly

variable {β : Type*} {ok ok' : List β → β → Prop} {h : List β} {m : β}

/-- Every entry of the history is allowed by what came before it. -/
def Orderly (ok : List β → β → Prop) (h : List β) : Prop :=
  ∀ pre m post, h = pre ++ m :: post → ok pre m

theorem orderly_nil : Orderly ok [] := by
  intro pre m post h
  simp at h

/-- An entry that its past allows may be added. -/
theorem Orderly.concat (hh : Orderly ok h) (hm : ok h m) : Orderly ok (h ++ [m]) := by
  intro pre m' post heq
  rcases List.eq_nil_or_concat post with rfl | ⟨post', last, rfl⟩
  · obtain ⟨rfl, hlast⟩ := List.append_inj' heq rfl
    cases hlast
    exact hm
  · have hsplit : h ++ [m] = (pre ++ m' :: post') ++ [last] := by
      rw [heq]
      simp
    obtain ⟨rfl, -⟩ := List.append_inj' hsplit rfl
    exact hh pre m' post' rfl

/-- What came before an entry allowed it. -/
theorem Orderly.exists_pre (hh : Orderly ok h) (hm : m ∈ h) :
    ∃ pre post, h = pre ++ m :: post ∧ ok pre m := by
  obtain ⟨pre, post, heq⟩ := List.append_of_mem hm
  exact ⟨pre, post, heq, hh pre m post heq⟩

theorem Orderly.of_concat (hh : Orderly ok (h ++ [m])) : Orderly ok h ∧ ok h m := by
  refine ⟨fun pre m' post heq => hh pre m' (post ++ [m]) ?_, hh h m [] rfl⟩
  rw [heq]
  simp

theorem Orderly.imp (hh : Orderly ok h) (himp : ∀ pre m, ok pre m → ok' pre m) : Orderly ok' h :=
  fun pre m post heq => himp pre m (hh pre m post heq)

end Orderly

end AgentCraft.Transition
