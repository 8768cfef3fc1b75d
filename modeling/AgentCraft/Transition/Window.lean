import Mathlib.Data.Multiset.Filter

/-!
# Sliding windows

Time stamps under a cap for every window of a given length. A stamp may be added when fewer than the
cap lie in the window that ends with it, or lie after it: that is what a count over the recent past
establishes, even when the stamps are not added in order.
-/

namespace AgentCraft.Transition

/-- The time stamps in the window of length `w` that starts at `a`. -/
def windowCount (w a : ℕ) (ts : Multiset ℕ) : ℕ := ts.countP fun t => a ≤ t ∧ t < a + w

/-- The time stamps that a count at `s` finds: those younger than `w`. -/
def recentCount (w s : ℕ) (ts : Multiset ℕ) : ℕ := ts.countP fun t => s < t + w

/-- Every window of length `w` holds at most `limit` time stamps. -/
def Windowed (w limit : ℕ) (ts : Multiset ℕ) : Prop := ∀ a, windowCount w a ts ≤ limit

variable {w limit s s' a : ℕ} {ts ts' : Multiset ℕ}

theorem windowed_zero : Windowed w limit 0 := fun _ => Nat.zero_le _

@[simp]
theorem windowCount_add : windowCount w a (ts + ts') = windowCount w a ts + windowCount w a ts' :=
  Multiset.countP_add ..

@[simp]
theorem recentCount_add : recentCount w s (ts + ts') = recentCount w s ts + recentCount w s ts' :=
  Multiset.countP_add ..

@[simp]
theorem recentCount_zero : recentCount w s 0 = 0 := rfl

/-- A count over stamps that are listed. -/
theorem recentCount_coe (l : List ℕ) : recentCount w s l = l.countP fun t => s < t + w :=
  Multiset.coe_countP ..

theorem countP_le_countP_of_imp {p q : ℕ → Prop} [DecidablePred p] [DecidablePred q]
    (h : ∀ t, p t → q t) : ts.countP p ≤ ts.countP q := by
  induction ts using Multiset.induction_on with
  | empty => simp
  | cons t ts ih =>
    rw [Multiset.countP_cons, Multiset.countP_cons]
    have hle : (if p t then 1 else 0) ≤ if q t then 1 else 0 := by
      split_ifs with hp hq
      · exact le_rfl
      · exact absurd (h t hp) hq
      · exact Nat.zero_le _
      · exact le_rfl
    omega

/-- What lies in a window that contains `s` is recent at `s`. -/
theorem windowCount_le_recentCount (h : s < a + w) : windowCount w a ts ≤ recentCount w s ts := by
  refine countP_le_countP_of_imp fun t ht => ?_
  omega

/-- What is recent later on was recent before. -/
theorem recentCount_anti (h : s ≤ s') : recentCount w s' ts ≤ recentCount w s ts := by
  refine countP_le_countP_of_imp fun t ht => ?_
  omega

/-- A part of what is under the cap is under the cap. -/
theorem Windowed.mono (h : Windowed w limit ts) (hle : ts' ≤ ts) : Windowed w limit ts' :=
  fun a => (Multiset.countP_le_of_le _ hle).trans (h a)

/-- A stamp may be added while fewer than the cap are recent. -/
theorem Windowed.add_singleton (h : Windowed w limit ts) (hlt : recentCount w s ts < limit) :
    Windowed w limit (ts + {s}) := by
  intro a
  rw [windowCount_add]
  by_cases ha : a ≤ s ∧ s < a + w
  · have hle : windowCount w a ts ≤ recentCount w s ts := windowCount_le_recentCount ha.2
    have hone : windowCount w a {s} ≤ 1 := Multiset.countP_le_card ..
    omega
  · have hzero : windowCount w a {s} = 0 := by
      rw [windowCount, ← Multiset.cons_zero, Multiset.countP_cons, if_neg ha]
      rfl
    have hle := h a
    omega

end AgentCraft.Transition
