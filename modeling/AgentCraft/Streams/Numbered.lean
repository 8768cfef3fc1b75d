import Mathlib.Data.List.Basic
import Mathlib.Data.List.Pairwise
import Mathlib.Order.Nat

/-!
# Numbered streams

A stream whose items carry ascending numbers, and a reader that keeps the number of the last item it has
taken. The reader drops an item whose number is not above that. It takes all that lies between two numbers
as long as what it is given begins with the next item: `NoGap`.
-/

namespace AgentCraft.Streams

variable {α : Type*}

/-- The numbers ascend. -/
def Ascending (l : List (ℕ × α)) : Prop := l.Pairwise fun i j => i.1 < j.1

/-- The items above a number. -/
def itemsAfter (n : ℕ) (l : List (ℕ × α)) : List (ℕ × α) := l.filter (n < ·.1)

/-- The items above a number, up to another. -/
def itemsWithin (m n : ℕ) (l : List (ℕ × α)) : List (ℕ × α) := l.filter fun i => m < i.1 ∧ i.1 ≤ n

/-- The items that a reader takes. -/
@[grind] def accepted : ℕ → List (ℕ × α) → List (ℕ × α)
  | _, [] => []
  | n, i :: is => if i.1 ≤ n then accepted n is else i :: accepted i.1 is

/-- The number that a reader keeps after the items. -/
@[grind] def lastNumber : ℕ → List (ℕ × α) → ℕ
  | n, [] => n
  | _, i :: is => lastNumber i.1 is

/-- The first of the items that are above a number is the next one of the stream. -/
def NoGap (l : List (ℕ × α)) (n : ℕ) (items : List (ℕ × α)) : Prop :=
  ∀ p ∈ (itemsAfter n items).head?, ∀ i ∈ l, n < i.1 → p.1 ≤ i.1

instance (l : List (ℕ × α)) (n : ℕ) (items : List (ℕ × α)) : Decidable (NoGap l n items) :=
  inferInstanceAs (Decidable (∀ p ∈ (itemsAfter n items).head?, ∀ i ∈ l, n < i.1 → p.1 ≤ i.1))

variable {l items rest : List (ℕ × α)} {a m n k : ℕ}

theorem mem_itemsAfter {i : ℕ × α} : i ∈ itemsAfter n l ↔ i ∈ l ∧ n < i.1 := by
  rw [itemsAfter, List.mem_filter, decide_eq_true_iff]

theorem itemsAfter_append (n : ℕ) (l items : List (ℕ × α)) :
    itemsAfter n (l ++ items) = itemsAfter n l ++ itemsAfter n items := List.filter_append ..

/-- What is above the larger of two numbers is above it among what is above the smaller. -/
theorem itemsAfter_itemsAfter (h : m ≤ n) : itemsAfter n (itemsAfter m l) = itemsAfter n l := by
  rw [itemsAfter, itemsAfter, List.filter_filter]
  refine List.filter_congr fun i _ => ?_
  rw [← Bool.decide_and]
  exact decide_eq_decide.mpr ⟨And.left, fun hi => ⟨hi, Nat.lt_of_le_of_lt h hi⟩⟩

theorem Ascending.itemsAfter (hl : Ascending l) : Ascending (itemsAfter n l) := List.Pairwise.filter _ hl

/-- A reader takes what is above its number. -/
theorem accepted_eq (hitems : Ascending items) : accepted n items = itemsAfter n items := by
  induction items generalizing n with
  | nil => rfl
  | cons i is ih =>
    obtain ⟨hfirst, hrest⟩ := List.pairwise_cons.mp hitems
    rw [accepted]
    split
    · next hle =>
      rw [ih hrest, Streams.itemsAfter, Streams.itemsAfter,
        List.filter_cons_of_neg (by simpa using hle)]
    · next hlt =>
      have hall : Streams.itemsAfter i.1 is = is :=
        List.filter_eq_self.mpr fun j hj => decide_eq_true (hfirst j hj)
      have hall' : Streams.itemsAfter n is = is := List.filter_eq_self.mpr fun j hj =>
        decide_eq_true ((Nat.lt_of_not_le hlt).trans (hfirst j hj))
      rw [ih hrest, hall]
      conv_lhs => rw [← hall']
      exact (List.filter_cons_of_pos (by simpa using hlt)).symm

/-- A reader does not look at what the items carry. -/
theorem accepted_map {β : Type*} (f : α → β) (n : ℕ) (items : List (ℕ × α)) :
    accepted n (items.map fun i => (i.1, f i.2)) = (accepted n items).map fun i => (i.1, f i.2) := by
  induction items generalizing n with
  | nil => rfl
  | cons i is ih =>
    rw [List.map_cons, accepted, accepted]
    split
    · exact ih n
    · rw [List.map_cons, ih i.1]

theorem lastNumber_map {β : Type*} (f : α → β) (n : ℕ) (items : List (ℕ × α)) :
    lastNumber n (items.map fun i => (i.1, f i.2)) = lastNumber n items := by
  induction items generalizing n with
  | nil => rfl
  | cons i is ih => exact ih i.1

theorem le_lastNumber_of_mem (hitems : Ascending items) {i : ℕ × α} (hi : i ∈ items) :
    i.1 ≤ lastNumber n items := by
  induction items generalizing n i with
  | nil => cases hi
  | cons j js ih =>
    obtain ⟨hfirst, hrest⟩ := List.pairwise_cons.mp hitems
    rw [lastNumber]
    rcases List.mem_cons.mp hi with rfl | hi
    · cases js with
      | nil => exact le_rfl
      | cons k ks =>
        exact (hfirst k List.mem_cons_self).le.trans (ih hrest List.mem_cons_self)
    · exact ih hrest hi

/-- The number that a reader keeps is its own or that of an item. -/
theorem lastNumber_cases (n : ℕ) (items : List (ℕ × α)) :
    (items = [] ∧ lastNumber n items = n) ∨ ∃ i ∈ items, lastNumber n items = i.1 := by
  induction items generalizing n with
  | nil => exact .inl ⟨rfl, rfl⟩
  | cons j js ih =>
    rcases ih j.1 with ⟨rfl, h⟩ | ⟨i, hi, h⟩
    · exact .inr ⟨j, List.mem_cons_self, h⟩
    · exact .inr ⟨i, List.mem_cons_of_mem _ hi, h⟩

theorem le_lastNumber (hitems : ∀ i ∈ items, n < i.1) : n ≤ lastNumber n items := by
  rcases lastNumber_cases n items with ⟨-, h⟩ | ⟨i, hi, h⟩
  · exact h.ge
  · rw [h]
    exact (hitems i hi).le

/-- The items up to a number, and those that follow. -/
theorem itemsWithin_append (hl : Ascending l) (hmn : m ≤ n) (hnk : n ≤ k) :
    itemsWithin m k l = itemsWithin m n l ++ itemsWithin n k l := by
  induction l with
  | nil => rfl
  | cons i is ih =>
    obtain ⟨hfirst, hrest⟩ := List.pairwise_cons.mp hl
    have hih := ih hrest
    unfold itemsWithin at hih ⊢
    by_cases hin : i.1 ≤ n
    · rw [List.filter_cons_of_neg (p := fun i : ℕ × α => decide (n < i.1 ∧ i.1 ≤ k))
        (by simp only [decide_eq_true_eq]; omega)]
      by_cases hmi : m < i.1
      · rw [List.filter_cons_of_pos (by simp only [decide_eq_true_eq]; omega),
          List.filter_cons_of_pos (by simp only [decide_eq_true_eq]; omega), hih, List.cons_append]
      · rw [List.filter_cons_of_neg (by simp only [decide_eq_true_eq]; omega),
          List.filter_cons_of_neg (by simp only [decide_eq_true_eq]; omega), hih]
    -- all that follows is above `n`
    · have hnone : (i :: is).filter (fun i : ℕ × α => decide (m < i.1 ∧ i.1 ≤ n)) = [] := by
        refine List.filter_eq_nil_iff.mpr fun j hj => ?_
        have hle : i.1 ≤ j.1 := by
          rcases List.mem_cons.mp hj with rfl | hj
          · exact le_rfl
          · exact (hfirst j hj).le
        simp only [decide_eq_true_eq]
        omega
      rw [hnone, List.nil_append]
      refine List.filter_congr fun j hj => decide_eq_decide.mpr ?_
      have hle : i.1 ≤ j.1 := by
        rcases List.mem_cons.mp hj with rfl | hj
        · exact le_rfl
        · exact (hfirst j hj).le
      omega

/-- Items that are the next ones of the stream are those up to the last of them. -/
theorem itemsWithin_lastNumber (hl : Ascending l) (h : itemsAfter n l = items ++ rest) :
    itemsWithin n (lastNumber n items) l = items := by
  have hall : itemsWithin n (lastNumber n items) l =
      (itemsAfter n l).filter (fun i => i.1 ≤ lastNumber n items) := by
    rw [itemsAfter, List.filter_filter]
    refine List.filter_congr fun i _ => ?_
    rw [← Bool.decide_and]
    exact decide_eq_decide.mpr and_comm
  have hordered : Ascending (items ++ rest) := h ▸ hl.itemsAfter
  obtain ⟨hitems, -, hacross⟩ := List.pairwise_append.mp hordered
  rw [hall, h, List.filter_append]
  have htake : items.filter (fun i => i.1 ≤ lastNumber n items) = items :=
    List.filter_eq_self.mpr fun i hi => decide_eq_true (le_lastNumber_of_mem hitems hi)
  have hdrop : rest.filter (fun i => i.1 ≤ lastNumber n items) = [] := by
    refine List.filter_eq_nil_iff.mpr fun j hj => ?_
    rw [decide_eq_true_eq, Nat.not_le]
    rcases lastNumber_cases n items with ⟨-, hlast⟩ | ⟨i, hi, hlast⟩
    · rw [hlast]
      exact (mem_itemsAfter.mp (h ▸ List.mem_append_right items hj)).2
    · rw [hlast]
      exact hacross i hi j hj
  rw [htake, hdrop, List.append_nil]

/-- Items that follow a number below that of the reader leave no gap. -/
theorem itemsAfter_eq_of_le (h : itemsAfter a l = items ++ rest) (ha : a ≤ n) :
    itemsAfter n l = itemsAfter n items ++ itemsAfter n rest := by
  rw [← itemsAfter_itemsAfter ha, h, itemsAfter_append]

/-- Items that leave no gap are the next ones of the stream, as far as the reader takes them. -/
theorem itemsAfter_eq_of_noGap (h : itemsAfter a l = items ++ rest) (hgap : NoGap l n items) :
    ∃ rest', itemsAfter n l = itemsAfter n items ++ rest' := by
  rcases Nat.le_total a n with ha | ha
  · exact ⟨_, itemsAfter_eq_of_le h ha⟩
  · cases hfirst : itemsAfter n items with
    | nil => exact ⟨_, rfl⟩
    | cons p ps =>
      have hp : p ∈ itemsAfter n items := hfirst ▸ List.mem_cons_self
      have hpa : a < p.1 := (mem_itemsAfter.mp
        (h ▸ List.mem_append_left rest (mem_itemsAfter.mp hp).1)).2
      have hsame : itemsAfter n l = itemsAfter a l := by
        refine List.filter_congr fun i hi => decide_eq_decide.mpr ⟨fun hn => ?_, fun hi => ?_⟩
        · exact Nat.lt_of_lt_of_le hpa (hgap p (by rw [hfirst]; rfl) i hi hn)
        · exact Nat.lt_of_le_of_lt ha hi
      have hitems : itemsAfter n items = items := List.filter_eq_self.mpr fun i hi =>
        decide_eq_true (Nat.lt_of_le_of_lt ha (mem_itemsAfter.mp (h ▸ List.mem_append_left rest hi)).2)
      exact ⟨rest, by rw [hsame, h, ← hfirst, hitems]⟩

end AgentCraft.Streams
