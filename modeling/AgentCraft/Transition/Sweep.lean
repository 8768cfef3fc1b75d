import Mathlib.Data.List.TakeWhile

/-!
# Sweeps

A job that scans for candidates and processes them one after the other, each in a transaction of its own. An
error of a transaction undoes it. Some errors are caught next to the transaction, and the loop goes on; any other
one leaves the loop, and with it all loops that would come after it. The turns are what would happen if every
error were caught: the candidates with the states in which their turn comes. A sweep does what its turns do up to
the first error that is not caught.
-/

namespace AgentCraft.Transition

/-- What a sweep leaves: the state, the candidates whose transaction has committed, and the error that has ended
it. -/
structure Swept (σ κ ε : Type*) where
  state : σ
  processed : List κ
  failure : Option ε

section Sweeping

variable {σ κ ε : Type*} (body : σ → κ → Except ε σ) (caught : ε → Bool)

/-- The candidates one after the other. -/
@[grind] def sweep : σ → List κ → Swept σ κ ε
  | s, [] => ⟨s, [], none⟩
  | s, c :: cs =>
    match body s c with
    | .ok s' => { sweep s' cs with processed := c :: (sweep s' cs).processed }
    | .error e => if caught e then sweep s cs else ⟨s, [], some e⟩

/-- Several jobs in turn, each with its own scan. -/
@[grind] def sweeps : σ → List (σ → List κ) → Swept σ κ ε
  | s, [] => ⟨s, [], none⟩
  | s, scan :: scans =>
    match (sweep body caught s (scan s)).failure with
    | some _ => sweep body caught s (scan s)
    | none =>
      let rest := sweeps (sweep body caught s (scan s)).state scans
      { rest with processed := (sweep body caught s (scan s)).processed ++ rest.processed }

/-- The state after the turn of a candidate. -/
def settle (s : σ) (c : κ) : σ :=
  match body s c with
  | .ok s' => s'
  | .error _ => s

/-- The candidates with the states in which their turn comes if every error is caught. -/
@[grind] def turns : σ → List κ → List (σ × κ)
  | _, [] => []
  | s, c :: cs => (s, c) :: turns (settle body s c) cs

/-- The turns of several jobs. -/
@[grind] def scanTurns : σ → List (σ → List κ) → List (σ × κ)
  | _, [] => []
  | s, scan :: scans => turns body s (scan s) ++ scanTurns ((scan s).foldl (settle body) s) scans

/-- The transaction of the turn commits. -/
def Lands (t : σ × κ) : Bool := (body t.1 t.2).isOk

/-- The transaction of the turn raises an error that is not caught. -/
def Raises (t : σ × κ) : Bool :=
  match body t.1 t.2 with
  | .ok _ => false
  | .error e => !caught e

/-- The candidates that are processed if every error is caught. -/
def isolated (s : σ) (scans : List (σ → List κ)) : List κ :=
  ((scanTurns body s scans).filter (Lands body)).map Prod.snd

variable {body caught} {s : σ} {c : κ} {cs : List κ}

theorem not_raises_of_lands {t : σ × κ} (h : Lands body t = true) : Raises body caught t = false := by
  unfold Lands at h
  unfold Raises
  split
  · rfl
  · next e he =>
    rw [he] at h
    cases h

/-! ## A sweep and its turns -/

/-- A sweep processes what its turns process before the first error that is not caught. -/
theorem sweep_processed (s : σ) (cs : List κ) : (sweep body caught s cs).processed =
    (((turns body s cs).takeWhile fun t => !Raises body caught t).filter (Lands body)).map Prod.snd := by
  induction cs generalizing s with
  | nil => rfl
  | cons c cs ih =>
    cases hb : body s c with
    | ok s' => simp [sweep, turns, settle, Raises, Lands, Except.isOk, Except.toBool, hb, ih]
    | error e =>
      cases he : caught e with
      | true => simp [sweep, turns, settle, Raises, Lands, Except.isOk, Except.toBool, hb, he, ih]
      | false => simp [sweep, turns, settle, Raises, hb, he]

/-- A sweep comes to its end iff no turn raises, and then its state is the one after all turns. -/
theorem sweep_failure (s : σ) (cs : List κ) : (sweep body caught s cs).failure = none ↔
    ∀ t ∈ turns body s cs, Raises body caught t = false := by
  induction cs generalizing s with
  | nil => simp [sweep, turns]
  | cons c cs ih =>
    cases hb : body s c with
    | ok s' => simp [sweep, turns, settle, Raises, hb, ih]
    | error e =>
      cases he : caught e with
      | true => simp [sweep, turns, settle, Raises, hb, he, ih]
      | false => simp [sweep, turns, settle, Raises, hb, he]

theorem sweep_state (s : σ) (cs : List κ) (h : (sweep body caught s cs).failure = none) :
    (sweep body caught s cs).state = cs.foldl (settle body) s := by
  induction cs generalizing s with
  | nil => rfl
  | cons c cs ih =>
    cases hb : body s c with
    | ok s' =>
      simp only [sweep, hb] at h ⊢
      rw [ih s' h, List.foldl_cons, settle, hb]
    | error e =>
      cases he : caught e with
      | true =>
        simp only [sweep, hb, he, if_true] at h ⊢
        rw [ih s h, List.foldl_cons, settle, hb]
      | false =>
        simp only [sweep, hb, he] at h
        cases h

/-- Several jobs process what their turns process before the first error that is not caught. -/
theorem sweeps_processed (s : σ) (scans : List (σ → List κ)) : (sweeps body caught s scans).processed =
    (((scanTurns body s scans).takeWhile fun t => !Raises body caught t).filter (Lands body)).map Prod.snd := by
  induction scans generalizing s with
  | nil => rfl
  | cons scan scans ih =>
    cases hf : (sweep body caught s (scan s)).failure with
    | none =>
      have hclear := (sweep_failure s (scan s)).mp hf
      simp only [sweeps, hf, scanTurns]
      rw [ih, sweep_state _ _ hf, sweep_processed,
        List.takeWhile_append_of_pos (fun t ht => by rw [hclear t ht]; rfl),
        List.takeWhile_eq_self_iff.mpr (fun t ht => by rw [hclear t ht]; rfl), List.filter_append,
        List.map_append]
    | some e =>
      have hraised : ∃ t ∈ turns body s (scan s), Raises body caught t = true := by
        by_contra hnone
        rw [(sweep_failure s (scan s)).mpr fun t ht => by
          rw [← Bool.not_eq_true]
          exact fun hr => hnone ⟨t, ht, hr⟩] at hf
        cases hf
      obtain ⟨t, ht, hr⟩ := hraised
      simp only [sweeps, hf, scanTurns]
      rw [sweep_processed, List.takeWhile_append, if_neg fun hlen => ?_]
      have hall := List.takeWhile_eq_self_iff.mp (List.takeWhile_prefix _ |>.eq_of_length hlen) t ht
      rw [hr] at hall
      cases hall

/-! ## What a sweep leaves out -/

/-- Nothing is left out of a list by stopping at its first bad entry iff nothing good comes after a bad one. -/
theorem filter_takeWhile_eq_iff {α : Type*} {p q : α → Bool} (hqp : ∀ a, q a = true → p a = false)
    (l : List α) : (l.takeWhile fun a => !p a).filter q = l.filter q ↔
      l.Pairwise fun a b => p a = true → q b = false := by
  induction l with
  | nil => simp
  | cons a l ih =>
    rw [List.pairwise_cons]
    cases hp : p a with
    | false =>
      rw [List.takeWhile_cons_of_pos (by simp [hp])]
      cases hq : q a with
      | true =>
        rw [List.filter_cons_of_pos hq, List.filter_cons_of_pos hq, List.cons_inj_right, ih]
        simp
      | false =>
        rw [List.filter_cons_of_neg (by simp [hq]), List.filter_cons_of_neg (by simp [hq]), ih]
        simp
    | true =>
      have hq : q a = false := by
        cases hq : q a with
        | false => rfl
        | true => exact absurd hp (by simp [hqp a hq])
      rw [List.takeWhile_cons_of_neg (by simp [hp]), List.filter_nil, List.filter_cons_of_neg (by simp [hq]),
        eq_comm, List.filter_eq_nil_iff]
      constructor
      · intro hnone
        have hall : ∀ b ∈ l, q b = false := fun b hb => Bool.eq_false_iff.mpr (hnone b hb)
        exact ⟨fun b hb _ => hall b hb, List.pairwise_of_forall_mem_list fun b _ b' hb' _ => hall b' hb'⟩
      · intro hgood b hb
        exact Bool.eq_false_iff.mp (hgood.1 b hb rfl)

/-- Several jobs process every candidate that they would process if every error were caught iff none of these
comes after a candidate whose transaction raises. -/
theorem sweeps_processed_eq_iff (s : σ) (scans : List (σ → List κ)) :
    (sweeps body caught s scans).processed = isolated body s scans ↔
      (scanTurns body s scans).Pairwise fun t t' => Raises body caught t = true → Lands body t' = false := by
  rw [sweeps_processed, isolated, ← filter_takeWhile_eq_iff fun t => not_raises_of_lands]
  constructor
  · intro h
    have hprefix : (List.takeWhile (fun t => !Raises body caught t) (scanTurns body s scans)).filter
        (Lands body) <+: (scanTurns body s scans).filter (Lands body) :=
      (List.takeWhile_prefix _).filter _
    exact hprefix.eq_of_length (by simpa using congrArg List.length h)
  · intro h
    rw [h]

/-- What every transaction that commits keeps holds after a sweep. -/
theorem sweep_invariant {I : σ → Prop} (hkeep : ∀ s c s', I s → body s c = .ok s' → I s') (hs : I s) :
    I (sweep body caught s cs).state := by
  induction cs generalizing s with
  | nil => exact hs
  | cons c cs ih =>
    unfold sweep
    split
    · next s' hb => exact ih (hkeep s c s' hs hb)
    · split
      · exact ih hs
      · exact hs

/-- What the transaction of a candidate brings about and no other one undoes holds after the sweep that has
processed the candidate. -/
theorem sweep_of_mem_processed {I : σ → Prop} {x : κ} (hmake : ∀ s s', body s x = .ok s' → I s')
    (hkeep : ∀ s c s', I s → body s c = .ok s' → I s') (h : x ∈ (sweep body caught s cs).processed) :
    I (sweep body caught s cs).state := by
  induction cs generalizing s with
  | nil => cases h
  | cons c cs ih =>
    cases hb : body s c with
    | ok s' =>
      simp only [sweep, hb, List.mem_cons] at h ⊢
      rcases h with rfl | h
      · exact sweep_invariant hkeep (hmake s s' hb)
      · exact ih h
    | error e =>
      cases he : caught e with
      | true =>
        simp only [sweep, hb, he, if_true] at h ⊢
        exact ih h
      | false =>
        simp only [sweep, hb, he] at h
        cases h

/-! ## Candidates that do not depend on each other -/

/-- Only candidates are processed. -/
theorem mem_of_mem_processed {x : κ} (h : x ∈ (sweep body caught s cs).processed) : x ∈ cs := by
  induction cs generalizing s with
  | nil => cases h
  | cons c cs ih =>
    cases hb : body s c with
    | ok s' =>
      simp only [sweep, hb, List.mem_cons] at h
      exact List.mem_cons.mpr (h.imp_right ih)
    | error e =>
      cases he : caught e with
      | true =>
        simp only [sweep, hb, he, if_true] at h
        exact List.mem_cons_of_mem _ (ih h)
      | false =>
        simp only [sweep, hb, he] at h
        cases h

/-- Where the transaction of a bad candidate raises and that of a good one commits, whatever has come before,
every good candidate is processed iff the bad ones come last. -/
theorem forall_mem_processed_iff {I : σ → List κ → Prop} {bad : κ → Prop}
    (hland : ∀ s c cs, I s (c :: cs) → ¬ bad c → ∃ s', body s c = .ok s' ∧ I s' cs)
    (hraise : ∀ s c cs, I s (c :: cs) → bad c → ∃ e, body s c = .error e ∧ caught e = false)
    (hI : I s cs) (hnd : cs.Nodup) :
    (∀ c ∈ cs, ¬ bad c → c ∈ (sweep body caught s cs).processed) ↔
      cs.Pairwise fun c c' => bad c → bad c' := by
  induction cs generalizing s with
  | nil => simp
  | cons c cs ih =>
    rw [List.nodup_cons] at hnd
    rw [List.pairwise_cons]
    by_cases hc : bad c
    · obtain ⟨e, hb, he⟩ := hraise s c cs hI hc
      simp only [sweep, hb, he, Bool.false_eq_true, if_false, List.not_mem_nil, imp_false, not_not]
      constructor
      · intro hall
        have hbad : ∀ c' ∈ cs, bad c' := fun c' hc' => hall c' (List.mem_cons_of_mem _ hc')
        exact ⟨fun c' hc' _ => hbad c' hc',
          List.pairwise_of_forall_mem_list fun _ _ c' hc' _ => hbad c' hc'⟩
      · intro hall c' hc'
        rcases List.mem_cons.mp hc' with rfl | hc'
        · exact hc
        · exact hall.1 c' hc' hc
    · obtain ⟨s', hb, hI'⟩ := hland s c cs hI hc
      rw [← ih hI' hnd.2]
      simp only [sweep, hb, List.mem_cons]
      constructor
      · intro hall
        refine ⟨fun c' _ hbad => absurd hbad hc, fun c' hc' hgood => ?_⟩
        rcases hall c' (.inr hc') hgood with rfl | hmem
        · exact absurd hc' hnd.1
        · exact hmem
      · intro hall c' hc' hgood
        rcases hc' with rfl | hc'
        · exact .inl rfl
        · exact .inr (hall.2 c' hc' hgood)

end Sweeping

end AgentCraft.Transition
