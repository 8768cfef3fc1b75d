import Mathlib.Data.List.Basic

/-!
# Programs on a disk that may stop anywhere

A disk maps paths to contents. A `Program` is a list of steps (write, rename, unlink, remove a tree) with the
handler that an exception runs; `Program.stop` is what it leaves behind when it is interrupted: a prefix of its
steps, perhaps a torn write, and a prefix of the handler.

The frame rules are about two sets of paths, those that a step touches and those that it makes: off the first
nothing changes, and off the second nothing appears.
-/

namespace AgentCraft.Transition

/-- What each path holds. -/
def Disk (π β : Type*) := π → Option β

/-- The disk with another content, or none, at a path. -/
def Disk.set {π β : Type*} [DecidableEq π] (d : Disk π β) (p : π) (v : Option β) : Disk π β :=
  fun q => if q = p then v else d q

/-- The disk without the files of a set of paths. -/
def Disk.prune {π β : Type*} (d : Disk π β) (tree : π → Bool) : Disk π β :=
  fun p => if tree p then none else d p

section Set

variable {π β : Type*} [DecidableEq π]

@[simp]
theorem Disk.set_self (d : Disk π β) (p : π) (v : Option β) : d.set p v p = v := if_pos rfl

theorem Disk.set_of_ne (d : Disk π β) {p q : π} (v : Option β) (h : q ≠ p) : d.set p v q = d q := if_neg h

omit [DecidableEq π] in
theorem Disk.prune_of_mem (d : Disk π β) {tree : π → Bool} {p : π} (h : tree p = true) :
    d.prune tree p = none := if_pos h

omit [DecidableEq π] in
theorem Disk.prune_of_not_mem (d : Disk π β) {tree : π → Bool} {p : π} (h : ¬ tree p = true) :
    d.prune tree p = d p := if_neg h

omit [DecidableEq π] in
theorem Disk.eq_some_of_prune {d : Disk π β} {tree : π → Bool} {p : π} {b : β}
    (h : d.prune tree p = some b) : d p = some b := by
  unfold Disk.prune at h
  split at h
  · cases h
  · exact h

end Set

/-- A step of a program. -/
inductive DiskStep (π β : Type*)
  | write (p : π) (b : β)
  | rename (source target : π)
  /-- A missing file is no error. -/
  | unlink (p : π)
  /-- Remove the files of the set. -/
  | prune (tree : π → Bool)

namespace DiskStep

variable {π β : Type*} [DecidableEq π]

/-- The disk after the step; none is an exception. -/
def run (d : Disk π β) : DiskStep π β → Option (Disk π β)
  | .write p b => some (d.set p (some b))
  | .rename source target =>
    (d source).map fun b => (d.set source none).set target (some b)
  | .unlink p => some (d.set p none)
  | .prune tree => some (d.prune tree)

/-- What an interrupted step may leave: a write has been torn, or has not begun. -/
def tear (d : Disk π β) (torn : Option β) : DiskStep π β → Disk π β
  | .write p _ => match torn with
    | some b => d.set p (some b)
    | none => d
  | _ => d

/-- The paths at which the step may change something. -/
def Touches (p : π) : DiskStep π β → Prop
  | .write q _ => p = q
  | .rename source target => p = source ∨ p = target
  | .unlink q => p = q
  | .prune tree => tree p = true

/-- The paths at which the step may put a file. -/
def Makes (p : π) : DiskStep π β → Prop
  | .write q _ => p = q
  | .rename _ target => p = target
  | _ => False

/-- The disk after a list of steps. -/
def runAll (steps : List (DiskStep π β)) (d : Disk π β) : Option (Disk π β) := steps.foldlM run d

section Frame

variable {d d' : Disk π β} {s : DiskStep π β} {steps : List (DiskStep π β)} {p : π} {b : β}

theorem run_of_not_touches (h : s.run d = some d') (hp : ¬ s.Touches p) : d' p = d p := by
  cases s with
  | write q c =>
    cases h
    exact Disk.set_of_ne _ _ hp
  | rename source target =>
    obtain ⟨hs, ht⟩ := not_or.mp hp
    obtain ⟨c, -, rfl⟩ := Option.map_eq_some_iff.mp h
    rw [Disk.set_of_ne _ _ ht, Disk.set_of_ne _ _ hs]
  | unlink q =>
    cases h
    exact Disk.set_of_ne _ _ hp
  | prune tree =>
    cases h
    exact Disk.prune_of_not_mem d hp

theorem run_makes (h : s.run d = some d') (hb : d' p = some b) : d p = some b ∨ s.Makes p := by
  by_cases hp : s.Touches p
  · cases s with
    | write q c => exact .inr hp
    | rename source target =>
      by_cases ht : p = target
      · exact .inr ht
      · obtain ⟨c, -, rfl⟩ := Option.map_eq_some_iff.mp h
        have hsource : p = source := hp.resolve_right ht
        rw [Disk.set_of_ne _ _ ht, hsource, Disk.set_self] at hb
        cases hb
    | unlink q =>
      cases h
      cases hp
      rw [Disk.set_self] at hb
      cases hb
    | prune tree =>
      cases h
      rw [Disk.prune_of_mem d hp] at hb
      cases hb
  · exact .inl (run_of_not_touches h hp ▸ hb)

theorem tear_of_not_touches (torn : Option β) (hp : ¬ s.Touches p) : tear d torn s p = d p := by
  cases s with
  | write q c =>
    cases torn with
    | none => rfl
    | some b => exact Disk.set_of_ne _ _ hp
  | _ => rfl

theorem tear_makes {torn : Option β} (hb : tear d torn s p = some b) : d p = some b ∨ s.Makes p := by
  by_cases hp : s.Touches p
  · cases s with
    | write q c => exact .inr hp
    | _ => exact .inl hb
  · exact .inl ((tear_of_not_touches torn hp).symm.trans hb)

theorem runAll_cons (s : DiskStep π β) (steps : List (DiskStep π β)) (d : Disk π β) :
    runAll (s :: steps) d = (s.run d).bind (runAll steps) :=
  List.foldlM_cons

theorem runAll_append (steps steps' : List (DiskStep π β)) (d : Disk π β) :
    runAll (steps ++ steps') d = (runAll steps d).bind (runAll steps') :=
  List.foldlM_append

/-- Off the paths that the steps touch, nothing changes. -/
theorem runAll_of_not_touches (h : runAll steps d = some d') (hp : ∀ s ∈ steps, ¬ s.Touches p) :
    d' p = d p := by
  induction steps generalizing d with
  | nil =>
    cases h
    rfl
  | cons s steps ih =>
    obtain ⟨d₁, hs, h⟩ := Option.bind_eq_some_iff.mp (runAll_cons s steps d ▸ h)
    rw [ih h fun t ht => hp t (List.mem_cons_of_mem _ ht),
      run_of_not_touches hs (hp s List.mem_cons_self)]

/-- A file that is there after the steps was there before, or a step makes it. -/
theorem runAll_makes (h : runAll steps d = some d') (hb : d' p = some b) :
    d p = some b ∨ ∃ s ∈ steps, s.Makes p := by
  induction steps generalizing d with
  | nil =>
    cases h
    exact .inl hb
  | cons s steps ih =>
    obtain ⟨d₁, hs, h⟩ := Option.bind_eq_some_iff.mp (runAll_cons s steps d ▸ h)
    rcases ih h with hb | ⟨t, ht, hmakes⟩
    · exact (run_makes hs hb).imp_right fun hmakes => ⟨s, List.mem_cons_self, hmakes⟩
    · exact .inr ⟨t, List.mem_cons_of_mem _ ht, hmakes⟩

/-- A path that the steps only clear holds nothing once one of them has touched it. -/
theorem runAll_cleared (h : runAll steps d = some d') (hno : ∀ s ∈ steps, ¬ s.Makes p)
    (hs : s ∈ steps) (hp : s.Touches p) : d' p = none := by
  induction steps generalizing d with
  | nil => cases hs
  | cons t steps ih =>
    obtain ⟨d₁, ht, hrest⟩ := Option.bind_eq_some_iff.mp (runAll_cons t steps d ▸ h)
    have hno' : ∀ s ∈ steps, ¬ s.Makes p := fun s hs => hno s (List.mem_cons_of_mem _ hs)
    rcases List.mem_cons.mp hs with rfl | hs
    · have hgone : d₁ p = none := by
        have hmakes := hno s List.mem_cons_self
        cases s with
        | write q c => exact absurd hp hmakes
        | rename source target =>
          obtain ⟨c, -, rfl⟩ := Option.map_eq_some_iff.mp ht
          have hsource : p = source := hp.resolve_right hmakes
          rw [Disk.set_of_ne _ _ hmakes, hsource, Disk.set_self]
        | unlink q =>
          cases ht
          cases hp
          exact Disk.set_self _ _ _
        | prune tree =>
          cases ht
          exact Disk.prune_of_mem d hp
      cases hb : d' p with
      | none => rfl
      | some b =>
        rcases runAll_makes hrest hb with hb | ⟨t, ht, hmakes⟩
        · rw [hgone] at hb
          cases hb
        · exact absurd hmakes (hno' t ht)
    · exact ih hrest hno' hs

end Frame

/-! ## Writing a batch and moving it into place -/

variable {d d' : Disk π β}

/-- Of files written under different paths, each holds its own contents. -/
theorem runAll_writes (items : List (π × β)) (hnodup : (items.map Prod.fst).Nodup)
    (h : runAll (items.map fun x => write x.1 x.2) d = some d') {p : π} {b : β} (hmem : (p, b) ∈ items) :
    d' p = some b := by
  induction items generalizing d with
  | nil => cases hmem
  | cons x items ih =>
    rw [List.map_cons, runAll_cons] at h
    obtain ⟨d₁, hx, hrest⟩ := Option.bind_eq_some_iff.mp h
    rw [List.map_cons, List.nodup_cons] at hnodup
    rcases List.mem_cons.mp hmem with rfl | hmem
    · have hoff : d' p = d₁ p := by
        refine runAll_of_not_touches hrest fun s hs htouch => ?_
        obtain ⟨y, hy, rfl⟩ := List.mem_map.mp hs
        have hpy : p = y.1 := htouch
        exact hnodup.1 (List.mem_map.mpr ⟨y, hy, hpy.symm⟩)
      cases hx
      rw [hoff, Disk.set_self]
    · exact ih hnodup.2 hrest hmem

/-- Files renamed from different paths to different new ones arrive unchanged. -/
theorem runAll_renames (moves : List (π × π)) (hsources : (moves.map Prod.fst).Nodup)
    (htargets : (moves.map Prod.snd).Nodup)
    (happart : ∀ m ∈ moves, ∀ m' ∈ moves, m.1 ≠ m'.2)
    (h : runAll (moves.map fun m => rename (β := β) m.1 m.2) d = some d') {m : π × π}
    (hmem : m ∈ moves) : d' m.2 = d m.1 := by
  induction moves generalizing d with
  | nil => cases hmem
  | cons x moves ih =>
    rw [List.map_cons, runAll_cons] at h
    obtain ⟨d₁, hx, hrest⟩ := Option.bind_eq_some_iff.mp h
    rw [List.map_cons, List.nodup_cons] at hsources htargets
    obtain ⟨b, hb, rfl⟩ := Option.map_eq_some_iff.mp hx
    have happart' : ∀ m ∈ moves, ∀ m' ∈ moves, m.1 ≠ m'.2 := fun m hm m' hm' =>
      happart m (List.mem_cons_of_mem _ hm) m' (List.mem_cons_of_mem _ hm')
    rcases List.mem_cons.mp hmem with rfl | hmem
    · have hoff := runAll_of_not_touches (p := m.2) hrest fun s hs htouch => ?_
      · rw [hoff, Disk.set_self, hb]
      · obtain ⟨y, hy, rfl⟩ := List.mem_map.mp hs
        rcases htouch with heq | heq
        · exact happart y (List.mem_cons_of_mem _ hy) m List.mem_cons_self heq.symm
        · exact htargets.1 (heq ▸ List.mem_map_of_mem hy)
    · rw [ih hsources.2 htargets.2 happart' hrest hmem]
      have htarget : m.1 ≠ x.2 := happart m (List.mem_cons_of_mem _ hmem) x List.mem_cons_self
      have hsource : m.1 ≠ x.1 := fun heq => hsources.1 (heq ▸ List.mem_map_of_mem hmem)
      rw [Disk.set_of_ne _ _ htarget, Disk.set_of_ne _ _ hsource]

end DiskStep

/-! ## Programs -/

/-- A program on a disk: its steps, and what the handler does when a step raises after the given number of
steps. -/
structure Program (π β : Type*) where
  steps : List (DiskStep π β)
  handler : ℕ → List (DiskStep π β)

/-- Where a run of a program stops: after `done` steps, with what a write under way has left, and after
`handled` steps of the handler. -/
structure Stop (β : Type*) where
  done : ℕ
  torn : Option β
  handled : ℕ

namespace Program

variable {π β : Type*} [DecidableEq π]

/-- The disk when the program has run to its end. -/
def finish (P : Program π β) (d : Disk π β) : Option (Disk π β) := DiskStep.runAll P.steps d

/-- The disk when the program has been interrupted. -/
def stop (P : Program π β) (d : Disk π β) (s : Stop β) : Option (Disk π β) :=
  (DiskStep.runAll (P.steps.take s.done) d).bind fun d =>
    DiskStep.runAll ((P.handler s.done).take s.handled)
      ((P.steps[s.done]?).elim d (DiskStep.tear d s.torn))

variable {P : Program π β} {d d' : Disk π β} {s : Stop β} {p : π} {b : β}

/-- Where no write is torn, an interrupted step has done nothing. -/
theorem tear_next (htear : ∀ c, P.steps[s.done]? = some (.write p c) → s.torn = none) (d : Disk π β) :
    (P.steps[s.done]?).elim d (DiskStep.tear d s.torn) p = d p := by
  cases hnext : P.steps[s.done]? with
  | none => rfl
  | some t =>
    by_cases hp : t.Touches p
    · cases t with
      | write q c =>
        obtain rfl : p = q := hp
        simp [DiskStep.tear, htear c hnext]
      | _ => rfl
    · exact DiskStep.tear_of_not_touches s.torn hp

/-- Off the paths that the steps done and the handler touch, nothing changes. -/
theorem stop_of_not_touches (h : P.stop d s = some d') (hp : ∀ t ∈ P.steps.take s.done, ¬ t.Touches p)
    (htear : ∀ c, P.steps[s.done]? = some (.write p c) → s.torn = none)
    (hhandler : ∀ t ∈ P.handler s.done, ¬ t.Touches p) : d' p = d p := by
  obtain ⟨d₁, hrun, h⟩ := Option.bind_eq_some_iff.mp h
  rw [DiskStep.runAll_of_not_touches h fun t ht => hhandler t (List.mem_of_mem_take ht),
    tear_next htear, DiskStep.runAll_of_not_touches hrun hp]

/-- A handler that runs to its end undoes what the steps have made where it cleans up. -/
theorem stop_undone (h : P.stop d s = some d') (hhandled : (P.handler s.done).length ≤ s.handled)
    (hhandler : ∀ t ∈ P.handler s.done, ¬ t.Makes p)
    (hclear : ∀ t ∈ P.steps.take s.done, t.Makes p → ∃ t' ∈ P.handler s.done, t'.Touches p)
    (htear : ∀ c, P.steps[s.done]? = some (.write p c) → s.torn = none) (hb : d' p = some b) :
    d p = some b := by
  obtain ⟨d₁, hrun, h⟩ := Option.bind_eq_some_iff.mp h
  rw [List.take_of_length_le hhandled] at h
  by_cases hex : ∃ t ∈ P.handler s.done, t.Touches p
  · obtain ⟨t, ht, htouch⟩ := hex
    rw [DiskStep.runAll_cleared h hhandler ht htouch] at hb
    cases hb
  · have hoff : d' p = d₁ p :=
      (DiskStep.runAll_of_not_touches h fun t ht htouch => hex ⟨t, ht, htouch⟩).trans (tear_next htear d₁)
    rcases DiskStep.runAll_makes hrun (hoff.symm.trans hb) with hb | ⟨t, ht, hmakes⟩
    · exact hb
    · exact absurd (hclear t ht hmakes) hex

/-- A file that is there when the program has stopped was there before, or a step makes it. -/
theorem stop_makes (h : P.stop d s = some d') (hhandler : ∀ t ∈ P.handler s.done, ¬ t.Makes p)
    (hb : d' p = some b) : d p = some b ∨ ∃ t ∈ P.steps, t.Makes p := by
  obtain ⟨d₁, hrun, h⟩ := Option.bind_eq_some_iff.mp h
  rcases DiskStep.runAll_makes h hb with hb | ⟨t, ht, hmakes⟩
  · have hfirst (hb : d₁ p = some b) : d p = some b ∨ ∃ t ∈ P.steps, t.Makes p :=
      (DiskStep.runAll_makes hrun hb).imp_right fun ⟨t, ht, hmakes⟩ =>
        ⟨t, List.mem_of_mem_take ht, hmakes⟩
    cases hnext : P.steps[s.done]? with
    | none =>
      rw [hnext] at hb
      exact hfirst hb
    | some t =>
      rw [hnext] at hb
      rcases DiskStep.tear_makes hb with hb | hmakes
      · exact hfirst hb
      · exact .inr ⟨t, List.mem_of_getElem? hnext, hmakes⟩
  · exact absurd hmakes (hhandler t (List.mem_of_mem_take ht))

end Program

end AgentCraft.Transition
