import AgentCraft.Python.JsonDumps

/-!
# Objects without containers

An object of strings and digits is read back from its text within any limits of the interpreter that allow one
container and one digit (`loads_flat`).
-/

namespace AgentCraft.Python

open Transition

/-! ## Strings -/

theorem joinSurrogates_cons {n : ℕ} (hn : ¬ (0xD800 ≤ n ∧ n < 0xDC00)) (s : List ℕ) :
    joinSurrogates (n :: s) = n :: joinSurrogates s := by
  cases s with
  | nil => rfl
  | cons l s => rw [joinSurrogates, if_neg fun h => hn h.1]

theorem joinSurrogates_pair {h l : ℕ} (hh : 0xD800 ≤ h ∧ h < 0xDC00) (hl : 0xDC00 ≤ l ∧ l < 0xE000) (s : List ℕ) :
    joinSurrogates (h :: l :: s) = (0x10000 + (h - 0xD800) * 0x400 + (l - 0xDC00)) :: joinSurrogates s := by
  rw [joinSurrogates, if_pos ⟨hh, hl⟩]

/-- A code point that can be encoded is read back from its code units. -/
theorem joinSurrogates_utf16 {n : ℕ} (hn : n.isValidChar) (s : List ℕ) :
    joinSurrogates (utf16 n ++ s) = n :: joinSurrogates s := by
  unfold Nat.isValidChar at hn
  unfold utf16
  split
  · exact joinSurrogates_cons (by omega) s
  · rw [List.cons_append, List.cons_append, List.nil_append, joinSurrogates_pair (by omega) (by omega)]
    have heq : 0x10000 + (0xD800 + (n - 0x10000) / 0x400 - 0xD800) * 0x400 +
        (0xDC00 + (n - 0x10000) % 0x400 - 0xDC00) = n := by omega
    rw [heq]

/-- A text that can be encoded is what is read for it. -/
theorem joinSurrogates_written {ascii : Bool} {u : List ℕ} (hu : isEncodable u = true) :
    joinSurrogates (u.flatMap (written ascii)) = u := by
  cases ascii with
  | false => exact Json.joinSurrogates_written hu
  | true =>
    induction u with
    | nil => rfl
    | cons n u ih =>
      rw [isEncodable, List.all_cons, Bool.and_eq_true, decide_eq_true_eq] at hu
      rw [List.flatMap_cons, written_true, joinSurrogates_utf16 hu.1, ih hu.2]

theorem all_isWritable {ascii : Bool} {u : List ℕ} (hu : isEncodable u = true) :
    u.all (isWritable ascii) = true := by
  refine List.all_eq_true.mpr fun n hn => ?_
  have hvalid : n.isValidChar := of_decide_eq_true (List.all_eq_true.mp hu n hn)
  cases ascii with
  | false => exact decide_eq_true hvalid
  | true =>
    have hlt : n < 0x110000 := by
      unfold Nat.isValidChar at hvalid
      omega
    exact decide_eq_true hlt

/-! ## Limits -/

/-- A number of one digit is not written with more. -/
theorem length_wholePart_le {s : List Char} (h : decimalNumber (wholePart s) < 10) :
    (wholePart s).length ≤ 1 := by
  have hgrow (l : List Char) (n : ℕ) : n ≤ l.foldl (fun n c => 10 * n + (c.toNat - '0'.toNat)) n := by
    induction l generalizing n with
    | nil => exact le_rfl
    | cons c l ih =>
      have hstep : n ≤ 10 * n + (c.toNat - '0'.toNat) := by omega
      exact hstep.trans (ih _)
  unfold wholePart at h ⊢
  by_cases hhead : s.head? = some '0'
  · rw [if_pos hhead]
    exact le_rfl
  · rw [if_neg hhead] at h ⊢
    cases s with
    | nil => exact Nat.zero_le 1
    | cons c s =>
      have hne : c ≠ '0' := fun heq => hhead (congrArg some heq)
      cases hc : c.isDigit with
      | false =>
        rw [List.takeWhile_cons_of_neg (by simp [hc])]
        exact Nat.zero_le 1
      | true =>
        rw [List.takeWhile_cons_of_pos hc] at h ⊢
        cases hl : s.takeWhile Char.isDigit with
        | nil => exact le_rfl
        | cons d l =>
          rw [hl, decimalNumber, List.foldl_cons, List.foldl_cons] at h
          have hpos : '0'.toNat < c.toNat := by
            have hrange : 48 ≤ c.toNat ∧ c.toNat ≤ 57 := by simpa [Char.isDigit, UInt32.le_iff_toNat_le] using hc
            have hnat : c.toNat ≠ 48 := fun heq => hne (Char.toNat_inj.mp heq)
            exact lt_of_le_of_ne hrange.1 (Ne.symm hnat)
          have hle := hgrow l (10 * (10 * 0 + (c.toNat - '0'.toNat)) + (d.toNat - '0'.toNat))
          omega

/-- A string, or a number of one digit. -/
def IsFlat (v : Json) : Prop := (∃ u, v = .str u ∧ isEncodable u = true) ∨ ∃ i : ℤ, v = .int i ∧ i.natAbs < 10

section Flat

variable {limits : Limits} {s r : List Char} {v : Json}

theorem IsFlat.scanScalar_eq (hv : IsFlat v) (hdigits : exceeds 1 limits.digits = false)
    (h : scanScalar ⟨none, none⟩ s = .ok (v, r)) : scanScalar limits s = .ok (v, r) := by
  unfold scanScalar at h ⊢
  split at h
  · next hquote => rw [if_pos hquote, h]
  · next hquote =>
    rw [if_neg hquote]
    split at h
    · exact h
    · obtain ⟨w, hvalue, hpair⟩ := map_eq_ok.mp h
      obtain ⟨rfl, rfl⟩ := Prod.mk.inj hpair
      have hvalue' : (numberText s).value limits = .ok w := by
        unfold NumberText.value at hvalue ⊢
        split
        · next hwhole => rwa [if_pos hwhole] at hvalue
        · next hwhole =>
          rw [if_neg hwhole] at hvalue
          split
          · next hfloat => rwa [if_pos hfloat] at hvalue
          · next hfloat =>
            rw [if_neg hfloat, if_neg (by simp [exceeds])] at hvalue
            have hint := Except.ok.inj hvalue
            have hsmall : decimalNumber (numberText s).whole < 10 := by
              rcases hv with ⟨u, rfl, -⟩ | ⟨i, rfl, hi⟩
              · cases hint
              · have hi' := Json.int.inj hint
                split at hi' <;> omega
            have hlength := length_wholePart_le (s := s.drop (if s.head? = some '-' then ['-'] else []).length) hsmall
            have hexceeds : exceeds (numberText s).whole.length limits.digits = false := by
              cases hlimit : limits.digits with
              | none => rfl
              | some d =>
                rw [hlimit] at hdigits
                simp only [exceeds, decide_eq_false_iff_not, not_lt] at hdigits ⊢
                exact hlength.trans hdigits
            rw [if_neg (by rw [hexceeds]; exact Bool.false_ne_true), hint]
      rw [scanNumber, hvalue']
      rfl

theorem IsFlat.opening_eq (hv : IsFlat v) {n level : ℕ} (h : scanOnce ⟨none, none⟩ n level s = .ok (v, r)) :
    Container.opening s = none := by
  have hcontainer (k : Container) (l : List (List ℕ × Json)) : k.build l ≠ v := by
    rcases hv with ⟨u, rfl, -⟩ | ⟨i, rfl, -⟩ <;> cases k <;> exact fun heq => by cases heq
  cases n with
  | zero =>
    rw [scanOnce] at h
    cases h
  | succ n =>
    rw [scanOnce] at h
    cases hopening : Container.opening s with
    | none => rfl
    | some p =>
      rw [hopening] at h
      dsimp only at h
      rw [if_neg (by simp [exceeds])] at h
      split at h
      · exact absurd (Prod.mk.inj (Except.ok.inj h)).1 (hcontainer _ _)
      · obtain ⟨q, -, hpair⟩ := map_eq_ok.mp h
        exact absurd (Prod.mk.inj hpair).1 (hcontainer _ _)

theorem IsFlat.scanOnce_eq (hv : IsFlat v) (hdigits : exceeds 1 limits.digits = false) {n level : ℕ}
    (h : scanOnce ⟨none, none⟩ n level s = .ok (v, r)) : scanOnce limits n level s = .ok (v, r) := by
  have hopening := hv.opening_eq h
  cases n with
  | zero =>
    rw [scanOnce] at h
    cases h
  | succ n =>
    rw [scanOnce, hopening] at h ⊢
    exact hv.scanScalar_eq hdigits h

/-- Items without containers are read within the limits. -/
theorem scanItems_flat {l : List (List ℕ × Json)} (hl : ∀ p ∈ l, IsFlat p.2)
    (hdigits : exceeds 1 limits.digits = false) {n level : ℕ} {k : Container}
    (h : scanItems ⟨none, none⟩ n level k s = .ok (l, r)) : scanItems limits n level k s = .ok (l, r) := by
  induction n generalizing s l with
  | zero =>
    rw [scanItems] at h
    cases h
  | succ n ih =>
    rw [scanItems] at h ⊢
    cases hkey : k.key s with
    | none =>
      rw [hkey] at h
      cases h
    | some p =>
      rw [hkey] at h
      dsimp only at h ⊢
      obtain ⟨⟨v, t⟩, hscan, hrest⟩ := bind_eq_ok.mp h
      dsimp only at hrest
      cases hafter : k.after t with
      | none =>
        rw [hafter] at hrest
        cases hrest
      | some q =>
        obtain ⟨last, t'⟩ := q
        rw [hafter] at hrest
        cases last with
        | true =>
          obtain ⟨rfl, rfl⟩ := Prod.mk.inj (Except.ok.inj hrest)
          have hv : IsFlat v := hl (p.1, v) (List.mem_singleton_self _)
          rw [hv.scanOnce_eq hdigits hscan]
          dsimp only [Except.bind]
          rw [hafter]
        | false =>
          obtain ⟨⟨m, t''⟩, hitems, hpair⟩ := map_eq_ok.mp hrest
          obtain ⟨rfl, rfl⟩ := Prod.mk.inj hpair
          have hv : IsFlat v := hl (p.1, v) List.mem_cons_self
          rw [hv.scanOnce_eq hdigits hscan]
          dsimp only [Except.bind]
          rw [hafter]
          dsimp only
          rw [ih (fun q hq => hl q (List.mem_cons_of_mem _ hq)) hitems]
          rfl

end Flat

/-! ## Objects -/

theorem IsFlat.reads {v : Json} (hv : IsFlat v) (o : Layout) : Reads (chars (v.text o)) v := by
  rcases hv with ⟨u, rfl, hu⟩ | ⟨i, rfl, -⟩
  · have hwritable : u.all (isWritable o.ascii) = true := all_isWritable hu
    have h := reads_quoted hwritable
    rwa [joinSurrogates_written hu] at h
  · rw [Json.text, chars_map_toNat]
    exact reads_int i

/-- An object of strings and digits is read back. -/
theorem loads_flat {limits : Limits} (hdepth : exceeds 1 limits.depth = false)
    (hdigits : exceeds 1 limits.digits = false) (o : Layout) {l : List (List ℕ × Json)} (hne : l ≠ [])
    (hkeys : (l.map Prod.fst).Nodup) (hl : ∀ p ∈ l, isEncodable p.1 = true ∧ IsFlat p.2) :
    loads limits (chars ((Json.obj l).text o)) = .ok (.obj l) := by
  have hitems : List.Forall₂ (ReadsItem .object) ((Json.fieldTexts o l).map chars) l := by
    clear hne hkeys
    induction l with
    | nil => exact .nil
    | cons p l ih =>
      obtain ⟨k, v⟩ := p
      obtain ⟨⟨hk, hv⟩, hrest⟩ := List.forall_mem_cons.mp hl
      have hitem := readsItem_object (o := o) (all_isWritable hk) (hv.reads o)
      rw [joinSurrogates_written hk] at hitem
      exact .cons hitem (ih hrest)
  have hts : (Json.fieldTexts o l).map chars ≠ [] := by
    intro h
    have hlength := hitems.length_eq
    rw [h, List.length_nil] at hlength
    exact hne (List.length_eq_zero_iff.mp hlength.symm)
  obtain ⟨b, hcomma, hb⟩ := chars_comma o
  have hshape : chars ((Json.obj l).text o) =
      '\x7b' :: ((',' :: b).intercalate ((Json.fieldTexts o l).map chars) ++ [Container.object.closing]) := by
    rw [Json.text, chars_cons, chars_append, chars_intercalate, hcomma]
    rfl
  have hreads := readsItems_intercalate hb hitems hts
  have hhead : ((',' :: b).intercalate ((Json.fieldTexts o l).map chars) ++
      [Container.object.closing]).head? ≠ some Container.object.closing := by
    generalize (Json.fieldTexts o l).map chars = ts at hitems hts
    cases hitems with
    | nil => exact absurd rfl hne
    | cons ht htail =>
      obtain ⟨rest, hrest⟩ := exists_intercalate_cons (',' :: b) _ _
      rw [hrest, List.append_assoc, List.head?_append_of_ne_nil _ ht.ne_nil]
      exact ht.head_ne
  rw [hshape]
  generalize (',' :: b).intercalate ((Json.fieldTexts o l).map chars) ++ [Container.object.closing] = t
    at hreads hhead
  have hunlimited := hreads (2 * ('\x7b' :: t).length) 1 (by rw [List.length_cons]; omega)
  have hscan : scanItems limits (2 * ('\x7b' :: t).length) 1 .object t = .ok (l, []) :=
    scanItems_flat (fun p hp => (hl p hp).2) hdigits hunlimited
  have hskip : skipBlanks ('\x7b' :: t) = '\x7b' :: t := skipBlanks_of_head fun c hc => by
    obtain rfl := Option.some.inj hc
    decide
  have honce : scanOnce limits (2 * ('\x7b' :: t).length + 1) 0 ('\x7b' :: t) = .ok (.obj l, []) := by
    have hopening : Container.opening ('\x7b' :: t) = some (.object, t) := rfl
    rw [scanOnce, hopening]
    dsimp only
    rw [if_neg (by rw [hdepth]; exact Bool.false_ne_true), skipBlanks_of_head hreads.starts.not_isBlank,
      if_neg hhead, hscan]
    change Except.ok (Container.build .object l, []) = _
    rw [Container.build, foldl_setItem hkeys]
  rw [loads, hskip, honce]
  rfl

end AgentCraft.Python
