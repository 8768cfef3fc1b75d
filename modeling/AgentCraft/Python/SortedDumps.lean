import AgentCraft.Python.JsonDumps
import Mathlib.Data.List.Sort

/-!
# JSON texts with sorted keys

`json.dumps` with `sort_keys=True`, which sorts the items of every dictionary by the code points of their keys.
Two values have one such text exactly if they mean the same: their dictionaries are compared as maps, their
numbers by how they are printed (`text_sortKeys_eq_iff`).
-/

namespace AgentCraft.Python

/-! ## The order of keys -/

/-- `k ≤ k'`, by code points. -/
@[grind] def keyLe : List ℕ → List ℕ → Bool
  | [], _ => true
  | _ :: _, [] => false
  | a :: s, b :: t => decide (a < b) || (a == b && keyLe s t)

theorem keyLe_total (s t : List ℕ) : keyLe s t = true ∨ keyLe t s = true := by
  induction s generalizing t with
  | nil => exact .inl rfl
  | cons a s ih =>
    cases t with
    | nil => exact .inr rfl
    | cons b t =>
      simp only [keyLe, Bool.or_eq_true, Bool.and_eq_true, decide_eq_true_eq, beq_iff_eq]
      rcases lt_trichotomy a b with hlt | rfl | hgt
      · exact .inl (.inl hlt)
      · exact (ih t).imp (fun h => .inr ⟨rfl, h⟩) fun h => .inr ⟨rfl, h⟩
      · exact .inr (.inl hgt)

theorem keyLe_trans {s t u : List ℕ} (h : keyLe s t = true) (h' : keyLe t u = true) : keyLe s u = true := by
  induction s generalizing t u with
  | nil => rfl
  | cons a s ih =>
    cases t with
    | nil => cases h
    | cons b t =>
      cases u with
      | nil => cases h'
      | cons c u =>
        simp only [keyLe, Bool.or_eq_true, Bool.and_eq_true, decide_eq_true_eq, beq_iff_eq] at h h' ⊢
        rcases h with hlt | ⟨rfl, hst⟩ <;> rcases h' with hlt' | ⟨rfl, htu⟩
        · exact .inl (hlt.trans hlt')
        · exact .inl hlt
        · exact .inl hlt'
        · exact .inr ⟨rfl, ih hst htu⟩

theorem keyLe_antisymm {s t : List ℕ} (h : keyLe s t = true) (h' : keyLe t s = true) : s = t := by
  induction s generalizing t with
  | nil =>
    cases t with
    | nil => rfl
    | cons b t => cases h'
  | cons a s ih =>
    cases t with
    | nil => cases h
    | cons b t =>
      simp only [keyLe, Bool.or_eq_true, Bool.and_eq_true, decide_eq_true_eq, beq_iff_eq] at h h'
      rcases h with hlt | ⟨rfl, hst⟩
      · omega
      · rcases h' with hlt | ⟨-, hts⟩
        · omega
        · rw [ih hst hts]

/-! ## Sorted values -/

namespace Json

/-- The order of items. -/
def ItemLe (p q : List ℕ × Json) : Prop := keyLe p.1 q.1 = true

instance : DecidableRel ItemLe := fun _ _ => inferInstanceAs (Decidable (_ = _))

mutual

/-- The value with the items of its dictionaries in order. -/
def sortKeys : Json → Json
  | arr l => .arr (sortItems l)
  | obj l => .obj ((sortFields l).insertionSort ItemLe)
  | v => v

@[grind] def sortItems : List Json → List Json
  | [] => []
  | v :: l => sortKeys v :: sortItems l

@[grind] def sortFields : List (List ℕ × Json) → List (List ℕ × Json)
  | [] => []
  | (k, v) :: l => (k, sortKeys v) :: sortFields l

end

end Json

/-! ## What a value means -/

/-- A value whose dictionaries are maps, and whose numbers are what is printed for them. -/
inductive JsonMeaning
  | null
  | bool (b : Bool)
  | number (text : List ℕ)
  | string (codePoints : List ℕ)
  | array (items : List JsonMeaning)
  | object (lookup : List ℕ → Option JsonMeaning)

namespace Json

mutual

def meaning : Json → JsonMeaning
  | null => .null
  | bool b => .bool b
  | int i => .number ((intText i).map Char.toNat)
  | float literal => .number (literal.map Char.toNat)
  | str u => .string u
  | arr l => .array (itemMeanings l)
  | obj l => .object (fieldMeaning l)

@[grind] def itemMeanings : List Json → List JsonMeaning
  | [] => []
  | v :: l => meaning v :: itemMeanings l

/-- The map of a dictionary. -/
@[grind] def fieldMeaning : List (List ℕ × Json) → List ℕ → Option JsonMeaning
  | [], _ => none
  | (k', v) :: l, k => if k = k' then some (meaning v) else fieldMeaning l k

end

theorem sortFields_eq_map (l : List (List ℕ × Json)) : sortFields l = l.map fun p => (p.1, sortKeys p.2) := by
  induction l with
  | nil => rfl
  | cons p l ih =>
    obtain ⟨k, v⟩ := p
    rw [sortFields, ih, List.map_cons]

/-! ## Dictionaries as maps -/

section Maps

variable {l l' : List (List ℕ × Json)} {k : List ℕ} {x : JsonMeaning}

theorem fieldMeaning_eq_some_iff (h : (l.map Prod.fst).Nodup) :
    fieldMeaning l k = some x ↔ ∃ v, (k, v) ∈ l ∧ meaning v = x := by
  induction l with
  | nil => exact ⟨fun h => (by cases h), fun ⟨v, hv, _⟩ => (by cases hv)⟩
  | cons p l ih =>
    obtain ⟨k', v⟩ := p
    rw [List.map_cons, List.nodup_cons] at h
    rw [fieldMeaning]
    split
    · next heq =>
      subst heq
      constructor
      · intro hx
        exact ⟨v, List.mem_cons_self, Option.some.inj hx⟩
      · rintro ⟨w, hw, rfl⟩
        rcases List.mem_cons.mp hw with heq | hmem
        · cases heq
          rfl
        · exact absurd (List.mem_map_of_mem (f := Prod.fst) hmem) h.1
    · next hne =>
      rw [ih h.2]
      constructor
      · rintro ⟨w, hw, rfl⟩
        exact ⟨w, List.mem_cons_of_mem _ hw, rfl⟩
      · rintro ⟨w, hw, rfl⟩
        rcases List.mem_cons.mp hw with heq | hmem
        · cases heq
          exact absurd rfl hne
        · exact ⟨w, hmem, rfl⟩

/-- The order of the items does not matter. -/
theorem fieldMeaning_perm (h : (l.map Prod.fst).Nodup) (hperm : l.Perm l') : fieldMeaning l = fieldMeaning l' := by
  have h' : (l'.map Prod.fst).Nodup := (hperm.map Prod.fst).nodup_iff.mp h
  funext k
  refine Option.ext fun x => ?_
  rw [fieldMeaning_eq_some_iff h, fieldMeaning_eq_some_iff h']
  simp only [hperm.mem_iff]

theorem keys_sortFields (l : List (List ℕ × Json)) : (sortFields l).map Prod.fst = l.map Prod.fst := by
  rw [sortFields_eq_map, List.map_map]
  rfl

theorem keys_sorted_perm (l : List (List ℕ × Json)) :
    (((sortFields l).insertionSort ItemLe).map Prod.fst).Perm (l.map Prod.fst) := by
  rw [← keys_sortFields l]
  exact (List.perm_insertionSort ItemLe _).map Prod.fst

instance : Std.Total ItemLe := ⟨fun p q => keyLe_total p.1 q.1⟩

instance : IsTrans (List ℕ × Json) ItemLe := ⟨fun _ _ _ => keyLe_trans⟩

/-- The same items, no key twice, are in one order. -/
theorem eq_of_perm_sorted (h : (l.map Prod.fst).Nodup) (hperm : l.Perm l') :
    l.insertionSort ItemLe = l'.insertionSort ItemLe := by
  have hperm' : (l.insertionSort ItemLe).Perm (l'.insertionSort ItemLe) :=
    (List.perm_insertionSort _ l).trans (hperm.trans (List.perm_insertionSort _ l').symm)
  refine List.Perm.eq_of_pairwise ?_ (List.pairwise_insertionSort ItemLe l) (List.pairwise_insertionSort ItemLe l')
    hperm'
  intro p q hp hq hpq hqp
  have hp : p ∈ l := (List.mem_insertionSort ItemLe).mp hp
  have hq : q ∈ l := hperm.mem_iff.mpr ((List.mem_insertionSort ItemLe).mp hq)
  exact List.inj_on_of_nodup_map h hp hq (keyLe_antisymm hpq hqp)

end Maps

/-! ## Sorting keeps the value -/

theorem fieldsAreValues_iff {l : List (List ℕ × Json)} :
    fieldsAreValues l = true ↔ ∀ p ∈ l, isValue p.2 = true := by
  induction l with
  | nil => exact iff_of_true rfl fun p hp => by cases hp
  | cons p l ih =>
    obtain ⟨k, v⟩ := p
    rw [fieldsAreValues, Bool.and_eq_true, ih, List.forall_mem_cons]

theorem allFields_iff {p : List ℕ → Bool} {l : List (List ℕ × Json)} :
    allFields p l = true ↔ ∀ q ∈ l, p q.1 = true ∧ allStrings p q.2 = true := by
  induction l with
  | nil => exact iff_of_true rfl fun q hq => by cases hq
  | cons q l ih =>
    obtain ⟨k, v⟩ := q
    rw [allFields, Bool.and_eq_true, Bool.and_eq_true, ih, List.forall_mem_cons]

mutual

theorem isValue_sortKeys (v : Json) (hv : isValue v = true) : isValue (sortKeys v) = true := by
  cases v with
  | arr l =>
    rw [isValue] at hv
    rw [sortKeys, isValue]
    exact isValue_sortItems l hv
  | obj l =>
    rw [isValue, Bool.and_eq_true, decide_eq_true_eq] at hv
    rw [sortKeys, isValue, Bool.and_eq_true, decide_eq_true_eq, (keys_sorted_perm l).nodup_iff, fieldsAreValues_iff]
    refine ⟨hv.1, fun p hp => ?_⟩
    exact fieldsAreValues_iff.mp (isValue_sortFields l hv.2) p ((List.perm_insertionSort ItemLe _).mem_iff.mp hp)
  | _ => simpa [sortKeys] using hv

theorem isValue_sortItems (l : List Json) (hv : itemsAreValues l = true) : itemsAreValues (sortItems l) = true := by
  cases l with
  | nil => rfl
  | cons v l =>
    rw [itemsAreValues, Bool.and_eq_true] at hv
    rw [sortItems, itemsAreValues, isValue_sortKeys v hv.1, isValue_sortItems l hv.2]
    rfl

theorem isValue_sortFields (l : List (List ℕ × Json)) (hv : fieldsAreValues l = true) :
    fieldsAreValues (sortFields l) = true := by
  cases l with
  | nil => rfl
  | cons p l =>
    obtain ⟨k, v⟩ := p
    rw [fieldsAreValues, Bool.and_eq_true] at hv
    rw [sortFields, fieldsAreValues, isValue_sortKeys v hv.1, isValue_sortFields l hv.2]
    rfl

end

mutual

theorem allStrings_sortKeys (p : List ℕ → Bool) (v : Json) : allStrings p (sortKeys v) = allStrings p v := by
  cases v with
  | arr l =>
    rw [sortKeys, allStrings, allStrings]
    exact allStrings_sortItems p l
  | obj l =>
    rw [sortKeys, allStrings, allStrings, ← allStrings_sortFields p l, Bool.eq_iff_iff, allFields_iff, allFields_iff]
    simp only [List.mem_insertionSort]
  | _ => simp [sortKeys]

theorem allStrings_sortItems (p : List ℕ → Bool) (l : List Json) : allItems p (sortItems l) = allItems p l := by
  cases l with
  | nil => rfl
  | cons v l => rw [sortItems, allItems, allItems, allStrings_sortKeys p v, allStrings_sortItems p l]

theorem allStrings_sortFields (p : List ℕ → Bool) (l : List (List ℕ × Json)) :
    allFields p (sortFields l) = allFields p l := by
  cases l with
  | nil => rfl
  | cons q l =>
    obtain ⟨k, v⟩ := q
    rw [sortFields, allFields, allFields, allStrings_sortKeys p v, allStrings_sortFields p l]

end

mutual

/-- The value that is printed means the same. -/
theorem meaning_sortKeys (v : Json) (hv : isValue v = true) : meaning (sortKeys v) = meaning v := by
  cases v with
  | arr l =>
    rw [isValue] at hv
    rw [sortKeys, meaning, meaning, meaning_sortItems l hv]
  | obj l =>
    rw [isValue, Bool.and_eq_true, decide_eq_true_eq] at hv
    have hkeys : ((sortFields l).map Prod.fst).Nodup := by
      rw [keys_sortFields]
      exact hv.1
    rw [sortKeys, meaning, meaning, ← fieldMeaning_perm hkeys (List.perm_insertionSort ItemLe _).symm,
      meaning_sortFields l hv.2]
  | _ => simp [sortKeys]

theorem meaning_sortItems (l : List Json) (hv : itemsAreValues l = true) :
    itemMeanings (sortItems l) = itemMeanings l := by
  cases l with
  | nil => rfl
  | cons v l =>
    rw [itemsAreValues, Bool.and_eq_true] at hv
    rw [sortItems, itemMeanings, itemMeanings, meaning_sortKeys v hv.1, meaning_sortItems l hv.2]

theorem meaning_sortFields (l : List (List ℕ × Json)) (hv : fieldsAreValues l = true) :
    fieldMeaning (sortFields l) = fieldMeaning l := by
  cases l with
  | nil => rfl
  | cons p l =>
    obtain ⟨k, v⟩ := p
    rw [fieldsAreValues, Bool.and_eq_true] at hv
    funext k'
    rw [sortFields, fieldMeaning, fieldMeaning, meaning_sortKeys v hv.1, meaning_sortFields l hv.2]

end

/-! ## Values that mean the same -/

/-- What is printed for a number is read as that number. -/
theorem loads_number {v : Json} {t : List ℕ} (hv : isValue v = true) (h : meaning v = .number t) :
    loads ⟨none, none⟩ (chars t) = .ok v := by
  cases v with
  | int i =>
    rw [meaning, JsonMeaning.number.injEq] at h
    rw [← h, chars_map_toNat]
    exact (reads_int i).loads_eq
  | float literal =>
    rw [meaning, JsonMeaning.number.injEq] at h
    rw [isValue] at hv
    rw [← h, chars_map_toNat]
    exact (reads_float hv).loads_eq
  | _ => cases h

/-- Numbers that are printed alike are the same. -/
theorem eq_of_number {v w : Json} {t : List ℕ} (hv : isValue v = true) (hw : isValue w = true)
    (h : meaning v = .number t) (h' : meaning w = .number t) : v = w :=
  Except.ok.inj ((loads_number hv h).symm.trans (loads_number hw h'))

theorem mem_sortFields {l : List (List ℕ × Json)} {k : List ℕ} {v : Json} :
    (k, v) ∈ sortFields l ↔ ∃ w, (k, w) ∈ l ∧ sortKeys w = v := by
  rw [sortFields_eq_map, List.mem_map]
  constructor
  · rintro ⟨⟨k', w⟩, hmem, heq⟩
    cases heq
    exact ⟨w, hmem, rfl⟩
  · rintro ⟨w, hmem, rfl⟩
    exact ⟨(k, w), hmem, rfl⟩

/-- The items of one map are in the other, if what means the same is printed alike. -/
theorem mem_sortFields_of_fieldMeaning {l m : List (List ℕ × Json)} (hl : (l.map Prod.fst).Nodup)
    (hm : (m.map Prod.fst).Nodup)
    (ih : ∀ p ∈ l, ∀ q ∈ m, meaning p.2 = meaning q.2 → sortKeys p.2 = sortKeys q.2)
    (h : fieldMeaning l = fieldMeaning m) {k : List ℕ} {v : Json} (hmem : (k, v) ∈ sortFields l) :
    (k, v) ∈ sortFields m := by
  obtain ⟨w, hw, rfl⟩ := mem_sortFields.mp hmem
  have hsome : fieldMeaning m k = some (meaning w) := by
    rw [← h]
    exact (fieldMeaning_eq_some_iff hl).mpr ⟨w, hw, rfl⟩
  obtain ⟨w', hw', hmeaning⟩ := (fieldMeaning_eq_some_iff hm).mp hsome
  exact mem_sortFields.mpr ⟨w', hw', (ih (k, w) hw (k, w') hw' hmeaning.symm).symm⟩

theorem insertionSort_sortFields_eq {l m : List (List ℕ × Json)} (hl : (l.map Prod.fst).Nodup)
    (hm : (m.map Prod.fst).Nodup)
    (ih : ∀ p ∈ l, ∀ q ∈ m, meaning p.2 = meaning q.2 → sortKeys p.2 = sortKeys q.2)
    (h : fieldMeaning l = fieldMeaning m) :
    (sortFields l).insertionSort ItemLe = (sortFields m).insertionSort ItemLe := by
  have hl' : ((sortFields l).map Prod.fst).Nodup := by rwa [keys_sortFields]
  have hm' : ((sortFields m).map Prod.fst).Nodup := by rwa [keys_sortFields]
  refine eq_of_perm_sorted hl' ((List.perm_ext_iff_of_nodup hl'.of_map hm'.of_map).mpr fun p => ?_)
  have hback : ∀ q ∈ m, ∀ p ∈ l, meaning q.2 = meaning p.2 → sortKeys q.2 = sortKeys p.2 :=
    fun q hq p hp heq => (ih p hp q hq heq.symm).symm
  exact ⟨mem_sortFields_of_fieldMeaning hl hm ih h, mem_sortFields_of_fieldMeaning hm hl hback h.symm⟩

mutual

theorem sortKeys_eq_of_meaning (v w : Json) (hv : isValue v = true) (hw : isValue w = true)
    (h : meaning v = meaning w) : sortKeys v = sortKeys w := by
  cases v with
  | null =>
    cases w with
    | null => rfl
    | _ => cases h
  | bool b =>
    cases w with
    | bool b' =>
      cases h
      rfl
    | _ => cases h
  | int i => rw [eq_of_number hv hw rfl h.symm]
  | float literal => rw [eq_of_number hv hw rfl h.symm]
  | str u =>
    cases w with
    | str u' =>
      cases h
      rfl
    | _ => cases h
  | arr l =>
    cases w with
    | arr m =>
      rw [meaning, meaning, JsonMeaning.array.injEq] at h
      rw [isValue] at hv hw
      rw [sortKeys, sortKeys, sortItems_eq_of_meaning l m hv hw h]
    | _ => cases h
  | obj l =>
    cases w with
    | obj m =>
      rw [meaning, meaning, JsonMeaning.object.injEq] at h
      rw [isValue, Bool.and_eq_true, decide_eq_true_eq] at hv hw
      rw [sortKeys, sortKeys, insertionSort_sortFields_eq hv.1 hw.1 (fun p hp q hq =>
        sortFields_eq_of_meaning l hv.2 p hp q.2 (fieldsAreValues_iff.mp hw.2 q hq)) h]
    | _ => cases h

theorem sortItems_eq_of_meaning (l m : List Json) (hl : itemsAreValues l = true) (hm : itemsAreValues m = true)
    (h : itemMeanings l = itemMeanings m) : sortItems l = sortItems m := by
  cases l with
  | nil =>
    cases m with
    | nil => rfl
    | cons w m => cases h
  | cons v l =>
    cases m with
    | nil => cases h
    | cons w m =>
      rw [itemMeanings, itemMeanings, List.cons.injEq] at h
      rw [itemsAreValues, Bool.and_eq_true] at hl hm
      rw [sortItems, sortItems, sortKeys_eq_of_meaning v w hl.1 hm.1 h.1,
        sortItems_eq_of_meaning l m hl.2 hm.2 h.2]

theorem sortFields_eq_of_meaning (l : List (List ℕ × Json)) (hl : fieldsAreValues l = true)
    (p : List ℕ × Json) (hp : p ∈ l) (w : Json) (hw : isValue w = true) (h : meaning p.2 = meaning w) :
    sortKeys p.2 = sortKeys w := by
  cases l with
  | nil => cases hp
  | cons q l =>
    obtain ⟨k, v⟩ := q
    rw [fieldsAreValues, Bool.and_eq_true] at hl
    by_cases heq : p = (k, v)
    · rw [heq] at h ⊢
      exact sortKeys_eq_of_meaning v w hl.1 hw h
    · exact sortFields_eq_of_meaning l hl.2 p ((List.mem_cons.mp hp).resolve_left heq) w hw h

end

/-! ## Texts -/

/-- Two values have one text, with sorted keys, exactly if they mean the same. -/
theorem text_sortKeys_eq_iff {spaced : Bool} {v w : Json} (hv : isValue v = true) (hw : isValue w = true)
    (hu : v.allStrings isEncodable = true) (hu' : w.allStrings isEncodable = true) :
    (sortKeys v).text ⟨false, spaced⟩ = (sortKeys w).text ⟨false, spaced⟩ ↔ meaning v = meaning w := by
  have hloads {u : Json} (hu : isValue u = true) (hs : u.allStrings isEncodable = true) :
      loads ⟨none, none⟩ (chars ((sortKeys u).text ⟨false, spaced⟩)) = .ok (sortKeys u) := by
    refine loads_text (isValue_sortKeys u hu) ?_
    rw [isEncodable_text, allStrings_sortKeys, hs]
  constructor
  · intro h
    have heq : sortKeys v = sortKeys w := by
      have hback := hloads hv hu
      rw [h, hloads hw hu'] at hback
      exact (Except.ok.inj hback).symm
    rw [← meaning_sortKeys v hv, heq, meaning_sortKeys w hw]
  · intro h
    rw [sortKeys_eq_of_meaning v w hv hw h]

end Json

end AgentCraft.Python
