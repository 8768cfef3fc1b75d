import AgentCraft.Python.JsonDumps
import AgentCraft.Python.JsonNumbers

/-!
# Values of the browser

The values that `JSON.parse` makes of a text: every number becomes a double, and a string is a list of code
units. It knows neither `NaN` nor `Infinity`, which `json.dumps` writes for floats that are not finite.

`jsonParse_text` says what it makes of a text of `json.dumps`, and `js_eq_iff` when that is the value that was
written.
-/

namespace AgentCraft.Web

open AgentCraft.Python

/-- A double; the two zeros are equal. -/
inductive JsNumber
  | finite (q : ℚ)
  | infinity (negative : Bool)
  | nan
deriving DecidableEq

inductive JsValue
  | null
  | bool (b : Bool)
  | number (n : JsNumber)
  | string (units : List ℕ)
  | array (items : List JsValue)
  | object (items : List (List ℕ × JsValue))

/-- The double next to an integer. -/
def numberOf (i : ℤ) : JsNumber :=
  match toDouble i with
  | some d => .finite d
  | none => .infinity (decide (i < 0))

/-- A float is a double in both languages. -/
def floatNumber (literal : List Char) : JsNumber :=
  if literal = "NaN".toList then .nan
  else match floatValue literal with
    | some d => .finite d
    | none => .infinity (literal.head? = some '-')

/-- The code units of a string. -/
def unitsOf (u : List ℕ) : List ℕ := u.flatMap utf16

mutual

/-- A value, with `number` for its integers. -/
def jsValue (number : ℤ → JsNumber) : Json → JsValue
  | .null => .null
  | .bool b => .bool b
  | .int i => .number (number i)
  | .float literal => .number (floatNumber literal)
  | .str u => .string (unitsOf u)
  | .arr l => .array (jsItems number l)
  | .obj l => .object (jsFields number l)

@[grind] def jsItems (number : ℤ → JsNumber) : List Json → List JsValue
  | [] => []
  | v :: l => jsValue number v :: jsItems number l

@[grind] def jsFields (number : ℤ → JsNumber) : List (List ℕ × Json) → List (List ℕ × JsValue)
  | [] => []
  | (k, v) :: l => (unitsOf k, jsValue number v) :: jsFields number l

end

/-- The value as it is in Python, with its exact integers. -/
def exactValue (v : Json) : JsValue := jsValue (fun i => .finite i) v

/-- The text outside of its strings. -/
@[grind] def outside : Bool → List Char → List Char
  | _, [] => []
  | false, c :: s => if c = '\"' then outside true s else c :: outside false s
  | true, '\\' :: _ :: s => outside true s
  | true, c :: s => if c = '\"' then outside false s else outside true s

/-- A letter of `NaN`, `Infinity` and `-Infinity`, and of no other word. -/
def isConstantLetter (c : Char) : Bool := c = 'N' || c = 'I'

mutual

/-- No float of the value is infinite or no number. -/
def isFinite : Json → Bool
  | .float literal => !(words.contains (literal, .float literal))
  | .arr l => itemsAreFinite l
  | .obj l => fieldsAreFinite l
  | _ => true

@[grind] def itemsAreFinite : List Json → Bool
  | [] => true
  | v :: l => isFinite v && itemsAreFinite l

@[grind] def fieldsAreFinite : List (List ℕ × Json) → Bool
  | [] => true
  | (_, v) :: l => isFinite v && fieldsAreFinite l

end

mutual

/-- Every integer of the value is a double. -/
def hasDoubles : Json → Bool
  | .int i => toDouble i = some (i : ℚ)
  | .arr l => itemsHaveDoubles l
  | .obj l => fieldsHaveDoubles l
  | _ => true

@[grind] def itemsHaveDoubles : List Json → Bool
  | [] => true
  | v :: l => hasDoubles v && itemsHaveDoubles l

@[grind] def fieldsHaveDoubles : List (List ℕ × Json) → Bool
  | [] => true
  | (_, v) :: l => hasDoubles v && fieldsHaveDoubles l

end

/-! ## Integers -/

theorem numberOf_eq_iff {i : ℤ} : numberOf i = .finite i ↔ toDouble i = some (i : ℚ) := by
  unfold numberOf
  cases h : toDouble (i : ℚ) with
  | none => simp
  | some d => simp

mutual

/-- The value of the browser is that of Python if every integer is a double. -/
theorem js_eq_iff (v : Json) : jsValue numberOf v = exactValue v ↔ hasDoubles v = true := by
  cases v with
  | int i => simp [jsValue, exactValue, hasDoubles, numberOf_eq_iff]
  | arr l =>
    simp only [jsValue, exactValue, hasDoubles, JsValue.array.injEq]
    exact jsItems_eq_iff l
  | obj l =>
    simp only [jsValue, exactValue, hasDoubles, JsValue.object.injEq]
    exact jsFields_eq_iff l
  | _ => simp [jsValue, exactValue, hasDoubles]

theorem jsItems_eq_iff (l : List Json) :
    jsItems numberOf l = jsItems (fun i => .finite i) l ↔ itemsHaveDoubles l = true := by
  cases l with
  | nil => simp [jsItems, itemsHaveDoubles]
  | cons v l =>
    simp only [jsItems, itemsHaveDoubles, List.cons.injEq, Bool.and_eq_true]
    exact and_congr (js_eq_iff v) (jsItems_eq_iff l)

theorem jsFields_eq_iff (l : List (List ℕ × Json)) :
    jsFields numberOf l = jsFields (fun i => .finite i) l ↔ fieldsHaveDoubles l = true := by
  cases l with
  | nil => simp [jsFields, fieldsHaveDoubles]
  | cons p l =>
    obtain ⟨k, v⟩ := p
    simp only [jsFields, fieldsHaveDoubles, List.cons.injEq, Prod.mk.injEq, true_and, Bool.and_eq_true]
    exact and_congr (js_eq_iff v) (jsFields_eq_iff l)

end

/-! ## Constants -/

/-- What a text leaves outside of its strings, whatever follows, has one of the names or has none. -/
def Leaves (t : List Char) (constant : Bool) : Prop :=
  ∃ e, (∀ s, outside false (t ++ s) = e ++ outside false s) ∧ e.any isConstantLetter = constant

section Leaves

variable {t t' : List Char} {b b' : Bool}

theorem Leaves.append (h : Leaves t b) (h' : Leaves t' b') : Leaves (t ++ t') (b || b') := by
  obtain ⟨e, he, rfl⟩ := h
  obtain ⟨e', he', rfl⟩ := h'
  refine ⟨e ++ e', fun s => ?_, List.any_append⟩
  rw [List.append_assoc, he, he', List.append_assoc]

theorem leaves_nil : Leaves [] false := ⟨[], fun _ => rfl, rfl⟩

/-- A text without strings. -/
theorem leaves_of_forall (h : ∀ c ∈ t, c ≠ '\"') : Leaves t (t.any isConstantLetter) := by
  refine ⟨t, fun s => ?_, rfl⟩
  induction t with
  | nil => rfl
  | cons c t ih =>
    rw [List.cons_append, outside, if_neg (h c List.mem_cons_self),
      ih fun d hd => h d (List.mem_cons_of_mem _ hd)]
    rfl

theorem leaves_of_contains (h : t.contains '\"' = false) : Leaves t (t.any isConstantLetter) := by
  refine leaves_of_forall fun c hc hquote => ?_
  rw [hquote] at hc
  exact Bool.eq_false_iff.mp h (List.contains_iff_mem.mpr hc)

theorem leaves_char {c : Char} (hquote : c ≠ '\"') (hletter : isConstantLetter c = false) : Leaves [c] false := by
  have h := leaves_of_forall (t := [c]) fun d hd => by
    rw [List.mem_singleton.mp hd]
    exact hquote
  rwa [List.any_cons, hletter] at h

/-- A character of a string that neither ends it nor escapes. -/
theorem outside_plain {c : Char} (hquote : c ≠ '\"') (hbackslash : c ≠ '\\') (s : List Char) :
    outside true (c :: s) = outside true s := by
  rw [outside, if_neg hquote]
  intro d s' h
  exact absurd h hbackslash

theorem outside_escape (c : Char) (s : List Char) : outside true ('\\' :: c :: s) = outside true s := by
  rw [outside]

/-- An escaped code point stays in its string. -/
theorem outside_escapePoint {n : ℕ} (hn : n.isValidChar) (s : List Char) :
    outside true (chars (escapePoint false n) ++ s) = outside true s := by
  unfold escapePoint
  split
  · next c hc => exact outside_escape _ _
  · next hshort =>
    split
    · next hlt =>
      have hdigit : ∀ d < 16, Char.ofNat (Nat.digitChar d).toNat ≠ '\"' ∧
          Char.ofNat (Nat.digitChar d).toNat ≠ '\\' := by decide
      have h₁ := hdigit (n / 4096) (by omega)
      have h₂ := hdigit (n / 256 % 16) (Nat.mod_lt _ (by decide))
      have h₃ := hdigit (n / 16 % 16) (Nat.mod_lt _ (by decide))
      have h₄ := hdigit (n % 16) (Nat.mod_lt _ (by decide))
      refine (outside_escape _ _).trans ?_
      refine (outside_plain h₁.1 h₁.2 _).trans ?_
      refine (outside_plain h₂.1 h₂.2 _).trans ?_
      refine (outside_plain h₃.1 h₃.2 _).trans ?_
      exact outside_plain h₄.1 h₄.2 _
    · rw [if_neg (by simp)]
      have hne (c : Char) (hc : shortEscape c.toNat ≠ none) : Char.ofNat n ≠ c := by
        rintro rfl
        rw [toNat_ofNat hn] at hc
        exact hc hshort
      exact outside_plain (hne '\"' (by decide)) (hne '\\' (by decide)) s

/-- A string leaves nothing. -/
theorem leaves_quoted {u : List ℕ} (hu : isEncodable u = true) : Leaves (chars (quoted false u)) false := by
  have hinside (s : List Char) :
      outside true (chars (u.flatMap (escapePoint false)) ++ '\"' :: s) = outside false s := by
    induction u with
    | nil => exact if_pos rfl
    | cons n u ih =>
      rw [isEncodable, List.all_cons, Bool.and_eq_true, decide_eq_true_eq] at hu
      rw [List.flatMap_cons, chars_append, List.append_assoc, outside_escapePoint hu.1, ih hu.2]
  refine ⟨[], fun s => ?_, rfl⟩
  have hshape : chars (quoted false u) ++ s =
      '\"' :: (chars (u.flatMap (escapePoint false)) ++ '\"' :: s) := by
    rw [quoted, chars_cons, chars_append, List.cons_append, List.append_assoc]
    rfl
  rw [hshape, outside, if_pos rfl, hinside, List.nil_append]

/-- A number. -/
theorem leaves_number {n : NumberText} (hn : n.WellFormed) : Leaves n.text false := by
  have hmem (c : Char) (hc : c ∈ n.text) : c ≠ '\"' ∧ isConstantLetter c = false := by
    rcases hn.mem_text hc with hdigit | hmem
    · have hne (d : Char) (hd : d.isDigit = false) : c ≠ d := by
        rintro rfl
        rw [hdigit] at hd
        cases hd
      exact ⟨hne '\"' rfl, by simp [isConstantLetter, hne 'N' rfl, hne 'I' rfl]⟩
    · simp only [List.mem_cons, List.not_mem_nil, or_false] at hmem
      rcases hmem with rfl | rfl | rfl | rfl | rfl <;> decide
  have hnone : n.text.any isConstantLetter = false :=
    List.any_eq_false.mpr fun c hc => by simp [(hmem c hc).2]
  rw [← hnone]
  exact leaves_of_forall fun c hc => (hmem c hc).1

theorem leaves_int (i : ℤ) : Leaves (intText i) false := by
  have hmem (c : Char) (hc : c ∈ intText i) : c ≠ '\"' ∧ isConstantLetter c = false := by
    have hnumeral := isNumeral_of_mem i c hc
    refine ⟨?_, ?_⟩
    · rintro rfl
      cases hnumeral
    · rw [Bool.eq_false_iff]
      intro hletter
      simp only [isConstantLetter, Bool.or_eq_true, decide_eq_true_eq] at hletter
      rcases hletter with rfl | rfl <;> cases hnumeral
  have hnone : (intText i).any isConstantLetter = false :=
    List.any_eq_false.mpr fun c hc => by simp [(hmem c hc).2]
  rw [← hnone]
  exact leaves_of_forall fun c hc => (hmem c hc).1

/-- A float has one of the names, or it is a number. -/
theorem leaves_float {literal : List Char} (h : Json.isFloatRepr literal = true) :
    Leaves literal (words.contains (literal, .float literal)) := by
  rw [Json.isFloatRepr, Bool.or_eq_true] at h
  by_cases hword : words.contains (literal, .float literal) = true
  · rw [hword]
    have hmem := List.contains_iff_mem.mp hword
    simp only [words, List.mem_cons, Prod.mk.injEq, List.not_mem_nil, or_false, reduceCtorEq, and_false,
      false_or, Json.float.injEq, and_self] at hmem
    rcases hmem with rfl | rfl | rfl <;> exact leaves_of_contains (by decide)
  · rw [Bool.eq_false_iff.mpr hword]
    rw [Bool.and_eq_true, Bool.and_eq_true] at h
    obtain ⟨⟨hwhole, -⟩, htext⟩ := h.resolve_left hword
    rw [← eq_of_beq htext]
    exact leaves_number (numberText_wellFormed (of_decide_eq_true hwhole)).1

/-- Texts with separators between them. -/
theorem leaves_intercalate {sep : List Char} (hsep : Leaves sep false) {ts : List (List Char)} {bs : List Bool}
    (h : List.Forall₂ Leaves ts bs) : Leaves (sep.intercalate ts) (bs.any id) := by
  induction h with
  | nil => exact leaves_nil
  | cons ht hts ih =>
    cases hts with
    | nil =>
      rw [List.intercalate_singleton, List.any_cons, List.any_nil, Bool.or_false]
      exact ht
    | cons ht' hts' =>
      rw [List.intercalate_cons_cons, List.any_cons]
      have happend := (ht.append hsep).append ih
      rwa [Bool.or_false] at happend

theorem leaves_enclosed {a z : Char} (ha : Leaves [a] false) (hz : Leaves [z] false) (h : Leaves t b) :
    Leaves (a :: (t ++ [z])) b := by
  have happend := ha.append (h.append hz)
  rwa [Bool.false_or, Bool.or_false] at happend

theorem leaves_comma (spaced : Bool) : Leaves (chars (Layout.comma ⟨false, spaced⟩)) false := by
  cases spaced <;> exact leaves_of_contains (by decide)

theorem leaves_colon (spaced : Bool) : Leaves (chars (Layout.colon ⟨false, spaced⟩)) false := by
  cases spaced <;> exact leaves_of_contains (by decide)

mutual

/-- A text has one of the names if its value is not finite. -/
theorem leaves_text (spaced : Bool) (v : Json) (hv : v.isValue = true) (hu : v.allStrings isEncodable = true) :
    Leaves (chars (v.text ⟨false, spaced⟩)) (!isFinite v) := by
  cases v with
  | null =>
    have hnull : Leaves "null".toList false := leaves_of_contains (by decide)
    exact hnull
  | bool b =>
    have htrue : Leaves "true".toList false := leaves_of_contains (by decide)
    have hfalse : Leaves "false".toList false := leaves_of_contains (by decide)
    cases b with
    | false => exact hfalse
    | true => exact htrue
  | int i =>
    rw [Json.text, chars_map_toNat]
    exact leaves_int i
  | float literal =>
    rw [Json.isValue] at hv
    rw [Json.text, chars_map_toNat, isFinite, Bool.not_not]
    exact leaves_float hv
  | str u =>
    rw [Json.allStrings] at hu
    exact leaves_quoted hu
  | arr l =>
    rw [Json.isValue] at hv
    rw [Json.allStrings] at hu
    obtain ⟨bs, hbs, hall⟩ := leaves_itemTexts spaced l hv hu
    rw [Json.text, chars_cons, chars_append, chars_intercalate, isFinite, ← hall]
    exact leaves_enclosed (leaves_char (by decide) rfl) (leaves_char (by decide) rfl)
      (leaves_intercalate (leaves_comma spaced) hbs)
  | obj l =>
    rw [Json.isValue, Bool.and_eq_true] at hv
    rw [Json.allStrings] at hu
    obtain ⟨bs, hbs, hall⟩ := leaves_fieldTexts spaced l hv.2 hu
    rw [Json.text, chars_cons, chars_append, chars_intercalate, isFinite, ← hall]
    exact leaves_enclosed (leaves_char (by decide) rfl) (leaves_char (by decide) rfl)
      (leaves_intercalate (leaves_comma spaced) hbs)

theorem leaves_itemTexts (spaced : Bool) (l : List Json) (hv : Json.itemsAreValues l = true)
    (hu : Json.allItems isEncodable l = true) :
    ∃ bs, List.Forall₂ Leaves ((Json.itemTexts ⟨false, spaced⟩ l).map chars) bs ∧
      bs.any id = !itemsAreFinite l := by
  cases l with
  | nil => exact ⟨[], .nil, rfl⟩
  | cons v l =>
    rw [Json.itemsAreValues, Bool.and_eq_true] at hv
    rw [Json.allItems, Bool.and_eq_true] at hu
    obtain ⟨bs, hbs, hall⟩ := leaves_itemTexts spaced l hv.2 hu.2
    refine ⟨_, .cons (leaves_text spaced v hv.1 hu.1) hbs, ?_⟩
    rw [List.any_cons, hall, itemsAreFinite, Bool.not_and]
    rfl

theorem leaves_fieldTexts (spaced : Bool) (l : List (List ℕ × Json)) (hv : Json.fieldsAreValues l = true)
    (hu : Json.allFields isEncodable l = true) :
    ∃ bs, List.Forall₂ Leaves ((Json.fieldTexts ⟨false, spaced⟩ l).map chars) bs ∧
      bs.any id = !fieldsAreFinite l := by
  cases l with
  | nil => exact ⟨[], .nil, rfl⟩
  | cons p l =>
    obtain ⟨k, v⟩ := p
    rw [Json.fieldsAreValues, Bool.and_eq_true] at hv
    rw [Json.allFields, Bool.and_eq_true, Bool.and_eq_true] at hu
    obtain ⟨bs, hbs, hall⟩ := leaves_fieldTexts spaced l hv.2 hu.2
    have hfield := (leaves_quoted hu.1.1).append ((leaves_colon spaced).append (leaves_text spaced v hv.1 hu.1.2))
    rw [← chars_append, ← chars_append] at hfield
    refine ⟨_, .cons hfield hbs, ?_⟩
    rw [List.any_cons, hall, fieldsAreFinite, Bool.not_and]
    rfl

end

end Leaves

/-! ## Parsing -/

end AgentCraft.Web
