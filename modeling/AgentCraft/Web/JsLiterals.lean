import AgentCraft.Python.EscapedTexts
import AgentCraft.Web.JsValues

/-!
# Literals of a script

A text of `json.dumps` as an expression of a script. `NaN` and `Infinity` are names for what they say, and a
line separator may stand in a string; but in the literal of an object, `"__proto__"` sets the prototype and is
no property of the object.
-/

namespace AgentCraft.Web

open AgentCraft.Python

/-- The key of the prototype. -/
def protoKey : List ℕ := codePoints "__proto__"

mutual

/-- The value without what sets a prototype. -/
def withoutProto : Json → Json
  | .arr l => .arr (itemsWithoutProto l)
  | .obj l => .obj (fieldsWithoutProto l)
  | v => v

@[grind] def itemsWithoutProto : List Json → List Json
  | [] => []
  | v :: l => withoutProto v :: itemsWithoutProto l

@[grind] def fieldsWithoutProto : List (List ℕ × Json) → List (List ℕ × Json)
  | [] => []
  | (k, v) :: l => if k = protoKey then fieldsWithoutProto l else (k, withoutProto v) :: fieldsWithoutProto l

end

theorem withoutProto_str (u : List ℕ) : withoutProto (.str u) = .str u := by simp [withoutProto]

/-- The value of the expression. -/
def jsLiteral (s : List Char) : Option JsValue :=
  match loads ⟨none, none⟩ s with
  | .ok v => some (jsValue numberOf (withoutProto v))
  | .error _ => none

mutual

/-- Every integer of the value is a double, and no object sets a prototype. -/
def isLiteral : Json → Bool
  | .int i => toDouble i = some (i : ℚ)
  | .arr l => itemsAreLiterals l
  | .obj l => fieldsAreLiterals l
  | _ => true

@[grind] def itemsAreLiterals : List Json → Bool
  | [] => true
  | v :: l => isLiteral v && itemsAreLiterals l

@[grind] def fieldsAreLiterals : List (List ℕ × Json) → Bool
  | [] => true
  | (k, v) :: l => decide (k ≠ protoKey) && isLiteral v && fieldsAreLiterals l

end

theorem length_jsFields (number : ℤ → JsNumber) (l : List (List ℕ × Json)) :
    (jsFields number l).length = l.length := by
  induction l with
  | nil => rfl
  | cons p l ih => simp [jsFields, ih]

theorem length_fieldsWithoutProto_le (l : List (List ℕ × Json)) :
    (fieldsWithoutProto l).length ≤ l.length := by
  induction l with
  | nil => exact le_rfl
  | cons p l ih =>
    rw [fieldsWithoutProto]
    split
    · exact ih.trans (Nat.le_succ _)
    · exact Nat.succ_le_succ ih

mutual

/-- The expression has the value that was written if that is a literal. -/
theorem literal_eq_iff (v : Json) : jsValue numberOf (withoutProto v) = exactValue v ↔ isLiteral v = true := by
  cases v with
  | int i => simp [jsValue, exactValue, isLiteral, withoutProto, numberOf_eq_iff]
  | arr l =>
    simp only [jsValue, exactValue, isLiteral, withoutProto, JsValue.array.injEq]
    exact literalItems_eq_iff l
  | obj l =>
    simp only [jsValue, exactValue, isLiteral, withoutProto, JsValue.object.injEq]
    exact literalFields_eq_iff l
  | _ => simp [jsValue, exactValue, isLiteral, withoutProto]

theorem literalItems_eq_iff (l : List Json) :
    jsItems numberOf (itemsWithoutProto l) = jsItems (fun i => .finite i) l ↔ itemsAreLiterals l = true := by
  cases l with
  | nil => simp [jsItems, itemsAreLiterals, itemsWithoutProto]
  | cons v l =>
    simp only [jsItems, itemsAreLiterals, itemsWithoutProto, List.cons.injEq, Bool.and_eq_true]
    exact and_congr (literal_eq_iff v) (literalItems_eq_iff l)

theorem literalFields_eq_iff (l : List (List ℕ × Json)) :
    jsFields numberOf (fieldsWithoutProto l) = jsFields (fun i => .finite i) l ↔ fieldsAreLiterals l = true := by
  cases l with
  | nil => simp [jsFields, fieldsAreLiterals, fieldsWithoutProto]
  | cons p l =>
    obtain ⟨k, v⟩ := p
    rw [fieldsWithoutProto]
    split
    · next hproto =>
      -- one property is missing
      have hle := length_fieldsWithoutProto_le l
      simp only [fieldsAreLiterals, hproto, ne_eq, not_true_eq_false, decide_false, Bool.false_and,
        Bool.false_eq_true, iff_false]
      intro heq
      have hlength := congrArg List.length heq
      rw [length_jsFields, length_jsFields, List.length_cons] at hlength
      omega
    · next hproto =>
      simp only [jsFields, fieldsAreLiterals, List.cons.injEq, Prod.mk.injEq, true_and, Bool.and_eq_true, ne_eq,
        hproto, not_false_eq_true, decide_true]
      exact and_congr (literal_eq_iff v) (literalFields_eq_iff l)

end

/-- The value of a text that can be encoded. -/
theorem jsLiteral_text {spaced : Bool} {v : Json} (hv : v.isValue = true)
    (hu : isEncodable (v.text ⟨false, spaced⟩) = true) :
    jsLiteral (chars (v.text ⟨false, spaced⟩)) = some (jsValue numberOf (withoutProto v)) := by
  rw [jsLiteral, Json.loads_text hv hu]

/-- It is the value that was written, if that is a literal. -/
theorem jsLiteral_text_eq_iff {spaced : Bool} {v : Json} (hv : v.isValue = true)
    (hu : isEncodable (v.text ⟨false, spaced⟩) = true) :
    jsLiteral (chars (v.text ⟨false, spaced⟩)) = some (exactValue v) ↔ isLiteral v = true := by
  rw [jsLiteral_text hv hu, Option.some.injEq, literal_eq_iff]

/-! ## Strings in ASCII -/

/-- A pair of surrogates and the code point that it stands for have the same code units. -/
theorem unitsOf_joinSurrogates {w : List ℕ} (hw : ∀ n ∈ w, n < 0x10000) : unitsOf (joinSurrogates w) = w := by
  fun_induction joinSurrogates w with
  | case1 h l s hpair ih =>
    have hrest := ih fun n hn => hw n (List.mem_cons_of_mem _ (List.mem_cons_of_mem _ hn))
    have hunits : utf16 (0x10000 + (h - 0xD800) * 0x400 + (l - 0xDC00)) = [h, l] := by
      have hhigh : 0xD800 + (0x10000 + (h - 0xD800) * 0x400 + (l - 0xDC00) - 0x10000) / 0x400 = h := by omega
      have hlow : 0xDC00 + (0x10000 + (h - 0xD800) * 0x400 + (l - 0xDC00) - 0x10000) % 0x400 = l := by omega
      rw [utf16, if_neg (by omega), hhigh, hlow]
    rw [unitsOf, List.flatMap_cons, hunits]
    exact congrArg ([h, l] ++ ·) hrest
  | case2 h l s hpair ih =>
    have hrest := ih fun n hn => hw n (List.mem_cons_of_mem _ hn)
    rw [unitsOf, List.flatMap_cons, utf16_of_lt (hw h List.mem_cons_self)]
    exact congrArg (h :: ·) hrest
  | case3 w hshort =>
    rw [unitsOf, List.flatMap_congr fun n hn => utf16_of_lt (hw n hn)]
    exact List.flatMap_singleton' w

/-- What is read of a string in ASCII has the code units of the string. -/
theorem unitsOf_written {u : List ℕ} (hu : ∀ n ∈ u, n < 0x110000) :
    unitsOf (joinSurrogates (u.flatMap (written true))) = unitsOf u := by
  have hwritten : u.flatMap (written true) = u.flatMap utf16 := List.flatMap_congr fun n _ => written_true n
  rw [hwritten]
  refine unitsOf_joinSurrogates fun m hm => ?_
  obtain ⟨n, hn, hmem⟩ := List.mem_flatMap.mp hm
  exact lt_of_mem_utf16 (hu n hn) hmem

theorem all_isWritable_true {u : List ℕ} (hu : ∀ n ∈ u, n < 0x110000) : u.all (isWritable true) = true := by
  simpa [isWritable] using hu

/-- A string in ASCII is read as it was written, with halves of surrogate pairs. -/
theorem jsLiteral_quoted {u : List ℕ} (hu : ∀ n ∈ u, n < 0x110000) :
    jsLiteral (chars (quoted true u)) = some (exactValue (.str u)) := by
  rw [jsLiteral, (reads_quoted (all_isWritable_true hu)).loads_eq]
  exact congrArg (fun units => some (JsValue.string units)) (unitsOf_written hu)

/-- A list of strings in ASCII. -/
theorem jsLiteral_strings {us : List (List ℕ)} (hu : ∀ u ∈ us, ∀ n ∈ u, n < 0x110000) :
    jsLiteral (chars (Json.text ⟨true, true⟩ (.arr (us.map .str)))) = some (exactValue (.arr (us.map .str))) := by
  have hitems : jsItems numberOf (itemsWithoutProto
      (us.map fun u => .str (joinSurrogates (u.flatMap (written true))))) =
        jsItems (fun i => .finite i) (us.map .str) := by
    induction us with
    | nil => rfl
    | cons u us ih =>
      have hrest := ih fun u' hu' => hu u' (List.mem_cons_of_mem _ hu')
      rw [List.map_cons, List.map_cons, itemsWithoutProto, withoutProto_str, jsItems, jsItems, hrest]
      exact congrArg (fun units => JsValue.string units :: _) (unitsOf_written (hu u List.mem_cons_self))
  rw [jsLiteral, (Json.reads_strings ⟨true, true⟩ fun u hmem => all_isWritable_true (hu u hmem)).loads_eq]
  exact congrArg (fun items => some (JsValue.array items)) hitems

end AgentCraft.Web
