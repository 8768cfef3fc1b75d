import AgentCraft.Python.Uuid
import AgentCraft.Transition.Fallible
import Mathlib.Data.List.Infix
import Mathlib.Data.Rat.Floor
import Mathlib.Data.Int.Log

/-!
# Reading JSON texts

`json.loads`, as its scanner reads a text from left to right. Besides the errors of the grammar, which are
`JSONDecodeError`, it raises for numbers of too many digits and for texts that are nested too deeply.

The scanner is bounded by the length of the text; `scan_of_le` says that the bound is never felt.
-/

namespace AgentCraft.Python

open Transition

/-- What `json.loads` raises. -/
inductive LoadsError
  /-- `JSONDecodeError`, a `ValueError`. -/
  | decode
  /-- The `ValueError` of `int`, for too many digits. -/
  | digits
  /-- `RecursionError`. -/
  | recursion
deriving DecidableEq, Repr

/-- A value that is read. A text is given by its code points, since an escape may stand for half of a
surrogate pair; a float is kept as it is written. -/
inductive Json
  | null
  | bool (b : Bool)
  | int (i : ℤ)
  | float (literal : List Char)
  | str (codePoints : List ℕ)
  | arr (items : List Json)
  | obj (items : List (List ℕ × Json))
deriving Repr

namespace Json

mutual

def same : Json → Json → Bool
  | null, null => true
  | bool a, bool b => a == b
  | int a, int b => a == b
  | float a, float b => a == b
  | str a, str b => a == b
  | arr a, arr b => sameItems a b
  | obj a, obj b => sameFields a b
  | _, _ => false

@[grind] def sameItems : List Json → List Json → Bool
  | [], [] => true
  | a :: l, b :: l' => same a b && sameItems l l'
  | _, _ => false

@[grind] def sameFields : List (List ℕ × Json) → List (List ℕ × Json) → Bool
  | [], [] => true
  | (k, a) :: l, (k', b) :: l' => k == k' && same a b && sameFields l l'
  | _, _ => false

end

mutual

theorem same_iff (v w : Json) : same v w = true ↔ v = w := by
  cases v with
  | arr l => cases w <;> simp [same, sameItems_iff l]
  | obj l => cases w <;> simp [same, sameFields_iff l]
  | _ => cases w <;> simp [same]

theorem sameItems_iff (l l' : List Json) : sameItems l l' = true ↔ l = l' := by
  cases l with
  | nil => cases l' <;> simp [sameItems]
  | cons a l => cases l' <;> simp [sameItems, same_iff a, sameItems_iff l]

theorem sameFields_iff (l l' : List (List ℕ × Json)) : sameFields l l' = true ↔ l = l' := by
  cases l with
  | nil => cases l' <;> simp [sameFields]
  | cons p l =>
    cases l' with
    | nil => simp [sameFields]
    | cons p' l' => simp [sameFields, same_iff p.2, sameFields_iff l, Prod.ext_iff]

end

instance : DecidableEq Json := fun v w => decidable_of_iff _ (same_iff v w)

end Json

/-- The limits of the interpreter; none stands for no limit. -/
structure Limits where
  /-- How many containers the scanner can enter one within the other. -/
  depth : Option ℕ
  /-- `sys.get_int_max_str_digits()`. -/
  digits : Option ℕ
deriving DecidableEq, Repr

/-- The number is above the limit. -/
def exceeds (n : ℕ) : Option ℕ → Bool
  | none => false
  | some limit => decide (limit < n)

/-- The code points of a text. -/
def codePoints (s : String) : List ℕ := s.toList.map Char.toNat

/-- A text as a value. -/
def Json.ofString (s : String) : Json := .str (codePoints s)

/-- `hash(v)` does not raise. -/
def Json.hashable : Json → Bool
  | .arr _ | .obj _ => false
  | _ => true

/-! ## The parts of a text -/

/-- `IS_WHITESPACE` of the scanner. -/
def isBlank (c : Char) : Bool := c = ' ' || c = '\t' || c = '\n' || c = '\r'

def skipBlanks (s : List Char) : List Char := s.dropWhile isBlank

/-- The character that an escape of one letter stands for. -/
def escaped (c : Char) : Option ℕ :=
  if c = '\"' ∨ c = '\\' ∨ c = '/' then some c.toNat
  else if c = 'b' then some 8
  else if c = 'f' then some 12
  else if c = 'n' then some 10
  else if c = 'r' then some 13
  else if c = 't' then some 9
  else none

/-- `scanstring` after the opening quote, with surrogates as they are written. -/
@[grind] def scanString : List Char → Option (List ℕ × List Char)
  | [] => none
  | c :: s =>
    if c = '\"' then some ([], s)
    else if c = '\\' then
      match s with
      | [] => none
      | 'u' :: h₁ :: h₂ :: h₃ :: h₄ :: s => do
        let n ← [h₁, h₂, h₃, h₄].mapM hexValue
        let (u, s) ← scanString s
        some (n.foldl (fun n d => 16 * n + d) 0 :: u, s)
      | e :: s => do
        let n ← escaped e
        let (u, s) ← scanString s
        some (n :: u, s)
    else if c.toNat < 32 then none
    else (scanString s).map fun p => (c.toNat :: p.1, p.2)

/-- Surrogate pairs as one code point. -/
@[grind] def joinSurrogates : List ℕ → List ℕ
  | h :: l :: s =>
    if (0xD800 ≤ h ∧ h < 0xDC00) ∧ 0xDC00 ≤ l ∧ l < 0xE000 then
      (0x10000 + (h - 0xD800) * 0x400 + (l - 0xDC00)) :: joinSurrogates s
    else h :: joinSurrogates (l :: s)
  | s => s

/-- The digits of a whole number at the head; only zero begins with a zero. -/
def wholePart (s : List Char) : List Char :=
  if s.head? = some '0' then ['0'] else s.takeWhile Char.isDigit

/-- A point with digits at the head. -/
def fraction : List Char → List Char
  | '.' :: s => if s.takeWhile Char.isDigit = [] then [] else '.' :: s.takeWhile Char.isDigit
  | _ => []

/-- The sign of an exponent at the head. -/
def exponentSign (s : List Char) : List Char :=
  if s.head? = some '-' ∨ s.head? = some '+' then s.take 1 else []

/-- An exponent with digits at the head. -/
def exponent : List Char → List Char
  | [] => []
  | e :: s =>
    let digits := (s.drop (exponentSign s).length).takeWhile Char.isDigit
    if (e = 'e' ∨ e = 'E') ∧ digits ≠ [] then e :: (exponentSign s ++ digits) else []

/-- The number that decimal digits stand for. -/
def decimalNumber (digits : List Char) : ℕ :=
  digits.foldl (fun n c => 10 * n + (c.toNat - '0'.toNat)) 0

/-- The parts of a number as it is written. -/
structure NumberText where
  sign : List Char
  whole : List Char
  point : List Char
  power : List Char

/-- The longest number at the head; without whole part there is none. -/
def numberText (s : List Char) : NumberText :=
  let sign := if s.head? = some '-' then ['-'] else []
  let whole := wholePart (s.drop sign.length)
  let point := fraction (s.drop (sign.length + whole.length))
  ⟨sign, whole, point, exponent (s.drop (sign.length + whole.length + point.length))⟩

def NumberText.text (n : NumberText) : List Char := n.sign ++ n.whole ++ n.point ++ n.power

def NumberText.isFloat (n : NumberText) : Bool := n.point ≠ [] || n.power ≠ []

/-- The value of a number. -/
def NumberText.value (limits : Limits) (n : NumberText) : Except LoadsError Json :=
  if n.whole = [] then .error .decode
  else if n.isFloat then .ok (.float n.text)
  else if exceeds n.whole.length limits.digits then .error .digits
  else .ok (.int (if n.sign = [] then decimalNumber n.whole else -decimalNumber n.whole))

/-- `_match_number`. -/
def scanNumber (limits : Limits) (s : List Char) : Except LoadsError (Json × List Char) :=
  ((numberText s).value limits).map fun v => (v, s.drop (numberText s).text.length)

/-- The words that stand for values. -/
def words : List (List Char × Json) := [
  ("null".toList, .null), ("true".toList, .bool true), ("false".toList, .bool false),
  ("NaN".toList, .float "NaN".toList), ("Infinity".toList, .float "Infinity".toList),
  ("-Infinity".toList, .float "-Infinity".toList)]

/-- A value without parts. -/
def scanScalar (limits : Limits) (s : List Char) : Except LoadsError (Json × List Char) :=
  if s.head? = some '\"' then
    match scanString s.tail with
    | none => .error .decode
    | some (u, s) => .ok (.str (joinSurrogates u), s)
  else match words.find? (·.1.isPrefixOf s) with
    | some (word, v) => .ok (v, s.drop word.length)
    | none => scanNumber limits s

/-! ## Containers -/

inductive Container
  | array
  | object
deriving DecidableEq, Repr

namespace Container

def closing : Container → Char
  | array => ']'
  | object => '}'

/-- The container that begins at the head. -/
def opening : List Char → Option (Container × List Char)
  | [] => none
  | c :: s => if c = '[' then some (array, s) else if c = '{' then some (object, s) else none

/-- What stands before a value: a key in an object, nothing in an array. -/
def key : Container → List Char → Option (List ℕ × List Char)
  | array, s => some ([], s)
  | object, s =>
    if s.head? = some '\"' then
      (scanString s.tail).bind fun p =>
        if (skipBlanks p.2).head? = some ':' then
          some (joinSurrogates p.1, skipBlanks (skipBlanks p.2).tail)
        else none
    else none

/-- What stands after a value: the end of the container, or a comma before the next item. -/
def after (k : Container) (s : List Char) : Option (Bool × List Char) :=
  match skipBlanks s with
  | [] => none
  | c :: s => if c = k.closing then some (true, s) else if c = ',' then some (false, skipBlanks s) else none

end Container

/-- `d.get(k)`; `None` is the value `null`. -/
def getItem (d : List (List ℕ × Json)) (k : String) : Json :=
  ((d.find? (·.1 = codePoints k)).map Prod.snd).getD .null

/-- `d[k] = v`: a key keeps its place. -/
@[grind] def setItem (k : List ℕ) (v : Json) : List (List ℕ × Json) → List (List ℕ × Json)
  | [] => [(k, v)]
  | p :: d => if p.1 = k then (k, v) :: d else p :: setItem k v d

/-- The container of the items that have been read. -/
def Container.build : Container → List (List ℕ × Json) → Json
  | .array, l => .arr (l.map Prod.snd)
  | .object, l => .obj (l.foldl (fun d p => setItem p.1 p.2 d) [])

mutual

/-- `scan_once`, within `level` containers. -/
def scanOnce (limits : Limits) : ℕ → ℕ → List Char → Except LoadsError (Json × List Char)
  | 0, _, _ => .error .decode
  | n + 1, level, s =>
    match Container.opening s with
    | none => scanScalar limits s
    | some (k, s) =>
      if exceeds (level + 1) limits.depth then .error .recursion
      else if (skipBlanks s).head? = some k.closing then .ok (k.build [], (skipBlanks s).tail)
      else (scanItems limits n (level + 1) k (skipBlanks s)).map fun p => (k.build p.1, p.2)

/-- The items of a container, and its end. -/
@[grind] def scanItems (limits : Limits) :
    ℕ → ℕ → Container → List Char → Except LoadsError (List (List ℕ × Json) × List Char)
  | 0, _, _, _ => .error .decode
  | n + 1, level, k, s =>
    match k.key s with
    | none => .error .decode
    | some (key, s) =>
      (scanOnce limits n level s).bind fun v =>
        match k.after v.2 with
        | none => .error .decode
        | some (true, s) => .ok ([(key, v.1)], s)
        | some (false, s) => (scanItems limits n level k s).map fun p => ((key, v.1) :: p.1, p.2)

end

/-- `json.loads`; every step of the scanner but the entry of an item reads a character. -/
def loads (limits : Limits) (s : List Char) : Except LoadsError Json :=
  (scanOnce limits (2 * s.length + 1) 0 (skipBlanks s)).bind fun p =>
    if skipBlanks p.2 = [] then .ok p.1 else .error .decode

example : loads ⟨none, none⟩ "\x7b\"id\": 1, \"result\": [true, \"\\ud83d\\ude00\"], \"id\": -2.50e1 \x7d".toList =
    .ok (.obj [(codePoints "id", .float "-2.50e1".toList),
      (codePoints "result", .arr [.bool true, .str [0x1F600]])]) := by
  decide +kernel

end AgentCraft.Python
