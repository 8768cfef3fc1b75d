import AgentCraft.Python.Uuid
import Mathlib.Data.List.Sort
import Mathlib.Data.String.Basic

/-!
# JSON texts

`json.dumps` with compact separators and sorted keys, and without escapes for what is not ASCII, for
dictionaries of scalars and lists of strings. Each part of a text ends where it can be told from what
follows, so a text is the text of one dictionary.
-/

namespace AgentCraft.Python

variable {α β : Type*}

/-! ## Texts that can be told from what follows -/

/-- Nothing follows, or something that begins with a stop. -/
def StopsAt (stop : Char → Prop) (x : List Char) : Prop := ∀ c ∈ x.head?, stop c

/-- Before a stop, the texts can be told from each other and from what follows. -/
def Delimited (stop : Char → Prop) (enc : α → List Char) : Prop :=
  ∀ a b x y, StopsAt stop x → StopsAt stop y → enc a ++ x = enc b ++ y → a = b ∧ x = y

/-- Texts one after the other, with a separator between them and a closing character. -/
@[grind] def sequence (sep close : Char) (enc : α → List Char) : List α → List Char
  | [] => [close]
  | [a] => enc a ++ [close]
  | a :: b :: l => enc a ++ sep :: sequence sep close enc (b :: l)

/-- Texts one after the other, and a closing character. -/
@[grind] def terminated (close : Char) (enc : α → List Char) : List α → List Char
  | [] => [close]
  | a :: l => enc a ++ terminated close enc l

section Delimited

variable {stop stop' : Char → Prop} {enc : α → List Char} {sep close : Char}

@[simp] theorem stopsAt_nil : StopsAt stop [] := fun _ hc => by cases hc

@[simp] theorem stopsAt_cons {c : Char} {x : List Char} : StopsAt stop (c :: x) ↔ stop c := by
  simp [StopsAt]

theorem Delimited.mono (henc : Delimited stop' enc) (h : ∀ c, stop c → stop' c) :
    Delimited stop enc :=
  fun a b x y hx hy heq => henc a b x y (fun c hc => h c (hx c hc)) (fun c hc => h c (hy c hc)) heq

theorem Delimited.injective (henc : Delimited stop enc) : Function.Injective enc :=
  fun a b heq => (henc a b [] [] stopsAt_nil stopsAt_nil (by rw [heq])).1

/-- Texts that can be read back. -/
theorem Delimited.of_read (read : List Char → Option (α × List Char))
    (hread : ∀ a x, read (enc a ++ x) = some (a, x)) : Delimited stop enc := by
  intro a b x y _ _ heq
  have h := hread a x
  rw [heq, hread b y] at h
  cases h
  exact ⟨rfl, rfl⟩

/-- Texts of characters that are no stops. -/
theorem Delimited.of_forall (hinj : Function.Injective enc) (p : Char → Bool)
    (henc : ∀ a, ∀ c ∈ enc a, p c = true) : Delimited (fun c => p c = false) enc := by
  have htake (a : α) (x : List Char) (hx : StopsAt (fun c => p c = false) x) :
      (enc a ++ x).takeWhile p = enc a := by
    rw [List.takeWhile_append_of_pos (henc a)]
    cases x with
    | nil => simp
    | cons c x => simp [stopsAt_cons.mp hx]
  intro a b x y hx hy heq
  have h : enc a = enc b := by rw [← htake a x hx, heq, htake b y hy]
  rw [h] at heq
  exact ⟨hinj h, List.append_cancel_left heq⟩

/-- A text after a character of its own. -/
theorem Delimited.cons (c : Char) (henc : Delimited stop enc) :
    Delimited stop fun a => c :: enc a :=
  fun a b x y hx hy heq => henc a b x y hx hy (List.cons.inj heq).2

/-- One text after another. -/
theorem Delimited.pair {enc' : β → List Char} (henc : Delimited (fun _ => True) enc)
    (henc' : Delimited stop enc') : Delimited stop fun p : α × β => enc p.1 ++ enc' p.2 := by
  rintro ⟨a, b⟩ ⟨a', b'⟩ x y hx hy heq
  simp only [List.append_assoc] at heq
  obtain ⟨ha, heq⟩ := henc a a' _ _ (fun _ _ => trivial) (fun _ _ => trivial) heq
  obtain ⟨hb, hxy⟩ := henc' b b' x y hx hy heq
  exact ⟨by rw [ha, hb], hxy⟩

theorem Delimited.terminated (henc : Delimited (fun _ => True) enc)
    (hhead : ∀ a, ∃ c l, enc a = c :: l ∧ c ≠ close) :
    Delimited stop (terminated close enc) := by
  intro l
  induction l with
  | nil =>
    intro l' x y _ _ heq
    cases l' with
    | nil => exact ⟨rfl, (List.cons.inj heq).2⟩
    | cons b l' =>
      obtain ⟨c, r, hb, hne⟩ := hhead b
      simp only [Python.terminated, hb, List.cons_append, List.nil_append] at heq
      exact (hne (List.cons.inj heq).1.symm).elim
  | cons a l ih =>
    intro l' x y hx hy heq
    cases l' with
    | nil =>
      obtain ⟨c, r, ha, hne⟩ := hhead a
      simp only [Python.terminated, ha, List.cons_append, List.nil_append] at heq
      exact (hne (List.cons.inj heq).1).elim
    | cons b l' =>
      simp only [Python.terminated, List.append_assoc] at heq
      obtain ⟨hab, heq⟩ := henc a b _ _ (fun _ _ => trivial) (fun _ _ => trivial) heq
      obtain ⟨hl, hxy⟩ := ih l' x y hx hy heq
      exact ⟨by rw [hab, hl], hxy⟩

theorem Delimited.sequence (henc : Delimited (fun c => c = sep ∨ c = close) enc)
    (hhead : ∀ a, ∃ c l, enc a = c :: l ∧ c ≠ close) (hsep : sep ≠ close) :
    Delimited stop (sequence sep close enc) := by
  have hnil (a : α) (l : List α) (x y : List Char)
      (heq : close :: x = Python.sequence sep close enc (a :: l) ++ y) : False := by
    obtain ⟨c, r, ha, hne⟩ := hhead a
    cases l with
    | nil =>
      simp only [Python.sequence, ha, List.cons_append] at heq
      exact hne (List.cons.inj heq).1.symm
    | cons b l =>
      simp only [Python.sequence, ha, List.cons_append] at heq
      exact hne (List.cons.inj heq).1.symm
  -- what follows an item is the separator or the closing character
  have hitem (a : α) (l : List α) (x : List Char) : ∃ c r,
      Python.sequence sep close enc (a :: l) ++ x = enc a ++ c :: r ∧ (c = sep ∨ c = close) := by
    cases l with
    | nil => exact ⟨close, x, by simp [Python.sequence], .inr rfl⟩
    | cons b l => exact ⟨sep, _, by simp [Python.sequence]; rfl, .inl rfl⟩
  intro l
  induction l with
  | nil =>
    intro l' x y _ _ heq
    cases l' with
    | nil => exact ⟨rfl, (List.cons.inj heq).2⟩
    | cons b l' => exact (hnil b l' x y heq).elim
  | cons a l ih =>
    intro l' x y hx hy heq
    cases l' with
    | nil => exact (hnil a l y x heq.symm).elim
    | cons b l' =>
      obtain ⟨c, r, ha, hc⟩ := hitem a l x
      obtain ⟨c', r', hb, hc'⟩ := hitem b l' y
      have hab := (henc a b _ _ (stopsAt_cons.mpr hc) (stopsAt_cons.mpr hc')
        (ha.symm.trans (heq.trans hb))).1
      rw [← hab] at heq ⊢
      cases l with
      | nil =>
        cases l' with
        | nil =>
          simp only [Python.sequence, List.append_assoc] at heq
          exact ⟨rfl, (List.cons.inj (List.append_cancel_left heq)).2⟩
        | cons b' l' =>
          simp only [Python.sequence, List.append_assoc] at heq
          exact (hsep (List.cons.inj (List.append_cancel_left heq)).1.symm).elim
      | cons a' l =>
        cases l' with
        | nil =>
          simp only [Python.sequence, List.append_assoc] at heq
          exact (hsep (List.cons.inj (List.append_cancel_left heq)).1).elim
        | cons b' l' =>
          simp only [Python.sequence, List.append_assoc] at heq
          obtain ⟨hl, hxy⟩ := ih (b' :: l') x y hx hy (List.cons.inj (List.append_cancel_left heq)).2
          exact ⟨by rw [hl], hxy⟩

end Delimited

/-! ## Strings and numbers -/

/-- `ESCAPE_DCT` of `json.encoder`, and what `ESCAPE` leaves alone. -/
def escape (c : Char) : List Char :=
  if c = '\"' then ['\\', '\"']
  else if c = '\\' then ['\\', '\\']
  else if c = '\n' then ['\\', 'n']
  else if c = '\r' then ['\\', 'r']
  else if c = '\t' then ['\\', 't']
  else if c = Char.ofNat 8 then ['\\', 'b']
  else if c = Char.ofNat 12 then ['\\', 'f']
  else if c.toNat < 32 then
    ['\\', 'u', '0', '0', Nat.digitChar (c.toNat / 16), Nat.digitChar (c.toNat % 16)]
  else [c]

/-- Reads an escaped character back. -/
def unescape : List Char → Option (Char × List Char)
  | [] => none
  | c :: x =>
    if c = '\\' then
      match x with
      | 'u' :: '0' :: '0' :: h :: l :: x =>
        some (Char.ofNat (16 * (hexValue h).getD 0 + (hexValue l).getD 0), x)
      | 'n' :: x => some ('\n', x)
      | 'r' :: x => some ('\r', x)
      | 't' :: x => some ('\t', x)
      | 'b' :: x => some (Char.ofNat 8, x)
      | 'f' :: x => some (Char.ofNat 12, x)
      | c :: x => some (c, x)
      | [] => none
    else some (c, x)

theorem hexValue_digits :
    ∀ n < 32, 16 * (hexValue (Nat.digitChar (n / 16))).getD 0 +
      (hexValue (Nat.digitChar (n % 16))).getD 0 = n := by
  decide

theorem unescape_escape (c : Char) (x : List Char) : unescape (escape c ++ x) = some (c, x) := by
  unfold escape
  split_ifs with hquote hbackslash hn hr ht hb hf hlt
  · rw [hquote]; rfl
  · rw [hbackslash]; rfl
  · rw [hn]; rfl
  · rw [hr]; rfl
  · rw [ht]; rfl
  · rw [hb]; rfl
  · rw [hf]; rfl
  · have hread : unescape (['\\', 'u', '0', '0', Nat.digitChar (c.toNat / 16),
        Nat.digitChar (c.toNat % 16)] ++ x) =
        some (Char.ofNat (16 * (hexValue (Nat.digitChar (c.toNat / 16))).getD 0 +
          (hexValue (Nat.digitChar (c.toNat % 16))).getD 0), x) := rfl
    rw [hread, hexValue_digits _ hlt, Char.ofNat_toNat]
  · simp only [List.cons_append, List.nil_append, unescape, if_neg hbackslash]

theorem escape_head (c : Char) : ∃ a l, escape c = a :: l ∧ a ≠ '\"' := by
  unfold escape
  split_ifs with hquote
  all_goals first
    | exact ⟨_, _, rfl, by decide⟩
    | exact ⟨_, _, rfl, hquote⟩

/-- `py_encode_basestring`. -/
def stringText (s : String) : List Char := '\"' :: terminated '\"' escape s.toList

/-- `int.__repr__`. -/
def intText : ℤ → List Char
  | .ofNat n => Nat.toDigits 10 n
  | .negSucc n => '-' :: Nat.toDigits 10 (n + 1)

/-- The characters of a number. -/
def isNumeral (c : Char) : Bool := c.isDigit || c = '-'

section Scalars

variable {stop : Char → Prop}

theorem delimited_stringText : Delimited stop stringText := by
  intro s s' x y hx hy heq
  obtain ⟨hs, hxy⟩ := ((Delimited.of_read unescape unescape_escape).terminated escape_head).cons '\"'
    s.toList s'.toList x y hx hy heq
  exact ⟨String.toList_injective hs, hxy⟩

theorem isNumeral_of_mem_toDigits {n : ℕ} {c : Char} (hc : c ∈ Nat.toDigits 10 n) :
    c.isDigit = true :=
  Nat.isDigit_of_mem_toDigits (by decide) (by decide) hc

theorem toDigits_injective : Function.Injective (Nat.toDigits 10) := fun m n heq => by
  rw [← Nat.ofDigitChars_ten_toDigits (n := m), heq, Nat.ofDigitChars_ten_toDigits]

theorem isNumeral_of_mem (i : ℤ) : ∀ c ∈ intText i, isNumeral c = true := by
  intro c hc
  cases i with
  | ofNat n => simp [isNumeral, isNumeral_of_mem_toDigits hc]
  | negSucc n =>
    rcases List.mem_cons.mp hc with rfl | hc
    · rfl
    · simp [isNumeral, isNumeral_of_mem_toDigits hc]

theorem intText_injective : Function.Injective intText := by
  intro i j heq
  have hminus (m n : ℕ) (heq : Nat.toDigits 10 m = '-' :: Nat.toDigits 10 n) : False := by
    have h := isNumeral_of_mem_toDigits (heq ▸ List.mem_cons_self)
    cases h
  cases i with
  | ofNat m =>
    cases j with
    | ofNat n => rw [toDigits_injective heq]
    | negSucc n => exact (hminus m (n + 1) heq).elim
  | negSucc m =>
    cases j with
    | ofNat n => exact (hminus n (m + 1) heq.symm).elim
    | negSucc n => rw [Nat.succ_injective (toDigits_injective (List.cons.inj heq).2)]

theorem delimited_intText : Delimited (fun c => isNumeral c = false) intText :=
  .of_forall intText_injective isNumeral isNumeral_of_mem

theorem intText_head (i : ℤ) : ∃ c l, intText i = c :: l ∧ isNumeral c = true := by
  cases hi : intText i with
  | nil =>
    cases i with
    | ofNat n => exact (Nat.toDigits_ne_nil hi).elim
    | negSucc n => cases hi
  | cons c l => exact ⟨c, l, rfl, isNumeral_of_mem i c (hi ▸ List.mem_cons_self)⟩

end Scalars

/-! ## Dictionaries -/

/-- The values in a dictionary. -/
inductive JsonValue
  | null
  | bool (b : Bool)
  | int (i : ℤ)
  | str (s : String)
  | strs (l : List String)
deriving DecidableEq, Repr

/-- A dictionary, as its items. -/
abbrev JsonDict := List (String × JsonValue)

def JsonValue.text : JsonValue → List Char
  | .null => "null".toList
  | .bool true => "true".toList
  | .bool false => "false".toList
  | .int i => intText i
  | .str s => stringText s
  | .strs l => '[' :: sequence ',' ']' stringText l

/-- `"key":value`. -/
def itemText (p : String × JsonValue) : List Char := stringText p.1 ++ ':' :: p.2.text

def dictText (d : JsonDict) : List Char := '{' :: sequence ',' '}' itemText d

/-- `sorted(d.items())`, for `sort_keys`. -/
def sortKeys (d : JsonDict) : JsonDict := d.insertionSort fun p q => p.1 ≤ q.1

/-- `json.dumps(d, sort_keys=True, separators=(",", ":"), ensure_ascii=False)`. -/
def dumps (d : JsonDict) : String := String.ofList (dictText (sortKeys d))

/-- The first character of a text tells what kind of value it is. -/
def JsonValue.kind : JsonValue → Char
  | .null => 'n'
  | .bool true => 't'
  | .bool false => 'f'
  | .int _ => '-'
  | .str _ => '\"'
  | .strs _ => '['

section Dictionaries

variable {stop : Char → Prop}

theorem JsonValue.text_head (v : JsonValue) :
    ∃ c l, v.text = c :: l ∧ (if isNumeral c then '-' else c) = v.kind := by
  cases v with
  | null => exact ⟨_, _, rfl, rfl⟩
  | bool b => cases b <;> exact ⟨_, _, rfl, rfl⟩
  | int i =>
    obtain ⟨c, l, hi, hc⟩ := intText_head i
    exact ⟨c, l, hi, if_pos hc⟩
  | str s => exact ⟨_, _, rfl, rfl⟩
  | strs l => exact ⟨_, _, rfl, rfl⟩

theorem delimited_strs : Delimited stop fun l => '[' :: sequence ',' ']' stringText l :=
  (delimited_stringText.sequence (fun _ => ⟨_, _, rfl, by decide⟩) (by decide)).cons '['

theorem JsonValue.delimited_text : Delimited (fun c => isNumeral c = false) JsonValue.text := by
  intro v v' x y hx hy heq
  have hkind : v.kind = v'.kind := by
    obtain ⟨c, l, hv, hc⟩ := v.text_head
    obtain ⟨c', l', hv', hc'⟩ := v'.text_head
    rw [hv, hv'] at heq
    rw [← hc, ← hc', (List.cons.inj heq).1]
  rcases v with _ | ⟨_ | _⟩ | i | s | l <;> rcases v' with _ | ⟨_ | _⟩ | j | s' | l' <;>
    simp [JsonValue.kind] at hkind
  · exact ⟨rfl, List.append_cancel_left heq⟩
  · exact ⟨rfl, List.append_cancel_left heq⟩
  · exact ⟨rfl, List.append_cancel_left heq⟩
  · obtain ⟨hij, hxy⟩ := delimited_intText i j x y hx hy heq
    exact ⟨by rw [hij], hxy⟩
  · obtain ⟨hs, hxy⟩ := delimited_stringText s s' x y hx hy heq
    exact ⟨by rw [hs], hxy⟩
  · obtain ⟨hl, hxy⟩ := delimited_strs l l' x y hx hy heq
    exact ⟨by rw [hl], hxy⟩

theorem delimited_itemText : Delimited (fun c => isNumeral c = false) itemText :=
  delimited_stringText.pair (JsonValue.delimited_text.cons ':')

theorem delimited_dictText : Delimited stop dictText :=
  ((delimited_itemText.mono (by rintro c (rfl | rfl) <;> rfl)).sequence
    (fun _ => ⟨_, _, rfl, by decide⟩) (by decide)).cons '{'

/-- A text is the text of one dictionary, up to the order of its items. -/
theorem dumps_eq_iff {d d' : JsonDict} : dumps d = dumps d' ↔ sortKeys d = sortKeys d' := by
  refine ⟨fun h => ?_, fun h => by rw [dumps, dumps, h]⟩
  have hdict : Delimited (fun _ => True) dictText := delimited_dictText
  exact hdict.injective (String.ofList_injective h)

end Dictionaries

example : dumps [("reason", .str "a\n"), ("models", .strs ["x", "y"]), ("enabled", .bool true)] =
    "\x7b\"enabled\":true,\"models\":[\"x\",\"y\"],\"reason\":\"a\\n\"\x7d" := by
  decide

end AgentCraft.Python
