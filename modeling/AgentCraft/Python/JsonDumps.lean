import AgentCraft.Python.Json
import AgentCraft.Python.JsonTexts

/-!
# Writing JSON texts

`json.dumps` for the values that `json.loads` reads. A text of Python is a list of code points, among which
there may be halves of surrogate pairs; those cannot be encoded as UTF-8. A float is given by its `repr`.

A text that can be encoded is read back as the value that it was written for (`loads_text`).
-/

namespace AgentCraft.Python

/-- The options of `json.dumps`: `ensure_ascii`, and whether the separators are followed by a space. -/
structure Layout where
  ascii : Bool
  spaced : Bool
deriving DecidableEq, Repr

/-- The item separator. -/
def Layout.comma (o : Layout) : List ℕ := if o.spaced then [0x2C, 0x20] else [0x2C]

/-- The key separator. -/
def Layout.colon (o : Layout) : List ℕ := if o.spaced then [0x3A, 0x20] else [0x3A]

/-! ## Strings -/

/-- The letter of `ESCAPE_DCT` after a backslash. -/
def shortEscape (n : ℕ) : Option Char :=
  if n = 0x22 then some '\"'
  else if n = 0x5C then some '\\'
  else if n = 10 then some 'n'
  else if n = 13 then some 'r'
  else if n = 9 then some 't'
  else if n = 8 then some 'b'
  else if n = 12 then some 'f'
  else none

/-- `'\\u{0:04x}'.format(n)`. -/
def unitEscape (n : ℕ) : List ℕ :=
  [0x5C, 0x75, (Nat.digitChar (n / 4096)).toNat, (Nat.digitChar (n / 256 % 16)).toNat,
    (Nat.digitChar (n / 16 % 16)).toNat, (Nat.digitChar (n % 16)).toNat]

/-- The UTF-16 code units of a code point. -/
def utf16 (n : ℕ) : List ℕ :=
  if n < 0x10000 then [n] else [0xD800 + (n - 0x10000) / 0x400, 0xDC00 + (n - 0x10000) % 0x400]

/-- A code point as `py_encode_basestring` writes it, or `py_encode_basestring_ascii`. -/
def escapePoint (ascii : Bool) (n : ℕ) : List ℕ :=
  match shortEscape n with
  | some c => [0x5C, c.toNat]
  | none =>
    if n < 0x20 then unitEscape n
    else if ascii ∧ 0x7E < n then (utf16 n).flatMap unitEscape
    else [n]

/-- A string between its quotes. -/
def quoted (ascii : Bool) (u : List ℕ) : List ℕ := 0x22 :: (u.flatMap (escapePoint ascii) ++ [0x22])

/-! ## Values -/

namespace Json

mutual

/-- `json.dumps(v)`. -/
def text (o : Layout) : Json → List ℕ
  | null => codePoints "null"
  | bool true => codePoints "true"
  | bool false => codePoints "false"
  | int i => (intText i).map Char.toNat
  | float literal => literal.map Char.toNat
  | str u => quoted o.ascii u
  | arr l => 0x5B :: (o.comma.intercalate (itemTexts o l) ++ [0x5D])
  | obj l => 0x7B :: (o.comma.intercalate (fieldTexts o l) ++ [0x7D])

@[grind] def itemTexts (o : Layout) : List Json → List (List ℕ)
  | [] => []
  | v :: l => text o v :: itemTexts o l

@[grind] def fieldTexts (o : Layout) : List (List ℕ × Json) → List (List ℕ)
  | [] => []
  | (k, v) :: l => (quoted o.ascii k ++ (o.colon ++ text o v)) :: fieldTexts o l

end

/-- What `float.__repr__` writes, and the names that `json.dumps` has for what is not finite. -/
def isFloatRepr (literal : List Char) : Bool :=
  words.contains (literal, .float literal) ||
    ((numberText literal).whole ≠ [] && (numberText literal).isFloat && (numberText literal).text == literal)

mutual

/-- The value of some Python object: its floats are written as `repr` writes them, and no dictionary has a key
twice. -/
def isValue : Json → Bool
  | float literal => isFloatRepr literal
  | arr l => itemsAreValues l
  | obj l => decide (l.map Prod.fst).Nodup && fieldsAreValues l
  | _ => true

@[grind] def itemsAreValues : List Json → Bool
  | [] => true
  | v :: l => isValue v && itemsAreValues l

@[grind] def fieldsAreValues : List (List ℕ × Json) → Bool
  | [] => true
  | (_, v) :: l => isValue v && fieldsAreValues l

end

mutual

/-- All strings of a value are such, and the keys of its dictionaries. -/
def allStrings (p : List ℕ → Bool) : Json → Bool
  | str u => p u
  | arr l => allItems p l
  | obj l => allFields p l
  | _ => true

@[grind] def allItems (p : List ℕ → Bool) : List Json → Bool
  | [] => true
  | v :: l => allStrings p v && allItems p l

@[grind] def allFields (p : List ℕ → Bool) : List (List ℕ × Json) → Bool
  | [] => true
  | (k, v) :: l => p k && allStrings p v && allFields p l

end

end Json

/-! ## Encoding -/

/-- `text.encode("utf-8")` does not raise. -/
def isEncodable (t : List ℕ) : Bool := t.all fun n => decide n.isValidChar

/-- The characters of a text that can be encoded. -/
def chars (t : List ℕ) : List Char := t.map Char.ofNat

@[simp]
theorem chars_append (t t' : List ℕ) : chars (t ++ t') = chars t ++ chars t' := List.map_append

@[simp]
theorem chars_cons (n : ℕ) (t : List ℕ) : chars (n :: t) = Char.ofNat n :: chars t := rfl

@[simp]
theorem chars_nil : chars [] = [] := rfl

/-- The text of characters. -/
theorem chars_map_toNat (s : List Char) : chars (s.map Char.toNat) = s := by
  rw [chars, List.map_map]
  exact (List.map_congr_left fun c _ => Char.ofNat_toNat c).trans (List.map_id s)

theorem isEncodable_append (t t' : List ℕ) : isEncodable (t ++ t') = (isEncodable t && isEncodable t') :=
  List.all_append

/-- A text of characters can be encoded. -/
theorem isEncodable_map_toNat (s : List Char) : isEncodable (s.map Char.toNat) = true := by
  rw [isEncodable, List.all_map, List.all_eq_true]
  exact fun c _ => decide_eq_true c.valid

theorem isEncodable_codePoints (s : String) : isEncodable (codePoints s) = true := isEncodable_map_toNat _

theorem toNat_ofNat {n : ℕ} (hn : n.isValidChar) : (Char.ofNat n).toNat = n := by
  rw [Char.ofNat, dif_pos hn]
  rfl

/-- A letter after a backslash is read as what it stands for. -/
theorem shortEscape_eq_some {n : ℕ} {c : Char} (h : shortEscape n = some c) :
    n < 128 ∧ c.toNat < 128 ∧ c ≠ 'u' ∧ escaped c = some n := by
  unfold shortEscape at h
  split_ifs at h with hquote hbackslash hn hr ht hb hf
  all_goals
    cases h
    subst_vars
    decide

theorem digitChar_spec : ∀ d < 16, (Nat.digitChar d).toNat < 128 ∧ hexValue (Nat.digitChar d) = some d := by
  decide

theorem isValidChar_of_lt {n : ℕ} (h : n < 128) : n.isValidChar := .inl (by omega)

theorem isEncodable_unitEscape {n : ℕ} (h : n < 0x10000) : isEncodable (unitEscape n) = true := by
  have hdigit (d : ℕ) (hd : d < 16) : (Nat.digitChar d).toNat.isValidChar :=
    isValidChar_of_lt (digitChar_spec d hd).1
  simp only [isEncodable, unitEscape, List.all_cons, List.all_nil, Bool.and_true, Bool.and_eq_true,
    decide_eq_true_eq]
  exact ⟨by decide, by decide, hdigit _ (by omega), hdigit _ (by omega), hdigit _ (by omega), hdigit _ (by omega)⟩

/-- A code point is escaped, or is written if it can be encoded. -/
theorem isEncodable_escapePoint (n : ℕ) : isEncodable (escapePoint false n) = decide n.isValidChar := by
  unfold escapePoint
  split
  · next c hc =>
    obtain ⟨hn, hc, -, -⟩ := shortEscape_eq_some hc
    have hvalid := isValidChar_of_lt hn
    simp only [isEncodable, List.all_cons, List.all_nil, decide_eq_true (isValidChar_of_lt hc), decide_eq_true hvalid]
    rfl
  · split
    · next hn =>
      rw [isEncodable_unitEscape (by omega), decide_eq_true (isValidChar_of_lt (by omega))]
    · rw [if_neg (by simp)]
      simp [isEncodable]

/-- A text between two characters of ASCII. -/
theorem isEncodable_enclosed {a b : ℕ} (ha : a < 128) (hb : b < 128) (t : List ℕ) :
    isEncodable (a :: (t ++ [b])) = isEncodable t := by
  have hsingle (n : ℕ) (hn : n < 128) : isEncodable [n] = true :=
    (Bool.and_true _).trans (decide_eq_true (isValidChar_of_lt hn))
  rw [← List.singleton_append, isEncodable_append, isEncodable_append, hsingle a ha, hsingle b hb, Bool.true_and,
    Bool.and_true]

theorem isEncodable_quoted (u : List ℕ) : isEncodable (quoted false u) = isEncodable u := by
  have hflat : isEncodable (u.flatMap (escapePoint false)) = isEncodable u := by
    induction u with
    | nil => rfl
    | cons n u ih =>
      rw [List.flatMap_cons, isEncodable_append, isEncodable_escapePoint, ih]
      rfl
  rw [quoted, isEncodable_enclosed (by decide) (by decide), hflat]

theorem isEncodable_intercalate {sep : List ℕ} (hsep : isEncodable sep = true) (ts : List (List ℕ)) :
    isEncodable (sep.intercalate ts) = ts.all isEncodable := by
  induction ts with
  | nil => rfl
  | cons t ts ih =>
    cases ts with
    | nil => simp
    | cons t' ts =>
      rw [List.intercalate_cons_cons, isEncodable_append, isEncodable_append, hsep, ih, List.all_cons, Bool.and_true]
      rfl

namespace Json

mutual

/-- A text can be encoded if all strings can. -/
theorem isEncodable_text (spaced : Bool) (v : Json) :
    isEncodable (v.text ⟨false, spaced⟩) = v.allStrings isEncodable := by
  have hcomma : isEncodable (Layout.comma ⟨false, spaced⟩) = true := by cases spaced <;> decide
  cases v with
  | null => rfl
  | bool b => cases b <;> rfl
  | int i => exact isEncodable_map_toNat _
  | float literal => exact isEncodable_map_toNat _
  | str u => exact isEncodable_quoted u
  | arr l =>
    rw [text, isEncodable_enclosed (by decide) (by decide), isEncodable_intercalate hcomma, isEncodable_itemTexts,
      allStrings]
  | obj l =>
    rw [text, isEncodable_enclosed (by decide) (by decide), isEncodable_intercalate hcomma, isEncodable_fieldTexts,
      allStrings]

theorem isEncodable_itemTexts (spaced : Bool) (l : List Json) :
    (itemTexts ⟨false, spaced⟩ l).all isEncodable = allItems isEncodable l := by
  cases l with
  | nil => rfl
  | cons v l =>
    rw [itemTexts, List.all_cons, isEncodable_text spaced v, isEncodable_itemTexts spaced l, allItems]

theorem isEncodable_fieldTexts (spaced : Bool) (l : List (List ℕ × Json)) :
    (fieldTexts ⟨false, spaced⟩ l).all isEncodable = allFields isEncodable l := by
  have hcolon : isEncodable (Layout.colon ⟨false, spaced⟩) = true := by cases spaced <;> decide
  cases l with
  | nil => rfl
  | cons p l =>
    obtain ⟨k, v⟩ := p
    rw [fieldTexts, List.all_cons, isEncodable_append, isEncodable_append, hcolon, isEncodable_quoted,
      isEncodable_text spaced v, isEncodable_fieldTexts spaced l, allFields, Bool.true_and]

end

end Json

/-! ## Reading strings back -/

/-- What is read for a code point, before surrogate pairs are joined. -/
def written (ascii : Bool) (n : ℕ) : List ℕ := if ascii then utf16 n else [n]

/-- A code point that can be written and encoded. -/
def isWritable (ascii : Bool) (n : ℕ) : Bool := if ascii then n < 0x110000 else decide n.isValidChar

theorem scanString_unitEscape {n : ℕ} (h : n < 0x10000) (x : List Char) :
    scanString (chars (unitEscape n) ++ x) = (scanString x).map fun p => (n :: p.1, p.2) := by
  have hdigit (d : ℕ) (hd : d < 16) : hexValue (Nat.digitChar d) = some d := (digitChar_spec d hd).2
  have hmap : [Nat.digitChar (n / 4096), Nat.digitChar (n / 256 % 16), Nat.digitChar (n / 16 % 16),
      Nat.digitChar (n % 16)].mapM hexValue = some [n / 4096, n / 256 % 16, n / 16 % 16, n % 16] := by
    simp [hdigit (n / 4096) (by omega), hdigit (n / 256 % 16) (by omega), hdigit (n / 16 % 16) (by omega),
      hdigit (n % 16) (by omega)]
  have hvalue : [n / 4096, n / 256 % 16, n / 16 % 16, n % 16].foldl (fun m d => 16 * m + d) 0 = n := by
    simp only [List.foldl_cons, List.foldl_nil]
    omega
  have hshape : chars (unitEscape n) ++ x = '\\' :: 'u' :: Nat.digitChar (n / 4096) ::
      Nat.digitChar (n / 256 % 16) :: Nat.digitChar (n / 16 % 16) :: Nat.digitChar (n % 16) :: x := by
    simp only [unitEscape, chars_cons, chars_nil, Char.ofNat_toNat]
    rfl
  rw [hshape, scanString_unit, hmap, Option.bind_some, hvalue]
  cases scanString x <;> rfl

theorem utf16_of_lt {n : ℕ} (h : n < 0x10000) : utf16 n = [n] := by
  rw [utf16, if_pos h]

theorem written_true (n : ℕ) : written true n = utf16 n := by simp only [written, if_true]

theorem written_of_lt {n : ℕ} (h : n < 0x10000) (ascii : Bool) : written ascii n = [n] := by
  cases ascii with
  | false => rfl
  | true => rw [written_true, utf16_of_lt h]

/-- A character that is not escaped. -/
theorem scanString_plain {n : ℕ} (hvalid : n.isValidChar) (hshort : shortEscape n = none) (hge : ¬ n < 0x20)
    (x : List Char) : scanString (chars [n] ++ x) = (scanString x).map fun p => (n :: p.1, p.2) := by
  have hquote : Char.ofNat n ≠ '\"' := fun h => by
    have hn := (toNat_ofNat hvalid).symm.trans (congrArg Char.toNat h)
    rw [hn] at hshort
    cases hshort
  have hbackslash : Char.ofNat n ≠ '\\' := fun h => by
    have hn := (toNat_ofNat hvalid).symm.trans (congrArg Char.toNat h)
    rw [hn] at hshort
    cases hshort
  refine (scanString_char hquote hbackslash x).trans ?_
  rw [toNat_ofNat hvalid, if_neg hge]

/-- A code point above ASCII, by its code units. -/
theorem scanString_utf16 {n : ℕ} (hn : n < 0x110000) (x : List Char) :
    scanString (chars ((utf16 n).flatMap unitEscape) ++ x) =
      (scanString x).map fun p => (utf16 n ++ p.1, p.2) := by
  unfold utf16
  split
  · next hlt =>
    rw [List.flatMap_singleton, scanString_unitEscape hlt]
    rfl
  · have hhigh : 0xD800 + (n - 0x10000) / 0x400 < 0x10000 := by omega
    have hlow : 0xDC00 + (n - 0x10000) % 0x400 < 0x10000 := by omega
    rw [List.flatMap_cons, List.flatMap_singleton, chars_append, List.append_assoc,
      scanString_unitEscape hhigh, scanString_unitEscape hlow, Option.map_map]
    rfl

/-- An escaped code point is read back. -/
theorem scanString_escapePoint {ascii : Bool} {n : ℕ} (hn : isWritable ascii n = true) (x : List Char) :
    scanString (chars (escapePoint ascii n) ++ x) =
      (scanString x).map fun p => (written ascii n ++ p.1, p.2) := by
  unfold escapePoint
  split
  · next c hc =>
    obtain ⟨hlt, -, hu, hread⟩ := shortEscape_eq_some hc
    have hshape : chars [0x5C, c.toNat] ++ x = '\\' :: c :: x := by
      rw [chars_cons, chars_cons, chars_nil, Char.ofNat_toNat]
      rfl
    rw [written_of_lt (hlt.trans (by decide)), hshape, scanString_escape hu, hread, Option.bind_some]
    cases scanString x <;> rfl
  · next hshort =>
    split
    · next hlt =>
      have hunit : n < 0x10000 := hlt.trans (by decide)
      rw [scanString_unitEscape hunit, written_of_lt hunit]
      rfl
    · next hge =>
      split
      · next hascii =>
        obtain ⟨rfl, hascii⟩ := hascii
        have hn : n < 0x110000 := by simpa [isWritable] using hn
        rw [written_true]
        exact scanString_utf16 hn x
      · next hplain =>
        cases ascii with
        | false =>
          have hvalid : n.isValidChar := by simpa [isWritable] using hn
          exact scanString_plain hvalid hshort hge x
        | true =>
          have hle : n ≤ 0x7E := by simpa using hplain
          have hlt : n < 128 := Nat.lt_of_le_of_lt hle (by decide)
          rw [scanString_plain (isValidChar_of_lt hlt) hshort hge, written_of_lt (hlt.trans (by decide))]
          rfl

/-- A string is read back up to its quote. -/
theorem scanString_quoted {ascii : Bool} {u : List ℕ} (hu : u.all (isWritable ascii) = true) (x : List Char) :
    scanString (chars (u.flatMap (escapePoint ascii)) ++ '\"' :: x) = some (u.flatMap (written ascii), x) := by
  induction u with
  | nil => exact scanString_quote x
  | cons n u ih =>
    rw [List.all_cons, Bool.and_eq_true] at hu
    rw [List.flatMap_cons, chars_append, List.append_assoc, scanString_escapePoint hu.1, ih hu.2,
      List.flatMap_cons]
    rfl

/-- Without halves of surrogate pairs there is nothing to join. -/
theorem joinSurrogates_of_encodable {u : List ℕ} (hu : isEncodable u = true) : joinSurrogates u = u := by
  induction u with
  | nil => rfl
  | cons h u ih =>
    rw [isEncodable, List.all_cons, Bool.and_eq_true, decide_eq_true_eq] at hu
    cases u with
    | nil => rfl
    | cons l u =>
      have hnot : ¬ ((0xD800 ≤ h ∧ h < 0xDC00) ∧ 0xDC00 ≤ l ∧ l < 0xE000) := by
        have hvalid := hu.1
        unfold Nat.isValidChar at hvalid
        omega
      rw [joinSurrogates, if_neg hnot, ih hu.2]

/-! ## Reading values back -/

/-- The whole text is that of the value. -/
def Reads (t : List Char) (v : Json) : Prop :=
  ∀ n level, 2 * t.length + 1 ≤ n → scanOnce ⟨none, none⟩ n level t = .ok (v, [])

/-- The whole text is that of the items of a container, with its end. -/
def ReadsItems (k : Container) (t : List Char) (l : List (List ℕ × Json)) : Prop :=
  ∀ n level, 2 * t.length + 2 ≤ n → scanItems ⟨none, none⟩ n level k t = .ok (l, [])

/-- The whole text is that of an item, with its key. -/
def ReadsItem (k : Container) (t : List Char) (p : List ℕ × Json) : Prop :=
  ∃ s x, t = s ++ x ∧ Reads x p.2 ∧
    ∀ y, (∀ c ∈ y.head?, isBlank c = false) → k.key (s ++ y) = some (p.1, y)

section Reading

variable {t : List Char} {v : Json} {k : Container} {l : List (List ℕ × Json)} {p : List ℕ × Json}

theorem Reads.starts (h : Reads t v) : StartsValue t := by
  obtain ⟨c, hc, hstarts, -⟩ := (scan_frame _ _).1 _ _ _ _ (h _ 0 le_rfl)
  rw [List.append_nil] at hc
  rwa [hc]

/-- A value is read before anything that does not go on with a number. -/
theorem Reads.append (h : Reads t v) {y : List Char} (hy : EndsNumber y) {n level : ℕ}
    (hn : 2 * t.length + 1 ≤ n) : scanOnce ⟨none, none⟩ n level (t ++ y) = .ok (v, y) := by
  obtain ⟨c, hc, -, -, hread⟩ := (scan_frame _ _).1 _ _ _ _ (h n level hn)
  rw [List.append_nil] at hc
  rw [hc]
  exact hread y hy

theorem ReadsItems.starts (h : ReadsItems k t l) : StartsValue t := by
  obtain ⟨c, hc, hstarts, -⟩ := (scan_frame _ _).2 _ _ _ _ _ (h _ 0 le_rfl)
  rw [List.append_nil] at hc
  rwa [hc]

theorem opening_eq_none {c : Char} (hbracket : c ≠ '[') (hbrace : c ≠ '\x7b') (s : List Char) :
    Container.opening (c :: s) = none := by
  rw [Container.opening, if_neg hbracket, if_neg hbrace]

/-- A value without parts. -/
theorem reads_of_scanScalar (hopening : Container.opening t = none)
    (h : scanScalar ⟨none, none⟩ t = .ok (v, [])) : Reads t v := by
  intro n level hn
  obtain ⟨n, rfl⟩ := Nat.exists_eq_add_one.mpr (Nat.zero_lt_of_lt hn)
  rw [scanOnce, hopening]
  exact h

theorem reads_word {w : List Char × Json} (hw : w ∈ words) : Reads w.1 w.2 := by
  obtain ⟨hfind, hhead, -⟩ := find_word w hw []
  rw [List.append_nil] at hfind hhead
  refine reads_of_scanScalar ?_ ?_
  · simp only [words, List.mem_cons, List.not_mem_nil, or_false] at hw
    rcases hw with rfl | rfl | rfl | rfl | rfl | rfl <;> exact opening_eq_none (by decide) (by decide) _
  · rw [scanScalar, if_neg hhead, hfind]
    simp only [List.drop_length]

/-- A number. -/
theorem reads_number {n : NumberText} (hn : n.WellFormed) (hv : n.value ⟨none, none⟩ = .ok v) :
    Reads n.text v := by
  have hwhole : numberText n.text = n := by
    have h := numberText_append hn (y := []) (fun c hc => by cases hc)
    rwa [List.append_nil] at h
  obtain ⟨d, x, hd, htext⟩ := hn.head
  have hnumber : scanNumber ⟨none, none⟩ n.text = .ok (v, []) := by
    rw [scanNumber, hwhole, hv, List.drop_length]
    rfl
  have hne (c : Char) (hc : c.isDigit = false) : d ≠ c := by
    rintro rfl
    rw [hd] at hc
    cases hc
  have hhead : n.text.head? ≠ some '\"' ∧ Container.opening n.text = none ∧
      words.find? (·.1.isPrefixOf n.text) = none := by
    obtain ⟨hfind, hfindMinus⟩ := find_word_digit hd x
    rcases htext with htext | htext
    · rw [htext]
      exact ⟨fun h => hne '\"' rfl (Option.some.inj h), opening_eq_none (hne '[' rfl) (hne '\x7b' rfl) _, hfind⟩
    · rw [htext]
      exact ⟨fun h => absurd (Option.some.inj h) (by decide), opening_eq_none (by decide) (by decide) _,
        hfindMinus⟩
  refine reads_of_scanScalar hhead.2.1 ?_
  rw [scanScalar, if_neg hhead.1, hhead.2.2]
  exact hnumber

/-- A string. -/
theorem reads_quoted {ascii : Bool} {u : List ℕ} (hu : u.all (isWritable ascii) = true) :
    Reads (chars (quoted ascii u)) (.str (joinSurrogates (u.flatMap (written ascii)))) := by
  have hshape : chars (quoted ascii u) = '\"' :: (chars (u.flatMap (escapePoint ascii)) ++ ['\"']) := by
    rw [quoted, chars_cons, chars_append]
    rfl
  rw [hshape]
  refine reads_of_scanScalar (opening_eq_none (by decide) (by decide) _) ?_
  rw [scanScalar, if_pos List.head?_cons, List.tail_cons, scanString_quoted hu]

/-- The last item of a container. -/
theorem readsItems_singleton (h : ReadsItem k t p) : ReadsItems k (t ++ [k.closing]) [p] := by
  intro n level hn
  obtain ⟨n, rfl⟩ := Nat.exists_eq_add_one.mpr (Nat.zero_lt_of_lt hn)
  obtain ⟨s, x, rfl, hx, hkey⟩ := h
  have hclosing : isGraphic k.closing = true := by cases k <;> decide
  have hafter : k.after [k.closing] = some (true, []) := by cases k <;> rfl
  have hends : EndsNumber [k.closing] := Container.endsNumber_cons (by cases k <;> simp [Container.closing]) []
  rw [List.append_assoc, scanItems, hkey _ (hx.starts.append _).not_isBlank]
  dsimp only
  simp only [List.length_append] at hn
  rw [hx.append hends (by omega)]
  simp only [Except.bind, hafter]

/-- An item before others. -/
theorem readsItems_cons {b : List Char} (h : ReadsItem k t p) (hb : ∀ c ∈ b, isBlank c = true) {t' : List Char}
    (hl : ReadsItems k t' l) : ReadsItems k (t ++ (',' :: b ++ t')) (p :: l) := by
  intro n level hn
  obtain ⟨n, rfl⟩ := Nat.exists_eq_add_one.mpr (Nat.zero_lt_of_lt hn)
  obtain ⟨s, x, rfl, hx, hkey⟩ := h
  have hskip : skipBlanks (b ++ t') = t' := by
    rw [skipBlanks, List.dropWhile_append_of_pos hb]
    exact skipBlanks_of_head hl.starts.not_isBlank
  have hafter : k.after (',' :: b ++ t') = some (false, t') := by
    have hcomma : skipBlanks (',' :: b ++ t') = ',' :: (b ++ t') :=
      skipBlanks_of_head fun c hc => by
        obtain rfl := Option.some.inj hc
        decide
    have hne : ',' ≠ k.closing := by cases k <;> decide
    rw [Container.after, hcomma]
    simp only [if_neg hne, if_pos, hskip]
  have hends : EndsNumber (',' :: b ++ t') := Container.endsNumber_cons (.inr (.inl rfl)) _
  rw [List.append_assoc, scanItems, hkey _ (hx.starts.append _).not_isBlank]
  dsimp only
  simp only [List.length_append, List.length_cons] at hn
  rw [hx.append hends (by omega)]
  simp only [Except.bind, hafter]
  rw [hl n level (by omega)]
  rfl

/-- A text of a value is what `json.loads` reads. -/
theorem Reads.loads_eq (h : Reads t v) : loads ⟨none, none⟩ t = .ok v := by
  have hskip : skipBlanks t = t := skipBlanks_of_head h.starts.not_isBlank
  rw [loads, hskip, h _ 0 le_rfl]
  rfl

theorem Reads.head_ne (h : Reads t v) : t.head? ≠ some ']' := by
  intro hhead
  obtain ⟨s, rfl⟩ := List.head?_eq_some_iff.mp hhead
  have herror : loads ⟨none, none⟩ ([] ++ ']' :: s) = .error .decode :=
    loads_of_head (fun x hx => by cases hx) (by decide) (by decide) (by decide)
  rw [List.nil_append, h.loads_eq] at herror
  cases herror

/-- The first character of an item does not end its container. -/
theorem ReadsItem.head_ne (h : ReadsItem k t p) : t.head? ≠ some k.closing := by
  obtain ⟨s, x, rfl, hx, hkey⟩ := h
  cases k with
  | array =>
    have hs : s = [] := by
      have hkey := hkey ['x'] (by simp [isBlank])
      simp only [Container.key, Option.some.injEq, Prod.mk.injEq] at hkey
      exact List.append_left_eq_self.mp hkey.2
    rw [hs, List.nil_append]
    exact hx.head_ne
  | object =>
    intro hhead
    have hkey := hkey x hx.starts.not_isBlank
    obtain ⟨y, hy⟩ := List.head?_eq_some_iff.mp hhead
    rw [hy] at hkey
    cases hkey

/-- Items with separators between them. -/
theorem readsItems_intercalate {b : List Char} (hb : ∀ c ∈ b, isBlank c = true) {ts : List (List Char)}
    (h : List.Forall₂ (ReadsItem k) ts l) (hne : ts ≠ []) :
    ReadsItems k ((',' :: b).intercalate ts ++ [k.closing]) l := by
  induction h with
  | nil => exact absurd rfl hne
  | cons ht hts ih =>
    cases hts with
    | nil =>
      rw [List.intercalate_singleton]
      exact readsItems_singleton ht
    | cons ht' hts' =>
      rw [List.intercalate_cons_cons, List.append_assoc, List.append_assoc]
      exact readsItems_cons ht hb (ih (List.cons_ne_nil _ _))

theorem ReadsItem.ne_nil (h : ReadsItem k t p) : t ≠ [] := by
  obtain ⟨s, x, rfl, hx, -⟩ := h
  exact List.append_ne_nil_of_right_ne_nil s hx.starts.ne_nil

theorem exists_intercalate_cons {α : Type*} (sep x : List α) (xs : List (List α)) :
    ∃ rest, sep.intercalate (x :: xs) = x ++ rest := by
  cases xs with
  | nil => exact ⟨[], by rw [List.intercalate_singleton, List.append_nil]⟩
  | cons y ys => exact ⟨_, by rw [List.intercalate_cons_cons, List.append_assoc]⟩

/-- The character that opens a container. -/
def opener : Container → Char
  | .array => '['
  | .object => '\x7b'

theorem opening_opener (k : Container) (s : List Char) : Container.opening (opener k :: s) = some (k, s) := by
  cases k <;> rfl

/-- A container. -/
theorem reads_container {b : List Char} (hb : ∀ c ∈ b, isBlank c = true) {ts : List (List Char)}
    (h : List.Forall₂ (ReadsItem k) ts l) :
    Reads (opener k :: ((',' :: b).intercalate ts ++ [k.closing])) (k.build l) := by
  intro n level hn
  obtain ⟨n, rfl⟩ := Nat.exists_eq_add_one.mpr (Nat.zero_lt_of_lt hn)
  have hlimit : ¬ exceeds (level + 1) none = true := Bool.false_ne_true
  rw [scanOnce, opening_opener]
  dsimp only
  rw [if_neg hlimit]
  by_cases hts : ts = []
  · subst hts
    cases h
    have hskip : skipBlanks [k.closing] = [k.closing] := by cases k <;> rfl
    rw [List.intercalate_nil, List.nil_append, hskip]
    exact if_pos rfl
  · have hitems := readsItems_intercalate hb h hts
    have hhead : ((',' :: b).intercalate ts ++ [k.closing]).head? ≠ some k.closing := by
      cases h with
      | nil => exact absurd rfl hts
      | cons ht htail =>
        obtain ⟨rest, hrest⟩ := exists_intercalate_cons (',' :: b) _ _
        rw [hrest, List.append_assoc, List.head?_append_of_ne_nil _ ht.ne_nil]
        exact ht.head_ne
    rw [skipBlanks_of_head hitems.starts.not_isBlank, if_neg hhead]
    rw [List.length_cons] at hn
    rw [hitems n (level + 1) (by omega)]
    rfl

/-- What is set in turn, with distinct keys, stays in its order. -/
theorem foldl_setItem (h : (l.map Prod.fst).Nodup) : l.foldl (fun d p => setItem p.1 p.2 d) [] = l := by
  have hset (d : List (List ℕ × Json)) (k : List ℕ) (v : Json) (hk : k ∉ d.map Prod.fst) :
      setItem k v d = d ++ [(k, v)] := by
    induction d with
    | nil => rfl
    | cons q d ih =>
      rw [List.map_cons, List.mem_cons, not_or] at hk
      rw [setItem, if_neg (Ne.symm hk.1), ih hk.2]
      rfl
  induction l using List.reverseRecOn with
  | nil => rfl
  | append_singleton l p ih =>
    rw [List.map_append, List.nodup_append] at h
    have hk : p.1 ∉ l.map Prod.fst := fun hmem => h.2.2 p.1 hmem p.1 (by simp) rfl
    rw [List.foldl_append, ih h.1]
    exact hset l p.1 p.2 hk

/-- The first digit of a positive number is none. -/
theorem head_toDigits_ne {n : ℕ} (hn : 0 < n) : (Nat.toDigits 10 n).head? ≠ some '0' := by
  induction n using Nat.strongRecOn with
  | ind n ih =>
    by_cases hlt : n < 10
    · rw [Nat.toDigits_of_lt_base hlt]
      have hdigit : ∀ m < 10, 0 < m → [Nat.digitChar m].head? ≠ some '0' := by decide
      exact hdigit n hlt hn
    · have hpos : 0 < n / 10 := Nat.div_pos (Nat.le_of_not_lt hlt) (by decide)
      rw [Nat.toDigits_of_base_le (by decide) (Nat.le_of_not_lt hlt),
        List.head?_append_of_ne_nil _ Nat.toDigits_ne_nil]
      exact ih (n / 10) (Nat.div_lt_self hn (by decide)) hpos

theorem decimalNumber_toDigits (n : ℕ) : decimalNumber (Nat.toDigits 10 n) = n := by
  have hfold : Nat.ofDigitChars 10 (Nat.toDigits 10 n) 0 = decimalNumber (Nat.toDigits 10 n) :=
    Nat.ofDigitChars_eq_foldl
  rw [← hfold, Nat.ofDigitChars_ten_toDigits]

/-- The digits of a number make up its whole part. -/
theorem wholePart_toDigits (n : ℕ) {z : List Char} (hz : ∀ c ∈ z.head?, c.isDigit = false) :
    wholePart (Nat.toDigits 10 n ++ z) = Nat.toDigits 10 n := by
  rw [wholePart, List.head?_append_of_ne_nil _ Nat.toDigits_ne_nil]
  cases n with
  | zero =>
    rw [Nat.toDigits_zero]
    rfl
  | succ n =>
    rw [if_neg (head_toDigits_ne n.succ_pos)]
    exact takeWhile_digits (fun c hc => isNumeral_of_mem_toDigits hc) hz

/-- An integer. -/
theorem reads_int (i : ℤ) : Reads (intText i) (.int i) := by
  have hwell (sign : List Char) (hsign : sign = [] ∨ sign = ['-']) (n : ℕ) :
      NumberText.WellFormed ⟨sign, Nat.toDigits 10 n, [], []⟩ :=
    ⟨hsign, ⟨Nat.toDigits_ne_nil, fun c hc => isNumeral_of_mem_toDigits hc, fun z => wholePart_toDigits n⟩,
      .inl rfl, .inl rfl⟩
  have hvalue (sign : List Char) (n : ℕ) : NumberText.value ⟨none, none⟩ ⟨sign, Nat.toDigits 10 n, [], []⟩ =
      .ok (.int (if sign = [] then n else -n)) := by
    rw [NumberText.value, if_neg Nat.toDigits_ne_nil]
    dsimp only
    rw [decimalNumber_toDigits]
    rfl
  cases i with
  | ofNat n =>
    have h := reads_number (hwell [] (.inl rfl) n) (hvalue [] n)
    rwa [NumberText.text, List.nil_append, List.append_nil, List.append_nil] at h
  | negSucc n =>
    have h := reads_number (hwell ['-'] (.inr rfl) (n + 1)) (hvalue ['-'] (n + 1))
    rwa [NumberText.text, List.append_nil, List.append_nil] at h

/-- A float, as `repr` writes it. -/
theorem reads_float {literal : List Char} (h : Json.isFloatRepr literal = true) : Reads literal (.float literal) := by
  rw [Json.isFloatRepr, Bool.or_eq_true, Bool.and_eq_true, Bool.and_eq_true] at h
  rcases h with hword | ⟨⟨hwhole, hfloat⟩, htext⟩
  · exact reads_word (List.contains_iff_mem.mp hword)
  · have hne : (numberText literal).whole ≠ [] := of_decide_eq_true hwhole
    have htext := eq_of_beq htext
    have hvalue : (numberText literal).value ⟨none, none⟩ = .ok (.float literal) := by
      rw [NumberText.value, if_neg hne, if_pos hfloat, htext]
    have hreads := reads_number (numberText_wellFormed hne).1 hvalue
    rwa [htext] at hreads

end Reading

/-! ## Whole values -/

theorem chars_intercalate (sep : List ℕ) (ts : List (List ℕ)) :
    chars (sep.intercalate ts) = (chars sep).intercalate (ts.map chars) := by
  induction ts with
  | nil => rfl
  | cons t ts ih =>
    cases ts with
    | nil => simp only [List.intercalate_singleton, List.map_cons, List.map_nil]
    | cons t' ts =>
      rw [List.intercalate_cons_cons, chars_append, chars_append, ih]
      simp only [List.map_cons, List.intercalate_cons_cons]

/-- A separator is a character before blanks. -/
theorem chars_comma (o : Layout) : ∃ b, chars o.comma = ',' :: b ∧ ∀ c ∈ b, isBlank c = true := by
  unfold Layout.comma
  split
  · exact ⟨[' '], rfl, by simp [isBlank]⟩
  · exact ⟨[], rfl, by simp⟩

theorem chars_colon (o : Layout) : ∃ b, chars o.colon = ':' :: b ∧ ∀ c ∈ b, isBlank c = true := by
  unfold Layout.colon
  split
  · exact ⟨[' '], rfl, by simp [isBlank]⟩
  · exact ⟨[], rfl, by simp⟩

/-- The text of a container. -/
theorem reads_enclosed {o : Layout} {k : Container} {a z : ℕ} (ha : Char.ofNat a = opener k)
    (hz : Char.ofNat z = k.closing) {ts : List (List ℕ)} {l : List (List ℕ × Json)}
    (h : List.Forall₂ (ReadsItem k) (ts.map chars) l) :
    Reads (chars (a :: (o.comma.intercalate ts ++ [z]))) (k.build l) := by
  obtain ⟨b, hcomma, hb⟩ := chars_comma o
  have hshape : chars (a :: (o.comma.intercalate ts ++ [z])) =
      opener k :: ((',' :: b).intercalate (ts.map chars) ++ [k.closing]) := by
    rw [chars_cons, chars_append, chars_intercalate, hcomma, ha, chars_cons, chars_nil, hz]
  rw [hshape]
  exact reads_container hb h

/-- A value is an item of an array. -/
theorem readsItem_array {t : List Char} {v : Json} (h : Reads t v) : ReadsItem .array t ([], v) :=
  ⟨[], t, rfl, h, fun _ _ => rfl⟩

/-- The items of an array. -/
theorem reads_array {o : Layout} {ts : List (List ℕ)} {vs : List Json}
    (h : List.Forall₂ Reads (ts.map chars) vs) :
    Reads (chars (0x5B :: (o.comma.intercalate ts ++ [0x5D]))) (.arr vs) := by
  have hitems : List.Forall₂ (ReadsItem .array) (ts.map chars) (vs.map fun v => ([], v)) := by
    rw [List.forall₂_map_right_iff]
    exact h.imp fun t v => readsItem_array
  have harray := reads_enclosed (o := o) (k := .array) rfl rfl hitems
  rw [Container.build, List.map_map, show Prod.snd ∘ (fun v : Json => (([] : List ℕ), v)) = id from rfl,
    List.map_id] at harray
  exact harray

/-- A key and its value. -/
theorem readsItem_object {o : Layout} {u : List ℕ} (hu : u.all (isWritable o.ascii) = true) {t : List ℕ}
    {v : Json} (h : Reads (chars t) v) :
    ReadsItem .object (chars (quoted o.ascii u ++ (o.colon ++ t)))
      (joinSurrogates (u.flatMap (written o.ascii)), v) := by
  obtain ⟨b, hcolon, hb⟩ := chars_colon o
  refine ⟨'\"' :: (chars (u.flatMap (escapePoint o.ascii)) ++ '\"' :: ':' :: b), chars t, ?_, h, fun y hy => ?_⟩
  · rw [quoted, chars_append, chars_append, hcolon, chars_cons, chars_append]
    simp [chars]
  · have hskip : skipBlanks (b ++ y) = y := by
      rw [skipBlanks, List.dropWhile_append_of_pos hb]
      exact skipBlanks_of_head hy
    have hcolon : skipBlanks (':' :: (b ++ y)) = ':' :: (b ++ y) :=
      skipBlanks_of_head fun c hc => by
        obtain rfl := Option.some.inj hc
        decide
    have hscan := scanString_quoted hu (':' :: (b ++ y))
    have hshape : chars (u.flatMap (escapePoint o.ascii)) ++ '\"' :: ':' :: b ++ y =
        chars (u.flatMap (escapePoint o.ascii)) ++ '\"' :: ':' :: (b ++ y) := by simp
    rw [Container.key, List.cons_append, if_pos List.head?_cons, List.tail_cons, hshape, hscan, Option.bind_some]
    simp only [hcolon, List.head?_cons, if_true, List.tail_cons, hskip]

namespace Json

theorem all_isWritable (u : List ℕ) : u.all (isWritable false) = isEncodable u := rfl

theorem joinSurrogates_written {u : List ℕ} (hu : isEncodable u = true) :
    joinSurrogates (u.flatMap (written false)) = u := by
  have hflat : u.flatMap (written false) = u := List.flatMap_singleton' u
  rw [hflat, joinSurrogates_of_encodable hu]

mutual

/-- A text that can be encoded is read back. -/
theorem reads_text (spaced : Bool) (v : Json) (hv : v.isValue = true) (hu : v.allStrings isEncodable = true) :
    Reads (chars (v.text ⟨false, spaced⟩)) v := by
  cases v with
  | null => exact reads_word (w := (_, _)) (by decide)
  | bool b => cases b <;> exact reads_word (w := (_, _)) (by decide)
  | int i =>
    rw [text, chars_map_toNat]
    exact reads_int i
  | float literal =>
    rw [isValue] at hv
    rw [text, chars_map_toNat]
    exact reads_float hv
  | str u =>
    rw [allStrings] at hu
    have hread := reads_quoted ((all_isWritable u).trans hu)
    rwa [joinSurrogates_written hu] at hread
  | arr l =>
    rw [isValue] at hv
    rw [allStrings] at hu
    exact reads_array (o := ⟨false, spaced⟩) (reads_itemTexts spaced l hv hu)
  | obj l =>
    rw [isValue, Bool.and_eq_true, decide_eq_true_eq] at hv
    rw [allStrings] at hu
    have hobject := reads_enclosed (o := ⟨false, spaced⟩) (k := .object) (a := 0x7B) (z := 0x7D) rfl rfl
      (reads_fieldTexts spaced l hv.2 hu)
    rwa [Container.build, foldl_setItem hv.1] at hobject

theorem reads_itemTexts (spaced : Bool) (l : List Json) (hv : itemsAreValues l = true)
    (hu : allItems isEncodable l = true) :
    List.Forall₂ Reads ((itemTexts ⟨false, spaced⟩ l).map chars) l := by
  cases l with
  | nil => exact .nil
  | cons v l =>
    rw [itemsAreValues, Bool.and_eq_true] at hv
    rw [allItems, Bool.and_eq_true] at hu
    exact .cons (reads_text spaced v hv.1 hu.1) (reads_itemTexts spaced l hv.2 hu.2)

theorem reads_fieldTexts (spaced : Bool) (l : List (List ℕ × Json)) (hv : fieldsAreValues l = true)
    (hu : allFields isEncodable l = true) :
    List.Forall₂ (ReadsItem .object) ((fieldTexts ⟨false, spaced⟩ l).map chars) l := by
  cases l with
  | nil => exact .nil
  | cons p l =>
    obtain ⟨k, v⟩ := p
    rw [fieldsAreValues, Bool.and_eq_true] at hv
    rw [allFields, Bool.and_eq_true, Bool.and_eq_true] at hu
    have hitem := readsItem_object (o := ⟨false, spaced⟩) ((all_isWritable k).trans hu.1.1)
      (reads_text spaced v hv.1 hu.1.2)
    rw [joinSurrogates_written hu.1.1] at hitem
    exact .cons hitem (reads_fieldTexts spaced l hv.2 hu.2)

end

/-- A list of strings is read back, with its surrogate pairs joined. -/
theorem reads_strings (o : Layout) {us : List (List ℕ)} (hu : ∀ u ∈ us, u.all (isWritable o.ascii) = true) :
    Reads (chars ((arr (us.map str)).text o))
      (.arr (us.map fun u => .str (joinSurrogates (u.flatMap (written o.ascii))))) := by
  have hitems : List.Forall₂ Reads ((itemTexts o (us.map str)).map chars)
      (us.map fun u => .str (joinSurrogates (u.flatMap (written o.ascii)))) := by
    induction us with
    | nil => exact .nil
    | cons u us ih =>
      exact .cons (reads_quoted (hu u List.mem_cons_self)) (ih fun u' hu' => hu u' (List.mem_cons_of_mem _ hu'))
  exact reads_array hitems

/-- `json.loads` inverts `json.dumps`. -/
theorem loads_text {spaced : Bool} {v : Json} (hv : v.isValue = true)
    (ht : isEncodable (v.text ⟨false, spaced⟩) = true) :
    loads ⟨none, none⟩ (chars (v.text ⟨false, spaced⟩)) = .ok v := by
  rw [isEncodable_text] at ht
  exact (reads_text spaced v hv ht).loads_eq

end Json

/-! ## Texts without control characters -/

theorem ge_of_mem_unitEscape {n m : ℕ} (hn : n < 0x10000) (hm : m ∈ unitEscape n) : 0x20 ≤ m := by
  have hdigit : ∀ d < 16, 0x20 ≤ (Nat.digitChar d).toNat := by decide
  simp only [unitEscape, List.mem_cons, List.not_mem_nil, or_false] at hm
  rcases hm with rfl | rfl | rfl | rfl | rfl | rfl
  · decide
  · decide
  · exact hdigit _ (by omega)
  · exact hdigit _ (by omega)
  · exact hdigit _ (by omega)
  · exact hdigit _ (by omega)

theorem ge_of_shortEscape {n : ℕ} {c : Char} (h : shortEscape n = some c) : 0x20 ≤ c.toNat := by
  unfold shortEscape at h
  split_ifs at h
  all_goals
    cases h
    decide

/-- An escaped string has no control characters. -/
theorem ge_of_mem_quoted {u : List ℕ} {m : ℕ} (hm : m ∈ quoted false u) : 0x20 ≤ m := by
  rw [quoted, List.mem_cons, List.mem_append, List.mem_singleton, List.mem_flatMap] at hm
  rcases hm with rfl | ⟨n, -, hm⟩ | rfl
  · decide
  · unfold escapePoint at hm
    split at hm
    · next c hc =>
      simp only [List.mem_cons, List.not_mem_nil, or_false] at hm
      rcases hm with rfl | rfl
      · decide
      · exact ge_of_shortEscape hc
    · split at hm
      · next hlt => exact ge_of_mem_unitEscape (Nat.lt_trans hlt (by decide)) hm
      · next hge =>
        rw [if_neg (by simp), List.mem_singleton] at hm
        rw [hm]
        exact Nat.le_of_not_lt hge
  · decide

theorem ge_of_mem_intText {i : ℤ} {c : Char} (hc : c ∈ intText i) : 0x20 ≤ c.toNat := by
  have hnumeral := isNumeral_of_mem i c hc
  simp only [isNumeral, Bool.or_eq_true, decide_eq_true_eq] at hnumeral
  rcases hnumeral with hdigit | rfl
  · simp only [Char.isDigit, Bool.and_eq_true, decide_eq_true_eq] at hdigit
    exact Nat.le_trans (by decide) (UInt32.le_iff_toNat_le.mp hdigit.1)
  · decide

theorem ge_of_mem_floatRepr {literal : List Char} (h : Json.isFloatRepr literal = true) {c : Char}
    (hc : c ∈ literal) : 0x20 ≤ c.toNat := by
  rw [Json.isFloatRepr, Bool.or_eq_true, Bool.and_eq_true, Bool.and_eq_true] at h
  rcases h with hword | ⟨⟨hwhole, -⟩, htext⟩
  · have hgraphic : ∀ w ∈ words, w.1.all (0x20 ≤ ·.toNat) = true := by decide
    exact of_decide_eq_true (List.all_eq_true.mp (hgraphic _ (List.contains_iff_mem.mp hword)) c hc)
  · have hgraphic := (numberText_wellFormed (of_decide_eq_true hwhole)).1.isGraphic c (by rwa [eq_of_beq htext])
    simp only [isGraphic, Bool.and_eq_true, decide_eq_true_eq] at hgraphic
    omega

theorem ge_of_mem_intercalate {sep : List ℕ} (hsep : ∀ m ∈ sep, 0x20 ≤ m) {ts : List (List ℕ)}
    (hts : ∀ t ∈ ts, ∀ m ∈ t, 0x20 ≤ m) {m : ℕ} (hm : m ∈ sep.intercalate ts) : 0x20 ≤ m := by
  induction ts with
  | nil => cases hm
  | cons t ts ih =>
    cases ts with
    | nil =>
      rw [List.intercalate_singleton] at hm
      exact hts t List.mem_cons_self m hm
    | cons t' ts =>
      rw [List.intercalate_cons_cons, List.mem_append, List.mem_append] at hm
      rcases hm with (hm | hm) | hm
      · exact hts t List.mem_cons_self m hm
      · exact hsep m hm
      · exact ih (fun t ht => hts t (List.mem_cons_of_mem _ ht)) hm

namespace Json

mutual

/-- A text has no control characters. -/
theorem ge_of_mem_text (spaced : Bool) (v : Json) (hv : v.isValue = true) :
    ∀ m ∈ v.text ⟨false, spaced⟩, 0x20 ≤ m := by
  have hcomma : ∀ m ∈ Layout.comma ⟨false, spaced⟩, 0x20 ≤ m := by cases spaced <;> decide
  cases v with
  | null => exact (by decide : ∀ m ∈ codePoints "null", 0x20 ≤ m)
  | bool b =>
    have htrue : ∀ m ∈ codePoints "true", 0x20 ≤ m := by decide
    have hfalse : ∀ m ∈ codePoints "false", 0x20 ≤ m := by decide
    cases b with
    | false => exact hfalse
    | true => exact htrue
  | int i =>
    intro m hm
    obtain ⟨c, hc, rfl⟩ := List.mem_map.mp hm
    exact ge_of_mem_intText hc
  | float literal =>
    rw [isValue] at hv
    intro m hm
    obtain ⟨c, hc, rfl⟩ := List.mem_map.mp hm
    exact ge_of_mem_floatRepr hv hc
  | str u => exact fun m hm => ge_of_mem_quoted hm
  | arr l =>
    rw [isValue] at hv
    intro m hm
    rw [text, List.mem_cons, List.mem_append, List.mem_singleton] at hm
    rcases hm with rfl | hm | rfl
    · decide
    · exact ge_of_mem_intercalate hcomma (ge_of_mem_itemTexts spaced l hv) hm
    · decide
  | obj l =>
    rw [isValue, Bool.and_eq_true] at hv
    intro m hm
    rw [text, List.mem_cons, List.mem_append, List.mem_singleton] at hm
    rcases hm with rfl | hm | rfl
    · decide
    · exact ge_of_mem_intercalate hcomma (ge_of_mem_fieldTexts spaced l hv.2) hm
    · decide

theorem ge_of_mem_itemTexts (spaced : Bool) (l : List Json) (hv : itemsAreValues l = true) :
    ∀ t ∈ itemTexts ⟨false, spaced⟩ l, ∀ m ∈ t, 0x20 ≤ m := by
  cases l with
  | nil => exact fun t ht => by cases ht
  | cons v l =>
    rw [itemsAreValues, Bool.and_eq_true] at hv
    intro t ht
    rw [itemTexts, List.mem_cons] at ht
    rcases ht with rfl | ht
    · exact ge_of_mem_text spaced v hv.1
    · exact ge_of_mem_itemTexts spaced l hv.2 t ht

theorem ge_of_mem_fieldTexts (spaced : Bool) (l : List (List ℕ × Json)) (hv : fieldsAreValues l = true) :
    ∀ t ∈ fieldTexts ⟨false, spaced⟩ l, ∀ m ∈ t, 0x20 ≤ m := by
  have hcolon : ∀ m ∈ Layout.colon ⟨false, spaced⟩, 0x20 ≤ m := by cases spaced <;> decide
  cases l with
  | nil => exact fun t ht => by cases ht
  | cons p l =>
    obtain ⟨k, v⟩ := p
    rw [fieldsAreValues, Bool.and_eq_true] at hv
    intro t ht
    rw [fieldTexts, List.mem_cons] at ht
    rcases ht with rfl | ht
    · intro m hm
      rw [List.mem_append, List.mem_append] at hm
      rcases hm with hm | hm | hm
      · exact ge_of_mem_quoted hm
      · exact hcolon m hm
      · exact ge_of_mem_text spaced v hv.1 m hm
    · exact ge_of_mem_fieldTexts spaced l hv.2 t ht

end

example : loads ⟨none, none⟩ (chars ((obj [(codePoints "id", int (-12)),
      (codePoints "text", str [0x0A, 0x22, 0x1F600]), (codePoints "list", arr [null, float "1e-07".toList])]).text
        ⟨false, true⟩)) =
    .ok (.obj [(codePoints "id", .int (-12)), (codePoints "text", .str [0x0A, 0x22, 0x1F600]),
      (codePoints "list", .arr [.null, .float "1e-07".toList])]) := by
  decide +kernel

end Json

end AgentCraft.Python
