import Mathlib.Algebra.Order.Ring.Nat
import Mathlib.Data.List.DropRight
import Mathlib.Data.Nat.Basic

/-!
# UUIDs as strings

`uuid.UUID(s)` accepts many spellings of one identifier: upper and lower case, braces, URN prefixes, hyphens
anywhere or nowhere, and whatever `int(s, 16)` takes for a number. `str` writes one of them, the canonical
one, and reading it gives the identifier back.
-/

namespace AgentCraft.Python

/-- The Unicode database of the interpreter, as far as `int` asks it about characters outside of ASCII. -/
structure UnicodeData where
  isSpace : Char → Bool
  decimal : Char → Option ℕ

/-- The value of a hexadecimal digit. -/
def hexValue (c : Char) : Option ℕ :=
  if '0' ≤ c ∧ c ≤ '9' then some (c.toNat - '0'.toNat)
  else if 'a' ≤ c ∧ c ≤ 'f' then some (c.toNat - 'a'.toNat + 10)
  else if 'A' ≤ c ∧ c ≤ 'F' then some (c.toNat - 'A'.toNat + 10)
  else none

/-- The spaces that `int` skips around a number. -/
def isAsciiSpace (c : Char) : Bool := (9 ≤ c.toNat && c.toNat ≤ 13) || c = ' '

/-- `int` replaces the spaces and the decimal digits of other scripts by those of ASCII. -/
def UnicodeData.toAscii (ud : UnicodeData) (c : Char) : Char :=
  if c.toNat < 127 then c
  else if ud.isSpace c then ' '
  else match ud.decimal c with
    | some d => Nat.digitChar d
    | none => '?'

/-- The digits may be grouped by single underscores. -/
def isGrouped (digits : List Char) : Bool := (digits.splitOn '_').all (!·.isEmpty)

/-- The number that hexadecimal digits stand for. -/
def hexNumber (digits : List Char) : ℕ := (digits.filterMap hexValue).foldl (fun n d => 16 * n + d) 0

/-- The sign, and what follows it. -/
def takeSign : List Char → Bool × List Char
  | '+' :: s => (false, s)
  | '-' :: s => (true, s)
  | s => (false, s)

/-- The base prefix may stand before the digits, and an underscore after it. -/
def dropBasePrefix : List Char → List Char
  | '0' :: x :: s =>
    if x = 'x' ∨ x = 'X' then
      match s with
      | '_' :: s => s
      | s => s
    else '0' :: x :: s
  | s => s

/-- `int(s, 16)`. -/
def int16 (ud : UnicodeData) (s : List Char) : Option ℤ :=
  let (negative, s) := takeSign ((s.map ud.toAscii).dropWhile isAsciiSpace)
  let s := dropBasePrefix s
  let isDigit (c : Char) : Bool := (hexValue c).isSome || c = '_'
  let digits := s.takeWhile isDigit
  if isGrouped digits && (s.dropWhile isDigit).all isAsciiSpace then
    some (if negative then -(hexNumber digits : ℤ) else hexNumber digits)
  else none

/-- `s.replace(pattern, '')`, with the number of characters to skip. -/
@[grind] def removeAll (pattern : List Char) : ℕ → List Char → List Char
  | _, [] => []
  | skip + 1, _ :: s => removeAll pattern skip s
  | 0, c :: s =>
    if pattern.isPrefixOf (c :: s) then removeAll pattern (pattern.length - 1) s
    else c :: removeAll pattern 0 s

/-- `s.strip('{}')`. -/
def stripBraces (s : List Char) : List Char :=
  let isBrace (c : Char) : Bool := c = '{' || c = '}'
  (s.dropWhile isBrace).rdropWhile isBrace

/-- The hexadecimal digits of a string, as `UUID` extracts them. -/
def uuidDigits (s : List Char) : List Char :=
  (stripBraces (removeAll "uuid:".toList 0 (removeAll "urn:".toList 0 s))).filter (· ≠ '-')

/-- `uuid.UUID(s).int`; none is `ValueError`. -/
def parseUuid (ud : UnicodeData) (s : String) : Option ℕ :=
  let digits := uuidDigits s.toList
  if digits.length ≠ 32 then none
  else (int16 ud digits).bind fun n => if 0 ≤ n ∧ n < 2 ^ 128 then some n.toNat else none

/-- The last `k` hexadecimal digits of a number: `'%0kx' % n` where they are all. -/
@[grind] def hexDigits : ℕ → ℕ → List Char
  | 0, _ => []
  | k + 1, n => hexDigits k (n / 16) ++ [Nat.digitChar (n % 16)]

/-- Hyphens after 8, 12, 16 and 20 digits. -/
def hyphenate (digits : List Char) : List Char :=
  digits.take 8 ++ '-' :: ((digits.drop 8).take 4 ++ '-' :: ((digits.drop 12).take 4 ++
    '-' :: ((digits.drop 16).take 4 ++ '-' :: digits.drop 20)))

/-- `str(uuid)`. -/
def formatUuid (n : ℕ) : String := String.ofList (hyphenate (hexDigits 32 n))

/-! ## Canonical strings are read back -/

/-- The sixteen digits that `str` writes. -/
def isCanonicalDigit (c : Char) : Prop := ∃ d < 16, c = Nat.digitChar d

/-- What the digits are, checked one by one. -/
theorem digitChar_facts : ∀ d < 16, hexValue (Nat.digitChar d) = some d ∧
    (Nat.digitChar d).toNat < 127 ∧ isAsciiSpace (Nat.digitChar d) = false ∧
      Nat.digitChar d ∉ ['+', '-', 'x', 'X', '_', '{', '}', 'u'] := by
  decide

theorem length_hexDigits (k n : ℕ) : (hexDigits k n).length = k := by
  induction k generalizing n with
  | zero => rfl
  | succ k ih => simp [hexDigits, ih]

theorem isCanonicalDigit_of_mem_hexDigits {k n : ℕ} {c : Char} (h : c ∈ hexDigits k n) :
    isCanonicalDigit c := by
  induction k generalizing n with
  | zero => cases h
  | succ k ih =>
    rcases List.mem_append.mp h with h | h
    · exact ih h
    · exact ⟨n % 16, Nat.mod_lt n (by omega), List.mem_singleton.mp h⟩

/-- The digits spell the number, as far as they go. -/
theorem hexNumber_hexDigits (k n : ℕ) : hexNumber (hexDigits k n) = n % 16 ^ k := by
  induction k generalizing n with
  | zero => simp [hexDigits, hexNumber, Nat.mod_one]
  | succ k ih =>
    have hlast := (digitChar_facts (n % 16) (Nat.mod_lt n (by omega))).1
    have hsplit : hexNumber (hexDigits (k + 1) n) = 16 * hexNumber (hexDigits k (n / 16)) + n % 16 := by
      simp [hexDigits, hexNumber, List.filterMap_append, hlast]
    rw [hsplit, ih, Nat.pow_succ', Nat.mod_mul]
    omega

section Canonical

variable {s : List Char}

/-- No canonical digit is one of the characters that the readers treat in a way of their own. -/
theorem not_mem_of_canonical (hs : ∀ c ∈ s, isCanonicalDigit c) {x : Char}
    (hx : x ∈ ['+', '-', 'x', 'X', '_', '{', '}', 'u']) : x ∉ s := by
  intro h
  obtain ⟨d, hd, rfl⟩ := hs x h
  exact (digitChar_facts d hd).2.2.2 hx

theorem map_toAscii_of_canonical (ud : UnicodeData) (hs : ∀ c ∈ s, isCanonicalDigit c) :
    s.map ud.toAscii = s := by
  refine (List.map_congr_left fun c hc => ?_).trans s.map_id
  obtain ⟨d, hd, rfl⟩ := hs c hc
  exact if_pos (digitChar_facts d hd).2.1

theorem takeSign_of_canonical (hs : ∀ c ∈ s, isCanonicalDigit c) : takeSign s = (false, s) := by
  unfold takeSign
  split
  · exact absurd List.mem_cons_self (not_mem_of_canonical hs (by simp))
  · exact absurd List.mem_cons_self (not_mem_of_canonical hs (by simp))
  · rfl

theorem dropBasePrefix_of_canonical (hs : ∀ c ∈ s, isCanonicalDigit c) : dropBasePrefix s = s := by
  unfold dropBasePrefix
  split
  · next x t =>
    have hx : x ∈ '0' :: x :: t := by simp
    refine if_neg fun h => ?_
    rcases h with rfl | rfl
    · exact not_mem_of_canonical hs (by simp) hx
    · exact not_mem_of_canonical hs (by simp) hx
  · rfl

/-- Hexadecimal digits alone are a number. -/
theorem int16_of_canonical (ud : UnicodeData) (hs : ∀ c ∈ s, isCanonicalDigit c) (hne : s ≠ []) :
    int16 ud s = some (hexNumber s : ℤ) := by
  have hspace : s.dropWhile isAsciiSpace = s := by
    obtain ⟨c, t, rfl⟩ := List.exists_cons_of_ne_nil hne
    obtain ⟨d, hd, rfl⟩ := hs c List.mem_cons_self
    exact List.dropWhile_cons_of_neg (by rw [(digitChar_facts d hd).2.2.1]; exact Bool.false_ne_true)
  have hdigit : ∀ c ∈ s, ((hexValue c).isSome || c = '_') = true := by
    intro c hc
    obtain ⟨d, hd, rfl⟩ := hs c hc
    rw [(digitChar_facts d hd).1]
    rfl
  have hgrouped : isGrouped s = true := by
    have hpieces : s.splitOn '_' = [s] := List.splitOnP_eq_singleton fun c hc => by
      have hno : c ≠ '_' := fun heq => not_mem_of_canonical hs (by simp) (heq ▸ hc)
      simpa using hno
    simp [isGrouped, hpieces, hne]
  simp only [int16, map_toAscii_of_canonical ud hs, hspace, takeSign_of_canonical hs,
    dropBasePrefix_of_canonical hs, List.takeWhile_eq_self_iff.mpr hdigit,
    List.dropWhile_eq_nil_iff.mpr hdigit, hgrouped]
  rfl

/-- Nothing is removed when the first character of the pattern does not occur. -/
theorem removeAll_of_not_mem {p : Char} {pattern : List Char} (h : p ∉ s) :
    removeAll (p :: pattern) 0 s = s := by
  induction s with
  | nil => rfl
  | cons c s ih =>
    obtain ⟨hne, hs⟩ := not_or.mp (mt List.mem_cons.mpr h)
    have hno : (p :: pattern).isPrefixOf (c :: s) = false := by
      simp [List.isPrefixOf, hne]
    rw [removeAll, if_neg (by rw [hno]; exact Bool.false_ne_true), ih hs]

theorem stripBraces_of_not_mem (h : '{' ∉ s) (h' : '}' ∉ s) : stripBraces s = s := by
  have hno : ∀ c ∈ s, ¬ (c = '{' || c = '}') = true := by
    intro c hc hbrace
    rcases Bool.or_eq_true _ _ ▸ hbrace with heq | heq
    · exact h (of_decide_eq_true heq ▸ hc)
    · exact h' (of_decide_eq_true heq ▸ hc)
  have hleft : s.dropWhile (fun c => c = '{' || c = '}') = s := by
    cases s with
    | nil => rfl
    | cons c t => exact List.dropWhile_cons_of_neg (hno c List.mem_cons_self)
  unfold stripBraces
  simp only [hleft]
  exact List.rdropWhile_eq_self_iff.mpr fun hne => hno _ (List.getLast_mem hne)

theorem filter_hyphenate (h : '-' ∉ s) : (hyphenate s).filter (· ≠ '-') = s := by
  have hkeep {t : List Char} (ht : t ⊆ s) : t.filter (· ≠ '-') = t := by
    refine List.filter_eq_self.mpr fun c hc => ?_
    simpa using fun heq : c = '-' => h (heq ▸ ht hc)
  have hpiece (i n : ℕ) : (s.drop i).take n ⊆ s := fun _ hc => List.mem_of_mem_drop (List.mem_of_mem_take hc)
  have hdash (t : List Char) : ('-' :: t).filter (· ≠ '-') = t.filter (· ≠ '-') := by simp
  unfold hyphenate
  rw [List.filter_append, hdash, List.filter_append, hdash, List.filter_append, hdash,
    List.filter_append, hdash, hkeep (hpiece 8 4), hkeep (hpiece 12 4), hkeep (hpiece 16 4),
    hkeep fun _ hc => List.mem_of_mem_take hc, hkeep fun _ hc => List.mem_of_mem_drop hc]
  have hjoin (i n : ℕ) : (s.drop i).take n ++ s.drop (i + n) = s.drop i := by
    rw [← List.drop_drop]
    exact List.take_append_drop n _
  rw [hjoin 16 4, hjoin 12 4, hjoin 8 4, List.take_append_drop]

theorem mem_of_mem_hyphenate {c : Char} (h : c ∈ hyphenate s) : c ∈ s ∨ c = '-' := by
  simp only [hyphenate, List.mem_append, List.mem_cons] at h
  rcases h with h | h | h | h | h | h | h | h | h
  · exact .inl (List.mem_of_mem_take h)
  · exact .inr h
  · exact .inl (List.mem_of_mem_drop (List.mem_of_mem_take h))
  · exact .inr h
  · exact .inl (List.mem_of_mem_drop (List.mem_of_mem_take h))
  · exact .inr h
  · exact .inl (List.mem_of_mem_drop (List.mem_of_mem_take h))
  · exact .inr h
  · exact .inl (List.mem_of_mem_drop h)

theorem uuidDigits_of_canonical (hs : ∀ c ∈ s, isCanonicalDigit c) : uuidDigits (hyphenate s) = s := by
  have hno {x : Char} (hx : x ∈ ['+', '-', 'x', 'X', '_', '{', '}', 'u']) (hne : x ≠ '-') :
      x ∉ hyphenate s := fun h =>
    (mem_of_mem_hyphenate h).elim (not_mem_of_canonical hs hx) hne
  have hu : 'u' ∉ hyphenate s := hno (by simp) (by decide)
  unfold uuidDigits
  have hurn : removeAll "urn:".toList 0 (hyphenate s) = hyphenate s := removeAll_of_not_mem hu
  have huuid : removeAll "uuid:".toList 0 (hyphenate s) = hyphenate s := removeAll_of_not_mem hu
  rw [hurn, huuid, stripBraces_of_not_mem (hno (by simp) (by decide)) (hno (by simp) (by decide)),
    filter_hyphenate (not_mem_of_canonical hs (by simp))]

end Canonical

/-- 32 digits of a number in range. -/
theorem parseUuid_of_digits {ud : UnicodeData} {s : String} {n : ℕ}
    (hlen : (uuidDigits s.toList).length = 32) (hnum : int16 ud (uuidDigits s.toList) = some (n : ℤ))
    (hn : n < 2 ^ 128) : parseUuid ud s = some n := by
  have hrange : 0 ≤ (n : ℤ) ∧ (n : ℤ) < 2 ^ 128 := ⟨Int.natCast_nonneg n, by exact_mod_cast hn⟩
  unfold parseUuid
  rw [if_neg (not_not.mpr hlen), hnum, Option.bind_some, if_pos hrange, Int.toNat_natCast]

/-- Reading a canonical string gives the identifier back. -/
theorem parseUuid_formatUuid (ud : UnicodeData) (n : ℕ) :
    parseUuid ud (formatUuid n) = some (n % 2 ^ 128) := by
  have hs : ∀ c ∈ hexDigits 32 n, isCanonicalDigit c := fun _ hc => isCanonicalDigit_of_mem_hexDigits hc
  have hlen := length_hexDigits 32 n
  have hne : hexDigits 32 n ≠ [] := fun h => by
    rw [h] at hlen
    cases hlen
  have hread : uuidDigits (formatUuid n).toList = hexDigits 32 n := by
    rw [formatUuid, String.toList_ofList, uuidDigits_of_canonical hs]
  refine parseUuid_of_digits ?_ ?_ (Nat.mod_lt n (Nat.two_pow_pos 128))
  · rw [hread, hlen]
  · rw [hread, int16_of_canonical ud hs hne, hexNumber_hexDigits]
    rfl

theorem hexDigits_mod (k n : ℕ) : hexDigits k (n % 16 ^ k) = hexDigits k n := by
  induction k generalizing n with
  | zero => rfl
  | succ k ih =>
    rw [hexDigits, hexDigits, Nat.pow_succ', Nat.mod_mul_right_div_self, Nat.mod_mul_right_mod, ih]

/-- A canonical string is the canonical string of what it reads as. -/
theorem formatUuid_of_parseUuid {ud : UnicodeData} {n m : ℕ}
    (h : parseUuid ud (formatUuid m) = some n) : formatUuid n = formatUuid m := by
  rw [parseUuid_formatUuid] at h
  cases h
  unfold formatUuid
  have hmod : hexDigits 32 (m % 2 ^ 128) = hexDigits 32 m := hexDigits_mod 32 m
  rw [hmod]

end AgentCraft.Python
