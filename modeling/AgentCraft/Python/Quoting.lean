import AgentCraft.Python.JsonDumps
import AgentCraft.Python.Utf8

/-!
# Percent encoding

`urllib.parse.quote(text, safe='')` leaves the unreserved characters of ASCII and writes every other byte of the
UTF-8 encoding as a percent sign and two digits. Reading the escapes gives the text back.
-/

namespace AgentCraft.Python

/-- `_ALWAYS_SAFE`. -/
def isAlwaysSafe (b : UInt8) : Bool :=
  let c := Char.ofNat b.toNat
  b < 0x80 && (c.isAlphanum || c = '_' || c = '.' || c = '-' || c = '~')

/-- The hexadecimal digit of `%02X`. -/
def upperDigit (n : ℕ) : Char := (Nat.digitChar n).toUpper

/-- A byte in a quoted text. -/
def quoteByte (b : UInt8) : List Char :=
  if isAlwaysSafe b then [Char.ofNat b.toNat] else ['%', upperDigit (b.toNat / 16), upperDigit (b.toNat % 16)]

/-- `quote(text, safe='')`. -/
def quote (text : String) : List Char := (encodeUtf8 text).flatMap quoteByte

/-- The bytes that a quoted text stands for. -/
@[grind] def unquoteToBytes : List Char → List UInt8
  | '%' :: a :: b :: s =>
    match hexValue a, hexValue b with
    | some n, some m => UInt8.ofNat (16 * n + m) :: unquoteToBytes s
    | _, _ => 0x25 :: unquoteToBytes (a :: b :: s)
  | c :: s => UInt8.ofNat c.toNat :: unquoteToBytes s
  | [] => []

/-- The text that a quoted text stands for, if its bytes are UTF-8. -/
def unquote (s : List Char) : Option String := decodeUtf8 (unquoteToBytes s)

/-- What the digits are, checked one by one. -/
theorem upperDigit_facts : ∀ n < 16, hexValue (upperDigit n) = some n ∧
    0x20 < (upperDigit n).toNat ∧ (upperDigit n).toNat < 0x7F ∧ upperDigit n ∉ ['"', '\\', ';', ','] := by
  decide

theorem unquoteToBytes_cons {c : Char} (hc : c ≠ '%') (s : List Char) :
    unquoteToBytes (c :: s) = UInt8.ofNat c.toNat :: unquoteToBytes s := by
  rw [unquoteToBytes]
  rintro a b s' heq -
  exact hc heq

theorem safe_facts : ∀ n < 128, isAlwaysSafe (UInt8.ofNat n) = true → 0x20 < n ∧ n < 0x7F ∧
    Char.ofNat n ∉ ['%', '"', '\\', ';', ','] := by
  decide +kernel

/-- A safe byte is the character of the same number, which stands for itself. -/
theorem toNat_of_isAlwaysSafe {b : UInt8} (h : isAlwaysSafe b = true) :
    (Char.ofNat b.toNat).toNat = b.toNat ∧ 0x20 < b.toNat ∧ b.toNat < 0x7F ∧
      Char.ofNat b.toNat ∉ ['%', '"', '\\', ';', ','] := by
  have hlt : b.toNat < 0x80 := UInt8.lt_iff_toNat_lt.mp (of_decide_eq_true (Bool.and_eq_true_iff.mp h).1)
  refine ⟨toNat_ofNat (.inl (by omega)), safe_facts b.toNat hlt ?_⟩
  rwa [UInt8.ofNat_toNat]

/-- An escape is read as its byte, whatever follows it. -/
theorem unquoteToBytes_quoteByte (b : UInt8) (s : List Char) :
    unquoteToBytes (quoteByte b ++ s) = b :: unquoteToBytes s := by
  by_cases hb : isAlwaysSafe b = true
  · obtain ⟨hnat, -, -, hno⟩ := toNat_of_isAlwaysSafe hb
    have hne : Char.ofNat b.toNat ≠ '%' := fun heq => hno (heq ▸ List.mem_cons_self)
    rw [quoteByte, if_pos hb, List.singleton_append, unquoteToBytes_cons hne, hnat, UInt8.ofNat_toNat]
  · have hlt := b.toNat_lt
    have hhigh := (upperDigit_facts (b.toNat / 16) (by omega)).1
    have hlow := (upperDigit_facts (b.toNat % 16) (by omega)).1
    have hsum : 16 * (b.toNat / 16) + b.toNat % 16 = b.toNat := Nat.div_add_mod _ _
    rw [quoteByte, if_neg hb, List.cons_append, List.cons_append, List.singleton_append, unquoteToBytes]
    simp only [hhigh, hlow, hsum, UInt8.ofNat_toNat]

theorem unquoteToBytes_flatMap (bs : List UInt8) : unquoteToBytes (bs.flatMap quoteByte) = bs := by
  induction bs with
  | nil => rfl
  | cons b bs ih => rw [List.flatMap_cons, unquoteToBytes_quoteByte, ih]

/-- Reading a quoted text gives the text back. -/
theorem unquote_quote (text : String) : unquote (quote text) = some text := by
  rw [unquote, quote, unquoteToBytes_flatMap, decodeUtf8_encodeUtf8]

/-- A quoted text consists of visible characters of ASCII that mean nothing in a header. -/
theorem mem_quote {text : String} {c : Char} (h : c ∈ quote text) :
    0x20 < c.toNat ∧ c.toNat < 0x7F ∧ c ∉ ['"', '\\', ';', ','] := by
  obtain ⟨b, -, hc⟩ := List.mem_flatMap.mp h
  have hlt := b.toNat_lt
  unfold quoteByte at hc
  split at hc
  · next hsafe =>
    obtain rfl := List.mem_singleton.mp hc
    obtain ⟨hnat, hlow, hhigh, hno⟩ := toNat_of_isAlwaysSafe hsafe
    rw [hnat]
    exact ⟨hlow, hhigh, fun hmem => hno (List.mem_cons_of_mem _ hmem)⟩
  · simp only [List.mem_cons, List.not_mem_nil, or_false] at hc
    rcases hc with rfl | rfl | rfl
    · decide
    · exact (upperDigit_facts _ (by omega)).2
    · exact (upperDigit_facts _ (by omega)).2

end AgentCraft.Python
