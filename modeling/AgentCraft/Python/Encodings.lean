import AgentCraft.Python.JsonDumps
import AgentCraft.Python.Utf8

/-!
# Texts as bytes, and bytes as texts

`str.encode()`, which raises for surrogates, and the base64 of `base64.urlsafe_b64encode`. Its decoder is that
of `binascii`: it skips what is not of the alphabet, takes both alphabets and leaves the bits after the last
byte aside, so that many texts stand for the same bytes.
-/

namespace AgentCraft.Python

/-! ## UTF-8 -/

/-- `str.encode()`; none stands for `UnicodeEncodeError`. -/
def encode (t : List ℕ) : Option (List UInt8) :=
  if isEncodable t then some (encodeUtf8 (String.ofList (chars t))) else none

/-- `bytes.decode()`; none stands for `UnicodeDecodeError`. -/
def decode (bs : List UInt8) : Option (List ℕ) := (decodeUtf8 bs).map codePoints

theorem encode_eq_none_iff {t : List ℕ} : encode t = none ↔ isEncodable t = false := by
  unfold encode
  split
  · next h => simp [h]
  · next h => simpa using h

/-- Encodable code points are those of their characters. -/
theorem map_toNat_chars {t : List ℕ} (ht : isEncodable t = true) : (chars t).map Char.toNat = t := by
  rw [chars, List.map_map]
  refine (List.map_congr_left fun n hn => ?_).trans (List.map_id t)
  exact toNat_ofNat (of_decide_eq_true (List.all_eq_true.mp ht n hn))

/-- Decoding inverts encoding. -/
theorem decode_of_encode {t : List ℕ} {bs : List UInt8} (h : encode t = some bs) : decode bs = some t := by
  unfold encode at h
  split at h
  · next ht =>
    rw [← Option.some.inj h, decode, decodeUtf8_encodeUtf8, Option.map_some, codePoints, String.toList_ofList,
      map_toNat_chars ht]
  · cases h

/-- No two texts are encoded alike. -/
theorem encode_eq_iff {t t' : List ℕ} (ht : isEncodable t = true) : encode t = encode t' ↔ t = t' := by
  refine ⟨fun h => ?_, congrArg encode⟩
  have hsome : encode t = some (encodeUtf8 (String.ofList (chars t))) := if_pos ht
  have hback := decode_of_encode (h.symm.trans hsome)
  rw [decode_of_encode hsome, Option.some.injEq] at hback
  exact hback

/-! ## The alphabet -/

/-- The character of six bits, in the alphabet for URLs. -/
def base64Char (v : ℕ) : ℕ :=
  if v < 26 then 65 + v else if v < 52 then 71 + v else if v < 62 then v - 4 else if v = 62 then 0x2D else 0x5F

/-- `_urlsafe_decode_translation` and `table_a2b_base64`: the six bits of a character, in either alphabet. -/
def base64Value (c : ℕ) : Option ℕ :=
  if 65 ≤ c ∧ c < 91 then some (c - 65)
  else if 97 ≤ c ∧ c < 123 then some (c - 71)
  else if 48 ≤ c ∧ c < 58 then some (c + 4)
  else if c = 0x2B ∨ c = 0x2D then some 62
  else if c = 0x2F ∨ c = 0x5F then some 63
  else none

/-- The character that fills a text up. -/
def padding : ℕ := 0x3D

theorem base64Char_spec : ∀ v < 64, base64Value (base64Char v) = some v ∧ base64Char v ≠ padding ∧
    base64Char v < 128 ∧ isGraphic (Char.ofNat (base64Char v)) = true ∧ base64Char v ≠ 0x2C ∧
      base64Char v ≠ 0x3A := by
  decide

/-! ## Encoding -/

/-- The characters for some bytes. -/
@[grind] def base64Chars : List UInt8 → List ℕ
  | a :: b :: c :: l =>
    base64Char (a.toNat / 4) :: base64Char (a.toNat % 4 * 16 + b.toNat / 16) ::
      base64Char (b.toNat % 16 * 4 + c.toNat / 64) :: base64Char (c.toNat % 64) :: base64Chars l
  | [a, b] =>
    [base64Char (a.toNat / 4), base64Char (a.toNat % 4 * 16 + b.toNat / 16), base64Char (b.toNat % 16 * 4)]
  | [a] => [base64Char (a.toNat / 4), base64Char (a.toNat % 4 * 16)]
  | [] => []

/-- `"=" * (-len(s) % 4)`. -/
def paddingFor (s : List ℕ) : List ℕ := List.replicate ((4 - s.length % 4) % 4) padding

/-- `base64.urlsafe_b64encode`. -/
def urlsafeB64Encode (bs : List UInt8) : List ℕ := base64Chars bs ++ paddingFor (base64Chars bs)

/-! ## Decoding -/

/-- `binascii.a2b_base64`: `position` counts the characters of a group, `left` is what is left of the last one,
`pads` counts the padding. None stands for `binascii.Error`. -/
@[grind] def a2bBase64 (position left pads : ℕ) : List ℕ → Option (List UInt8)
  | [] => if position = 0 then some [] else none
  | c :: s =>
    if c = padding then
      if 2 ≤ position then
        if 4 ≤ position + (pads + 1) then some [] else a2bBase64 position left (pads + 1) s
      else a2bBase64 position left pads s
    else match base64Value c with
      | none => a2bBase64 position left pads s
      | some v =>
        match position with
        | 0 => a2bBase64 1 v 0 s
        | 1 => (a2bBase64 2 (v % 16) 0 s).map (UInt8.ofNat (left * 4 + v / 16) :: ·)
        | 2 => (a2bBase64 3 (v % 4) 0 s).map (UInt8.ofNat (left * 16 + v / 4) :: ·)
        | _ => (a2bBase64 0 0 0 s).map (UInt8.ofNat (left * 64 + v) :: ·)

/-- `base64.urlsafe_b64decode`; none stands for any error. -/
def urlsafeB64Decode (s : List ℕ) : Option (List UInt8) :=
  if s.all (· < 128) then a2bBase64 0 0 0 s else none

/-! ## Round trip -/

section RoundTrip

variable {position left pads v : ℕ} {s : List ℕ}

theorem a2bBase64_first (hv : v < 64) : a2bBase64 0 left pads (base64Char v :: s) = a2bBase64 1 v 0 s := by
  obtain ⟨hvalue, hpad, -⟩ := base64Char_spec v hv
  rw [a2bBase64, if_neg hpad, hvalue]
  rfl

theorem a2bBase64_second (hv : v < 64) : a2bBase64 1 left pads (base64Char v :: s) =
    (a2bBase64 2 (v % 16) 0 s).map (UInt8.ofNat (left * 4 + v / 16) :: ·) := by
  obtain ⟨hvalue, hpad, -⟩ := base64Char_spec v hv
  rw [a2bBase64, if_neg hpad, hvalue]
  rfl

theorem a2bBase64_third (hv : v < 64) : a2bBase64 2 left pads (base64Char v :: s) =
    (a2bBase64 3 (v % 4) 0 s).map (UInt8.ofNat (left * 16 + v / 4) :: ·) := by
  obtain ⟨hvalue, hpad, -⟩ := base64Char_spec v hv
  rw [a2bBase64, if_neg hpad, hvalue]
  rfl

theorem a2bBase64_fourth (hv : v < 64) : a2bBase64 3 left pads (base64Char v :: s) =
    (a2bBase64 0 0 0 s).map (UInt8.ofNat (left * 64 + v) :: ·) := by
  obtain ⟨hvalue, hpad, -⟩ := base64Char_spec v hv
  rw [a2bBase64, if_neg hpad, hvalue]
  rfl

end RoundTrip

theorem ofNat_of_eq {n : ℕ} {b : UInt8} (h : n = b.toNat) : UInt8.ofNat n = b := by
  rw [h, UInt8.ofNat_toNat]

/-- The characters of some bytes are read back, with any padding that fills them up. -/
theorem a2bBase64_base64Chars (bs : List UInt8) :
    a2bBase64 0 0 0 (base64Chars bs ++ paddingFor (base64Chars bs)) = some bs := by
  induction bs using base64Chars.induct with
  | case1 a b c l ih =>
    have ha := a.toNat_lt
    have hb := b.toNat_lt
    have hc := c.toNat_lt
    have hpad : paddingFor (base64Chars (a :: b :: c :: l)) = paddingFor (base64Chars l) := by
      have hlength : (base64Chars (a :: b :: c :: l)).length = (base64Chars l).length + 4 := rfl
      rw [paddingFor, paddingFor, hlength, Nat.add_mod_right]
    rw [hpad, base64Chars, List.cons_append, List.cons_append, List.cons_append, List.cons_append,
      a2bBase64_first (by omega), a2bBase64_second (by omega), a2bBase64_third (by omega),
      a2bBase64_fourth (by omega), ih, ofNat_of_eq (b := a) (by omega), ofNat_of_eq (b := b) (by omega),
      ofNat_of_eq (b := c) (by omega)]
    rfl
  | case2 a b =>
    have ha := a.toNat_lt
    have hb := b.toNat_lt
    have hpad : paddingFor (base64Chars [a, b]) = [padding] := rfl
    have hend : a2bBase64 3 (b.toNat % 16 * 4 % 4) 0 [padding] = some [] := by
      rw [a2bBase64, if_pos rfl, if_pos (by decide), if_pos (by decide)]
    rw [hpad, base64Chars, List.cons_append, List.cons_append, List.cons_append, List.nil_append,
      a2bBase64_first (by omega), a2bBase64_second (by omega), a2bBase64_third (by omega), hend,
      ofNat_of_eq (b := a) (by omega), ofNat_of_eq (b := b) (by omega)]
    rfl
  | case3 a =>
    have ha := a.toNat_lt
    have hpad : paddingFor (base64Chars [a]) = [padding, padding] := rfl
    have hend (left : ℕ) : a2bBase64 2 left 0 [padding, padding] = some [] := by
      rw [a2bBase64, if_pos rfl, if_pos (by decide), if_neg (by decide), a2bBase64, if_pos rfl,
        if_pos (by decide), if_pos (by decide)]
    rw [hpad, base64Chars, List.cons_append, List.cons_append, List.nil_append, a2bBase64_first (by omega),
      a2bBase64_second (by omega), hend, ofNat_of_eq (b := a) (by omega)]
    rfl
  | case4 => rfl

/-- What holds of the whole alphabet holds of the characters of bytes. -/
theorem forall_mem_base64Chars {p : ℕ → Prop} (h : ∀ v < 64, p (base64Char v)) (bs : List UInt8) :
    ∀ c ∈ base64Chars bs, p c := by
  induction bs using base64Chars.induct with
  | case1 a b c l ih =>
    have ha := a.toNat_lt
    have hb := b.toNat_lt
    have hc := c.toNat_lt
    rw [base64Chars, List.forall_mem_cons, List.forall_mem_cons, List.forall_mem_cons, List.forall_mem_cons]
    exact ⟨h _ (by omega), h _ (by omega), h _ (by omega), h _ (by omega), ih⟩
  | case2 a b =>
    have ha := a.toNat_lt
    have hb := b.toNat_lt
    rw [base64Chars, List.forall_mem_cons, List.forall_mem_cons, List.forall_mem_singleton]
    exact ⟨h _ (by omega), h _ (by omega), h _ (by omega)⟩
  | case3 a =>
    have ha := a.toNat_lt
    rw [base64Chars, List.forall_mem_cons, List.forall_mem_singleton]
    exact ⟨h _ (by omega), h _ (by omega)⟩
  | case4 => exact fun c hc => by cases hc

/-- Without its padding a text is the characters of its bytes. -/
theorem rdropWhile_urlsafeB64Encode (bs : List UInt8) :
    (urlsafeB64Encode bs).rdropWhile (· == padding) = base64Chars bs := by
  have hpads (n : ℕ) : (base64Chars bs ++ List.replicate n padding).rdropWhile (· == padding) =
      (base64Chars bs).rdropWhile (· == padding) := by
    induction n with
    | zero => rw [List.replicate_zero, List.append_nil]
    | succ n ih =>
      rw [List.replicate_succ', ← List.append_assoc, List.rdropWhile_concat_pos _ _ _ (by simp), ih]
  rw [urlsafeB64Encode, paddingFor, hpads]
  refine List.rdropWhile_eq_self_iff.mpr fun hne => ?_
  have hmem := forall_mem_base64Chars (p := (· ≠ padding)) (fun v hv => (base64Char_spec v hv).2.1) bs _
    (List.getLast_mem hne)
  simpa using hmem

end AgentCraft.Python
