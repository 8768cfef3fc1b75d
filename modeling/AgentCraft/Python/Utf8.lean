import Mathlib.Data.List.DropRight

/-!
# Bytes as text

`bytes.decode("utf-8")`, which raises on ill-formed input, and `bytes.decode("utf-8", "replace")`, which
puts U+FFFD for every maximal part of an ill-formed sequence that could have begun a character.
-/

namespace AgentCraft.Python

/-- `bytes.decode("utf-8")`; none stands for `UnicodeDecodeError`. -/
def decodeUtf8 (bs : List UInt8) : Option String := String.fromUTF8? bs.toByteArray

/-- `str.encode("utf-8")`. -/
def encodeUtf8 (s : String) : List UInt8 := s.toList.flatMap String.utf8EncodeChar

/-- Decoding inverts encoding. -/
theorem decodeUtf8_encodeUtf8 (s : String) : decodeUtf8 (encodeUtf8 s) = some s := by
  have hvalid : (encodeUtf8 s).toByteArray.IsValidUTF8 := ⟨s.toList, rfl⟩
  rw [decodeUtf8, String.fromUTF8?, dif_pos hvalid]
  exact congrArg some String.ofList_toList

/-- Encoding inverts decoding. -/
theorem encodeUtf8_of_decodeUtf8 {bs : List UInt8} {s : String} (h : decodeUtf8 bs = some s) :
    encodeUtf8 s = bs := by
  unfold decodeUtf8 String.fromUTF8? at h
  split at h
  · obtain rfl := Option.some.inj h
    have hbytes : (encodeUtf8 (String.ofByteArray bs.toByteArray ‹_›)).toByteArray = bs.toByteArray :=
      String.utf8Encode_toList
    have hlist := congrArg (fun b : ByteArray => b.data.toList) hbytes
    simpa [String.fromUTF8] using hlist
  · cases h

theorem encodeUtf8_append (s t : String) : encodeUtf8 (s ++ t) = encodeUtf8 s ++ encodeUtf8 t := by
  rw [encodeUtf8, String.toList_append, List.flatMap_append]
  rfl

/-- The last byte of a character: the character itself, or a byte above ASCII. -/
theorem getLast?_utf8EncodeChar (c : Char) :
    (String.utf8EncodeChar c).getLast? =
      some (if c.val ≤ 127 then c.val.toUInt8 else c.val.toUInt8 &&& 0x3f ||| 0x80) := by
  by_cases h : c.val ≤ 127
  · rw [String.utf8EncodeChar_eq_singleton (Char.utf8Size_eq_one_iff.mpr h), if_pos h]
    rfl
  · rw [if_neg h]
    have hpos := c.utf8Size_pos
    have hle := c.utf8Size_le_four
    have hne : c.utf8Size ≠ 1 := fun hone => h (Char.utf8Size_eq_one_iff.mp hone)
    obtain hsize | hsize | hsize : c.utf8Size = 2 ∨ c.utf8Size = 3 ∨ c.utf8Size = 4 := by omega
    · rw [String.utf8EncodeChar_eq_cons_cons hsize]
      rfl
    · rw [String.utf8EncodeChar_eq_cons_cons_cons hsize]
      rfl
    · rw [String.utf8EncodeChar_eq_cons_cons_cons_cons hsize]
      rfl

theorem toNat_toUInt8 {v : UInt32} (h : v ≤ 127) : v.toUInt8.toNat = v.toNat ∧ v.toNat ≤ 127 := by
  have hle : v.toNat ≤ 127 := UInt32.le_iff_toNat_le.mp h
  refine ⟨?_, hle⟩
  rw [UInt32.toNat_toUInt8]
  omega

/-- A text ends with an ASCII character exactly if its bytes do. -/
theorem getLast?_encodeUtf8 {c : Char} (hc : c.val ≤ 127) (s : String) :
    (encodeUtf8 s).getLast? = some c.val.toUInt8 ↔ s.toList.getLast? = some c := by
  unfold encodeUtf8
  obtain hnil | ⟨l, d, hlast⟩ := List.eq_nil_or_concat s.toList
  · simp [hnil]
  · rw [hlast, List.concat_eq_append, List.flatMap_append, List.flatMap_singleton,
      List.getLast?_append, getLast?_utf8EncodeChar, List.getLast?_concat]
    simp only [Option.some_or, Option.some.injEq]
    split
    · next hd =>
      constructor
      · intro h
        refine Char.ext (UInt32.toNat_inj.mp ?_)
        have hnat := congrArg UInt8.toNat h
        rwa [(toNat_toUInt8 hd).1, (toNat_toUInt8 hc).1] at hnat
      · rintro rfl
        rfl
    · next hd =>
      constructor
      · intro h
        have hnat := congrArg UInt8.toNat h
        rw [UInt8.toNat_or] at hnat
        have hle : 128 ≤ c.val.toUInt8.toNat := hnat ▸ Nat.right_le_or
        obtain ⟨heq, hmax⟩ := toNat_toUInt8 hc
        omega
      · rintro rfl
        exact absurd hc hd

/-- An ASCII character of a text is one of its bytes. -/
theorem mem_encodeUtf8 {c : Char} (hc : c.val ≤ 127) {s : String} (h : c ∈ s.toList) :
    c.val.toUInt8 ∈ encodeUtf8 s := by
  refine List.mem_flatMap_of_mem h ?_
  rw [String.utf8EncodeChar_eq_singleton (Char.utf8Size_eq_one_iff.mpr hc)]
  exact List.mem_singleton_self _

/-- The length of a sequence that starts with the byte; zero if none does. -/
def sequenceLength (b : UInt8) : ℕ :=
  if b < 0x80 then 1 else if b < 0xC2 then 0 else if b < 0xE0 then 2
  else if b < 0xF0 then 3 else if b < 0xF5 then 4 else 0

/-- The byte may be the second one of a sequence. -/
def isSecondByte (first b : UInt8) : Bool :=
  (if first = 0xE0 then 0xA0 else if first = 0xF0 then 0x90 else 0x80) ≤ b &&
    b ≤ (if first = 0xED then 0x9F else if first = 0xF4 then 0x8F else 0xBF)

/-- How many bytes at the head could begin a character. -/
def wellFormedHead : List UInt8 → ℕ
  | [] => 0
  | [b] => if sequenceLength b = 0 then 0 else 1
  | b :: c :: bs =>
    if sequenceLength b = 0 then 0
    else if sequenceLength b = 1 then 1
    else if isSecondByte b c then
      2 + ((bs.take (sequenceLength b - 2)).takeWhile fun d => 0x80 ≤ d && d ≤ 0xBF).length
    else 1

/-- The text with the ill-formed parts replaced, of at most `n` parts. -/
@[grind] def replaceIllFormed : ℕ → List UInt8 → String
  | 0, _ | _, [] => ""
  | n + 1, b :: bs =>
    let k := wellFormedHead (b :: bs)
    let head := if k = sequenceLength b then decodeUtf8 ((b :: bs).take k) else none
    if k = 0 then "\uFFFD" ++ replaceIllFormed n bs
    else head.getD "\uFFFD" ++ replaceIllFormed n ((b :: bs).drop k)

/-- `bytes.decode("utf-8", "replace")`. -/
def decodeReplace (bs : List UInt8) : String :=
  (decodeUtf8 bs).getD (replaceIllFormed bs.length bs)

/-- Well-formed text is decoded alike. -/
theorem decodeReplace_eq {bs : List UInt8} {s : String} (h : decodeUtf8 bs = some s) :
    decodeReplace bs = s := by
  rw [decodeReplace, h, Option.getD_some]

/-- `str.rstrip(chars)`. -/
def rstrip (chars : List Char) (s : String) : String :=
  String.ofList (s.toList.rdropWhile chars.contains)

/-- What stripping takes is decided by the last character. -/
theorem rstrip_eq_self_iff {chars : List Char} {s : String} :
    rstrip chars s = s ↔ ∀ c ∈ chars, s.toList.getLast? ≠ some c := by
  rw [rstrip, ← String.toList_inj, String.toList_ofList, List.rdropWhile_eq_self_iff]
  constructor
  · intro h c hc hlast
    obtain ⟨l, hl⟩ := List.getLast?_eq_some_iff.mp hlast
    have hne : s.toList ≠ [] := by rw [hl]; simp
    refine h hne ?_
    simpa [hl] using hc
  · intro h hne hmem
    exact h _ (by simpa using hmem) (List.getLast?_eq_some_getLast hne)

theorem rdropWhile_congr {α : Type*} {p q : α → Bool} {l : List α} (h : ∀ x ∈ l, p x = q x) :
    l.rdropWhile p = l.rdropWhile q := by
  induction l using List.reverseRecOn with
  | nil => rfl
  | append_singleton l x ih =>
    rw [List.rdropWhile_concat, List.rdropWhile_concat, h x (by simp),
      ih fun y hy => h y (List.mem_append_left _ hy)]

/-- A newline that is stripped with the carriage returns. -/
theorem rstrip_newline {s : String} (h : '\n' ∉ s.toList) :
    rstrip ['\r', '\n'] (s ++ "\n") = rstrip ['\r'] s := by
  have hlist : (s ++ "\n").toList = s.toList ++ ['\n'] := by simp
  rw [rstrip, rstrip, hlist, List.rdropWhile_concat_pos _ _ _ (by decide)]
  refine congrArg String.ofList (rdropWhile_congr fun c hc => ?_)
  have hne : c ≠ '\n' := fun heq => h (heq ▸ hc)
  simp [hne]

end AgentCraft.Python
