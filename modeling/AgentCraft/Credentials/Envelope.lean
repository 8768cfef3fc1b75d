import AgentCraft.Python.Encodings
import AgentCraft.Python.JsonNumbers
import AgentCraft.Python.Text

/-!
# Envelopes

`utils/crypto.py`: texts that are encrypted with AES-256-GCM, in an envelope `{v, alg, kid, nonce, ciphertext,
tag}`. The cipher is a parameter; of `os.urandom` only the bytes are seen that it has given.
-/

namespace AgentCraft.Credentials

open AgentCraft.Python AgentCraft.Transition

abbrev Bytes := List UInt8

/-- What sealing and opening raise. -/
inductive CryptoFailure
  /-- `EncryptionError`. -/
  | encryption
  /-- `UnicodeEncodeError`. -/
  | unicodeEncode
  /-- `TypeError`. -/
  | typeError
  /-- `RecursionError`. -/
  | recursion
deriving DecidableEq, Repr

/-- `AESGCM(key)`: what is encrypted comes with its tag at the end, and decrypting raises (none) if the tag is
not that of the arguments. -/
structure Aesgcm where
  encrypt : (key nonce plaintext aad : Bytes) → Bytes
  decrypt : (key nonce sealed aad : Bytes) → Option Bytes

/-- `_NONCE_BYTES`. -/
def nonceBytes : ℕ := 12

/-- `_TAG_BYTES`. -/
def tagBytes : ℕ := 16

/-- `_KEY_BYTES`. -/
def keyBytes : ℕ := 32

/-! ## Base64 without padding -/

/-- `_b64url_encode`. -/
def b64urlEncode (data : Bytes) : List ℕ := (urlsafeB64Encode data).rdropWhile (· == padding)

/-- `_b64url_decode`; none stands for its `EncryptionError`. -/
def b64urlDecode (value : List ℕ) : Option Bytes := urlsafeB64Decode (value ++ paddingFor value)

/-- `_b64url_decode` of a field. What is no text has no length, or cannot be padded. -/
def decodeField : Json → Option Bytes
  | .str u => b64urlDecode u
  | _ => none

theorem b64urlEncode_eq (data : Bytes) : b64urlEncode data = base64Chars data := rdropWhile_urlsafeB64Encode data

@[simp] theorem b64urlDecode_b64urlEncode (data : Bytes) : b64urlDecode (b64urlEncode data) = some data := by
  have hascii : (base64Chars data ++ paddingFor (base64Chars data)).all (· < 128) = true := by
    refine List.all_eq_true.mpr fun c hc => ?_
    rcases List.mem_append.mp hc with hchar | hpad
    · have hlt := forall_mem_base64Chars (p := (· < 128)) (fun v hv => (base64Char_spec v hv).2.2.1) data c hchar
      exact decide_eq_true hlt
    · rw [List.eq_of_mem_replicate hpad]
      rfl
  rw [b64urlDecode, b64urlEncode_eq, urlsafeB64Decode, if_pos hascii, a2bBase64_base64Chars]

theorem isEncodable_b64urlEncode (data : Bytes) : isEncodable (b64urlEncode data) = true := by
  rw [b64urlEncode_eq]
  refine List.all_eq_true.mpr fun c hc => decide_eq_true (isValidChar_of_lt ?_)
  exact forall_mem_base64Chars (p := (· < 128)) (fun v hv => (base64Char_spec v hv).2.2.1) data c hc

/-! ## Key rings -/

/-- A dictionary of keys by their version. -/
abbrev KeyRing := List (String × Bytes)

namespace KeyRing

/-- `keyring.get(kid)`. -/
def get? (ring : KeyRing) (kid : String) : Option Bytes := (ring.find? (·.1 = kid)).map Prod.snd

/-- The key of a version as an envelope has it. -/
def ofKid (ring : KeyRing) : Json → Option Bytes
  | .str u => (ring.find? (codePoints ·.1 = u)).map Prod.snd
  | _ => none

/-- `keyring[kid] = key`. -/
@[grind] def set (kid : String) (key : Bytes) : KeyRing → KeyRing
  | [] => [(kid, key)]
  | p :: ring => if p.1 = kid then (kid, key) :: ring else p :: set kid key ring

theorem codePoints_inj {s t : String} : codePoints s = codePoints t ↔ s = t := by
  refine ⟨fun h => ?_, congrArg codePoints⟩
  exact String.toList_injective ((List.map_injective_iff.mpr fun a b => Char.toNat_inj.mp) h)

@[simp] theorem ofKid_ofString (ring : KeyRing) (kid : String) : ring.ofKid (.ofString kid) = ring.get? kid := by
  simp only [ofKid, Json.ofString, get?, codePoints_inj]

/-- Only texts are versions of a ring. -/
theorem hashable_of_ofKid {ring : KeyRing} {kid : Json} {key : Bytes} (h : ring.ofKid kid = some key) :
    kid.hashable = true := by
  cases kid with
  | arr l => cases h
  | obj l => cases h
  | _ => rfl

end KeyRing

/-- An entry `kid:key` of `MCP_ENCRYPTION_KEYRING`. -/
def keyringEntry (entry : List Char) : Except CryptoFailure (String × Bytes) :=
  let entry := strip entry
  let kid := strip (entry.takeWhile (· ≠ ':'))
  if ':' ∉ entry then .error .encryption
  else match b64urlDecode ((entry.dropWhile (· ≠ ':')).tail.map Char.toNat) with
    | none => .error .encryption
    | some key => if key.length ≠ keyBytes ∨ kid = [] then .error .encryption else .ok (String.ofList kid, key)

/-- `make_keyring`: the version to write with, and the ring. -/
def makeKeyring (raw : List Char) (activeKid : Option String) : Except CryptoFailure (String × KeyRing) :=
  if strip raw = [] then .error .encryption
  else do
    let entries ← (raw.splitOn ',').mapM keyringEntry
    let ring := entries.foldl (fun ring e => KeyRing.set e.1 e.2 ring) []
    match activeKid with
    | some kid => if (ring.get? kid).isNone then .error .encryption else .ok (kid, ring)
    | none =>
      match entries with
      | [] => .error .encryption
      | e :: _ => .ok (e.1, ring)

/-! ## Encryption -/

/-- The dictionary that `encrypt_text` returns. -/
def envelopeFields (kid : String) (nonce sealed : Bytes) : List (List ℕ × Json) := [
  (codePoints "v", .int 1),
  (codePoints "alg", .ofString "A256GCM"),
  (codePoints "kid", .ofString kid),
  (codePoints "nonce", .str (b64urlEncode nonce)),
  (codePoints "ciphertext", .str (b64urlEncode (sealed.take (sealed.length - tagBytes)))),
  (codePoints "tag", .str (b64urlEncode (sealed.drop (sealed.length - tagBytes))))]

/-- `encrypt_text`, with the nonce that `os.urandom` gives. -/
def encryptText (aes : Aesgcm) (nonce : Bytes) (plaintext : List ℕ) (aad : String) (ring : KeyRing)
    (activeKid : String) : Except CryptoFailure (List (List ℕ × Json)) :=
  if plaintext = [] then .error .encryption
  else match ring.get? activeKid with
    | none => .error .encryption
    | some key =>
      match encode plaintext with
      | none => .error .unicodeEncode
      | some bytes => .ok (envelopeFields activeKid nonce (aes.encrypt key nonce bytes (encodeUtf8 aad)))

/-- The arguments of a call of `encrypt`. -/
structure Call where
  key : Bytes
  nonce : Bytes
  plaintext : Bytes
  aad : Bytes
deriving DecidableEq, Repr

def Call.sealed (aes : Aesgcm) (c : Call) : Bytes := aes.encrypt c.key c.nonce c.plaintext c.aad

/-- The call of `encrypt` that `encrypt_text` makes. -/
def encryptCall (nonce : Bytes) (plaintext : List ℕ) (aad : String) (ring : KeyRing) (activeKid : String) :
    Option Call :=
  if plaintext = [] then none
  else do
    let key ← ring.get? activeKid
    let bytes ← encode plaintext
    return ⟨key, nonce, bytes, encodeUtf8 aad⟩

/-- The envelope is that of its call. -/
theorem encryptText_eq_ok {aes : Aesgcm} {nonce : Bytes} {plaintext : List ℕ} {aad : String} {ring : KeyRing}
    {activeKid : String} {l : List (List ℕ × Json)}
    (h : encryptText aes nonce plaintext aad ring activeKid = .ok l) :
    ∃ key bytes, plaintext ≠ [] ∧ ring.get? activeKid = some key ∧ encode plaintext = some bytes ∧
      encryptCall nonce plaintext aad ring activeKid = some ⟨key, nonce, bytes, encodeUtf8 aad⟩ ∧
      l = envelopeFields activeKid nonce (Call.sealed aes ⟨key, nonce, bytes, encodeUtf8 aad⟩) := by
  unfold encryptText at h
  split at h
  · cases h
  · next hne =>
    split at h
    · cases h
    · next key hkey =>
      split at h
      · cases h
      · next bytes hbytes =>
        refine ⟨key, bytes, hne, hkey, hbytes, ?_, (Except.ok.inj h).symm⟩
        rw [encryptCall, if_neg hne, hkey, hbytes]
        rfl

/-! ## Decryption -/

/-- What `decrypt_text` takes from an envelope. -/
structure Parts where
  kid : Json
  nonce : Bytes
  ciphertext : Bytes
  tag : Bytes
deriving DecidableEq

/-- The `try` block of `decrypt_text`; none stands for its `EncryptionError`. What is no dictionary has no
items. -/
def parts : Json → Option Parts
  | .obj l => do
    let kid ← l.lookup (codePoints "kid")
    let nonce ← (l.lookup (codePoints "nonce")).bind decodeField
    let ciphertext ← (l.lookup (codePoints "ciphertext")).bind decodeField
    let tag ← (l.lookup (codePoints "tag")).bind decodeField
    return ⟨kid, nonce, ciphertext, tag⟩
  | _ => none

/-- `envelope.get("v") != 1 or envelope.get("alg") != "A256GCM"`, negated. -/
def isSupported : Json → Bool
  | .obj l => (getItem l "v").equalsInt 1 && getItem l "alg" = .ofString "A256GCM"
  | _ => false

/-- `decrypt_text`. -/
def decryptText (aes : Aesgcm) (envelope : Json) (aad : String) (ring : KeyRing) :
    Except CryptoFailure (List ℕ) :=
  match parts envelope with
  | none => .error .encryption
  | some p =>
    if isSupported envelope = false then .error .encryption
    else if p.kid.hashable = false then .error .typeError
    else match ring.ofKid p.kid with
      | none => .error .encryption
      | some key =>
        if p.nonce.length ≠ nonceBytes ∨ p.tag.length ≠ tagBytes then .error .encryption
        else match (aes.decrypt key p.nonce (p.ciphertext ++ p.tag) (encodeUtf8 aad)).bind decode with
          | none => .error .encryption
          | some text => .ok text

/-- The envelope opens with this key of the ring, and the bytes in it are this text. -/
structure Opens (aes : Aesgcm) (envelope : Json) (aad : String) (ring : KeyRing) (p : Parts) (key : Bytes)
    (text : List ℕ) : Prop where
  parts_eq : parts envelope = some p
  supported : isSupported envelope = true
  key_eq : ring.ofKid p.kid = some key
  nonce_length : p.nonce.length = nonceBytes
  tag_length : p.tag.length = tagBytes
  decrypted : ∃ bytes, aes.decrypt key p.nonce (p.ciphertext ++ p.tag) (encodeUtf8 aad) = some bytes ∧
    decode bytes = some text

/-- The lookup of the version raises. -/
def HasUnhashableKid (envelope : Json) : Prop :=
  ∃ p, parts envelope = some p ∧ isSupported envelope = true ∧ p.kid.hashable = false

section Decryption

variable {aes : Aesgcm} {envelope : Json} {aad : String} {ring : KeyRing} {text : List ℕ}

theorem Opens.decryptText_eq {p : Parts} {key : Bytes} (h : Opens aes envelope aad ring p key text) :
    decryptText aes envelope aad ring = .ok text := by
  obtain ⟨hparts, hsupported, hkey, hnonce, htag, bytes, hbytes, htext⟩ := h
  have hhashable := KeyRing.hashable_of_ofKid hkey
  unfold decryptText
  rw [hparts]
  dsimp only
  rw [hsupported, hhashable, hkey, if_neg Bool.noConfusion, if_neg Bool.noConfusion]
  dsimp only
  rw [if_neg (by simp [hnonce, htag]), hbytes, Option.bind_some, htext]

/-- Decrypting returns a text, or fails with the one error, or the version cannot be looked up. -/
theorem decryptText_cases (aes : Aesgcm) (envelope : Json) (aad : String) (ring : KeyRing) :
    (∃ p key text, Opens aes envelope aad ring p key text) ∨
    decryptText aes envelope aad ring = .error .encryption ∨
      HasUnhashableKid envelope ∧ decryptText aes envelope aad ring = .error .typeError := by
  unfold decryptText
  cases hparts : parts envelope with
  | none => exact .inr (.inl rfl)
  | some p =>
    dsimp only
    split
    · exact .inr (.inl rfl)
    · next hsupported =>
      have hsupported := Bool.eq_true_of_not_eq_false hsupported
      split
      · next hkid => exact .inr (.inr ⟨⟨p, hparts, hsupported, hkid⟩, rfl⟩)
      · split
        · exact .inr (.inl rfl)
        · next key hkey =>
          split
          · exact .inr (.inl rfl)
          · next hlength =>
            rw [not_or, not_not, not_not] at hlength
            split
            · exact .inr (.inl rfl)
            · next text htext =>
              obtain ⟨bytes, hbytes, hdecode⟩ := Option.bind_eq_some_iff.mp htext
              exact .inl ⟨p, key, text, hparts, hsupported, hkey, hlength.1, hlength.2, bytes, hbytes, hdecode⟩

theorem HasUnhashableKid.decryptText_eq (h : HasUnhashableKid envelope) :
    decryptText aes envelope aad ring = .error .typeError := by
  obtain ⟨p, hparts, hsupported, hkid⟩ := h
  unfold decryptText
  rw [hparts]
  dsimp only
  rw [if_neg (by rw [hsupported]; exact Bool.noConfusion), if_pos hkid]

/-- Decrypting fails with `EncryptionError` unless the envelope opens or its version cannot be looked up. -/
theorem decryptText_eq_error_iff : decryptText aes envelope aad ring = .error .encryption ↔
    (¬ ∃ p key text, Opens aes envelope aad ring p key text) ∧ ¬ HasUnhashableKid envelope := by
  constructor
  · intro h
    refine ⟨?_, fun hkid => ?_⟩
    · rintro ⟨p, key, text, hopens⟩
      cases h.symm.trans hopens.decryptText_eq
    · cases h.symm.trans hkid.decryptText_eq
  · rintro ⟨hopens, hkid⟩
    rcases decryptText_cases aes envelope aad ring with h | h | h
    · exact absurd h hopens
    · exact h
    · exact absurd h.1 hkid

end Decryption

end AgentCraft.Credentials
