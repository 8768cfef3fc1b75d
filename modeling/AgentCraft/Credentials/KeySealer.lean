import AgentCraft.Credentials.Envelope
import AgentCraft.Python.FlatObjects
import AgentCraft.Python.SortedDumps

/-!
# Sealed keys

`v2/provider_crypto.py`: a key is encrypted with a DEK of its own, and the DEK with the KEK of the ring. Both
envelopes are bound to the row by what they authenticate.

AES-GCM is ideal: it decrypts what has been encrypted, under the same arguments, and nothing else; the bytes of
`os.urandom` are fresh. A sealed key then opens for its row, under every ring that has its version, and for no
other row. A text in the place of one of its columns is refused with `EncryptionError` unless it spells the same
envelope, has an array or an object as its version, or is nested too deeply to be read
(`openSealed_safe_iff`).
-/

namespace AgentCraft.Credentials

open AgentCraft.Python AgentCraft.Transition

/-! ## The sealer -/

/-- `_AAD_BASE`. -/
def aadBase : String := "agentcraft:user_providers"

/-- `provider_key_aad`. -/
def providerKeyAad (providerId : String) : String := aadBase ++ ":" ++ providerId ++ ":key:v1"

/-- `provider_dek_aad`. -/
def providerDekAad (providerId : String) : String := aadBase ++ ":" ++ providerId ++ ":dek:v1"

/-- The two columns of a sealed key. -/
structure SealedKey where
  keyCiphertext : List Char
  dekWrapped : List Char
deriving DecidableEq, Repr

/-- What `os.urandom` gives for one `seal`. -/
structure Randomness where
  dek : Bytes
  dekNonce : Bytes
  keyNonce : Bytes
  dek_length : dek.length = keyBytes
  dekNonce_length : dekNonce.length = nonceBytes
  keyNonce_length : keyNonce.length = nonceBytes

/-- `_dumps`. -/
def dumps (envelope : List (List ℕ × Json)) : List Char := chars ((Json.obj envelope).sortKeys.text ⟨true, false⟩)

/-- `_loads`. -/
def loadsEnvelope (limits : Limits) (envelopeJson : List Char) : Except CryptoFailure Json :=
  match loads limits envelopeJson with
  | .ok v => .ok v
  | .error .recursion => .error .recursion
  | .error _ => .error .encryption

/-- The ring of a DEK. -/
def dekKeyring (dek : List ℕ) : Except CryptoFailure (String × KeyRing) :=
  makeKeyring ("primary:".toList ++ chars dek) none

/-- `KeySealer.seal`; `kek` is what the source of the KEK gives. -/
def sealKey (aes : Aesgcm) (kek : String × KeyRing) (random : Randomness) (plaintext : List ℕ) (providerId : String) :
    Except CryptoFailure SealedKey := do
  let dek := b64urlEncode random.dek
  let dekWrapped ← encryptText aes random.dekNonce dek (providerDekAad providerId) kek.2 kek.1
  let ring ← dekKeyring dek
  let keyCiphertext ← encryptText aes random.keyNonce plaintext (providerKeyAad providerId) ring.2 ring.1
  return ⟨dumps keyCiphertext, dumps dekWrapped⟩

/-- `decrypt_text(_loads(envelope_json), ...)`. -/
def openEnvelope (limits : Limits) (aes : Aesgcm) (envelopeJson : List Char) (aad : String) (ring : KeyRing) :
    Except CryptoFailure (List ℕ) := do
  let envelope ← loadsEnvelope limits envelopeJson
  decryptText aes envelope aad ring

/-- `KeySealer.open`. -/
def openSealed (limits : Limits) (aes : Aesgcm) (ring : KeyRing) (sealed : SealedKey) (providerId : String) :
    Except CryptoFailure (List ℕ) := do
  let dek ← openEnvelope limits aes sealed.dekWrapped (providerDekAad providerId) ring
  let dekRing ← dekKeyring dek
  openEnvelope limits aes sealed.keyCiphertext (providerKeyAad providerId) dekRing.2

/-! ## Ideal encryption -/

/-- The arguments of a `seal`. -/
structure Sealing where
  kek : String × KeyRing
  random : Randomness
  plaintext : List ℕ
  providerId : String

namespace Sealing

def columns (aes : Aesgcm) (s : Sealing) : Except CryptoFailure SealedKey :=
  sealKey aes s.kek s.random s.plaintext s.providerId

/-- The ring of its DEK. -/
def dekRing (s : Sealing) : KeyRing := [("primary", s.random.dek)]

/-- The call that encrypts the DEK. -/
def wrapCall (s : Sealing) : Option Call :=
  encryptCall s.random.dekNonce (b64urlEncode s.random.dek) (providerDekAad s.providerId) s.kek.2 s.kek.1

/-- The call that encrypts the key, after the other one. -/
def keyCall (s : Sealing) : Option Call :=
  s.wrapCall.bind fun _ =>
    encryptCall s.random.keyNonce s.plaintext (providerKeyAad s.providerId) s.dekRing "primary"

/-- The calls of `encrypt`. -/
def calls (s : Sealing) : List Call := s.wrapCall.toList ++ s.keyCall.toList

end Sealing

/-- An ideal authenticated cipher, after some calls of `encrypt`. -/
structure Aesgcm.Ideal (aes : Aesgcm) (calls : List Call) : Prop where
  /-- What is encrypted is as long as the plaintext, with a tag. -/
  length_sealed : ∀ c ∈ calls, (c.sealed aes).length = c.plaintext.length + tagBytes
  /-- What has been encrypted can be decrypted. -/
  correct : ∀ c ∈ calls, aes.decrypt c.key c.nonce (c.sealed aes) c.aad = some c.plaintext
  /-- Nothing else can be decrypted. -/
  authentic : ∀ key nonce bytes aad plaintext, aes.decrypt key nonce bytes aad = some plaintext →
    ⟨key, nonce, plaintext, aad⟩ ∈ calls ∧ Call.sealed aes ⟨key, nonce, plaintext, aad⟩ = bytes

/-- `os.urandom` never gives the same bytes twice. -/
structure FreshRandomness (history : List Sealing) : Prop where
  deks : (history.map (·.random.dek)).Nodup
  dekNonces : (history.map (·.random.dekNonce)).Nodup
  keyNonces : (history.map (·.random.keyNonce)).Nodup

/-! ## Additional data -/

theorem encodeUtf8_inj {s t : String} : encodeUtf8 s = encodeUtf8 t ↔ s = t := by
  refine ⟨fun h => ?_, congrArg encodeUtf8⟩
  have hdecoded := congrArg decodeUtf8 h
  rw [decodeUtf8_encodeUtf8, decodeUtf8_encodeUtf8] at hdecoded
  exact Option.some.inj hdecoded

/-- The additional data name the row. -/
theorem aad_inj {suffix i i' : String} (h : aadBase ++ ":" ++ i ++ suffix = aadBase ++ ":" ++ i' ++ suffix) :
    i = i' := by
  have hlist := congrArg String.toList h
  simp only [String.toList_append] at hlist
  exact String.toList_injective (List.append_cancel_left (List.append_cancel_right hlist))

/-- The two envelopes of a row are never mistaken for one another. -/
theorem dekAad_ne_keyAad (i i' : String) : providerDekAad i ≠ providerKeyAad i' := by
  intro h
  have hlist := congrArg (fun s : String => s.toList.reverse.take 7) h
  simp only [providerDekAad, providerKeyAad, String.toList_append, List.reverse_append, List.append_assoc] at hlist
  have hdek (l : List Char) : (":dek:v1".toList.reverse ++ l).take 7 = ":dek:v1".toList.reverse :=
    List.take_left' (by decide)
  have hkey (l : List Char) : (":key:v1".toList.reverse ++ l).take 7 = ":key:v1".toList.reverse :=
    List.take_left' (by decide)
  rw [hdek, hkey] at hlist
  exact absurd hlist (by decide)

/-! ## The ring of a DEK -/

theorem takeWhile_of_forall {α : Type*} {p : α → Bool} {l m : List α} {a : α} (hl : ∀ x ∈ l, p x = true)
    (ha : p a = false) : (l ++ a :: m).takeWhile p = l ∧ (l ++ a :: m).dropWhile p = a :: m := by
  rw [List.takeWhile_append_of_pos hl, List.dropWhile_append_of_pos hl, List.takeWhile_cons_of_neg (by simp [ha]),
    List.dropWhile_cons_of_neg (by simp [ha]), List.append_nil]
  exact ⟨rfl, rfl⟩

theorem strip_of_isGraphic {s : List Char} (hne : s ≠ []) (h : ∀ c ∈ s, isGraphic c = true) : strip s = s := by
  have hends : strip ([] ++ s ++ []) = s := strip_frame (fun x hx => by cases hx) (fun x hx => by cases hx)
    ⟨s.head hne, List.head?_eq_some_head hne, isSpace_of_isGraphic (h _ (List.head_mem hne))⟩
    ⟨s.getLast hne, List.getLast?_eq_some_getLast hne, isSpace_of_isGraphic (h _ (List.getLast_mem hne))⟩
  rwa [List.nil_append, List.append_nil] at hends

/-- A ring of one key. -/
theorem makeKeyring_singleton (kid : List Char) {key : Bytes}
    (hkid : ∀ c ∈ kid, isGraphic c = true ∧ c ≠ ',' ∧ c ≠ ':') (hne : kid ≠ []) (hkey : key.length = keyBytes) :
    makeKeyring (kid ++ ':' :: chars (b64urlEncode key)) none =
      .ok (String.ofList kid, [(String.ofList kid, key)]) := by
  have hencoded : ∀ c ∈ chars (b64urlEncode key), isGraphic c = true ∧ c ≠ ',' := by
    intro c hc
    rw [b64urlEncode_eq] at hc
    obtain ⟨n, hn, rfl⟩ := List.mem_map.mp hc
    obtain ⟨hlt, hgraphic, hcomma⟩ := forall_mem_base64Chars
      (p := fun n => n < 128 ∧ isGraphic (Char.ofNat n) = true ∧ n ≠ 0x2C)
      (fun v hv => ⟨(base64Char_spec v hv).2.2.1, (base64Char_spec v hv).2.2.2.1, (base64Char_spec v hv).2.2.2.2.1⟩)
      key n hn
    refine ⟨hgraphic, fun heq => hcomma ?_⟩
    have htoNat := congrArg Char.toNat heq
    rwa [toNat_ofNat (isValidChar_of_lt hlt)] at htoNat
  have hraw : ∀ c ∈ kid ++ ':' :: chars (b64urlEncode key), isGraphic c = true ∧ c ≠ ',' := by
    intro c hc
    rcases List.mem_append.mp hc with hc | hc
    · exact ⟨(hkid c hc).1, (hkid c hc).2.1⟩
    · rcases List.mem_cons.mp hc with rfl | hc
      · decide
      · exact hencoded c hc
  have hstrip := strip_of_isGraphic (List.append_ne_nil_of_left_ne_nil hne _) fun c hc => (hraw c hc).1
  have hstripKid := strip_of_isGraphic hne fun c hc => (hkid c hc).1
  obtain ⟨htake, hdrop⟩ := takeWhile_of_forall (p := (· ≠ ':')) (l := kid) (m := chars (b64urlEncode key)) (a := ':')
    (fun c hc => decide_eq_true (hkid c hc).2.2) (by decide)
  have hentry : keyringEntry (kid ++ ':' :: chars (b64urlEncode key)) = .ok (String.ofList kid, key) := by
    unfold keyringEntry
    dsimp only
    rw [hstrip, htake, hdrop, hstripKid, if_neg (by simp), List.tail_cons,
      map_toNat_chars (isEncodable_b64urlEncode key), b64urlDecode_b64urlEncode]
    exact if_neg (by simp [hkey, hne])
  have hsplit := List.splitOn_eq_singleton (a := ',') fun hmem => (hraw _ hmem).2 rfl
  unfold makeKeyring
  rw [hstrip, if_neg (List.append_ne_nil_of_left_ne_nil hne _), hsplit, List.mapM_cons, List.mapM_nil, hentry]
  rfl

theorem dekKeyring_b64urlEncode {dek : Bytes} (h : dek.length = keyBytes) :
    dekKeyring (b64urlEncode dek) = .ok ("primary", [("primary", dek)]) := by
  have hchars : ("primary".toList.all fun c => isGraphic c && (c != ',' && c != ':')) = true := by decide
  refine makeKeyring_singleton "primary".toList (fun c hc => ?_) (by decide) h
  simpa using List.all_eq_true.mp hchars c hc

/-! ## The columns -/

/-- The items of an envelope in the order of their keys. -/
def sortedFields (kid : String) (nonce sealed : Bytes) : List (List ℕ × Json) := [
  (codePoints "alg", .ofString "A256GCM"),
  (codePoints "ciphertext", .str (b64urlEncode (sealed.take (sealed.length - tagBytes)))),
  (codePoints "kid", .ofString kid),
  (codePoints "nonce", .str (b64urlEncode nonce)),
  (codePoints "tag", .str (b64urlEncode (sealed.drop (sealed.length - tagBytes)))),
  (codePoints "v", .int 1)]

theorem sortKeys_envelopeFields (kid : String) (nonce sealed : Bytes) :
    (Json.obj (envelopeFields kid nonce sealed)).sortKeys = .obj (sortedFields kid nonce sealed) := by
  rfl

/-- What `decrypt_text` takes from an envelope that has not been changed. -/
def sealedParts (kid : String) (nonce sealed : Bytes) : Parts :=
  ⟨.ofString kid, nonce, sealed.take (sealed.length - tagBytes), sealed.drop (sealed.length - tagBytes)⟩

theorem parts_sortedFields (kid : String) (nonce sealed : Bytes) :
    parts (.obj (sortedFields kid nonce sealed)) = some (sealedParts kid nonce sealed) := by
  have hparts : parts (.obj (sortedFields kid nonce sealed)) = (do
      let nonce' ← b64urlDecode (b64urlEncode nonce)
      let ciphertext ← b64urlDecode (b64urlEncode (sealed.take (sealed.length - tagBytes)))
      let tag ← b64urlDecode (b64urlEncode (sealed.drop (sealed.length - tagBytes)))
      return ⟨.ofString kid, nonce', ciphertext, tag⟩) := rfl
  rw [hparts, b64urlDecode_b64urlEncode, b64urlDecode_b64urlEncode, b64urlDecode_b64urlEncode]
  rfl

theorem isSupported_sortedFields (kid : String) (nonce sealed : Bytes) :
    isSupported (.obj (sortedFields kid nonce sealed)) = true := by
  rfl

/-- The limits allow a container, and a digit. -/
structure AllowFlat (limits : Limits) : Prop where
  depth : exceeds 1 limits.depth = false
  digits : exceeds 1 limits.digits = false

/-- A column is read back. -/
theorem loads_dumps {limits : Limits} (hlimits : AllowFlat limits) (kid : String) (nonce sealed : Bytes) :
    loads limits (dumps (envelopeFields kid nonce sealed)) = .ok (.obj (sortedFields kid nonce sealed)) := by
  rw [dumps, sortKeys_envelopeFields]
  have hbase64 (data : Bytes) : IsFlat (.str (b64urlEncode data)) := .inl ⟨_, rfl, isEncodable_b64urlEncode data⟩
  have htext (s : String) : IsFlat (.ofString s) := .inl ⟨_, rfl, isEncodable_codePoints s⟩
  have hone : IsFlat (.int 1) := .inr ⟨1, rfl, by decide⟩
  have hkeys : ((sortedFields kid nonce sealed).map Prod.fst).Nodup := by
    change (["alg", "ciphertext", "kid", "nonce", "tag", "v"].map codePoints).Nodup
    decide
  refine loads_flat hlimits.depth hlimits.digits _ (List.cons_ne_nil _ _) hkeys ?_
  simp only [sortedFields, List.forall_mem_cons, isEncodable_codePoints, true_and]
  exact ⟨htext _, hbase64 _, htext _, hbase64 _, hbase64 _, hone, fun p hp => by cases hp⟩

/-! ## One envelope -/

/-- The envelope in a text opens. -/
def TextOpens (limits : Limits) (aes : Aesgcm) (t : List Char) (aad : String) (ring : KeyRing) (p : Parts)
    (key : Bytes) (text : List ℕ) : Prop :=
  ∃ e, loads limits t = .ok e ∧ Opens aes e aad ring p key text

/-- A text whose envelope raises something else than `EncryptionError`. -/
def Escapes (limits : Limits) (t : List Char) : Prop :=
  loads limits t = .error .recursion ∨ ∃ e, loads limits t = .ok e ∧ HasUnhashableKid e

section OneEnvelope

variable {limits : Limits} {aes : Aesgcm} {t : List Char} {aad : String} {ring : KeyRing} {p : Parts} {key : Bytes}
  {text : List ℕ}

theorem TextOpens.openEnvelope_eq (h : TextOpens limits aes t aad ring p key text) :
    openEnvelope limits aes t aad ring = .ok text := by
  obtain ⟨e, he, hopens⟩ := h
  rw [openEnvelope, loadsEnvelope, he]
  exact hopens.decryptText_eq

theorem Escapes.openEnvelope_ne (h : Escapes limits t) (aes : Aesgcm) (aad : String) (ring : KeyRing) :
    ∃ f, f ≠ CryptoFailure.encryption ∧ openEnvelope limits aes t aad ring = .error f := by
  rcases h with hdeep | ⟨e, he, hkid⟩
  · refine ⟨.recursion, by decide, ?_⟩
    rw [openEnvelope, loadsEnvelope, hdeep]
    rfl
  · refine ⟨.typeError, by decide, ?_⟩
    rw [openEnvelope, loadsEnvelope, he]
    exact hkid.decryptText_eq

/-- An envelope opens, or is refused, or raises something else. -/
theorem openEnvelope_cases (limits : Limits) (aes : Aesgcm) (t : List Char) (aad : String) (ring : KeyRing) :
    (∃ p key text, TextOpens limits aes t aad ring p key text) ∨
      openEnvelope limits aes t aad ring = .error .encryption ∨ Escapes limits t := by
  cases hloads : loads limits t with
  | error f =>
    cases f with
    | recursion => exact .inr (.inr (.inl hloads))
    | _ =>
      refine .inr (.inl ?_)
      rw [openEnvelope, loadsEnvelope, hloads]
      rfl
  | ok e =>
    rcases decryptText_cases aes e aad ring with h | h | h
    · obtain ⟨p, key, text, hopens⟩ := h
      exact .inl ⟨p, key, text, e, hloads, hopens⟩
    · refine .inr (.inl ?_)
      rw [openEnvelope, loadsEnvelope, hloads]
      exact h
    · exact .inr (.inr (.inr ⟨e, hloads, h.1⟩))

/-- A column that has not been changed. -/
theorem not_escapes_dumps (hlimits : AllowFlat limits) (kid : String) (nonce sealed : Bytes) :
    ¬ Escapes limits (dumps (envelopeFields kid nonce sealed)) := by
  have hloads := loads_dumps hlimits kid nonce sealed
  rintro (hdeep | ⟨e, he, p, hp, -, hkid⟩)
  · cases hloads.symm.trans hdeep
  · obtain rfl := Except.ok.inj (hloads.symm.trans he)
    obtain rfl := Option.some.inj ((parts_sortedFields kid nonce sealed).symm.trans hp)
    cases hkid

/-- It opens exactly if its bytes are decrypted to a text, with the key of its version. -/
theorem textOpens_dumps_iff (hlimits : AllowFlat limits) {kid : String} {nonce sealed : Bytes}
    (hnonce : nonce.length = nonceBytes) (hsealed : tagBytes ≤ sealed.length) :
    TextOpens limits aes (dumps (envelopeFields kid nonce sealed)) aad ring p key text ↔
      p = sealedParts kid nonce sealed ∧ ring.get? kid = some key ∧
        ∃ bytes, aes.decrypt key nonce sealed (encodeUtf8 aad) = some bytes ∧ decode bytes = some text := by
  have hloads := loads_dumps hlimits kid nonce sealed
  have hparts := parts_sortedFields kid nonce sealed
  constructor
  · rintro ⟨e, he, hopens⟩
    obtain rfl := Except.ok.inj (hloads.symm.trans he)
    obtain rfl := Option.some.inj (hparts.symm.trans hopens.parts_eq)
    refine ⟨rfl, ?_, ?_⟩
    · rw [← KeyRing.ofKid_ofString]
      exact hopens.key_eq
    · have hdecrypted := hopens.decrypted
      rwa [sealedParts, List.take_append_drop] at hdecrypted
  · rintro ⟨rfl, hkey, hdecrypted⟩
    refine ⟨_, hloads, hparts, isSupported_sortedFields kid nonce sealed, ?_, hnonce, ?_, ?_⟩
    · rw [sealedParts, KeyRing.ofKid_ofString]
      exact hkey
    · rw [sealedParts, List.length_drop]
      omega
    · rwa [sealedParts, List.take_append_drop]

end OneEnvelope

/-! ## The calls of a sealing -/

theorem encryptCall_eq_some {nonce : Bytes} {plaintext : List ℕ} {aad : String} {ring : KeyRing} {kid : String}
    {c : Call} (h : encryptCall nonce plaintext aad ring kid = some c) :
    ring.get? kid = some c.key ∧ c.nonce = nonce ∧ encode plaintext = some c.plaintext ∧ c.aad = encodeUtf8 aad := by
  unfold encryptCall at h
  split at h
  · cases h
  · obtain ⟨key, hkey, hrest⟩ := Option.bind_eq_some_iff.mp h
    obtain ⟨bytes, hbytes, hcall⟩ := Option.bind_eq_some_iff.mp hrest
    obtain rfl := Option.some.inj hcall
    exact ⟨hkey, rfl, hbytes, rfl⟩

/-- What a sealing has encrypted, and its columns. -/
structure SealedBy (aes : Aesgcm) (s : Sealing) (sealed : SealedKey) (wrap key : Call) : Prop where
  wrapCall : s.wrapCall = some wrap
  keyCall : s.keyCall = some key
  keyCiphertext : sealed.keyCiphertext = dumps (envelopeFields "primary" s.random.keyNonce (key.sealed aes))
  dekWrapped : sealed.dekWrapped = dumps (envelopeFields s.kek.1 s.random.dekNonce (wrap.sealed aes))

theorem exists_sealedBy {aes : Aesgcm} {s : Sealing} {sealed : SealedKey} (h : s.columns aes = .ok sealed) :
    ∃ wrap key, SealedBy aes s sealed wrap key := by
  obtain ⟨wrapped, hwrapped, hrest⟩ := bind_eq_ok.mp h
  obtain ⟨ring, hring, hrest⟩ := bind_eq_ok.mp hrest
  obtain rfl := Except.ok.inj ((dekKeyring_b64urlEncode s.random.dek_length).symm.trans hring)
  obtain ⟨envelope, henvelope, hcolumns⟩ := bind_eq_ok.mp hrest
  obtain ⟨kek, bytes, -, -, -, hwrap, rfl⟩ := encryptText_eq_ok hwrapped
  obtain ⟨dek, bytes', -, -, -, hkey, rfl⟩ := encryptText_eq_ok henvelope
  have hwrapCall : s.wrapCall = some ⟨kek, s.random.dekNonce, bytes, encodeUtf8 (providerDekAad s.providerId)⟩ := hwrap
  have hkeyCall : s.keyCall =
      some ⟨dek, s.random.keyNonce, bytes', encodeUtf8 (providerKeyAad s.providerId)⟩ := by
    rw [Sealing.keyCall, hwrapCall]
    exact hkey
  obtain rfl := Except.ok.inj hcolumns
  exact ⟨_, _, hwrapCall, hkeyCall, rfl, rfl⟩

section History

variable {aes : Aesgcm} {history : List Sealing} {s : Sealing} {sealed : SealedKey} {wrap key : Call}

theorem SealedBy.wrap_eq (h : SealedBy aes s sealed wrap key) :
    s.kek.2.get? s.kek.1 = some wrap.key ∧ wrap.nonce = s.random.dekNonce ∧
      encode (b64urlEncode s.random.dek) = some wrap.plaintext ∧ wrap.aad = encodeUtf8 (providerDekAad s.providerId) :=
  encryptCall_eq_some h.wrapCall

theorem keyCall_eq_some (h : s.keyCall = some key) :
    key.key = s.random.dek ∧ key.nonce = s.random.keyNonce ∧ encode s.plaintext = some key.plaintext ∧
      key.aad = encodeUtf8 (providerKeyAad s.providerId) := by
  obtain ⟨wrap, -, hcall⟩ := Option.bind_eq_some_iff.mp h
  obtain ⟨hkey, hrest⟩ := encryptCall_eq_some hcall
  have hdek : s.dekRing.get? "primary" = some s.random.dek := rfl
  exact ⟨(Option.some.inj (hdek.symm.trans hkey)).symm, hrest⟩

theorem mem_calls_wrap (h : SealedBy aes s sealed wrap key) (hs : s ∈ history) :
    wrap ∈ history.flatMap Sealing.calls := by
  refine List.mem_flatMap.mpr ⟨s, hs, List.mem_append_left _ ?_⟩
  rw [h.wrapCall]
  exact List.mem_singleton_self wrap

theorem mem_calls_key (h : SealedBy aes s sealed wrap key) (hs : s ∈ history) :
    key ∈ history.flatMap Sealing.calls := by
  refine List.mem_flatMap.mpr ⟨s, hs, List.mem_append_right _ ?_⟩
  rw [h.keyCall]
  exact List.mem_singleton_self key

/-- A call is one of the two of a sealing. -/
theorem mem_calls_cases {c : Call} (h : c ∈ history.flatMap Sealing.calls) :
    ∃ s ∈ history, s.wrapCall = some c ∨ s.keyCall = some c := by
  obtain ⟨s, hs, hc⟩ := List.mem_flatMap.mp h
  refine ⟨s, hs, (List.mem_append.mp hc).imp ?_ ?_⟩
  · exact Option.mem_toList.mp
  · exact Option.mem_toList.mp

/-- What is decrypted as a DEK has been encrypted as one. -/
theorem exists_wrapCall (hideal : aes.Ideal (history.flatMap Sealing.calls)) {k nonce bytes text : Bytes} {i : String}
    (h : aes.decrypt k nonce bytes (encodeUtf8 (providerDekAad i)) = some text) :
    ∃ s ∈ history, s.wrapCall = some ⟨k, nonce, text, encodeUtf8 (providerDekAad i)⟩ ∧
      Call.sealed aes ⟨k, nonce, text, encodeUtf8 (providerDekAad i)⟩ = bytes := by
  obtain ⟨hmem, hsealed⟩ := hideal.authentic _ _ _ _ _ h
  obtain ⟨s, hs, hwrap | hkey⟩ := mem_calls_cases hmem
  · exact ⟨s, hs, hwrap, hsealed⟩
  · exact absurd (encodeUtf8_inj.mp (keyCall_eq_some hkey).2.2.2) (dekAad_ne_keyAad _ _)

/-- What is decrypted as a key has been encrypted as one. -/
theorem exists_keyCall (hideal : aes.Ideal (history.flatMap Sealing.calls)) {k nonce bytes text : Bytes} {i : String}
    (h : aes.decrypt k nonce bytes (encodeUtf8 (providerKeyAad i)) = some text) :
    ∃ s ∈ history, s.keyCall = some ⟨k, nonce, text, encodeUtf8 (providerKeyAad i)⟩ ∧
      Call.sealed aes ⟨k, nonce, text, encodeUtf8 (providerKeyAad i)⟩ = bytes := by
  obtain ⟨hmem, hsealed⟩ := hideal.authentic _ _ _ _ _ h
  obtain ⟨s, hs, hwrap | hkey⟩ := mem_calls_cases hmem
  · exact absurd (encodeUtf8_inj.mp (encryptCall_eq_some hwrap).2.2.2).symm (dekAad_ne_keyAad _ _)
  · exact ⟨s, hs, hkey, hsealed⟩

theorem eq_of_dek (hfresh : FreshRandomness history) {s' : Sealing} (hs : s ∈ history) (hs' : s' ∈ history)
    (h : s.random.dek = s'.random.dek) : s = s' :=
  List.inj_on_of_nodup_map hfresh.deks hs hs' h

theorem eq_of_dekNonce (hfresh : FreshRandomness history) {s' : Sealing} (hs : s ∈ history) (hs' : s' ∈ history)
    (h : s.random.dekNonce = s'.random.dekNonce) : s = s' :=
  List.inj_on_of_nodup_map hfresh.dekNonces hs hs' h

theorem eq_of_keyNonce (hfresh : FreshRandomness history) {s' : Sealing} (hs : s ∈ history) (hs' : s' ∈ history)
    (h : s.random.keyNonce = s'.random.keyNonce) : s = s' :=
  List.inj_on_of_nodup_map hfresh.keyNonces hs hs' h

end History

/-! ## Opening -/

/-- A column of a sealed key. -/
inductive Column
  | keyCiphertext | dekWrapped
deriving DecidableEq, Repr

/-- A text in the place of a column. -/
def SealedKey.set : Column → List Char → SealedKey → SealedKey
  | .keyCiphertext, t, sealed => { sealed with keyCiphertext := t }
  | .dekWrapped, t, sealed => { sealed with dekWrapped := t }

/-- The key of the version that a sealing has written with. -/
def Sealing.sealingKey (s : Sealing) : Option Bytes := s.kek.2.get? s.kek.1

/-- The sealed key opens for its row, for no other row, and not with that text in the place of a column. -/
structure Safe (limits : Limits) (aes : Aesgcm) (s : Sealing) (sealed : SealedKey) (ring : KeyRing)
    (column : Column) (t : List Char) : Prop where
  opens : ∀ ring : KeyRing, ring.get? s.kek.1 = s.sealingKey →
    openSealed limits aes ring sealed s.providerId = .ok s.plaintext
  bound : ∀ (ring : KeyRing) (i : String), i ≠ s.providerId →
    openSealed limits aes ring sealed i = .error .encryption
  tampered : openSealed limits aes ring (sealed.set column t) s.providerId = .error .encryption

/-- The text spells the envelope of the original: it is decoded to the same bytes, and its version has that key. -/
def Spells (limits : Limits) (ring : KeyRing) (key : Option Bytes) (original t : List Char) : Prop :=
  ∃ e p e₀ p₀, loads limits t = .ok e ∧ parts e = some p ∧ isSupported e = true ∧
    (ring.ofKid p.kid).isSome ∧ ring.ofKid p.kid = key ∧ loads limits original = .ok e₀ ∧ parts e₀ = some p₀ ∧
      p.nonce = p₀.nonce ∧ p.ciphertext = p₀.ciphertext ∧ p.tag = p₀.tag

/-- A text that can be refused, and must be. -/
def Refused (limits : Limits) (ring : KeyRing) (key : Option Bytes) (original t : List Char) : Prop :=
  ¬ Escapes limits t ∧ ¬ Spells limits ring key original t

/-- A text that can be refused in the place of a column. The key is looked at only if the DEK opens. -/
def Detected (limits : Limits) (s : Sealing) (sealed : SealedKey) (ring : KeyRing) : Column → List Char → Prop
  | .dekWrapped, t => Refused limits ring s.sealingKey sealed.dekWrapped t
  | .keyCiphertext, t => ring.get? s.kek.1 = s.sealingKey →
      Refused limits s.dekRing (some s.random.dek) sealed.keyCiphertext t

section Spelling

variable {limits : Limits} {aes : Aesgcm} {t : List Char} {aad : String} {ring : KeyRing} {k nonce bytes : Bytes}
  {kid : String} {text : List ℕ}

/-- An envelope that opens with the bytes of the original spells it. -/
theorem TextOpens.spells (hlimits : AllowFlat limits) {p : Parts} (h : TextOpens limits aes t aad ring p k text)
    (hnonce : p.nonce = nonce) (hsealed : p.ciphertext ++ p.tag = bytes) :
    Spells limits ring (some k) (dumps (envelopeFields kid nonce bytes)) t := by
  obtain ⟨e, he, hopens⟩ := h
  have hlength : (p.tag).length = (bytes.drop (bytes.length - tagBytes)).length := by
    rw [hopens.tag_length, List.length_drop, ← hsealed, List.length_append, hopens.tag_length]
    omega
  have hsplit : p.ciphertext ++ p.tag =
      bytes.take (bytes.length - tagBytes) ++ bytes.drop (bytes.length - tagBytes) := by
    rw [hsealed, List.take_append_drop]
  obtain ⟨hciphertext, htag⟩ := List.append_inj' hsplit hlength
  exact ⟨e, p, _, _, he, hopens.parts_eq, hopens.supported, by rw [hopens.key_eq]; rfl, hopens.key_eq,
    loads_dumps hlimits kid nonce bytes, parts_sortedFields kid nonce bytes, hnonce, hciphertext, htag⟩

/-- What spells an envelope opens as it does. -/
theorem Spells.textOpens (hlimits : AllowFlat limits)
    (h : Spells limits ring (some k) (dumps (envelopeFields kid nonce bytes)) t) (hnonce : nonce.length = nonceBytes)
    (hlength : tagBytes ≤ bytes.length) {plaintext : Bytes}
    (hdecrypt : aes.decrypt k nonce bytes (encodeUtf8 aad) = some plaintext) (htext : decode plaintext = some text) :
    ∃ p, TextOpens limits aes t aad ring p k text := by
  obtain ⟨e, p, e₀, p₀, he, hparts, hsupported, -, hkey, he₀, hp₀, hpnonce, hciphertext, htag⟩ := h
  obtain rfl := Except.ok.inj ((loads_dumps hlimits kid nonce bytes).symm.trans he₀)
  obtain rfl := Option.some.inj ((parts_sortedFields kid nonce bytes).symm.trans hp₀)
  dsimp only [sealedParts] at hpnonce hciphertext htag
  refine ⟨p, e, he, hparts, hsupported, hkey, ?_, ?_, plaintext, ?_, htext⟩
  · rw [hpnonce, hnonce]
  · rw [htag, List.length_drop]
    omega
  · rw [hpnonce, hciphertext, htag, List.take_append_drop]
    exact hdecrypt

end Spelling

section Opening

variable {limits : Limits} {aes : Aesgcm} {history : List Sealing} {s s' : Sealing} {sealed : SealedKey}
  {wrap key : Call} {ring : KeyRing} {i : String} {p : Parts} {k : Bytes} {text : List ℕ}

/-- The calls of a sealing are decrypted, to what has been encrypted. -/
theorem SealedBy.decrypt_wrap (h : SealedBy aes s sealed wrap key)
    (hideal : aes.Ideal (history.flatMap Sealing.calls)) (hs : s ∈ history) :
    tagBytes ≤ (wrap.sealed aes).length ∧ decode wrap.plaintext = some (b64urlEncode s.random.dek) ∧
      aes.decrypt wrap.key s.random.dekNonce (wrap.sealed aes) (encodeUtf8 (providerDekAad s.providerId)) =
        some wrap.plaintext := by
  obtain ⟨-, hnonce, htext, haad⟩ := h.wrap_eq
  have hmem := mem_calls_wrap h hs
  refine ⟨?_, decode_of_encode htext, ?_⟩
  · rw [hideal.length_sealed wrap hmem]
    exact Nat.le_add_left _ _
  · rw [← hnonce, ← haad]
    exact hideal.correct wrap hmem

theorem SealedBy.decrypt_key (h : SealedBy aes s sealed wrap key)
    (hideal : aes.Ideal (history.flatMap Sealing.calls)) (hs : s ∈ history) :
    tagBytes ≤ (key.sealed aes).length ∧ decode key.plaintext = some s.plaintext ∧
      aes.decrypt s.random.dek s.random.keyNonce (key.sealed aes) (encodeUtf8 (providerKeyAad s.providerId)) =
        some key.plaintext := by
  obtain ⟨hkey, hnonce, htext, haad⟩ := keyCall_eq_some h.keyCall
  have hmem := mem_calls_key h hs
  refine ⟨?_, decode_of_encode htext, ?_⟩
  · rw [hideal.length_sealed key hmem]
    exact Nat.le_add_left _ _
  · rw [← hkey, ← hnonce, ← haad]
    exact hideal.correct key hmem

/-- The DEK opens with the key of its version. -/
theorem SealedBy.openEnvelope_dek (h : SealedBy aes s sealed wrap key) (hlimits : AllowFlat limits)
    (hideal : aes.Ideal (history.flatMap Sealing.calls)) (hs : s ∈ history)
    (hring : ring.get? s.kek.1 = s.sealingKey) :
    openEnvelope limits aes sealed.dekWrapped (providerDekAad s.providerId) ring = .ok (b64urlEncode s.random.dek) := by
  obtain ⟨hlength, htext, hdecrypt⟩ := h.decrypt_wrap hideal hs
  rw [h.dekWrapped]
  refine ((textOpens_dumps_iff hlimits s.random.dekNonce_length hlength).mpr
    ⟨rfl, ?_, wrap.plaintext, hdecrypt, htext⟩).openEnvelope_eq
  exact hring.trans h.wrap_eq.1

/-- The DEK opens with nothing else. -/
theorem SealedBy.of_textOpens_dek (h : SealedBy aes s sealed wrap key) (hlimits : AllowFlat limits)
    (hideal : aes.Ideal (history.flatMap Sealing.calls)) (hfresh : FreshRandomness history) (hs : s ∈ history)
    (hopens : TextOpens limits aes sealed.dekWrapped (providerDekAad i) ring p k text) :
    i = s.providerId ∧ ring.get? s.kek.1 = s.sealingKey := by
  rw [h.dekWrapped, textOpens_dumps_iff hlimits s.random.dekNonce_length (h.decrypt_wrap hideal hs).1] at hopens
  obtain ⟨-, hkey, bytes, hdecrypt, -⟩ := hopens
  obtain ⟨s', hs', hcall, -⟩ := exists_wrapCall hideal hdecrypt
  obtain rfl := eq_of_dekNonce hfresh hs hs' (encryptCall_eq_some hcall).2.1
  obtain rfl := Option.some.inj (h.wrapCall.symm.trans hcall)
  obtain ⟨hkek, -, -, haad⟩ := h.wrap_eq
  exact ⟨aad_inj (encodeUtf8_inj.mp haad), hkey.trans hkek.symm⟩

/-- The key opens with its DEK. -/
theorem SealedBy.openEnvelope_key (h : SealedBy aes s sealed wrap key) (hlimits : AllowFlat limits)
    (hideal : aes.Ideal (history.flatMap Sealing.calls)) (hs : s ∈ history) :
    openEnvelope limits aes sealed.keyCiphertext (providerKeyAad s.providerId) s.dekRing = .ok s.plaintext := by
  obtain ⟨hlength, htext, hdecrypt⟩ := h.decrypt_key hideal hs
  rw [h.keyCiphertext]
  exact ((textOpens_dumps_iff hlimits s.random.keyNonce_length hlength).mpr
    ⟨rfl, rfl, key.plaintext, hdecrypt, htext⟩).openEnvelope_eq

theorem get?_dekRing {kid : String} (h : s.dekRing.get? kid = some k) : k = s.random.dek := by
  obtain ⟨e, he, rfl⟩ := Option.map_eq_some_iff.mp h
  rw [List.mem_singleton.mp (List.mem_of_find?_eq_some he)]

theorem ofKid_dekRing {kid : Json} (h : s.dekRing.ofKid kid = some k) : k = s.random.dek := by
  cases kid with
  | str u =>
    obtain ⟨e, he, rfl⟩ := Option.map_eq_some_iff.mp h
    rw [List.mem_singleton.mp (List.mem_of_find?_eq_some he)]
  | _ => cases h

/-- The key opens with the DEK of no other sealing. -/
theorem SealedBy.of_textOpens_key (h : SealedBy aes s sealed wrap key) (hlimits : AllowFlat limits)
    (hideal : aes.Ideal (history.flatMap Sealing.calls)) (hfresh : FreshRandomness history) (hs : s ∈ history)
    (hs' : s' ∈ history)
    (hopens : TextOpens limits aes sealed.keyCiphertext (providerKeyAad i) s'.dekRing p k text) : s' = s := by
  rw [h.keyCiphertext, textOpens_dumps_iff hlimits s.random.keyNonce_length (h.decrypt_key hideal hs).1] at hopens
  obtain ⟨-, hkey, bytes, hdecrypt, -⟩ := hopens
  obtain ⟨s'', hs'', hcall, -⟩ := exists_keyCall hideal hdecrypt
  obtain ⟨hdek, hnonce, -⟩ := keyCall_eq_some hcall
  obtain rfl := eq_of_keyNonce hfresh hs hs'' hnonce
  exact eq_of_dek hfresh hs' hs ((get?_dekRing hkey).symm.trans hdek)

theorem SealedBy.not_escapes_dek (h : SealedBy aes s sealed wrap key) (hlimits : AllowFlat limits) :
    ¬ Escapes limits sealed.dekWrapped := by
  rw [h.dekWrapped]
  exact not_escapes_dumps hlimits _ _ _

theorem SealedBy.not_escapes_key (h : SealedBy aes s sealed wrap key) (hlimits : AllowFlat limits) :
    ¬ Escapes limits sealed.keyCiphertext := by
  rw [h.keyCiphertext]
  exact not_escapes_dumps hlimits _ _ _

theorem openSealed_of_dek (sealed : SealedKey) {dek : Bytes} (hdek : dek.length = keyBytes)
    (h : openEnvelope limits aes sealed.dekWrapped (providerDekAad i) ring = .ok (b64urlEncode dek)) :
    openSealed limits aes ring sealed i =
      openEnvelope limits aes sealed.keyCiphertext (providerKeyAad i) [("primary", dek)] := by
  rw [openSealed, h]
  change (dekKeyring (b64urlEncode dek) >>= fun dekRing => _) = _
  rw [dekKeyring_b64urlEncode hdek]
  rfl

theorem openSealed_of_error (sealed : SealedKey) {f : CryptoFailure}
    (h : openEnvelope limits aes sealed.dekWrapped (providerDekAad i) ring = .error f) :
    openSealed limits aes ring sealed i = .error f := by
  rw [openSealed, h]
  rfl

/-- A sealed key opens for its row. -/
theorem SealedBy.openSealed_eq (h : SealedBy aes s sealed wrap key) (hlimits : AllowFlat limits)
    (hideal : aes.Ideal (history.flatMap Sealing.calls)) (hs : s ∈ history)
    (hring : ring.get? s.kek.1 = s.sealingKey) : openSealed limits aes ring sealed s.providerId = .ok s.plaintext :=
  (openSealed_of_dek sealed s.random.dek_length (h.openEnvelope_dek hlimits hideal hs hring)).trans
    (h.openEnvelope_key hlimits hideal hs)

/-- It does not open for another row, or under a ring without its version. -/
theorem SealedBy.openSealed_eq_error (h : SealedBy aes s sealed wrap key) (hlimits : AllowFlat limits)
    (hideal : aes.Ideal (history.flatMap Sealing.calls)) (hfresh : FreshRandomness history) (hs : s ∈ history)
    (hother : i ≠ s.providerId ∨ ring.get? s.kek.1 ≠ s.sealingKey) (t : List Char) :
    openSealed limits aes ring (sealed.set .keyCiphertext t) i = .error .encryption := by
  refine openSealed_of_error (sealed.set .keyCiphertext t) ?_
  rcases openEnvelope_cases limits aes sealed.dekWrapped (providerDekAad i) ring with hopens | herror | hescapes
  · obtain ⟨p, k, text, hopens⟩ := hopens
    obtain ⟨hi, hring⟩ := h.of_textOpens_dek hlimits hideal hfresh hs hopens
    exact absurd hring (hother.resolve_left (not_not.mpr hi))
  · exact herror
  · exact absurd hescapes (h.not_escapes_dek hlimits)

/-- A text in the place of the wrapped DEK is refused if it can be, unless it spells the same. -/
theorem SealedBy.tampered_dek_iff (h : SealedBy aes s sealed wrap key) (hlimits : AllowFlat limits)
    (hideal : aes.Ideal (history.flatMap Sealing.calls)) (hfresh : FreshRandomness history) (hs : s ∈ history)
    (t : List Char) :
    openSealed limits aes ring (sealed.set .dekWrapped t) s.providerId = .error .encryption ↔
      Refused limits ring s.sealingKey sealed.dekWrapped t := by
  have hkek : s.sealingKey = some wrap.key := h.wrap_eq.1
  obtain ⟨hlength, htext, hdecrypt⟩ := h.decrypt_wrap hideal hs
  constructor
  · refine fun herror => ⟨fun hescapes => ?_, fun hspells => ?_⟩
    · obtain ⟨f, hf, hopen⟩ := hescapes.openEnvelope_ne aes (providerDekAad s.providerId) ring
      exact hf (Except.error.inj ((openSealed_of_error (sealed.set .dekWrapped t) hopen).symm.trans herror))
    · rw [hkek, h.dekWrapped] at hspells
      obtain ⟨p, hopens⟩ := hspells.textOpens hlimits s.random.dekNonce_length hlength hdecrypt htext
      have hvalue := (openSealed_of_dek (sealed.set .dekWrapped t) s.random.dek_length
        hopens.openEnvelope_eq).trans (h.openEnvelope_key hlimits hideal hs)
      cases hvalue.symm.trans herror
  · rintro ⟨hescapes, hspells⟩
    rcases openEnvelope_cases limits aes t (providerDekAad s.providerId) ring with hopens | herror | hescape
    · -- some DEK opens: that of the same sealing only if the text spells the same
      obtain ⟨p, k, text, hopens⟩ := hopens
      have hopen := hopens.openEnvelope_eq
      obtain ⟨e, he, hparts⟩ := id hopens
      obtain ⟨bytes, hbytes, hdecode⟩ := hparts.decrypted
      obtain ⟨s', hs', hcall, hsealed⟩ := exists_wrapCall hideal hbytes
      obtain ⟨-, hnonce, hencode, -⟩ := encryptCall_eq_some hcall
      obtain rfl := Option.some.inj ((decode_of_encode hencode).symm.trans hdecode)
      rw [openSealed_of_dek (sealed.set .dekWrapped t) s'.random.dek_length hopen]
      rcases openEnvelope_cases limits aes sealed.keyCiphertext (providerKeyAad s.providerId) s'.dekRing with
        hopens' | herror | hescape
      · obtain ⟨p', k', text', hopens'⟩ := hopens'
        obtain rfl := h.of_textOpens_key hlimits hideal hfresh hs hs' hopens'
        obtain rfl := Option.some.inj (h.wrapCall.symm.trans hcall)
        refine absurd ?_ hspells
        rw [hkek, h.dekWrapped]
        exact hopens.spells hlimits hnonce hsealed.symm
      · exact herror
      · exact absurd hescape (h.not_escapes_key hlimits)
    · exact openSealed_of_error (sealed.set .dekWrapped t) herror
    · exact absurd hescape hescapes

/-- A text in the place of the key, the same. -/
theorem SealedBy.tampered_key_iff (h : SealedBy aes s sealed wrap key) (hlimits : AllowFlat limits)
    (hideal : aes.Ideal (history.flatMap Sealing.calls)) (hfresh : FreshRandomness history) (hs : s ∈ history)
    (hring : ring.get? s.kek.1 = s.sealingKey) (t : List Char) :
    openSealed limits aes ring (sealed.set .keyCiphertext t) s.providerId = .error .encryption ↔
      Refused limits s.dekRing (some s.random.dek) sealed.keyCiphertext t := by
  obtain ⟨hlength, htext, hdecrypt⟩ := h.decrypt_key hideal hs
  have hopen : openSealed limits aes ring (sealed.set .keyCiphertext t) s.providerId =
      openEnvelope limits aes t (providerKeyAad s.providerId) s.dekRing :=
    openSealed_of_dek (sealed.set .keyCiphertext t) s.random.dek_length
      (h.openEnvelope_dek hlimits hideal hs hring)
  rw [hopen]
  constructor
  · refine fun herror => ⟨fun hescapes => ?_, fun hspells => ?_⟩
    · obtain ⟨f, hf, hraises⟩ := hescapes.openEnvelope_ne aes (providerKeyAad s.providerId) s.dekRing
      exact hf (Except.error.inj (hraises.symm.trans herror))
    · rw [h.keyCiphertext] at hspells
      obtain ⟨p, hopens⟩ := hspells.textOpens hlimits s.random.keyNonce_length hlength hdecrypt htext
      cases hopens.openEnvelope_eq.symm.trans herror
  · rintro ⟨hescapes, hspells⟩
    rcases openEnvelope_cases limits aes t (providerKeyAad s.providerId) s.dekRing with hopens | herror | hescape
    · obtain ⟨p, k, text, hopens⟩ := hopens
      obtain ⟨e, he, hparts⟩ := id hopens
      obtain ⟨bytes, hbytes, -⟩ := hparts.decrypted
      obtain rfl := ofKid_dekRing hparts.key_eq
      obtain ⟨s', hs', hcall, hsealed⟩ := exists_keyCall hideal hbytes
      obtain ⟨hdek, hnonce, -⟩ := keyCall_eq_some hcall
      obtain rfl := eq_of_dek hfresh hs hs' hdek
      obtain rfl := Option.some.inj (h.keyCall.symm.trans hcall)
      refine absurd ?_ hspells
      rw [h.keyCiphertext]
      exact hopens.spells hlimits hnonce hsealed.symm
    · exact herror
    · exact absurd hescape hescapes

/-- A sealed key opens for its row and for no other; a text in the place of a column is refused with
`EncryptionError` exactly if it is detected. -/
theorem openSealed_safe_iff (hlimits : AllowFlat limits) (hideal : aes.Ideal (history.flatMap Sealing.calls))
    (hfresh : FreshRandomness history) (hs : s ∈ history) (hseal : s.columns aes = .ok sealed) (ring : KeyRing)
    (column : Column) (t : List Char) :
    Safe limits aes s sealed ring column t ↔ Detected limits s sealed ring column t := by
  obtain ⟨wrap, key, h⟩ := exists_sealedBy hseal
  have hopens (ring : KeyRing) (hring : ring.get? s.kek.1 = s.sealingKey) :
      openSealed limits aes ring sealed s.providerId = .ok s.plaintext := h.openSealed_eq hlimits hideal hs hring
  have hbound (ring : KeyRing) (i : String) (hi : i ≠ s.providerId) :
      openSealed limits aes ring sealed i = .error .encryption :=
    h.openSealed_eq_error hlimits hideal hfresh hs (.inl hi) sealed.keyCiphertext
  have hsafe : Safe limits aes s sealed ring column t ↔
      openSealed limits aes ring (sealed.set column t) s.providerId = .error .encryption :=
    ⟨fun hsafe => hsafe.tampered, fun htampered => ⟨hopens, hbound, htampered⟩⟩
  rw [hsafe]
  cases column with
  | dekWrapped => exact h.tampered_dek_iff hlimits hideal hfresh hs t
  | keyCiphertext =>
    by_cases hring : ring.get? s.kek.1 = s.sealingKey
    · rw [h.tampered_key_iff hlimits hideal hfresh hs hring]
      exact ⟨fun h _ => h, fun h => h hring⟩
    · exact iff_of_true (h.openSealed_eq_error hlimits hideal hfresh hs (.inr hring) t) fun h => absurd h hring

end Opening

/-! ## Examples -/

/-- The additional data of a row. -/
def sampleId : String := "7d444840-9dc0-11d1-b245-5ffdce74fad2"

def sampleKek : Bytes := (List.range 32).map UInt8.ofNat

def sampleDek : Bytes := (List.range 32).map fun n => UInt8.ofNat (n + 32)

def sampleSealing : Sealing where
  kek := ("primary", [("primary", sampleKek)])
  random := {
    dek := sampleDek
    dekNonce := List.replicate 12 1
    keyNonce := List.replicate 12 2
    dek_length := rfl
    dekNonce_length := rfl
    keyNonce_length := rfl }
  plaintext := codePoints "sk-1"
  providerId := sampleId

def sampleWrap : Call :=
  ⟨sampleKek, List.replicate 12 1, encodeUtf8 "ICEiIyQlJicoKSorLC0uLzAxMjM0NTY3ODk6Ozw9Pj8",
    encodeUtf8 (providerDekAad sampleId)⟩

def sampleKey : Call :=
  ⟨sampleDek, List.replicate 12 2, encodeUtf8 "sk-1", encodeUtf8 (providerKeyAad sampleId)⟩

/-- AES-256-GCM of the first call. -/
def sampleWrapSealed : Bytes := [
  62, 128, 160, 92, 33, 252, 57, 10, 158, 61, 4, 119, 83, 52, 61, 170, 135, 45, 191, 174, 221, 249, 87,
  164, 190, 177, 74, 220, 211, 93, 167, 2, 227, 146, 9, 121, 169, 236, 45, 10, 8, 72, 207, 155, 70, 51, 31,
  135, 101, 75, 48, 229, 57, 2, 87, 190, 119, 5, 165]

/-- AES-256-GCM of the second call. -/
def sampleKeySealed : Bytes := [
  30, 101, 24, 138, 249, 116, 246, 52, 116, 213, 165, 140, 226, 103, 220, 158, 24, 250, 27, 236]

/-- AES-256-GCM at these calls, and nothing decrypted elsewhere. -/
def sampleAes : Aesgcm where
  encrypt key nonce plaintext aad :=
    if (⟨key, nonce, plaintext, aad⟩ : Call) = sampleWrap then sampleWrapSealed
    else if (⟨key, nonce, plaintext, aad⟩ : Call) = sampleKey then sampleKeySealed
    else plaintext ++ List.replicate tagBytes 0
  decrypt key nonce bytes aad :=
    if bytes = sampleWrapSealed ∧ (⟨key, nonce, sampleWrap.plaintext, aad⟩ : Call) = sampleWrap then
      some sampleWrap.plaintext
    else if bytes = sampleKeySealed ∧ (⟨key, nonce, sampleKey.plaintext, aad⟩ : Call) = sampleKey then
      some sampleKey.plaintext
    else none

theorem sampleSealing_calls : [sampleSealing].flatMap Sealing.calls = [sampleWrap, sampleKey] := by
  decide +kernel

theorem sampleAes_sealed : sampleWrap.sealed sampleAes = sampleWrapSealed ∧
    sampleKey.sealed sampleAes = sampleKeySealed := by
  decide +kernel

theorem sampleAes_ideal : sampleAes.Ideal ([sampleSealing].flatMap Sealing.calls) := by
  obtain ⟨hwrap, hkey⟩ := sampleAes_sealed
  rw [sampleSealing_calls]
  constructor
  · rw [List.forall_mem_cons, List.forall_mem_singleton, hwrap, hkey]
    decide +kernel
  · rw [List.forall_mem_cons, List.forall_mem_singleton, hwrap, hkey]
    decide +kernel
  · intro key nonce bytes aad plaintext h
    dsimp only [sampleAes] at h
    split at h
    · next heq =>
      obtain ⟨rfl, hcall⟩ := heq
      obtain rfl := Option.some.inj h
      rw [hcall]
      exact ⟨List.mem_cons_self, hwrap⟩
    · split at h
      · next heq =>
        obtain ⟨rfl, hcall⟩ := heq
        obtain rfl := Option.some.inj h
        rw [hcall]
        exact ⟨List.mem_cons_of_mem _ List.mem_cons_self, hkey⟩
      · cases h

/-- The columns of the row. -/
def sampleSealed : SealedKey where
  keyCiphertext := ("\x7b\"alg\":\"A256GCM\",\"ciphertext\":\"HmUYig\",\"kid\":\"primary\"," ++
    "\"nonce\":\"AgICAgICAgICAgIC\",\"tag\":\"-XT2NHTVpYziZ9yeGPob7A\",\"v\":1\x7d").toList
  dekWrapped := ("\x7b\"alg\":\"A256GCM\",\"ciphertext\":\"PoCgXCH8OQqePQR3UzQ9qoctv67d-VekvrFK3NNdpwLjkgl5qewtCghIzw\",\"kid\":\"primary\"," ++
    "\"nonce\":\"AQEBAQEBAQEBAQEB\",\"tag\":\"m0YzH4dlSzDlOQJXvncFpQ\",\"v\":1\x7d").toList

theorem sampleSealing_columns : sampleSealing.columns sampleAes = .ok sampleSealed := by
  decide +kernel

/-- The limits of an interpreter. -/
def sampleLimits : Limits := ⟨some 1000, some 4300⟩

/-- A DEK column whose version is a list. -/
def unhashableKid : List Char :=
  ("\x7b\"alg\":\"A256GCM\",\"ciphertext\":\"PoCgXCH8OQqePQR3UzQ9qoctv67d-VekvrFK3NNdpwLjkgl5qewtCghIzw\",\"kid\":[]," ++
    "\"nonce\":\"AQEBAQEBAQEBAQEB\",\"tag\":\"m0YzH4dlSzDlOQJXvncFpQ\",\"v\":1\x7d").toList

/-- A key column whose tag ends with other bits, which stand for no byte. -/
def respelledTag : List Char :=
  ("\x7b\"alg\":\"A256GCM\",\"ciphertext\":\"HmUYig\",\"kid\":\"primary\"," ++
    "\"nonce\":\"AgICAgICAgICAgIC\",\"tag\":\"-XT2NHTVpYziZ9yeGPob7B\",\"v\":1\x7d").toList

/-- A key column with another tag. -/
def otherTag : List Char :=
  ("\x7b\"alg\":\"A256GCM\",\"ciphertext\":\"HmUYig\",\"kid\":\"primary\"," ++
    "\"nonce\":\"AgICAgICAgICAgIC\",\"tag\":\"AXT2NHTVpYziZ9yeGPob7A\",\"v\":1\x7d").toList

/-- The envelope of that column. -/
def otherEnvelope : Json := .obj [(codePoints "alg", .ofString "A256GCM"), (codePoints "ciphertext", .ofString "HmUYig"),
  (codePoints "kid", .ofString "primary"), (codePoints "nonce", .ofString "AgICAgICAgICAgIC"),
  (codePoints "tag", .ofString "AXT2NHTVpYziZ9yeGPob7A"), (codePoints "v", .int 1)]

theorem detected_otherTag :
    Detected sampleLimits sampleSealing sampleSealed sampleSealing.kek.2 .keyCiphertext otherTag := by
  have hloads : loads sampleLimits otherTag = .ok otherEnvelope := by decide +kernel
  have hparts : (parts otherEnvelope).map Parts.tag =
      some [1, 116, 246, 52, 116, 213, 165, 140, 226, 103, 220, 158, 24, 250, 27, 236] := by decide +kernel
  have hkid : (parts otherEnvelope).map (fun p => p.kid.hashable) = some true := by decide +kernel
  have horiginal : (loads sampleLimits sampleSealed.keyCiphertext).toOption.map (fun e => (parts e).map Parts.tag) =
      some (some (sampleKeySealed.drop 4)) := by decide +kernel
  refine fun _ => ⟨?_, ?_⟩
  · rintro (hdeep | ⟨e, he, p, hp, -, hunhashable⟩)
    · cases hloads.symm.trans hdeep
    · obtain rfl := Except.ok.inj (hloads.symm.trans he)
      rw [hp] at hkid
      cases hunhashable.symm.trans (Option.some.inj hkid)
  · rintro ⟨e, p, e₀, p₀, he, hp, -, -, -, he₀, hp₀, -, -, htag⟩
    obtain rfl := Except.ok.inj (hloads.symm.trans he)
    rw [hp] at hparts
    rw [he₀] at horiginal
    have horiginal : (parts e₀).map Parts.tag = some (sampleKeySealed.drop 4) := Option.some.inj horiginal
    rw [hp₀] at horiginal
    have hnew : p.tag = [1, 116, 246, 52, 116, 213, 165, 140, 226, 103, 220, 158, 24, 250, 27, 236] :=
      Option.some.inj hparts
    have hold : p₀.tag = sampleKeySealed.drop 4 := Option.some.inj horiginal
    exact absurd (hnew.symm.trans (htag.trans hold)) (by decide)

theorem openSealed_safe_otherTag :
    Safe sampleLimits sampleAes sampleSealing sampleSealed sampleSealing.kek.2 .keyCiphertext otherTag :=
  (openSealed_safe_iff ⟨by decide, by decide⟩ sampleAes_ideal
    ⟨List.nodup_singleton _, List.nodup_singleton _, List.nodup_singleton _⟩ List.mem_cons_self
    sampleSealing_columns _ _ _).mpr detected_otherTag

/-- A changed tag is accepted, and a changed version raises `TypeError`. -/
theorem not_openSealed_safe :
    respelledTag ≠ sampleSealed.keyCiphertext ∧
    openSealed sampleLimits sampleAes sampleSealing.kek.2 (sampleSealed.set .keyCiphertext respelledTag) sampleId =
      .ok (codePoints "sk-1") ∧
    openSealed sampleLimits sampleAes sampleSealing.kek.2 (sampleSealed.set .dekWrapped unhashableKid) sampleId =
      .error .typeError ∧
    ¬ Safe sampleLimits sampleAes sampleSealing sampleSealed sampleSealing.kek.2 .keyCiphertext respelledTag ∧
    ¬ Safe sampleLimits sampleAes sampleSealing sampleSealed sampleSealing.kek.2 .dekWrapped unhashableKid := by
  have hrespelled : openSealed sampleLimits sampleAes sampleSealing.kek.2
      (sampleSealed.set .keyCiphertext respelledTag) sampleId = .ok (codePoints "sk-1") := by
    decide +kernel
  have hunhashable : openSealed sampleLimits sampleAes sampleSealing.kek.2
      (sampleSealed.set .dekWrapped unhashableKid) sampleId = .error .typeError := by
    decide +kernel
  refine ⟨by decide +kernel, hrespelled, hunhashable, fun hsafe => ?_, fun hsafe => ?_⟩
  · cases hrespelled.symm.trans hsafe.tampered
  · cases hunhashable.symm.trans hsafe.tampered

end AgentCraft.Credentials
