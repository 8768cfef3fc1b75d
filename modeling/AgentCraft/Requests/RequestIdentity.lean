import AgentCraft.Python.Encodings
import AgentCraft.Python.SortedDumps

/-!
# The identity of a request

`request_hash` (`v2/idempotency.py`): SHA-256 of the canonical text of a payload, in which the credentials of
the top level are replaced by placeholders; `content_sha256` (`v2/content_hash.py`) hashes the same text of a
whole content. Payloads are arbitrary JSON objects, with the limits of the parser left out.

Requests with one hash are the same request (`requestHash_identifies_iff`), unless a text of the payload has a
lone surrogate: the canonical text cannot be encoded then, and there is no hash at all.
-/

namespace AgentCraft.Requests.Identity

open AgentCraft.Python

/-- A JSON object, in the order of its items. -/
abbrev Fields := List (List ℕ × Json)

/-! ## The canonical text -/

/-- `canonical_json`: sorted keys, no spaces, `ensure_ascii=False`. -/
def canonicalJson (content : Json) : List ℕ := content.sortKeys.text ⟨false, false⟩

/-! ## The hashes -/

/-- `CREDENTIAL_FIELDS`. -/
def credentialFields : List (List ℕ) :=
  ["password", "new_password", "invitation_token", "verify_token", "reset_token", "cancel_token", "api_key",
    "totp_code"].map codePoints

/-- `REDACTED_PLACEHOLDER`. -/
def redactedPlaceholder : List ℕ := codePoints "***IDEMPOTENCY-REDACTED***"

/-- `REDACTED_NULL_PLACEHOLDER`. -/
def redactedNullPlaceholder : List ℕ := codePoints "***IDEMPOTENCY-REDACTED-NULL***"

/-- What stands for the value of a credential. -/
def redactedValue : Json → Json
  | .null => .str redactedNullPlaceholder
  | _ => .str redactedPlaceholder

/-- The loop over `payload.items()`: the credentials of the top level are replaced. -/
def redact (payload : Fields) : Fields :=
  payload.map fun p => if p.1 ∈ credentialFields then (p.1, redactedValue p.2) else p

/-- The body that is hashed; without a payload it is null. -/
def hashedBody : Option Fields → Json
  | none => .null
  | some payload => .obj (redact payload)

/-- `request_hash`; none stands for `UnicodeEncodeError`. -/
def requestHash {δ : Type*} (sha256 : List UInt8 → δ) (payload : Option Fields) : Option δ :=
  (encode (canonicalJson (hashedBody payload))).map sha256

/-- `content_sha256`. -/
def contentSha256 {δ : Type*} (sha256 : List UInt8 → δ) (content : Json) : Option δ :=
  (encode (canonicalJson content)).map sha256

/-! ## The same request -/

/-- The value of some request: no object has a key twice. -/
def isPayload : Option Fields → Bool
  | none => true
  | some payload => (Json.obj payload).isValue

/-- What is compared of a credential. -/
inductive CredentialState
  | absent | null | present
deriving DecidableEq, Repr

def CredentialState.of : Option JsonMeaning → CredentialState
  | none => .absent
  | some .null => .null
  | some _ => .present

/-- Equal at every key, and credentials in the same state. -/
def SamePayload (p q : Fields) : Prop :=
  ∀ k, if k ∈ credentialFields then
      CredentialState.of (Json.fieldMeaning p k) = CredentialState.of (Json.fieldMeaning q k)
    else Json.fieldMeaning p k = Json.fieldMeaning q k

/-- Equal as JSON values whose objects are maps, up to the values of credentials. -/
def SameRequest : Option Fields → Option Fields → Prop
  | none, none => True
  | some p, some q => SamePayload p q
  | _, _ => False

/-- The two have a hash, and it is the same. -/
def SameHash {δ : Type*} (sha256 : List UInt8 → δ) (p q : Option Fields) : Prop :=
  ∃ h, requestHash sha256 p = some h ∧ requestHash sha256 q = some h

/-- The hash is the identity of this request. -/
def Identifies {δ : Type*} (sha256 : List UInt8 → δ) (p : Option Fields) : Prop :=
  ∀ q, isPayload q = true → (SameHash sha256 p q ↔ SameRequest p q)

/-- All keys can be encoded, and all strings that are not in credentials. -/
def isHashable : Option Fields → Bool
  | none => true
  | some payload => payload.all fun p =>
      isEncodable p.1 && (credentialFields.contains p.1 || p.2.allStrings isEncodable)

theorem SamePayload.refl (p : Fields) : SamePayload p p := by
  intro k
  split <;> rfl

theorem SameRequest.refl (p : Option Fields) : SameRequest p p := by
  cases p with
  | none => trivial
  | some p => exact SamePayload.refl p

/-! ## Redaction -/

/-- What is hashed of a credential. -/
def redactedMeaning : JsonMeaning → JsonMeaning
  | .null => .string redactedNullPlaceholder
  | _ => .string redactedPlaceholder

theorem meaning_redactedValue (v : Json) : Json.meaning (redactedValue v) = redactedMeaning (Json.meaning v) := by
  cases v <;> rfl

theorem fieldMeaning_redact (l : Fields) (k : List ℕ) :
    Json.fieldMeaning (redact l) k =
      if k ∈ credentialFields then (Json.fieldMeaning l k).map redactedMeaning else Json.fieldMeaning l k := by
  induction l with
  | nil => simp [redact, Json.fieldMeaning]
  | cons p l ih =>
    obtain ⟨k', v⟩ := p
    have hcons : redact ((k', v) :: l) =
        (if k' ∈ credentialFields then (k', redactedValue v) else (k', v)) :: redact l := rfl
    rw [hcons]
    by_cases heq : k = k'
    · subst heq
      by_cases hk : k ∈ credentialFields
      · rw [if_pos hk, if_pos hk, Json.fieldMeaning, Json.fieldMeaning, if_pos rfl, if_pos rfl, meaning_redactedValue]
        rfl
      · rw [if_neg hk, if_neg hk, Json.fieldMeaning, Json.fieldMeaning, if_pos rfl, if_pos rfl]
    · have hskip (w : Json) (m : Fields) : Json.fieldMeaning ((k', w) :: m) k = Json.fieldMeaning m k := by
        rw [Json.fieldMeaning, if_neg heq]
      rw [hskip v l, ← ih]
      split <;> exact hskip _ _

/-- The placeholders tell the states of a credential apart, and nothing else. -/
theorem map_redactedMeaning_eq_iff (x y : Option JsonMeaning) :
    x.map redactedMeaning = y.map redactedMeaning ↔ CredentialState.of x = CredentialState.of y := by
  have hne : redactedNullPlaceholder ≠ redactedPlaceholder := by decide
  rcases x with _ | x <;> rcases y with _ | y
  · simp
  · cases y <;> simp [CredentialState.of]
  · cases x <;> simp [CredentialState.of]
  · cases x <;> cases y <;> simp [CredentialState.of, redactedMeaning, hne, hne.symm]

/-- What is hashed means the same exactly for the same request. -/
theorem meaning_hashedBody_eq_iff (p q : Option Fields) :
    Json.meaning (hashedBody p) = Json.meaning (hashedBody q) ↔ SameRequest p q := by
  rcases p with _ | p <;> rcases q with _ | q
  · exact iff_of_true rfl trivial
  · exact iff_of_false (fun h => by cases h) id
  · exact iff_of_false (fun h => by cases h) id
  · rw [hashedBody, hashedBody, Json.meaning, Json.meaning, JsonMeaning.object.injEq, funext_iff]
    refine forall_congr' fun k => ?_
    rw [fieldMeaning_redact, fieldMeaning_redact]
    split
    · exact map_redactedMeaning_eq_iff _ _
    · rfl

theorem isValue_redactedValue (v : Json) : (redactedValue v).isValue = true := by
  cases v <;> rfl

theorem isValue_hashedBody {p : Option Fields} (hp : isPayload p = true) : (hashedBody p).isValue = true := by
  cases p with
  | none => rfl
  | some p =>
    rw [isPayload, Json.isValue, Bool.and_eq_true, decide_eq_true_eq, Json.fieldsAreValues_iff] at hp
    rw [hashedBody, Json.isValue, Bool.and_eq_true, decide_eq_true_eq, Json.fieldsAreValues_iff]
    constructor
    · have hkeys : (redact p).map Prod.fst = p.map Prod.fst := by
        rw [redact, List.map_map]
        refine List.map_congr_left fun q _ => ?_
        rw [Function.comp_apply]
        split <;> rfl
      rw [hkeys]
      exact hp.1
    · rintro _ hmem
      obtain ⟨q, hq, rfl⟩ := List.mem_map.mp hmem
      split
      · exact isValue_redactedValue q.2
      · exact hp.2 q hq

theorem allStrings_redactedValue (v : Json) : (redactedValue v).allStrings isEncodable = true := by
  have hnull : isEncodable redactedNullPlaceholder = true := isEncodable_codePoints _
  have hpresent : isEncodable redactedPlaceholder = true := isEncodable_codePoints _
  cases v with
  | null => exact hnull
  | _ => exact hpresent

theorem allStrings_hashedBody (p : Option Fields) : (hashedBody p).allStrings isEncodable = isHashable p := by
  cases p with
  | none => rfl
  | some p =>
    rw [hashedBody, Json.allStrings, isHashable, redact]
    induction p with
    | nil => rfl
    | cons q p ih =>
      obtain ⟨k, v⟩ := q
      rw [List.map_cons, List.all_cons, ← ih]
      by_cases hk : k ∈ credentialFields
      · rw [if_pos hk, Json.allFields, allStrings_redactedValue, List.contains_iff_mem.mpr hk]
        rfl
      · have hcontains : credentialFields.contains k = false := by simpa using hk
        rw [if_neg hk, Json.allFields, hcontains, Bool.false_or]

/-! ## Identity -/

theorem isEncodable_canonicalJson (v : Json) : isEncodable (canonicalJson v) = v.allStrings isEncodable := by
  rw [canonicalJson, Json.isEncodable_text, Json.allStrings_sortKeys]

section Hashes

variable {δ : Type*} {sha256 : List UInt8 → δ}

theorem requestHash_eq_none_iff (p : Option Fields) : requestHash sha256 p = none ↔ isHashable p = false := by
  rw [requestHash, Option.map_eq_none_iff, encode_eq_none_iff, isEncodable_canonicalJson, allStrings_hashedBody]

/-- Contents that can be encoded have one hash exactly if they are equal up to the order of keys. -/
theorem contentSha256_eq_iff (hsha256 : Function.Injective sha256) {v w : Json} (hv : v.isValue = true)
    (hw : w.isValue = true) (hu : v.allStrings isEncodable = true) (hu' : w.allStrings isEncodable = true) :
    contentSha256 sha256 v = contentSha256 sha256 w ↔ v.meaning = w.meaning := by
  have hencodable {u : Json} (hu : u.allStrings isEncodable = true) : isEncodable (canonicalJson u) = true := by
    rw [isEncodable_canonicalJson, hu]
  rw [contentSha256, contentSha256, (Option.map_injective hsha256).eq_iff,
    encode_eq_iff (hencodable hu), canonicalJson, canonicalJson,
    Json.text_sortKeys_eq_iff hv hw hu hu']

/-- What means the same has the same strings. -/
theorem allStrings_eq_of_meaning {v w : Json} (hv : v.isValue = true) (hw : w.isValue = true)
    (h : v.meaning = w.meaning) (p : List ℕ → Bool) : v.allStrings p = w.allStrings p := by
  rw [← Json.allStrings_sortKeys p v, Json.sortKeys_eq_of_meaning v w hv hw h, Json.allStrings_sortKeys]

theorem sameHash_iff (hsha256 : Function.Injective sha256) {p q : Option Fields} (hp : isPayload p = true)
    (hq : isPayload q = true) (hhash : isHashable p = true) : SameHash sha256 p q ↔ SameRequest p q := by
  have hv := isValue_hashedBody hp
  have hw := isValue_hashedBody hq
  have hu : (hashedBody p).allStrings isEncodable = true := (allStrings_hashedBody p).trans hhash
  rw [← meaning_hashedBody_eq_iff]
  constructor
  · rintro ⟨h, hph, hqh⟩
    have hu' : (hashedBody q).allStrings isEncodable = true := by
      rw [allStrings_hashedBody]
      by_contra hne
      rw [(requestHash_eq_none_iff q).mpr (Bool.eq_false_of_not_eq_true hne)] at hqh
      cases hqh
    exact (contentSha256_eq_iff hsha256 hv hw hu hu').mp (hph.trans hqh.symm)
  · intro hmeaning
    have hu' : (hashedBody q).allStrings isEncodable = true := by
      rw [← allStrings_eq_of_meaning hv hw hmeaning, hu]
    have heq : requestHash sha256 p = requestHash sha256 q :=
      (contentSha256_eq_iff hsha256 hv hw hu hu').mpr hmeaning
    have hsome : requestHash sha256 p ≠ none := by
      rw [Ne, requestHash_eq_none_iff, hhash]
      exact Bool.true_eq_false_eq_False
    obtain ⟨h, hh⟩ := Option.ne_none_iff_exists'.mp hsome
    exact ⟨h, hh, heq ▸ hh⟩

/-- A request has the hash of exactly the same requests if all its texts can be encoded; else it has none. -/
theorem requestHash_identifies_iff (hsha256 : Function.Injective sha256) {p : Option Fields}
    (hp : isPayload p = true) : Identifies sha256 p ↔ isHashable p = true := by
  constructor
  · intro h
    obtain ⟨d, hd, -⟩ := (h p hp).mpr (.refl p)
    by_contra hne
    rw [(requestHash_eq_none_iff p).mpr (Bool.eq_false_of_not_eq_true hne)] at hd
    cases hd
  · intro hhash q hq
    exact sameHash_iff hsha256 hp hq hhash

end Hashes

/-! ## Examples -/

/-- The body of a commit of no files. -/
def emptyManifest : Fields := [(codePoints "manifest", .arr [])]

/-- SHA-256 at the text of that body, and another injection elsewhere. -/
def sampleSha256 (bs : List UInt8) : List Char :=
  if bs = encodeUtf8 "\x7b\"manifest\":[]\x7d" then
    "ce00a21dea1bb050f32a1112eba89e8bafc14bcece0868c4fb776588d7122d0e".toList
  else '!' :: bs.map fun b => Char.ofNat b.toNat

theorem sampleSha256_injective : Function.Injective sampleSha256 := by
  have hbytes : Function.Injective fun b : UInt8 => Char.ofNat b.toNat := by
    intro b b' h
    have hvalid (b : UInt8) : b.toNat.isValidChar := .inl (lt_trans b.toNat_lt (by decide))
    have htoNat := congrArg Char.toNat h
    rw [toNat_ofNat (hvalid b), toNat_ofNat (hvalid b')] at htoNat
    exact UInt8.toNat_inj.mp htoNat
  intro bs bs' h
  unfold sampleSha256 at h
  split at h <;> split at h
  · next heq heq' => rw [heq, heq']
  · exact absurd (congrArg List.head? h) (by rw [List.head?_cons]; decide)
  · exact absurd (congrArg List.head? h) (by rw [List.head?_cons]; decide)
  · exact List.map_injective_iff.mpr hbytes (List.cons.inj h).2

theorem requestHash_identifies_emptyManifest :
    requestHash sampleSha256 (some emptyManifest) =
        some "ce00a21dea1bb050f32a1112eba89e8bafc14bcece0868c4fb776588d7122d0e".toList ∧
      Identifies sampleSha256 (some emptyManifest) :=
  ⟨by decide +kernel, (requestHash_identifies_iff sampleSha256_injective (by decide)).mpr (by decide)⟩

/-- A commit of a file whose name is half of an emoji. -/
def surrogateManifest : Fields :=
  [(codePoints "manifest", .arr [.obj [(codePoints "name", .str [0xD83D])]])]

/-- Its request is the same as itself, and has no hash. -/
theorem not_requestHash_identifies : ¬ Identifies sampleSha256 (some surrogateManifest) := by
  intro h
  have hnone : requestHash sampleSha256 (some surrogateManifest) = none := by decide +kernel
  obtain ⟨d, hd, -⟩ := (h (some surrogateManifest) (by decide)).mpr (SameRequest.refl _)
  cases hnone.symm.trans hd

end AgentCraft.Requests.Identity
