import AgentCraft.Python.JsonLoads

/-!
# The guard before uploads

`UploadSizeGuardMiddleware` answers 413 before the form of an upload is parsed. It looks for its requests with
a pattern of its own, in which the task id is a row of decimal digits, while the router hands every segment to
`upload_task_files` and the service reads it as a UUID. So the guard rejects uploads only, but of the ids that
the service reads it knows those that are spelled with 32 decimal digits and no other (`guard_tooLarge_iff`).
-/

namespace AgentCraft.Requests

open AgentCraft.Python

/-- What the guard reads of an HTTP request: the decoded path, and the first `content-length` header. -/
structure GuardedRequest where
  method : List Char
  path : List Char
  contentLength : Option (List Char)

/-- What becomes of a request at the guard. -/
inductive GuardAnswer
  | forwarded
  | tooLarge
  /-- `int` raises, so that the request is answered 500. -/
  | raised
deriving DecidableEq, Repr

/-- `^/api/tasks/X+/files$` for a class of characters `X` without the slash; the dollar also matches before a
newline at the end. -/
def matchFilesPath (inId : Char → Bool) (path : List Char) : Option (List Char) :=
  if "/api/tasks/".toList.isPrefixOf path then
    let rest := path.drop "/api/tasks/".toList.length
    let tail := rest.dropWhile inId
    if rest.takeWhile inId ≠ [] ∧ (tail = "/files".toList ∨ tail = "/files\n".toList) then
      some (rest.takeWhile inId)
    else none
  else none

/-- `\d`, and the digits that `int` reads. -/
def isDecimal (ud : UnicodeData) (c : Char) : Bool := c.isDigit || (127 ≤ c.toNat && (ud.decimal c).isSome)

/-- The id that the router hands to `upload_task_files`. -/
def uploadRoute (r : GuardedRequest) : Option (List Char) :=
  if r.method = "POST".toList then matchFilesPath (· ≠ '/') r.path else none

/-- `str.isdigit` on a character of a header, which is decoded as Latin-1. -/
def isHeaderDigit (c : Char) : Bool := c.isDigit || c.toNat = 0xB2 || c.toNat = 0xB3 || c.toNat = 0xB9

/-- The longest number that `int` reads. -/
def intMaxStrDigits : ℕ := 4300

/-- `int(content_length)`: superscripts are digits for `isdigit`, but not for `int`. -/
def headerInt (text : List Char) : Option ℕ :=
  if text.all Char.isDigit ∧ text.length ≤ intMaxStrDigits then some (decimalNumber text) else none

/-- `UploadSizeGuardMiddleware.__call__`. -/
def guardUpload (ud : UnicodeData) (maxBytes : ℕ) (r : GuardedRequest) : GuardAnswer :=
  if r.method = "POST".toList then
    if (matchFilesPath (isDecimal ud) r.path).isSome then
      match r.contentLength with
      | none => .forwarded
      | some text =>
        if text ≠ [] ∧ text.all isHeaderDigit then
          match headerInt text with
          | none => .raised
          | some n => if maxBytes < n then .tooLarge else .forwarded
        else .forwarded
    else .forwarded
  else .forwarded

/-- The length that a request announces, where it is a number. -/
def announcedLength (r : GuardedRequest) : Option ℕ :=
  r.contentLength.bind fun text => if text ≠ [] then headerInt text else none

/-! ## Paths -/

section Paths

variable {inId inId' : Char → Bool} {path id : List Char}

/-- What matches is the prefix, the id and the suffix. -/
theorem matchFilesPath_eq_some (hslash : inId '/' = false) : matchFilesPath inId path = some id ↔
    id ≠ [] ∧ (∀ c ∈ id, inId c = true) ∧
      (path = "/api/tasks/".toList ++ (id ++ "/files".toList) ∨
        path = "/api/tasks/".toList ++ (id ++ "/files\n".toList)) := by
  have hcut (tail : List Char) (hid : ∀ c ∈ id, inId c = true) :
      (id ++ '/' :: tail).takeWhile inId = id ∧ (id ++ '/' :: tail).dropWhile inId = '/' :: tail := by
    rw [List.takeWhile_append_of_pos hid, List.dropWhile_append_of_pos hid,
      List.takeWhile_cons_of_neg (by simp [hslash]), List.dropWhile_cons_of_neg (by simp [hslash])]
    simp
  constructor
  · intro h
    unfold matchFilesPath at h
    split at h
    · next hpre =>
      obtain ⟨rest, rfl⟩ := List.isPrefixOf_iff_prefix.mp hpre
      simp only [List.drop_left] at h
      split at h
      · next hc =>
        cases h
        refine ⟨hc.1, fun c hc => List.mem_takeWhile_imp hc, ?_⟩
        rcases hc.2 with htail | htail
        · exact .inl (by rw [← htail, List.takeWhile_append_dropWhile])
        · exact .inr (by rw [← htail, List.takeWhile_append_dropWhile])
      · cases h
    · cases h
  · rintro ⟨hne, hid, hpath⟩
    unfold matchFilesPath
    rcases hpath with rfl | rfl
    · have h := hcut "files".toList hid
      have htail : "/files".toList = '/' :: "files".toList := rfl
      rw [if_pos (List.isPrefixOf_iff_prefix.mpr (List.prefix_append _ _)), List.drop_left, htail]
      simp only [h.1, h.2]
      exact if_pos ⟨hne, .inl trivial⟩
    · have h := hcut "files\n".toList hid
      have htail : "/files\n".toList = '/' :: "files\n".toList := rfl
      rw [if_pos (List.isPrefixOf_iff_prefix.mpr (List.prefix_append _ _)), List.drop_left, htail]
      simp only [h.1, h.2]
      exact if_pos ⟨hne, .inr trivial⟩

/-- A pattern of fewer characters matches where the other one does and the id has only these. -/
theorem matchFilesPath_mono (hsub : ∀ c, inId c = true → inId' c = true) (hslash : inId' '/' = false) :
    matchFilesPath inId path = some id ↔
      matchFilesPath inId' path = some id ∧ ∀ c ∈ id, inId c = true := by
  have hslash' : inId '/' = false := by
    rw [Bool.eq_false_iff]
    intro h
    rw [hsub _ h] at hslash
    cases hslash
  rw [matchFilesPath_eq_some hslash', matchFilesPath_eq_some hslash]
  constructor
  · rintro ⟨hne, hid, hpath⟩
    exact ⟨⟨hne, fun c hc => hsub c (hid c hc), hpath⟩, hid⟩
  · rintro ⟨⟨hne, -, hpath⟩, hid⟩
    exact ⟨hne, hid, hpath⟩

end Paths

/-! ## What the guard covers -/

section Guard

variable {ud : UnicodeData} {r : GuardedRequest} {id : List Char}

/-- The characters with which the readers of UUIDs do something of their own are no digits. -/
theorem isDecimal_ascii {c : Char} (h : isDecimal ud c = true) : c ∉ ['u', '{', '}', '-', '/'] := by
  intro hmem
  simp only [List.mem_cons, List.not_mem_nil, or_false] at hmem
  rcases hmem with rfl | rfl | rfl | rfl | rfl <;> simp [isDecimal] at h

/-- The guard looks at uploads only, and at those whose id is a row of decimal digits. -/
theorem guardedPath_iff : r.method = "POST".toList ∧ (matchFilesPath (isDecimal ud) r.path).isSome ↔
    ∃ id, uploadRoute r = some id ∧ ∀ c ∈ id, isDecimal ud c = true := by
  have hmono (id : List Char) := @matchFilesPath_mono (isDecimal ud) (· ≠ '/') r.path id (fun c hc => ?_) (by decide)
  · constructor
    · rintro ⟨hpost, hsome⟩
      obtain ⟨id, hid⟩ := Option.isSome_iff_exists.mp hsome
      obtain ⟨hroute, hdigits⟩ := (hmono id).mp hid
      exact ⟨id, by rw [uploadRoute, if_pos hpost, hroute], hdigits⟩
    · rintro ⟨id, hroute, hdigits⟩
      unfold uploadRoute at hroute
      split at hroute
      · next hpost =>
        exact ⟨hpost, Option.isSome_iff_exists.mpr ⟨id, (hmono id).mpr ⟨hroute, hdigits⟩⟩⟩
      · cases hroute
  · have hne : c ≠ '/' := fun heq => isDecimal_ascii hc (by simp [heq])
    simpa using hne

/-- An id of decimal digits that reads as a UUID has 32 of them. -/
theorem length_of_decimal {task : ℕ} (hdigits : ∀ c ∈ id, isDecimal ud c = true)
    (h : parseUuid ud (String.ofList id) = some task) : id.length = 32 := by
  have hno {x : Char} (hx : x ∈ ['u', '{', '}', '-', '/']) : x ∉ id := fun hmem =>
    isDecimal_ascii (hdigits x hmem) hx
  have hu : 'u' ∉ id := hno (by simp)
  have hurn : removeAll "urn:".toList 0 id = id := removeAll_of_not_mem hu
  have huuid : removeAll "uuid:".toList 0 id = id := removeAll_of_not_mem hu
  have hread : uuidDigits id = id := by
    rw [uuidDigits, hurn, huuid, stripBraces_of_not_mem (hno (by simp)) (hno (by simp)), List.filter_eq_self]
    intro c hc
    have hne : c ≠ '-' := fun heq => isDecimal_ascii (hdigits c hc) (by simp [heq])
    simpa using hne
  by_contra hlen
  rw [parseUuid, String.toList_ofList, hread, if_pos hlen] at h
  cases h

/-- The canonical spelling has hyphens, which the pattern of the guard has not. -/
theorem not_decimal_formatUuid (task : ℕ) : ¬ ∀ c ∈ (formatUuid task).toList, isDecimal ud c = true := by
  intro h
  have hmem : '-' ∈ (formatUuid task).toList := by
    rw [formatUuid, String.toList_ofList]
    simp [hyphenate]
  exact isDecimal_ascii (h '-' hmem) (by simp)

/-- What the guard rejects, for every request. It answers 413 exactly to the uploads whose id is a row of
decimal digits and whose announced length is above the maximum; of the ids that the service reads as a UUID
these are spelled with 32 digits; and an upload to a task under the canonical spelling of its id is always
forwarded, whatever length it announces. -/
theorem guard_tooLarge_iff (ud : UnicodeData) (maxBytes : ℕ) (r : GuardedRequest) :
    (guardUpload ud maxBytes r = .tooLarge ↔ ∃ id n, uploadRoute r = some id ∧
      (∀ c ∈ id, isDecimal ud c = true) ∧ announcedLength r = some n ∧ maxBytes < n) ∧
    (∀ id task, uploadRoute r = some id → parseUuid ud (String.ofList id) = some task →
      guardUpload ud maxBytes r = .tooLarge → id.length = 32 ∧ ∀ c ∈ id, isDecimal ud c = true) ∧
    ∀ task, uploadRoute r = some (formatUuid task).toList → guardUpload ud maxBytes r = .forwarded := by
  have hiff : guardUpload ud maxBytes r = .tooLarge ↔ ∃ id n, uploadRoute r = some id ∧
      (∀ c ∈ id, isDecimal ud c = true) ∧ announcedLength r = some n ∧ maxBytes < n := by
    constructor
    · intro h
      unfold guardUpload at h
      split at h
      · next hpost =>
        split at h
        · next hpath =>
          obtain ⟨id, hroute, hdigits⟩ := guardedPath_iff.mp ⟨hpost, hpath⟩
          split at h
          · cases h
          · next text hheader =>
            split at h
            · next htext =>
              split at h
              · cases h
              · next n hn =>
                split at h
                · next hlarge =>
                  refine ⟨id, n, hroute, hdigits, ?_, hlarge⟩
                  rw [announcedLength, hheader, Option.bind_some, if_pos htext.1, hn]
                · cases h
            · cases h
        · cases h
      · cases h
    · rintro ⟨id, n, hroute, hdigits, hlength, hlarge⟩
      obtain ⟨hpost, hpath⟩ := guardedPath_iff.mpr ⟨id, hroute, hdigits⟩
      obtain ⟨text, hheader, hn⟩ := Option.bind_eq_some_iff.mp hlength
      split at hn
      · next hne =>
        have hall : text.all isHeaderDigit = true := by
          have hdig : text.all Char.isDigit = true := by
            by_contra hno
            rw [headerInt, if_neg fun h => hno h.1] at hn
            cases hn
          rw [List.all_eq_true] at hdig ⊢
          intro c hc
          simp [isHeaderDigit, hdig c hc]
        rw [guardUpload, if_pos hpost, if_pos hpath, hheader]
        simp only [hne, hall, hn, ne_eq, not_false_eq_true, and_self, if_true, hlarge]
      · cases hn
  refine ⟨hiff, fun id task hroute hparse h => ?_, fun task hroute => ?_⟩
  · obtain ⟨id', n, hroute', hdigits, -⟩ := hiff.mp h
    obtain rfl : id' = id := Option.some.inj (hroute'.symm.trans hroute)
    exact ⟨length_of_decimal hdigits hparse, hdigits⟩
  · have hpath : ¬ (matchFilesPath (isDecimal ud) r.path).isSome = true := by
      intro hsome
      have hpost : r.method = "POST".toList := by
        by_contra hno
        rw [uploadRoute, if_neg hno] at hroute
        exact absurd hroute.symm (Option.some_ne_none _)
      obtain ⟨id, hroute', hdigits⟩ := guardedPath_iff.mp ⟨hpost, hsome⟩
      have hid : id = (formatUuid task).toList := Option.some.inj (hroute'.symm.trans hroute)
      exact not_decimal_formatUuid task (hid ▸ hdigits)
    rw [guardUpload, if_neg hpath]
    exact ite_self _

end Guard

end AgentCraft.Requests
