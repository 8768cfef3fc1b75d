import AgentCraft.Python.Quoting

/-!
# The headers of a download

`download_headers` in `task_artifacts.py` announces a file under two names: a fallback of printable ASCII in a
quoted string, and the name itself, percent-encoded. `readDisposition` reads a `Content-Disposition` the way
clients do, parameters with quoted strings and tokens; what it finds is the name (`savedName_download`).
-/

namespace AgentCraft.Tasking

open AgentCraft.Python

/-- `ch.isascii() and ch.isprintable() and ch not in '\\"'`. -/
def isPlain (c : Char) : Bool := 0x20 ≤ c.toNat && c.toNat < 0x7F && c ≠ '\\' && c ≠ '"'

/-- `fallback` in `download_headers`. -/
def fallbackName (fileName : List Char) : List Char := fileName.map fun c => if isPlain c then c else '_'

/-- The value of `Content-Disposition`. -/
def contentDisposition (fileName : String) : List Char :=
  "attachment; filename=\"".toList ++ (fallbackName fileName.toList ++
    ("\"; filename*=UTF-8''".toList ++ quote fileName))

def downloadHeaders (fileName : String) : List (String × List Char) :=
  [("Content-Disposition", contentDisposition fileName), ("X-Content-Type-Options", "nosniff".toList)]

/-! ## How the header is read -/

/-- A quoted string after its opening quote, and what follows it. -/
@[grind] def readQuoted : List Char → Option (List Char × List Char)
  | '"' :: s => some ([], s)
  | '\\' :: c :: s => (readQuoted s).map fun r => (c :: r.1, r.2)
  | c :: s => (readQuoted s).map fun r => (c :: r.1, r.2)
  | [] => none

/-- The parameters of a header, each after a semicolon. -/
@[grind] def readParameters : ℕ → List Char → Option (List (List Char × List Char))
  | _, [] => some []
  | 0, _ => none
  | n + 1, c :: s =>
    if c ≠ ';' then none
    else
      let s := s.dropWhile (· = ' ')
      let name := s.takeWhile (· ≠ '=')
      match s.dropWhile (· ≠ '=') with
      | _ :: '"' :: v =>
        (readQuoted v).bind fun r => (readParameters n r.2).map ((name, r.1) :: ·)
      | _ :: v => (readParameters n (v.dropWhile (· ≠ ';'))).map ((name, v.takeWhile (· ≠ ';')) :: ·)
      | [] => none

/-- The disposition and its parameters. -/
def readDisposition (s : List Char) : Option (List Char × List (List Char × List Char)) :=
  (readParameters s.length (s.dropWhile (· ≠ ';'))).map fun parameters =>
    (s.takeWhile (· ≠ ';'), parameters)

/-- An extended value in UTF-8, without a language. -/
def extendedValue (v : List Char) : Option String :=
  if "UTF-8''".toList.isPrefixOf v then unquote (v.drop "UTF-8''".toList.length) else none

/-- The name under which a client stores the download: the extended one comes first. -/
def savedName (header : List Char) : Option String :=
  (readDisposition header).bind fun d =>
    ((d.2.lookup "filename*".toList).bind extendedValue).or
      ((d.2.lookup "filename".toList).map String.ofList)

/-! ## The two names -/

theorem isPlain_fallback {fileName : List Char} {c : Char} (h : c ∈ fallbackName fileName) :
    isPlain c = true := by
  obtain ⟨d, -, rfl⟩ := List.mem_map.mp h
  split
  · assumption
  · decide

/-- A quoted string of plain characters is read as it stands. -/
theorem readQuoted_plain {v : List Char} (hv : ∀ c ∈ v, isPlain c = true) (s : List Char) :
    readQuoted (v ++ '"' :: s) = some (v, s) := by
  induction v with
  | nil => rfl
  | cons c v ih =>
    have hc := hv c List.mem_cons_self
    simp only [isPlain, Bool.and_eq_true, decide_eq_true_eq] at hc
    have hrec : readQuoted (c :: (v ++ '"' :: s)) = (readQuoted (v ++ '"' :: s)).map fun r => (c :: r.1, r.2) := by
      rw [readQuoted]
      · exact fun heq => hc.2 heq
      · rintro d s' heq -
        exact hc.1.2 heq
    rw [List.cons_append, hrec, ih fun d hd => hv d (List.mem_cons_of_mem _ hd)]
    rfl

theorem readParameters_quoted {name v : List Char} (hname : '=' ∉ name) (hspace : name.head? ≠ some ' ')
    (hne : name ≠ []) (hv : ∀ c ∈ v, isPlain c = true) (n : ℕ) (s : List Char) :
    readParameters (n + 1) (';' :: ' ' :: (name ++ '=' :: '"' :: (v ++ '"' :: s))) =
      (readParameters n s).map ((name, v) :: ·) := by
  have hdrop : (' ' :: (name ++ '=' :: '"' :: (v ++ '"' :: s))).dropWhile (· = ' ') =
      name ++ '=' :: '"' :: (v ++ '"' :: s) := by
    obtain ⟨c, name, rfl⟩ := List.exists_cons_of_ne_nil hne
    have hc : c ≠ ' ' := fun heq => hspace (congrArg some heq)
    rw [List.dropWhile_cons_of_pos (by simp), List.cons_append, List.dropWhile_cons_of_neg (by simpa using hc)]
  have hnot : ∀ c ∈ name, decide (c ≠ '=') = true := fun c hc => by
    simpa using fun heq : c = '=' => hname (heq ▸ hc)
  rw [readParameters, if_neg (by simp)]
  simp only [hdrop]
  rw [List.takeWhile_append_of_pos hnot, List.dropWhile_append_of_pos hnot,
    List.takeWhile_cons_of_neg (by simp), List.dropWhile_cons_of_neg (by simp), List.append_nil]
  show (readQuoted (v ++ '"' :: s)).bind _ = _
  rw [readQuoted_plain hv]
  rfl

theorem readParameters_last {name v : List Char} (hname : '=' ∉ name) (hspace : name.head? ≠ some ' ')
    (hne : name ≠ []) (hv : ';' ∉ v) (hquote : v.head? ≠ some '"') (n : ℕ) :
    readParameters (n + 1) (';' :: ' ' :: (name ++ '=' :: v)) = some [(name, v)] := by
  have hdrop : (' ' :: (name ++ '=' :: v)).dropWhile (· = ' ') = name ++ '=' :: v := by
    obtain ⟨c, name, rfl⟩ := List.exists_cons_of_ne_nil hne
    have hc : c ≠ ' ' := fun heq => hspace (congrArg some heq)
    rw [List.dropWhile_cons_of_pos (by simp), List.cons_append, List.dropWhile_cons_of_neg (by simpa using hc)]
  have hnot : ∀ c ∈ name, decide (c ≠ '=') = true := fun c hc => by
    simpa using fun heq : c = '=' => hname (heq ▸ hc)
  have hall : ∀ c ∈ v, decide (c ≠ ';') = true := fun c hc => by
    simpa using fun heq : c = ';' => hv (heq ▸ hc)
  rw [readParameters, if_neg (by simp)]
  simp only [hdrop]
  rw [List.takeWhile_append_of_pos hnot, List.dropWhile_append_of_pos hnot,
    List.takeWhile_cons_of_neg (by simp), List.dropWhile_cons_of_neg (by simp), List.append_nil]
  split
  · next heq =>
    cases heq
    exact absurd rfl hquote
  · next heq =>
    cases heq
    rw [List.dropWhile_eq_nil_iff.mpr hall, List.takeWhile_eq_self_iff.mpr hall]
    cases n <;> rfl
  · next heq => cases heq

/-! ## The download -/

theorem fallbackName_length (fileName : List Char) : (fallbackName fileName).length = fileName.length :=
  List.length_map _

theorem fallbackName_eq_self {fileName : List Char} (h : ∀ c ∈ fileName, isPlain c = true) :
    fallbackName fileName = fileName :=
  List.map_congr_left (fun c hc => if_pos (h c hc)) |>.trans (List.map_id fileName)

/-- The extended value: the name after the charset. -/
def extended (fileName : String) : List Char := ['U', 'T', 'F', '-', '8', '\'', '\''] ++ quote fileName

theorem contentDisposition_eq (fileName : String) :
    contentDisposition fileName = "attachment".toList ++
      ';' :: ' ' :: ("filename".toList ++ '=' :: '"' :: (fallbackName fileName.toList ++ '"' ::
        ';' :: ' ' :: ("filename*".toList ++ '=' :: extended fileName))) := by
  rfl

theorem isPlain_iff (c : Char) :
    isPlain c = true ↔ 0x20 ≤ c.toNat ∧ c.toNat < 0x7F ∧ c ≠ '\\' ∧ c ≠ '"' := by
  simp only [isPlain, Bool.and_eq_true, decide_eq_true_eq, and_assoc]

theorem mem_extended {fileName : String} {c : Char} (h : c ∈ extended fileName) :
    0x20 < c.toNat ∧ c.toNat < 0x7F ∧ c ∉ ['"', '\\', ';', ','] := by
  rcases List.mem_append.mp h with hc | hc
  · simp only [List.mem_cons, List.not_mem_nil, or_false] at hc
    rcases hc with rfl | rfl | rfl | rfl | rfl | rfl | rfl <;> decide
  · exact mem_quote hc

/-- The header is read as an attachment with two parameters, whatever the name contains. -/
theorem readDisposition_download (fileName : String) :
    readDisposition (contentDisposition fileName) = some ("attachment".toList,
      [("filename".toList, fallbackName fileName.toList), ("filename*".toList, extended fileName)]) := by
  have hplain : ∀ c ∈ fallbackName fileName.toList, isPlain c = true := fun c => isPlain_fallback
  have hsemi : ';' ∉ extended fileName := fun hmem => (mem_extended hmem).2.2 (by decide)
  have hquote : (extended fileName).head? ≠ some '"' := by
    show some 'U' ≠ some '"'
    decide
  have hletters : ∀ c ∈ "attachment".toList, decide (c ≠ ';') = true := fun c hc =>
    decide_eq_true (ne_of_mem_of_not_mem hc (by decide))
  rw [readDisposition]
  obtain ⟨n, hn⟩ : ∃ n, (contentDisposition fileName).length = n + 1 + 1 := ⟨_, rfl⟩
  rw [hn, contentDisposition_eq, List.takeWhile_append_of_pos hletters,
    List.dropWhile_append_of_pos hletters, List.takeWhile_cons_of_neg (by simp),
    List.dropWhile_cons_of_neg (by simp), List.append_nil,
    readParameters_quoted (by decide) (by decide) (by decide) hplain,
    readParameters_last (by decide) (by decide) (by decide) hsemi hquote]
  rfl

/-- Whatever characters a file name has, the header stays one line of printable ASCII and is read as an attachment
under that very name; its fallback has the name's length, and is the name where that is plain. -/
theorem savedName_download (fileName : String) :
    savedName (contentDisposition fileName) = some fileName ∧
      (∀ c ∈ contentDisposition fileName, 0x20 ≤ c.toNat ∧ c.toNat < 0x7F) ∧
      (readDisposition (contentDisposition fileName)).map (·.1) = some "attachment".toList ∧
      (fallbackName fileName.toList).length = fileName.toList.length ∧
      ((∀ c ∈ fileName.toList, isPlain c = true) → fallbackName fileName.toList = fileName.toList) := by
  refine ⟨?_, ?_, ?_, fallbackName_length _, fallbackName_eq_self⟩
  · have hdrop : (extended fileName).drop "UTF-8''".toList.length = quote fileName := rfl
    have hstart : "UTF-8''".toList.isPrefixOf (extended fileName) = true := rfl
    have hvalue : extendedValue (extended fileName) = some fileName := by
      rw [extendedValue, if_pos hstart, hdrop, unquote_quote]
    rw [savedName, readDisposition_download]
    show ((some (extended fileName)).bind extendedValue).or _ = _
    rw [Option.bind_some, hvalue]
    rfl
  · intro c hc
    have hword : ∀ word : List Char, word.all isPlain = true → c ∈ word → 0x20 ≤ c.toNat ∧ c.toNat < 0x7F :=
      fun word hall hmem =>
        have h := (isPlain_iff c).mp (List.all_eq_true.mp hall c hmem)
        ⟨h.1, h.2.1⟩
    rw [contentDisposition_eq] at hc
    simp only [List.mem_append, List.mem_cons] at hc
    rcases hc with hc | rfl | rfl | hc | rfl | rfl | hc | rfl | rfl | rfl | hc | rfl | hc
    · exact hword _ rfl hc
    · decide
    · decide
    · exact hword _ rfl hc
    · decide
    · decide
    · exact hword _ (List.all_eq_true.mpr fun _ => isPlain_fallback) hc
    · decide
    · decide
    · decide
    · exact hword _ rfl hc
    · decide
    · exact ⟨(mem_extended hc).1.le, (mem_extended hc).2.1⟩
  · rw [readDisposition_download]
    rfl

end AgentCraft.Tasking
