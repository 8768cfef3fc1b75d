import AgentCraft.Python.Utf8
import AgentCraft.Streams.Lines
import Mathlib.Data.List.Forall2

/-!
# Lines from chunks

`_LineAssembler` turns the chunks that `read_out` returns into lines. A line above `MAX_LINE_BYTES` is
answered by an empty marker and drained up to its newline, except that a drain that has come to twice the
limit gives up and forgets what it has read: what is left of the line is then read as a line of its own.
`readAll_eq_iff` says that this is the only way in which the lines depend on the chunks.
-/

namespace AgentCraft.Engine

open AgentCraft.Python AgentCraft.Streams

/-- `b"\n"`. -/
def newline : UInt8 := 10

/-- `MAX_LINE_BYTES`, the limit that the transports use. -/
def maxLineBytes : ℕ := 32 * 1024 * 1024

/-- What a call of `readline` has taken from the buffer. -/
inductive RawLine
  /-- The marker of a line that has been dropped. -/
  | marker
  | line (bytes : List UInt8)
  /-- The end of the stream, without newline. -/
  | tail (bytes : List UInt8)
deriving DecidableEq, Repr

/-- `_LineAssembler`: its buffer, and the chunks that `read_out` returns before it returns `None`. -/
structure LineAssembler where
  buf : List UInt8
  chunks : List (List UInt8)
deriving DecidableEq, Repr

/-- `_drop_oversize_line`, with `drained` bytes read of the line. At the end of the stream the buffer is
cleared like at the hard limit. -/
@[grind] def dropOversizeLine (max : ℕ) : ℕ → List UInt8 → List (List UInt8) → LineAssembler
  | drained, buf, chunks =>
    if newline ∈ buf then ⟨buf.drop (buf.idxOf newline + 1), chunks⟩
    else if max * 2 < drained then ⟨[], chunks⟩
    else match chunks with
      | [] => ⟨[], []⟩
      | c :: cs => dropOversizeLine max (drained + c.length) (buf ++ c) cs

/-- `readline`, before decoding; none stands for `None`. -/
@[grind] def takeLine (max : ℕ) : List UInt8 → List (List UInt8) → Option RawLine × LineAssembler
  | buf, chunks =>
    if newline ∈ buf then
      let idx := buf.idxOf newline
      (some (if max < idx then .marker else .line (buf.take idx)), ⟨buf.drop (idx + 1), chunks⟩)
    else if max < buf.length then (some .marker, dropOversizeLine max buf.length buf chunks)
    else match chunks with
      | [] => (if buf = [] then none else some (.tail buf), ⟨[], []⟩)
      | c :: cs => takeLine max (buf ++ c) cs

/-- The text that `readline` returns; none stands for `UnicodeDecodeError`. -/
def RawLine.text : RawLine → Option String
  | .marker => some ""
  | .line bytes => (decodeUtf8 bytes).map (rstrip ['\r'])
  | .tail bytes => some (decodeReplace bytes)

/-- The lines that `readline` takes, one after the other, until it returns `None`. -/
@[grind] def takeLines (max : ℕ) : ℕ → LineAssembler → List RawLine
  | 0, _ => []
  | n + 1, s =>
    match takeLine max s.buf s.chunks with
    | (none, _) => []
    | (some r, s') => r :: takeLines max n s'

/-- The bytes that have not been taken. -/
def LineAssembler.stream (s : LineAssembler) : List UInt8 := s.buf ++ s.chunks.flatten

/-- What reading returns until the end of the stream; every call but the last takes a byte. -/
def readAll (max : ℕ) (chunks : List (List UInt8)) : Option (List String) :=
  (takeLines max (chunks.flatten.length + 1) ⟨[], chunks⟩).mapM RawLine.text

/-! ## What reading is meant to return -/

/-- A line of the stream, or the marker that replaces it. -/
def limited (max : ℕ) (raw : List UInt8 → RawLine) (l : List UInt8) : RawLine :=
  if max < l.length then .marker else raw l

/-- The lines of a stream: split at the newlines, an open line last, and every line above the limit
replaced by a marker. -/
def rawLines (max : ℕ) (bs : List UInt8) : List RawLine :=
  (splitLines newline bs).1.map (limited max .line) ++
    if openLine newline bs = [] then [] else [limited max .tail (openLine newline bs)]

/-- The text of a line, without trailing carriage returns. -/
def RawLine.specText : RawLine → Option String
  | .marker => some ""
  | .line bytes => (decodeUtf8 bytes).map (rstrip ['\r'])
  | .tail bytes => decodeUtf8 bytes

/-- The text of the lines of a stream. -/
def streamLines (max : ℕ) (bs : List UInt8) : Option (List String) :=
  (rawLines max bs).mapM RawLine.specText

/-- Every line of the stream is well-formed. -/
def WellFormed (bs : List UInt8) : Prop :=
  (∀ l ∈ (splitLines newline bs).1, (decodeUtf8 l).isSome) ∧ (decodeUtf8 (openLine newline bs)).isSome

/-- No chunk ends more than twice the limit into a line, unless the stream ends there. -/
def LineAssembler.NeverCut (max : ℕ) (s : LineAssembler) : Prop :=
  ∀ pre post, s.chunks = pre ++ post → post.flatten ≠ [] →
    (openLine newline (s.buf ++ pre.flatten)).length ≤ max * 2

/-! ## Chunks -/

section Chunks

variable {max : ℕ} {buf c : List UInt8} {cs chunks : List (List UInt8)}

open LineAssembler

theorem stream_read (buf c : List UInt8) (cs : List (List UInt8)) :
    stream ⟨buf ++ c, cs⟩ = stream ⟨buf, c :: cs⟩ := by
  simp [stream]

theorem neverCut_of_flatten (h : chunks.flatten = []) : NeverCut max ⟨buf, chunks⟩ := by
  intro pre post hsplit hpost
  rw [show chunks = pre ++ post from hsplit, List.flatten_append] at h
  exact absurd (List.append_eq_nil_iff.mp h).2 hpost

/-- At the end of the stream nothing is given up any more. -/
theorem neverCut_of_stream {s : LineAssembler} (h : s.stream = []) : s.NeverCut max :=
  neverCut_of_flatten (List.append_eq_nil_iff.mp h).2

theorem neverCut_cons : NeverCut max ⟨buf, c :: cs⟩ ↔
    ((c :: cs).flatten ≠ [] → (openLine newline buf).length ≤ max * 2) ∧
      NeverCut max ⟨buf ++ c, cs⟩ := by
  constructor
  · intro h
    refine ⟨fun hne => by simpa using h [] (c :: cs) rfl hne, fun pre post hsplit hpost => ?_⟩
    have hle := h (c :: pre) post (congrArg (c :: ·) hsplit) hpost
    rwa [List.flatten_cons, ← List.append_assoc] at hle
  · rintro ⟨hfirst, hrest⟩ pre post hsplit hpost
    cases pre with
    | nil =>
      obtain rfl : c :: cs = post := hsplit
      simpa using hfirst hpost
    | cons c' pre =>
      obtain ⟨rfl, htail⟩ := List.cons.inj hsplit
      have hle := hrest pre post htail hpost
      rwa [List.flatten_cons, ← List.append_assoc]

/-- Reading on from an open line that is not too long. -/
theorem neverCut_read (h : (openLine newline buf).length ≤ max * 2) :
    NeverCut max ⟨buf, c :: cs⟩ ↔ NeverCut max ⟨buf ++ c, cs⟩ :=
  neverCut_cons.trans (and_iff_right fun _ => h)

/-- A finished line does not count. -/
theorem neverCut_line (l : List UInt8) :
    NeverCut max ⟨l ++ newline :: buf, chunks⟩ ↔ NeverCut max ⟨buf, chunks⟩ := by
  simp only [NeverCut, List.append_assoc, List.cons_append, openLine_append_newline]

end Chunks

/-! ## One call -/

section Calls

variable {max : ℕ} {s s' : LineAssembler} {buf c : List UInt8} {cs chunks : List (List UInt8)}
  {r : Option RawLine}

open LineAssembler

/-- What a call takes from the stream. -/
inductive Takes (max : ℕ) (s : LineAssembler) : Option RawLine → LineAssembler → Prop
  | line {s' : LineAssembler} (l : List UInt8) (hl : newline ∉ l)
      (hstream : s.stream = l ++ newline :: s'.stream)
      (hcut : s.NeverCut max ↔ s'.NeverCut max) : Takes max s (some (limited max .line l)) s'
  | tail {s' : LineAssembler} (hopen : newline ∉ s.stream) (hne : s.stream ≠ [])
      (hend : s'.stream = []) (hcut : s.NeverCut max) :
      Takes max s (some (limited max .tail s.stream)) s'
  /-- A drain gives up before the end of the line. -/
  | cut {s' : LineAssembler} (l : List UInt8) (hl : newline ∉ l) (hne : l ≠ [])
      (hstream : s.stream = l ++ s'.stream) (hrest : s'.stream ≠ []) (hcut : ¬ s.NeverCut max) :
      Takes max s (some .marker) s'
  | done {s' : LineAssembler} (hend : s.stream = []) : Takes max s none s'

/-- A call that reads a chunk takes what it would take after it. -/
theorem Takes.read (h : Takes max ⟨buf ++ c, cs⟩ r s')
    (hcut : NeverCut max ⟨buf, c :: cs⟩ ↔ NeverCut max ⟨buf ++ c, cs⟩) :
    Takes max ⟨buf, c :: cs⟩ r s' := by
  have hread := stream_read buf c cs
  cases h with
  | line l hl hstream hiff => exact .line l hl (hread ▸ hstream) (hcut.trans hiff)
  | tail hopen hne hend hnever =>
    rw [hread]
    rw [hread] at hopen hne
    exact .tail hopen hne hend (hcut.mpr hnever)
  | cut l hl hne hstream hrest hnever =>
    exact .cut l hl hne (hread ▸ hstream) hrest fun h => hnever (hcut.mp h)
  | done hend => exact .done (hread ▸ hend)

/-- A line of the buffer. -/
theorem takes_line (h : newline ∈ buf) : Takes max ⟨buf, chunks⟩
    (some (limited max .line (buf.take (buf.idxOf newline))))
    ⟨buf.drop (buf.idxOf newline + 1), chunks⟩ := by
  obtain ⟨hsplit, hl⟩ := eq_take_idxOf h
  refine .line _ hl ?_ ?_
  · rw [stream, stream, ← List.cons_append, ← List.append_assoc, ← hsplit]
  · conv_lhs => rw [hsplit]
    exact neverCut_line _

theorem length_take_idxOf (h : newline ∈ buf) :
    (buf.take (buf.idxOf newline)).length = buf.idxOf newline :=
  List.length_take_of_le (List.idxOf_lt_length_of_mem h).le

/-- The buffer is all that is left of the stream. -/
theorem takes_tail {s' : LineAssembler} (hopen : newline ∉ buf) (hne : buf ≠ [])
    (hchunks : chunks.flatten = []) (hend : s'.stream = []) :
    Takes max ⟨buf, chunks⟩ (some (limited max .tail buf)) s' := by
  have hstream : stream ⟨buf, chunks⟩ = buf := by simp [stream, hchunks]
  have h := @Takes.tail max ⟨buf, chunks⟩ s' (hstream.symm ▸ hopen)
    (hstream.symm ▸ hne) hend (neverCut_of_flatten hchunks)
  rwa [hstream] at h

/-- Draining a line that is known to be above the limit. -/
theorem takes_dropOversizeLine (hlong : max < buf.idxOf newline) :
    Takes max ⟨buf, chunks⟩ (some .marker) (dropOversizeLine max buf.length buf chunks) := by
  have hbuffered {buf : List UInt8} {chunks : List (List UInt8)} (hlong : max < buf.idxOf newline)
      (hmem : newline ∈ buf) : Takes max ⟨buf, chunks⟩ (some .marker)
        ⟨buf.drop (buf.idxOf newline + 1), chunks⟩ := by
    have h := @takes_line max _ chunks hmem
    rwa [limited, length_take_idxOf hmem, if_pos hlong] at h
  have hopen {buf : List UInt8} {chunks chunks' : List (List UInt8)} (hlong : max < buf.length)
      (hmem : newline ∉ buf) (hchunks : chunks.flatten = []) (hchunks' : chunks'.flatten = []) :
      Takes max ⟨buf, chunks⟩ (some .marker) ⟨[], chunks'⟩ := by
    have h := @takes_tail max _ _ ⟨[], chunks'⟩ hmem
      (List.ne_nil_of_length_pos (Nat.zero_lt_of_lt hlong)) hchunks hchunks'
    rwa [limited, if_pos hlong] at h
  induction chunks generalizing buf with
  | nil =>
    unfold dropOversizeLine
    by_cases hmem : newline ∈ buf
    · rw [if_pos hmem]
      exact hbuffered hlong hmem
    · rw [if_neg hmem]
      rw [List.idxOf_eq_length_iff.mpr hmem] at hlong
      split <;> exact hopen hlong hmem rfl rfl
  | cons c cs ih =>
    unfold dropOversizeLine
    by_cases hmem : newline ∈ buf
    · rw [if_pos hmem]
      exact hbuffered hlong hmem
    · rw [if_neg hmem]
      have hidx := List.idxOf_eq_length_iff.mpr hmem
      rw [hidx] at hlong
      have hline : openLine newline buf = buf := openLine_of_not_mem hmem
      split
      · next hhard =>
        by_cases hchunks : (c :: cs).flatten = []
        · exact hopen hlong hmem hchunks hchunks
        · refine .cut buf hmem (List.ne_nil_of_length_pos (Nat.zero_lt_of_lt hlong)) rfl hchunks ?_
          intro hnever
          have hle := (neverCut_cons.mp hnever).1 hchunks
          rw [hline] at hle
          exact absurd hhard (Nat.not_lt.mpr hle)
      · next hsoft =>
        have hrec := @ih (buf ++ c) (by
          rw [List.idxOf_append_of_notMem hmem]
          exact hlong.trans_le (Nat.le_add_right _ _))
        rw [List.length_append] at hrec
        exact hrec.read (neverCut_read (by rw [hline]; exact Nat.not_lt.mp hsoft))

/-- Every call takes a line, an open line at the end, or a part of a line that it gives up. -/
theorem takes_takeLine (max : ℕ) (buf : List UInt8) (chunks : List (List UInt8)) :
    Takes max ⟨buf, chunks⟩ (takeLine max buf chunks).1 (takeLine max buf chunks).2 := by
  have hbuffered {buf : List UInt8} {chunks : List (List UInt8)} (hmem : newline ∈ buf) :
      Takes max ⟨buf, chunks⟩
        (some (if max < buf.idxOf newline then .marker else .line (buf.take (buf.idxOf newline))))
        ⟨buf.drop (buf.idxOf newline + 1), chunks⟩ := by
    have h := @takes_line max _ chunks hmem
    rwa [limited, length_take_idxOf hmem] at h
  induction chunks generalizing buf with
  | nil =>
    unfold takeLine
    by_cases hmem : newline ∈ buf
    · rw [if_pos hmem]
      exact hbuffered hmem
    · rw [if_neg hmem]
      by_cases hlong : max < buf.length
      · rw [if_pos hlong]
        exact takes_dropOversizeLine (by rwa [List.idxOf_eq_length_iff.mpr hmem])
      · rw [if_neg hlong]
        by_cases hnil : buf = []
        · rw [if_pos hnil]
          exact .done (by simp [stream, hnil])
        · have h := @takes_tail max _ [] ⟨[], []⟩ hmem hnil rfl rfl
          rw [limited, if_neg hlong] at h
          rwa [if_neg hnil]
  | cons c cs ih =>
    unfold takeLine
    by_cases hmem : newline ∈ buf
    · rw [if_pos hmem]
      exact hbuffered hmem
    · rw [if_neg hmem]
      by_cases hlong : max < buf.length
      · rw [if_pos hlong]
        exact takes_dropOversizeLine (by rwa [List.idxOf_eq_length_iff.mpr hmem])
      · rw [if_neg hlong]
        refine (ih (buf ++ c)).read (neverCut_read ?_)
        rw [openLine_of_not_mem hmem]
        omega

end Calls

/-! ## Reading to the end -/

section Reading

variable {max : ℕ} {l bs : List UInt8}

open LineAssembler

theorem rawLines_line (h : newline ∉ l) (bs : List UInt8) :
    rawLines max (l ++ newline :: bs) = limited max .line l :: rawLines max bs := by
  rw [rawLines, splitLines_line h, openLine_append_newline]
  rfl

theorem rawLines_open (h : newline ∉ bs) (hne : bs ≠ []) :
    rawLines max bs = [limited max .tail bs] := by
  rw [rawLines, splitLines_open h, openLine_of_not_mem h, if_neg hne]
  rfl

theorem length_rawLines (max : ℕ) (bs : List UInt8) :
    (rawLines max bs).length = lineCount newline bs := by
  rw [rawLines, lineCount, List.length_append, List.length_map]
  split <;> rfl

/-- Reading takes the lines of the stream if no drain gives up, and more than these otherwise. -/
theorem takeLines_spec (max : ℕ) {n : ℕ} {s : LineAssembler} (h : s.stream.length < n) :
    (s.NeverCut max → takeLines max n s = rawLines max s.stream) ∧
      lineCount newline s.stream ≤ (takeLines max n s).length ∧
      (¬ s.NeverCut max → lineCount newline s.stream < (takeLines max n s).length) := by
  induction n generalizing s with
  | zero => exact absurd h (Nat.not_lt_zero _)
  | succ n ih =>
    have htake := takes_takeLine max s.buf s.chunks
    unfold takeLines
    generalize takeLine max s.buf s.chunks = taken at htake ⊢
    obtain ⟨r, s'⟩ := taken
    change Takes max s r s' at htake
    cases htake with
    | line l hl hstream hcut =>
      have hshort : s'.stream.length < n := by
        rw [hstream, List.length_append, List.length_cons] at h
        omega
      obtain ⟨heq, hle, hlt⟩ := ih hshort
      have hcount := lineCount_line hl s'.stream
      rw [← hstream] at hcount
      refine ⟨fun hnever => ?_, ?_, fun hnever => ?_⟩
      · rw [hstream, rawLines_line hl]
        exact congrArg _ (heq (hcut.mp hnever))
      · rw [hcount]
        exact Nat.succ_le_succ hle
      · rw [hcount]
        exact Nat.succ_lt_succ (hlt fun hs' => hnever (hcut.mpr hs'))
    | tail hopen hne hend hcut =>
      have hshort : s'.stream.length < n := by
        have hpos := List.length_pos_iff.mpr hne
        rw [hend, List.length_nil]
        omega
      have hnone : takeLines max n s' = [] := by
        rw [(ih hshort).1 (neverCut_of_stream hend), hend]
        rfl
      have hcount : lineCount newline s.stream = 1 := by
        rw [← length_rawLines max, rawLines_open hopen hne]
        rfl
      simp only [hnone]
      rw [rawLines_open hopen hne, hcount]
      exact ⟨fun _ => rfl, le_rfl, fun hnever => absurd hcut hnever⟩
    | cut l hl hne hstream hrest hcut =>
      have hshort : s'.stream.length < n := by
        have hpos := List.length_pos_iff.mpr hne
        rw [hstream, List.length_append] at h
        omega
      have hlt : lineCount newline s.stream < (takeLines max n s').length + 1 := by
        rw [hstream, lineCount_append hl hrest]
        exact Nat.lt_succ_of_le (ih hshort).2.1
      exact ⟨fun hnever => absurd hnever hcut, hlt.le, fun _ => hlt⟩
    | done hend =>
      rw [hend]
      exact ⟨fun _ => rfl, le_rfl, fun hnever => absurd (neverCut_of_stream hend) hnever⟩

/-! ### The text -/

theorem mapM_eq_some_iff {α β : Type} {f : α → Option β} {xs : List α} {ys : List β} :
    xs.mapM f = some ys ↔ List.Forall₂ (fun x y => f x = some y) xs ys := by
  induction xs generalizing ys with
  | nil => cases ys <;> simp
  | cons x xs ih =>
    rw [List.mapM_cons, List.forall₂_cons_left_iff]
    constructor
    · intro h
      obtain ⟨y, hy, h⟩ := Option.bind_eq_some_iff.mp h
      obtain ⟨zs, hzs, h⟩ := Option.bind_eq_some_iff.mp h
      cases h
      exact ⟨y, zs, hy, ih.mp hzs, rfl⟩
    · rintro ⟨y, zs, hy, hzs, rfl⟩
      rw [hy, ih.mpr hzs]
      rfl

theorem mapM_congr {α β : Type} {f g : α → Option β} {xs : List α} (h : ∀ x ∈ xs, f x = g x) :
    xs.mapM f = xs.mapM g := by
  induction xs with
  | nil => rfl
  | cons x xs ih =>
    rw [List.mapM_cons, List.mapM_cons, h x List.mem_cons_self,
      ih fun x hx => h x (List.mem_cons_of_mem _ hx)]

/-- The lines of a well-formed stream have a text. -/
theorem streamLines_isSome (max : ℕ) (h : WellFormed bs) :
    ∃ ls, streamLines max bs = some ls ∧ ls.length = lineCount newline bs := by
  have htext : ∀ r ∈ rawLines max bs, ∃ s, r.specText = some s := by
    intro r hr
    rcases List.mem_append.mp hr with hr | hr
    · obtain ⟨l, hl, rfl⟩ := List.mem_map.mp hr
      unfold limited
      split
      · exact ⟨"", rfl⟩
      · obtain ⟨s, hs⟩ := Option.isSome_iff_exists.mp (h.1 l hl)
        exact ⟨rstrip ['\r'] s, by rw [RawLine.specText, hs]; rfl⟩
    · split at hr
      · cases hr
      · obtain rfl := List.mem_singleton.mp hr
        unfold limited
        split
        · exact ⟨"", rfl⟩
        · exact Option.isSome_iff_exists.mp h.2
  obtain ⟨ls, hls⟩ : ∃ ls, List.Forall₂ (fun r s => r.specText = some s) (rawLines max bs) ls := by
    generalize rawLines max bs = rs at htext
    induction rs with
    | nil => exact ⟨[], .nil⟩
    | cons r rs ih =>
      obtain ⟨s, hs⟩ := htext r List.mem_cons_self
      obtain ⟨ls, hls⟩ := ih fun r hr => htext r (List.mem_cons_of_mem _ hr)
      exact ⟨s :: ls, .cons hs hls⟩
  exact ⟨ls, mapM_eq_some_iff.mpr hls, by rw [← hls.length_eq, length_rawLines]⟩

/-- On a well-formed stream the end is decoded like the lines. -/
theorem mapM_text_rawLines (max : ℕ) (h : WellFormed bs) :
    (rawLines max bs).mapM RawLine.text = streamLines max bs := by
  refine mapM_congr fun r hr => ?_
  rcases List.mem_append.mp hr with hr | hr
  · obtain ⟨l, -, rfl⟩ := List.mem_map.mp hr
    unfold limited
    split <;> rfl
  · split at hr
    · cases hr
    · obtain rfl := List.mem_singleton.mp hr
      unfold limited
      split
      · rfl
      · obtain ⟨s, hs⟩ := Option.isSome_iff_exists.mp h.2
        rw [RawLine.text, RawLine.specText, hs, decodeReplace_eq hs]

/-- On a well-formed stream, reading returns the lines of the stream exactly if no chunk ends more than
twice the limit into a line. -/
theorem readAll_eq_iff (max : ℕ) {chunks : List (List UInt8)} (h : WellFormed chunks.flatten) :
    readAll max chunks = streamLines max chunks.flatten ↔
      LineAssembler.NeverCut max ⟨[], chunks⟩ := by
  obtain ⟨heq, -, hlt⟩ := takeLines_spec max (n := chunks.flatten.length + 1)
    (s := ⟨[], chunks⟩) (Nat.lt_succ_self _)
  constructor
  · intro hread
    by_contra hcut
    obtain ⟨ls, hls, hlength⟩ := streamLines_isSome max h
    rw [hls] at hread
    have hmore := hlt hcut
    rw [(mapM_eq_some_iff.mp hread).length_eq, hlength] at hmore
    exact absurd hmore (Nat.lt_irrefl _)
  · intro hnever
    rw [readAll, heq hnever]
    exact mapM_text_rawLines max h

end Reading

/-! ## A line that is given up -/

/-- With a limit of two bytes: `abc`, then `hi`, in two chunks. -/
theorem readAll_eq_of_shortDrain :
    readAll 2 [[97, 98], [99, 10, 104, 105, 13, 10]] =
      streamLines 2 [97, 98, 99, 10, 104, 105, 13, 10] := by
  have h : WellFormed [97, 98, 99, 10, 104, 105, 13, 10] := by
    constructor <;> decide +kernel
  refine (@readAll_eq_iff 2 [[97, 98], [99, 10, 104, 105, 13, 10]] h).mpr ?_
  refine neverCut_cons.mpr ⟨fun _ => by decide, neverCut_cons.mpr ⟨fun _ => by decide, ?_⟩⟩
  exact neverCut_of_flatten rfl

/-- `n` letters `a`. -/
def letters (n : ℕ) : List UInt8 := List.replicate n 97

theorem newline_notMem_letters (n : ℕ) : newline ∉ letters n := by
  intro h
  exact absurd (List.eq_of_mem_replicate h) (by decide)

theorem encodeUtf8_letters (n : ℕ) :
    encodeUtf8 (String.ofList (List.replicate n 'a')) = letters n := by
  unfold encodeUtf8 letters
  rw [String.toList_ofList]
  induction n with
  | zero => rfl
  | succ n ih =>
    rw [List.replicate_succ, List.flatMap_cons, ih]
    rfl

/-- An empty buffer is filled first. -/
theorem takeLine_cons (max : ℕ) (c : List UInt8) (cs : List (List UInt8)) :
    takeLine max [] (c :: cs) = takeLine max c cs := by
  rw [takeLine, if_neg List.not_mem_nil, List.length_nil, if_neg (Nat.not_lt_zero _)]
  rfl

theorem takeLine_end (max : ℕ) : takeLine max [] [] = (none, ⟨[], []⟩) := by
  rw [takeLine, if_neg List.not_mem_nil, List.length_nil, if_neg (Nat.not_lt_zero _)]
  rfl

/-- A chunk of letters above the hard limit is given up. -/
theorem takeLine_letters {max n : ℕ} (h : max * 2 < n) (cs : List (List UInt8)) :
    takeLine max [] (letters n :: cs) = (some .marker, ⟨[], cs⟩) := by
  have hlength : (letters n).length = n := List.length_replicate
  have hdrop : dropOversizeLine max (letters n).length (letters n) cs = ⟨[], cs⟩ := by
    unfold dropOversizeLine
    rw [if_neg (newline_notMem_letters n), if_pos (by omega)]
  rw [takeLine_cons]
  unfold takeLine
  rw [if_neg (newline_notMem_letters n), if_pos (by omega), hdrop]

/-- What is left of a line that is given up comes back as a line of its own. -/
theorem readAll_longDrain {max : ℕ} (h : 2 ≤ max) :
    WellFormed [letters (max * 2 + 1), [104, 105, 10]].flatten ∧
      readAll max [letters (max * 2 + 1), [104, 105, 10]] = some ["", "hi"] ∧
      streamLines max [letters (max * 2 + 1), [104, 105, 10]].flatten = some [""] := by
  have hline : newline ∉ letters (max * 2 + 1) ++ [104, 105] := by
    rw [List.mem_append]
    rintro (hmem | hmem)
    · exact newline_notMem_letters _ hmem
    · exact absurd hmem (by decide)
  have hflatten : [letters (max * 2 + 1), [104, 105, 10]].flatten =
      (letters (max * 2 + 1) ++ [104, 105]) ++ newline :: [] := by
    simp [newline]
  refine ⟨?_, ?_, ?_⟩
  · rw [hflatten]
    refine ⟨fun l hl => ?_, ?_⟩
    · rw [splitLines_line hline] at hl
      obtain rfl := List.mem_singleton.mp hl
      have htext : letters (max * 2 + 1) ++ [104, 105] =
          encodeUtf8 (String.ofList (List.replicate (max * 2 + 1) 'a') ++ "hi") := by
        rw [← encodeUtf8_letters, encodeUtf8, encodeUtf8, String.toList_append, List.flatMap_append]
        rfl
      rw [htext, decodeUtf8_encodeUtf8]
      rfl
    · rw [openLine_append_newline]
      decide +kernel
  · have hsecond : takeLine max [] [[104, 105, 10]] = (some (.line [104, 105]), ⟨[], []⟩) := by
      have hidx : List.idxOf newline [104, 105, 10] = 2 := by decide
      rw [takeLine_cons]
      unfold takeLine
      simp only [hidx, if_neg (Nat.not_lt.mpr h)]
      exact if_pos (by decide)
    have hfuel : [letters (max * 2 + 1), [104, 105, 10]].flatten.length + 1 = (max * 2 + 2) + 3 := by
      rw [hflatten]
      simp [letters]
    have hlines : takeLines max ((max * 2 + 2) + 3) ⟨[], [letters (max * 2 + 1), [104, 105, 10]]⟩ =
        [.marker, .line [104, 105]] := by
      simp only [takeLines, takeLine_letters (Nat.lt_succ_self (max * 2)), hsecond, takeLine_end]
    rw [readAll, hfuel, hlines]
    decide +kernel
  · have hmarker : max < (letters (max * 2 + 1) ++ [104, 105]).length := by
      simp [letters]
      omega
    rw [streamLines, hflatten, rawLines_line hline, limited, if_pos hmarker]
    rfl

/-- A chunk that ends more than twice the limit into a line. -/
theorem readAll_ne_of_longDrain :
    WellFormed [letters (maxLineBytes * 2 + 1), [104, 105, 10]].flatten ∧
      readAll maxLineBytes [letters (maxLineBytes * 2 + 1), [104, 105, 10]] = some ["", "hi"] ∧
      streamLines maxLineBytes [letters (maxLineBytes * 2 + 1), [104, 105, 10]].flatten = some [""] :=
  readAll_longDrain (by decide)

end AgentCraft.Engine
