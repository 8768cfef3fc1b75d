import AgentCraft.Python.JsonLoads
import AgentCraft.Streams.Blocks
import AgentCraft.Streams.EventStream
import AgentCraft.Web.Text

/-!
# The frames of the task stream

`consume` of `sse.js` gathers what it is sent in a buffer and dispatches a block whenever the buffer has a
double newline. A buffer that grows too long without one is dropped, and so is what follows up to the next
double newline.

`InStep` says when the chunks of a stream let this drop the blocks that are too long, and no others.
-/

namespace AgentCraft.Web

open AgentCraft.Python AgentCraft.Streams

/-! ## Blocks -/

/-- `SSE_MAX_BUFFER_BYTES`; it is compared with code units. -/
def sseMaxBufferBytes : ℕ := 1024 * 1024

/-- `buffer` and `discarding`. -/
structure FrameReader where
  buffer : List Char := []
  discarding : Bool := false
deriving DecidableEq, Repr

/-- What the inner loop of `consume` does. -/
inductive Dispatch
  | block (text : List Char)
  /-- `SSE_FRAME_TOO_LARGE`. -/
  | tooLarge
deriving DecidableEq, Repr

def Dispatch.block? : Dispatch → Option (List Char)
  | block text => some text
  | tooLarge => none

namespace FrameReader

/-- The inner loop of `consume`; every round but the last takes a separator off the buffer. -/
@[grind] def drain (max : ℕ) : ℕ → FrameReader → List Dispatch × FrameReader
  | 0, r => ([], r)
  | n + 1, r =>
    match cutBlock '\n' r.buffer with
    | none =>
      if r.discarding then ([], { r with buffer := [] })
      else if max < utf16Length r.buffer then ([.tooLarge], ⟨[], true⟩)
      else ([], r)
    | some (block, rest) =>
      if r.discarding then drain max n ⟨rest, false⟩
      else (.block block :: (drain max n ⟨rest, false⟩).1, (drain max n ⟨rest, false⟩).2)

/-- A chunk that has been decoded. -/
def feed (max : ℕ) (r : FrameReader) (text : List Char) : List Dispatch × FrameReader :=
  drain max ((r.buffer ++ text).length + 1) { r with buffer := r.buffer ++ text }

/-- The chunks that have been decoded, one after the other. -/
def feedAll (max : ℕ) (r : FrameReader) : List (List Char) → List Dispatch
  | [] => []
  | text :: texts => (r.feed max text).1 ++ (r.feed max text).2.feedAll max texts

end FrameReader

/-- `consume`, with the chunks that the body is read in. -/
def consume (max : ℕ) (chunks : List (List UInt8)) : List Dispatch :=
  FrameReader.feedAll max {} (TextDecoder.decodeChunks {} chunks)

/-- The blocks that `consume` dispatches. -/
def dispatched (max : ℕ) (chunks : List (List UInt8)) : List (List Char) :=
  (consume max chunks).filterMap Dispatch.block?

/-- The blocks of a stream of bytes that are not too long. -/
def frameBlocks (max : ℕ) (bytes : List UInt8) : List (List Char) :=
  (splitBlocks '\n' ((({} : TextDecoder).decode bytes).2)).1.filter (utf16Length · ≤ max)

/-! ## Chunks -/

/-- The chunks keep the reader in step with the stream: when the end of a block that is too long comes,
more than the limit of it has come before, and a block that is too long by then is not parted from its
separator between the two newlines. `opened` is the block that is open. -/
@[grind] def InStep (max : ℕ) (opened : List Char) : List (List Char) → Prop
  | [] => True
  | text :: texts =>
    (∀ x ∈ (splitBlocks '\n' (opened ++ text)).1.head?, max < utf16Length x → max < utf16Length opened) ∧
    (∀ x ∈ (splitBlocks '\n' (opened ++ text)).1.tail, utf16Length x ≤ max) ∧
    (max < utf16Length (splitBlocks '\n' (opened ++ text)).2 →
      (splitBlocks '\n' (opened ++ text)).2.getLast? = some '\n' → texts.flatten.head? ≠ some '\n') ∧
    InStep max (splitBlocks '\n' (opened ++ text)).2 texts

instance decidableInStep (max : ℕ) : ∀ o texts, Decidable (InStep max o texts)
  | _, [] => inferInstanceAs (Decidable True)
  | o, t :: texts =>
    have := decidableInStep max (splitBlocks '\n' (o ++ t)).2 texts
    inferInstanceAs (Decidable (_ ∧ _ ∧ _ ∧ _))

section Chunks

variable {max : ℕ} {o t : List Char} {r : FrameReader}

/-- Where the reader is after a stream that leaves a block open. -/
inductive Follows (max : ℕ) (o : List Char) : FrameReader → Prop
  | gathering (hshort : utf16Length o ≤ max) : Follows max o ⟨o, false⟩
  | discarding (hlong : max < utf16Length o) : Follows max o ⟨[], true⟩

/-- The inner loop dispatches the blocks of the buffer, and follows what it leaves open. -/
theorem FrameReader.drain_spec (max : ℕ) {n : ℕ} {s : List Char} (hn : s.length < n) :
    (drain max n ⟨s, false⟩).1.filterMap Dispatch.block? = (splitBlocks '\n' s).1 ∧
      Follows max (splitBlocks '\n' s).2 (drain max n ⟨s, false⟩).2 := by
  induction n generalizing s with
  | zero => exact absurd hn (Nat.not_lt_zero _)
  | succ n ih =>
    unfold drain
    dsimp only
    cases h : cutBlock '\n' s with
    | none =>
      rw [splitBlocks_of_none h]
      simp only [Bool.false_eq_true, if_false]
      split
      · next hlong => exact ⟨rfl, .discarding hlong⟩
      · next hshort => exact ⟨rfl, .gathering (Nat.le_of_not_lt hshort)⟩
    | some p =>
      have hshort : p.2.length < n := by
        rw [eq_of_cutBlock h] at hn
        simp only [List.length_append, List.length_cons] at hn
        omega
      obtain ⟨hblocks, hfollows⟩ := ih hshort
      rw [splitBlocks_of_some h]
      simp only [Bool.false_eq_true, if_false]
      exact ⟨congrArg (p.1 :: ·) hblocks, hfollows⟩

/-- Feeding a chunk. -/
theorem FrameReader.feed_spec (hr : Follows max o r) (hopen : cutBlock '\n' o = none)
    (hhead : ∀ x ∈ (splitBlocks '\n' (o ++ t)).1.head?, max < utf16Length x → max < utf16Length o)
    (htail : ∀ x ∈ (splitBlocks '\n' (o ++ t)).1.tail, utf16Length x ≤ max)
    (hacross : max < utf16Length o → o.getLast? = some '\n' → t.head? ≠ some '\n') :
    (r.feed max t).1.filterMap Dispatch.block? =
        (splitBlocks '\n' (o ++ t)).1.filter (utf16Length · ≤ max) ∧
      Follows max (splitBlocks '\n' (o ++ t)).2 (r.feed max t).2 := by
  cases hr with
  | gathering hshort =>
    obtain ⟨hblocks, hfollows⟩ := drain_spec max (Nat.lt_succ_self (o ++ t).length)
    refine ⟨hblocks.trans (Eq.symm (List.filter_eq_self.mpr fun x hx => ?_)), hfollows⟩
    -- the first block began within the limit, the others are within the chunk
    cases hsplit : (splitBlocks '\n' (o ++ t)).1 with
    | nil =>
      rw [hsplit] at hx
      cases hx
    | cons y ys =>
      rw [hsplit] at hx hhead htail
      rcases List.mem_cons.mp hx with rfl | hx
      · exact decide_eq_true (Nat.le_of_not_lt fun hlong =>
          absurd (hhead x rfl hlong) (Nat.not_lt.mpr hshort))
      · exact decide_eq_true (htail x hx)
  | discarding hlong =>
    have hcut := cutBlock_open hopen (hacross hlong)
    unfold feed drain
    dsimp only
    rw [List.nil_append]
    cases h : cutBlock '\n' t with
    | none =>
      rw [h] at hcut
      rw [splitBlocks_of_none hcut]
      refine ⟨rfl, .discarding ?_⟩
      rw [utf16Length_append]
      exact Nat.lt_add_right _ hlong
    | some p =>
      rw [h] at hcut
      have hcut' : cutBlock '\n' (o ++ t) = some (o ++ p.1, p.2) := hcut
      rw [splitBlocks_of_some hcut'] at hhead htail ⊢
      have hshort : p.2.length < t.length := by
        rw [eq_of_cutBlock h]
        simp only [List.length_append, List.length_cons]
        omega
      obtain ⟨hblocks, hfollows⟩ := drain_spec max hshort
      -- the end of the block that is discarded
      have hfirst : ¬ utf16Length (o ++ p.1) ≤ max := by
        rw [utf16Length_append]
        omega
      refine ⟨?_, hfollows⟩
      rw [List.filter_cons_of_neg (by simpa using hfirst)]
      refine hblocks.trans (Eq.symm (List.filter_eq_self.mpr fun x hx => ?_))
      exact decide_eq_true (htail x hx)

/-- Feeding the chunks. -/
theorem FrameReader.feedAll_spec {texts : List (List Char)} (hr : Follows max o r)
    (hopen : cutBlock '\n' o = none)
    (hacross : max < utf16Length o → o.getLast? = some '\n' → texts.flatten.head? ≠ some '\n')
    (h : InStep max o texts) :
    (r.feedAll max texts).filterMap Dispatch.block? =
      (splitBlocks '\n' (o ++ texts.flatten)).1.filter (utf16Length · ≤ max) := by
  induction texts generalizing o r with
  | nil =>
    rw [List.flatten_nil, List.append_nil, splitBlocks_of_none hopen]
    rfl
  | cons t texts ih =>
    obtain ⟨hhead, htail, hacross', hrest⟩ := h
    have hacrossChunk : max < utf16Length o → o.getLast? = some '\n' → t.head? ≠ some '\n' := by
      intro hlong hlast ht
      obtain ⟨s, rfl⟩ := List.head?_eq_some_iff.mp ht
      exact hacross hlong hlast rfl
    obtain ⟨hblocks, hfollows⟩ := feed_spec hr hopen hhead htail hacrossChunk
    rw [feedAll, List.filterMap_append, hblocks, ih hfollows (cutBlock_splitBlocks _) hacross' hrest,
      List.flatten_cons, ← List.append_assoc, splitBlocks_append (o ++ t), List.filter_append]

end Chunks

/-- Chunks that keep the reader in step give the blocks of the stream that are not too long. -/
theorem dispatched_eq {max : ℕ} {chunks : List (List UInt8)}
    (h : InStep max [] (TextDecoder.decodeChunks {} chunks)) :
    dispatched max chunks = frameBlocks max chunks.flatten := by
  have hspec := FrameReader.feedAll_spec (r := {}) (.gathering (Nat.zero_le max)) rfl
    (fun hlong => absurd hlong (Nat.not_lt_zero _)) h
  rw [List.nil_append, TextDecoder.flatten_decodeChunks] at hspec
  exact hspec

/-- A heartbeat, a block of eleven characters that is dropped, and a block whose character and separator
are cut. -/
theorem dispatched_cut :
    dispatched 8 [[0x3A, 0x70, 0x0A], [0x0A, 0x30, 0x31, 0x32, 0x33, 0x34, 0x35, 0x36, 0x37, 0x38],
        [0x39, 0x30, 0x0A, 0x0A, 0xC3], [0xA9, 0x0A], [0x0A]] =
      frameBlocks 8 [0x3A, 0x70, 0x0A, 0x0A, 0x30, 0x31, 0x32, 0x33, 0x34, 0x35, 0x36, 0x37, 0x38, 0x39,
        0x30, 0x0A, 0x0A, 0xC3, 0xA9, 0x0A, 0x0A] :=
  dispatched_eq (by decide +kernel)

section Long

variable (max : ℕ)

/-- One character more than fits. -/
def longBytes : List UInt8 := List.replicate (max + 1) 0x78

def longText : List Char := List.replicate (max + 1) 'x'

/-- `data: 1`, between newlines. -/
def shortBytes : List UInt8 := [0x0A, 0x64, 0x61, 0x74, 0x61, 0x3A, 0x20, 0x31, 0x0A, 0x0A]

variable {max}

theorem decode_long {bs : List UInt8} (h : ∀ b ∈ bs, b.toNat ≤ 0x7F) :
    (({} : TextDecoder).decode (longBytes max ++ bs)).2 =
        longText max ++ bs.map (fun b => Char.ofNat b.toNat) ∧
      (({} : TextDecoder).decode (longBytes max ++ bs)).1.missing = 0 := by
  have hall : ∀ b ∈ longBytes max ++ bs, b.toNat ≤ 0x7F := by
    intro b hb
    rcases List.mem_append.mp hb with hb | hb
    · rw [List.eq_of_mem_replicate hb]
      decide
    · exact h b hb
  have hlong : (longBytes max).map (fun b => Char.ofNat b.toNat) = longText max := by
    rw [longBytes, List.map_replicate]
    rfl
  rw [← hlong, ← List.map_append]
  exact TextDecoder.decode_ascii rfl hall

theorem ascii_of_all {bs : List UInt8} (h : bs.all (fun b => decide (b.toNat ≤ 0x7F)) = true) :
    ∀ b ∈ bs, b.toNat ≤ 0x7F := fun b hb => of_decide_eq_true (List.all_eq_true.mp h b hb)

theorem not_mem_longText : '\n' ∉ longText max := fun h =>
  absurd (List.eq_of_mem_replicate h) (by decide)

theorem lt_utf16Length_longText (s : List Char) : max < utf16Length (longText max ++ s) := by
  have hlength : utf16Length (longText max) = max + 1 := by
    simp [utf16Length, longText, utf16Size]
  rw [utf16Length_append, hlength]
  omega

theorem cutBlock_longText {s : List Char} (hs : s = [] ∨ s = ['\n']) :
    cutBlock '\n' (longText max ++ s) = none := cutBlock_of_not_mem not_mem_longText hs

/-- A long block ends with its separator. -/
theorem splitBlocks_long (s : List Char) : splitBlocks '\n' (longText max ++ '\n' :: '\n' :: s) =
    (longText max :: (splitBlocks '\n' s).1, (splitBlocks '\n' s).2) := by
  have hopen : cutBlock '\n' (longText max) = none := by
    simpa using cutBlock_longText (.inl rfl)
  have hcut := cutBlock_open hopen (t := '\n' :: '\n' :: s) fun h =>
    absurd (List.mem_of_getLast? h) not_mem_longText
  have hfirst : cutBlock '\n' ('\n' :: '\n' :: s) = some ([], s) := by
    rw [cutBlock, if_pos ⟨rfl, rfl⟩]
  rw [hfirst, Option.map_some] at hcut
  rw [splitBlocks_of_some hcut, List.append_nil]

theorem not_le_utf16Length_longText : ¬ utf16Length (longText max) ≤ max := by
  have hlong := @lt_utf16Length_longText max []
  rw [List.append_nil] at hlong
  exact Nat.not_le.mpr hlong

/-- The stream of a long block and a short one has the short one. -/
theorem frameBlocks_long (hmax : 7 ≤ max) :
    frameBlocks max (longBytes max ++ 0x0A :: shortBytes) = ["data: 1".toList] := by
  have hshort : splitBlocks '\n' "data: 1\n\n".toList = (["data: 1".toList], []) := by decide +kernel
  have htext : (0x0A :: shortBytes).map (fun b => Char.ofNat b.toNat) =
      '\n' :: '\n' :: "data: 1\n\n".toList := by decide +kernel
  have hfits : utf16Length "data: 1".toList ≤ max := hmax
  rw [frameBlocks, (decode_long (ascii_of_all (by decide))).1, htext, splitBlocks_long, hshort,
    List.filter_cons_of_neg (by simpa using not_le_utf16Length_longText)]
  simpa using hfits

/-- The chunk ends between the newlines after the long block: the short one is lost. -/
theorem dispatched_between : dispatched max [longBytes max ++ [0x0A], shortBytes] = [] := by
  obtain ⟨hlong, hmissing⟩ := @decode_long max [0x0A] (ascii_of_all (by decide))
  have htexts : TextDecoder.decodeChunks {} [longBytes max ++ [0x0A], shortBytes] =
      [longText max ++ ['\n'], "\ndata: 1\n\n".toList] := by
    have hshort := (@TextDecoder.decode_ascii _ hmissing shortBytes (ascii_of_all (by decide))).1
    rw [TextDecoder.decodeChunks, TextDecoder.decodeChunks, TextDecoder.decodeChunks, hlong, hshort]
    have hlast : shortBytes.map (fun b => Char.ofNat b.toNat) = "\ndata: 1\n\n".toList := by
      decide +kernel
    rw [hlast]
    rfl
  have hfirst : FrameReader.feed max {} (longText max ++ ['\n']) = ([.tooLarge], ⟨[], true⟩) := by
    rw [FrameReader.feed, FrameReader.drain]
    dsimp only
    rw [List.nil_append, cutBlock_longText (.inr rfl)]
    simp only [Bool.false_eq_true, if_false, if_pos (lt_utf16Length_longText ['\n'])]
  have hsecond : FrameReader.feed max ⟨[], true⟩ "\ndata: 1\n\n".toList = ([], ⟨[], false⟩) := by
    have hcut : cutBlock '\n' ([] ++ "\ndata: 1\n\n".toList) = some ("\ndata: 1".toList, []) := by
      decide +kernel
    rw [FrameReader.feed, FrameReader.drain]
    dsimp only
    rw [hcut]
    rfl
  rw [dispatched, consume, htexts, FrameReader.feedAll, FrameReader.feedAll, hfirst, hsecond]
  rfl

/-- A long block that comes in one chunk is not dropped. -/
theorem dispatched_whole : dispatched max [longBytes max ++ [0x0A, 0x0A]] = [longText max] := by
  have htexts : TextDecoder.decodeChunks {} [longBytes max ++ [0x0A, 0x0A]] =
      [longText max ++ ['\n', '\n']] := by
    rw [TextDecoder.decodeChunks, TextDecoder.decodeChunks,
      (decode_long (ascii_of_all (by decide))).1]
    rfl
  have hblocks := (FrameReader.drain_spec max
    (Nat.lt_succ_self (longText max ++ ['\n', '\n']).length)).1
  rw [splitBlocks_long] at hblocks
  rw [dispatched, consume, htexts, FrameReader.feedAll, FrameReader.feedAll, List.append_nil]
  exact hblocks

end Long

/-- The two defects at the limit of the client. -/
theorem dispatched_ne :
    dispatched sseMaxBufferBytes [longBytes sseMaxBufferBytes ++ [0x0A], shortBytes] ≠
        frameBlocks sseMaxBufferBytes [longBytes sseMaxBufferBytes ++ [0x0A], shortBytes].flatten ∧
      dispatched sseMaxBufferBytes [longBytes sseMaxBufferBytes ++ [0x0A, 0x0A]] ≠
        frameBlocks sseMaxBufferBytes [longBytes sseMaxBufferBytes ++ [0x0A, 0x0A]].flatten := by
  constructor
  · have hflat : [longBytes sseMaxBufferBytes ++ [0x0A], shortBytes].flatten =
        longBytes sseMaxBufferBytes ++ 0x0A :: shortBytes := by simp
    rw [dispatched_between, hflat, frameBlocks_long (by decide)]
    simp
  · have hflat : [longBytes sseMaxBufferBytes ++ [0x0A, 0x0A]].flatten =
        longBytes sseMaxBufferBytes ++ [0x0A, 0x0A] := by simp
    rw [dispatched_whole, hflat]
    intro h
    have hmem : longText sseMaxBufferBytes ∈ frameBlocks sseMaxBufferBytes
        (longBytes sseMaxBufferBytes ++ [0x0A, 0x0A]) := h ▸ List.mem_singleton_self _
    exact not_le_utf16Length_longText (of_decide_eq_true (List.mem_filter.mp hmem).2)

/-! ## Frames -/

/-- `Number(raw)` of an `id:` line: a positive safe integer in decimal digits. -/
def sequenceOf (raw : List Char) : Option ℕ :=
  if raw ≠ [] ∧ raw.all Char.isDigit ∧ 0 < decimalNumber raw ∧ decimalNumber raw < 2 ^ 53 then
    some (decimalNumber raw)
  else none

/-- What `parseFrame` gathers from the lines of a block. -/
structure FrameFields where
  id : Option ℕ := none
  event : List Char := "message".toList
  dataLines : List (List Char) := []
deriving DecidableEq, Repr

/-- A line of `parseFrame`. -/
def FrameFields.line (f : FrameFields) (rawLine : List Char) : FrameFields :=
  let line := if rawLine.getLast? = some '\r' then rawLine.dropLast else rawLine
  if line = [] ∨ line.head? = some ':' then f
  else if "id:".toList.isPrefixOf line then { f with id := (sequenceOf (trim (line.drop 3))).or f.id }
  else if "event:".toList.isPrefixOf line then
    let event := trim (line.drop 6)
    { f with event := if event = [] then "message".toList else event }
  else if "data:".toList.isPrefixOf line then
    { f with dataLines := f.dataLines ++ [EventLine.dropSpace (line.drop 5)] }
  else f

/-- A frame as `onFrame` gets it. -/
structure SseFrame (V : Type) where
  id : Option ℕ
  event : List Char
  data : V
deriving DecidableEq, Repr

/-- What `parseFrame` returns. -/
inductive Parsed (V : Type)
  /-- A block without data. -/
  | nothing
  /-- `SSE_PARSE_ERROR`. -/
  | invalid
  | frame (f : SseFrame V)
deriving DecidableEq, Repr

/-- `parseFrame`, with `JSON.parse` as `parse`. -/
def parseFrame {V : Type} (parse : List Char → Option V) (block : List Char) : Parsed V :=
  let f := (block.splitOn '\n').foldl FrameFields.line {}
  if f.dataLines = [] then .nothing
  else match parse (['\n'].intercalate f.dataLines) with
    | none => .invalid
    | some data => .frame ⟨f.id, f.event, data⟩

example : parseFrame some "id: 12\r\nevent: text_delta\ndata: 1\ndata:  2".toList =
    .frame ⟨some 12, "text_delta".toList, "1\n 2".toList⟩ := by
  decide +kernel

end AgentCraft.Web
