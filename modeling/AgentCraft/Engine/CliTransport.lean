import AgentCraft.Engine.LineAssembler
import Mathlib.Logic.Relation

/-!
# Lines from a pipe

`DockerCliTransport.readline` reads lines through `asyncio.StreamReader`, whose buffer is filled while
the reader waits and between its calls. A line above the limit is an overrun: the reader has already
taken the line if its newline is in the buffer, and has cleared the buffer otherwise. The transport then
drains pieces of the stream until one of them ends with a newline.

The drain knows neither which of the two has happened nor where the line ends within a piece.
`cliTexts_eq_iff` says when it stops where the line ends; in all other cases lines are swallowed.
-/

namespace AgentCraft.Engine

open AgentCraft.Python AgentCraft.Streams

/-- The stream reader of the transport: its buffer, and what is still to be fed to it. A feed is taken
at the begin of every call and whenever the reader waits; an empty one stands for nothing new at the
begin of a call. The end of the stream comes after the last feed. -/
structure CliTransport where
  buf : List UInt8
  feeds : List (List UInt8)
deriving DecidableEq, Repr

/-- What `StreamReader.readline` returns or raises. -/
inductive ReaderReply
  /-- A line with its newline, or what is left at the end of the stream. -/
  | data (bytes : List UInt8)
  /-- `ValueError`. -/
  | overrun
deriving DecidableEq, Repr

/-- `StreamReader.readline`, from a look at the buffer on. -/
@[grind] def readerReadline (max : ℕ) : List UInt8 → List (List UInt8) → ReaderReply × CliTransport
  | buf, feeds =>
    if newline ∈ buf then
      let isep := buf.idxOf newline
      (if max < isep then .overrun else .data (buf.take (isep + 1)), ⟨buf.drop (isep + 1), feeds⟩)
    else if max < buf.length then (.overrun, ⟨[], feeds⟩)
    else match feeds with
      | [] => (.data buf, ⟨[], []⟩)
      | c :: cs => readerReadline max (buf ++ c) cs

/-- `StreamReader.read(n)`: it waits only if the buffer is empty. -/
@[grind] def readerRead (n : ℕ) : List UInt8 → List (List UInt8) → List UInt8 × CliTransport
  | [], [] => ([], ⟨[], []⟩)
  | [], c :: cs => readerRead n c cs
  | b :: bs, feeds => ((b :: bs).take n, ⟨(b :: bs).drop n, feeds⟩)

namespace CliTransport

/-- The bytes that have not been read. -/
def stream (s : CliTransport) : List UInt8 := s.buf ++ s.feeds.flatten

/-- What has been fed by the time of a call. -/
def arrive (s : CliTransport) : CliTransport :=
  match s.feeds with
  | [] => s
  | c :: cs => ⟨s.buf ++ c, cs⟩

theorem stream_readerRead (n : ℕ) (buf : List UInt8) (feeds : List (List UInt8)) :
    stream ⟨buf, feeds⟩ = (readerRead n buf feeds).1 ++ (readerRead n buf feeds).2.stream := by
  induction feeds generalizing buf with
  | nil =>
    cases buf with
    | nil => rfl
    | cons b bs => simp [readerRead, stream]
  | cons c cs ih =>
    cases buf with
    | nil => exact ih c
    | cons b bs => simp only [readerRead, stream, ← List.append_assoc, List.take_append_drop]

/-- `_drain_oversize_line`. -/
def drainOversizeLine (max : ℕ) (s : CliTransport) : CliTransport :=
  if (readerRead max s.buf s.feeds).1 = [] ∨
      (readerRead max s.buf s.feeds).1.getLast? = some newline then (readerRead max s.buf s.feeds).2
  else drainOversizeLine max (readerRead max s.buf s.feeds).2
termination_by s.stream.length
decreasing_by
  have hpos := List.length_pos_iff.mpr (not_or.mp ‹_›).1
  have hlength := congrArg List.length (stream_readerRead max s.buf s.feeds)
  rw [List.length_append] at hlength
  change (readerRead max s.buf s.feeds).2.stream.length < (stream ⟨s.buf, s.feeds⟩).length
  omega

end CliTransport

/-- What a call of the transport takes: a marker, or the bytes that the reader returns. -/
inductive CliLine
  | marker
  | data (bytes : List UInt8)
deriving DecidableEq, Repr

/-- What the transport makes of the reader's reply. -/
def CliTransport.answer (max : ℕ) : ReaderReply × CliTransport → Option CliLine × CliTransport
  | (.overrun, s) => (some .marker, s.drainOversizeLine max)
  | (.data raw, s) => (if raw = [] then none else some (.data raw), s)

/-- `DockerCliTransport.readline`, before decoding; none stands for `None`. -/
def CliTransport.takeLine (max : ℕ) (s : CliTransport) : Option CliLine × CliTransport :=
  answer max (readerReadline max s.arrive.buf s.arrive.feeds)

/-- The text that `readline` returns; none stands for `UnicodeDecodeError`. -/
def CliLine.text : CliLine → Option String
  | .marker => some ""
  | .data raw => (decodeUtf8 raw).map (rstrip ['\r', '\n'])

/-- The lines that the transport takes, one after the other, until it returns `None`. -/
@[grind] def CliTransport.takeLines (max : ℕ) : ℕ → CliTransport → List CliLine
  | 0, _ => []
  | n + 1, s =>
    match s.takeLine max with
    | (none, _) => []
    | (some l, s') => l :: takeLines max n s'

/-- What the calls return until the end of the stream; every call but the last reads a byte. -/
def cliTexts (max : ℕ) (feeds : List (List UInt8)) : List (Option String) :=
  (CliTransport.takeLines max (feeds.flatten.length + 1) ⟨[], feeds⟩).map CliLine.text

/-- What they are meant to return: the text of the stream's lines, as `_LineAssembler` decodes it. -/
def streamTexts (max : ℕ) (bs : List UInt8) : List (Option String) :=
  (rawLines max bs).map RawLine.text

/-! ## What a drain takes -/

section Drain

variable {max : ℕ}

namespace CliTransport

/-- The pieces that `read` returns from here on. -/
def unread (max : ℕ) (s : CliTransport) : List (List UInt8) :=
  Streams.pieces max s.buf ++ s.feeds.flatMap (Streams.pieces max)

theorem flatten_feeds (hmax : 0 < max) (feeds : List (List UInt8)) :
    (feeds.flatMap (Streams.pieces max)).flatten = feeds.flatten := by
  induction feeds with
  | nil => rfl
  | cons c cs ih =>
    rw [List.flatMap_cons, List.flatten_append, Streams.flatten_pieces hmax, ih, List.flatten_cons]

theorem flatten_unread (hmax : 0 < max) (s : CliTransport) : (s.unread max).flatten = s.stream := by
  rw [unread, List.flatten_append, Streams.flatten_pieces hmax, flatten_feeds hmax, stream]

/-- A read takes the next piece. -/
theorem unread_readerRead (hmax : 0 < max) (buf : List UInt8) (feeds : List (List UInt8)) :
    (unread max ⟨buf, feeds⟩ = [] ∧ (readerRead max buf feeds).1 = [] ∧
        (readerRead max buf feeds).2.unread max = []) ∨
      (readerRead max buf feeds).1 ≠ [] ∧
        unread max ⟨buf, feeds⟩ =
          (readerRead max buf feeds).1 :: (readerRead max buf feeds).2.unread max := by
  induction feeds generalizing buf with
  | nil =>
    cases buf with
    | nil => exact .inl ⟨by simp [unread], rfl, by simp [readerRead, unread]⟩
    | cons b bs =>
      refine .inr ⟨by simp [readerRead, hmax.ne'], ?_⟩
      rw [unread, Streams.pieces_of_ne_nil hmax (by simp)]
      rfl
  | cons c cs ih =>
    cases buf with
    | nil => simpa [readerRead, unread] using ih c
    | cons b bs =>
      refine .inr ⟨by simp [readerRead, hmax.ne'], ?_⟩
      rw [unread, Streams.pieces_of_ne_nil hmax (by simp)]
      rfl

/-- A drain takes the pieces up to the first one that ends with a newline. -/
theorem unread_drainOversizeLine (hmax : 0 < max) (s : CliTransport) :
    (s.drainOversizeLine max).unread max =
      ((s.unread max).dropWhile (·.getLast? ≠ some newline)).tail := by
  induction s using drainOversizeLine.induct max with
  | case1 s h =>
    rw [drainOversizeLine, if_pos h]
    rcases unread_readerRead hmax s.buf s.feeds with ⟨hnil, -, hrest⟩ | ⟨hne, hcons⟩
    · rw [hrest, show s.unread max = [] from hnil]
      rfl
    · rw [show s.unread max = _ from hcons,
        List.dropWhile_cons_of_neg (by simpa using h.resolve_left hne)]
      rfl
  | case2 s h ih =>
    obtain ⟨hne, hlast⟩ := not_or.mp h
    rw [drainOversizeLine, if_neg h, ih]
    rcases unread_readerRead hmax s.buf s.feeds with ⟨-, hnil, -⟩ | ⟨-, hcons⟩
    · exact absurd hnil hne
    · rw [show s.unread max = _ from hcons, List.dropWhile_cons_of_pos (by simpa using hlast)]

/-- The first piece with a newline ends with it. -/
def EndsPiece (ps : List (List UInt8)) : Prop :=
  ∃ x rest, ps.dropWhile (newline ∉ ·) = (x ++ [newline]) :: rest ∧ newline ∉ x

theorem endsPiece_append {ps qs : List (List UInt8)} (h : newline ∉ ps.flatten) :
    EndsPiece (ps ++ qs) ↔ EndsPiece qs := by
  have hdrop : (ps ++ qs).dropWhile (newline ∉ ·) = qs.dropWhile (newline ∉ ·) :=
    List.dropWhile_append_of_pos fun p hp => decide_eq_true fun hmem =>
      h (List.mem_flatten_of_mem hp hmem)
  rw [EndsPiece, hdrop, EndsPiece]

theorem endsPiece_cons {x y : List UInt8} {rest : List (List UInt8)} (hx : newline ∉ x) :
    EndsPiece ((x ++ newline :: y) :: rest) ↔ y = [] := by
  have hdrop : ((x ++ newline :: y) :: rest).dropWhile (newline ∉ ·) =
      (x ++ newline :: y) :: rest := List.dropWhile_cons_of_neg (by simp)
  rw [EndsPiece, hdrop]
  constructor
  · rintro ⟨x', rest', heq, hx'⟩
    exact (line_inj hx hx' (List.cons.inj heq).1).2
  · rintro rfl
    exact ⟨x, rest, rfl, hx⟩

/-- The piece that holds the first newline. -/
theorem exists_first_piece {ps : List (List UInt8)} (h : newline ∈ ps.flatten) :
    ∃ qs x y rest, ps = qs ++ (x ++ newline :: y) :: rest ∧ newline ∉ qs.flatten ∧ newline ∉ x := by
  induction ps with
  | nil => cases h
  | cons p ps ih =>
    by_cases hp : newline ∈ p
    · obtain ⟨hsplit, hx⟩ := eq_take_idxOf hp
      exact ⟨[], p.take (p.idxOf newline), p.drop (p.idxOf newline + 1), ps, by rw [← hsplit]; rfl,
        List.not_mem_nil, hx⟩
    · rw [List.flatten_cons, List.mem_append] at h
      obtain ⟨qs, x, y, rest, rfl, hqs, hx⟩ := ih (h.resolve_left hp)
      exact ⟨p :: qs, x, y, rest, rfl, by simp [hp, List.mem_flatten] at hqs ⊢; exact hqs, hx⟩

/-- What a drain takes ends with a newline, or it takes everything. -/
theorem exists_drained (ps : List (List UInt8)) :
    ∃ d, ps.flatten = d ++ ((ps.dropWhile (·.getLast? ≠ some newline)).tail).flatten ∧
      (∀ p ps', ps = p :: ps' → p <+: d) ∧
      (d.getLast? = some newline ∨ (ps.dropWhile (·.getLast? ≠ some newline)).tail = []) := by
  induction ps with
  | nil => exact ⟨[], rfl, by simp, .inr rfl⟩
  | cons p ps ih =>
    by_cases hp : p.getLast? = some newline
    · rw [List.dropWhile_cons_of_neg (by simpa using hp)]
      refine ⟨p, rfl, ?_, .inl hp⟩
      rintro p' ps' ⟨⟩
      exact List.prefix_rfl
    · obtain ⟨d, hd, -, hends⟩ := ih
      rw [List.dropWhile_cons_of_pos (by simpa using hp)]
      refine ⟨p ++ d, ?_, ?_, ?_⟩
      · rw [List.flatten_cons, hd, List.append_assoc]
      · rintro p' ps' ⟨⟩
        exact List.prefix_append _ _
      · refine hends.imp_left fun hlast => ?_
        rw [List.getLast?_append, hlast]
        rfl

end CliTransport

end Drain

/-! ## One call -/

section Calls

variable {max : ℕ} {s s' : CliTransport} {r : Option CliLine} {buf c : List UInt8}
  {cs feeds : List (List UInt8)}

open CliTransport

/-- The line at the head of the stream is not above the limit, or nothing follows it, or the drain stops
where it ends: the reader sees more than the limit of it before it sees the newline, and the newline ends
the piece that it comes in. -/
def LineSafe (max : ℕ) (s : CliTransport) : Prop :=
  ∀ l bs, s.stream = l ++ newline :: bs → newline ∉ l → max < l.length → bs ≠ [] →
    ∃ pre post, s.feeds = pre ++ post ∧ newline ∉ s.buf ++ pre.flatten ∧
      max < (s.buf ++ pre.flatten).length ∧ EndsPiece (post.flatMap (Streams.pieces max))

/-- What a call takes from the stream. -/
inductive CliTakes (max : ℕ) (s : CliTransport) : Option CliLine → CliTransport → Prop
  | line {s' : CliTransport} (l : List UInt8) (hl : newline ∉ l)
      (hstream : s.stream = l ++ newline :: s'.stream) (hsafe : LineSafe max s) :
      CliTakes max s (some (if max < l.length then .marker else .data (l ++ [newline]))) s'
  | tail {s' : CliTransport} (hopen : newline ∉ s.stream) (hne : s.stream ≠ [])
      (hend : s'.stream = []) :
      CliTakes max s (some (if max < s.stream.length then .marker else .data s.stream)) s'
  /-- The drain takes what follows the line, up to the end of some line or of the stream. -/
  | swallowed {s' : CliTransport} (l d : List UInt8) (hl : newline ∉ l) (hd : d ≠ [])
      (hends : d.getLast? = some newline ∨ s'.stream = [])
      (hstream : s.stream = l ++ newline :: (d ++ s'.stream)) (hsafe : ¬ LineSafe max s) :
      CliTakes max s (some .marker) s'
  | done {s' : CliTransport} (hend : s.stream = []) : CliTakes max s none s'

theorem lineSafe_of_short {l bs : List UInt8} (hstream : s.stream = l ++ newline :: bs)
    (hl : newline ∉ l) (h : ¬ max < l.length ∨ bs = []) : LineSafe max s := by
  intro l' bs' hstream' hl' hlong hne
  obtain ⟨rfl, rfl⟩ := line_inj hl hl' (hstream.symm.trans hstream')
  rcases h with h | h
  · exact absurd hlong h
  · exact absurd h hne

theorem lineSafe_of_open (hopen : newline ∉ s.stream) : LineSafe max s := by
  intro l bs hstream
  exact absurd (by rw [hstream]; simp) hopen

/-- Waiting while the open line is not too long. -/
theorem lineSafe_read (h : ¬ max < buf.length) :
    LineSafe max ⟨buf, c :: cs⟩ ↔ LineSafe max ⟨buf ++ c, cs⟩ := by
  have hstream : stream ⟨buf, c :: cs⟩ = stream ⟨buf ++ c, cs⟩ := by simp [stream]
  constructor
  · intro hsafe l bs hsplit hl hlong hne
    obtain ⟨pre, post, hfeeds, hopen, hmax, hends⟩ := hsafe l bs (hstream.trans hsplit) hl hlong hne
    cases pre with
    | nil => exact absurd (by simpa using hmax) h
    | cons c' pre =>
      obtain ⟨rfl, rfl⟩ := List.cons.inj hfeeds
      rw [List.flatten_cons, ← List.append_assoc] at hopen hmax
      exact ⟨pre, post, rfl, hopen, hmax, hends⟩
  · intro hsafe l bs hsplit hl hlong hne
    obtain ⟨pre, post, hfeeds, hopen, hmax, hends⟩ :=
      hsafe l bs (hstream.symm.trans hsplit) hl hlong hne
    refine ⟨c :: pre, post, congrArg (c :: ·) hfeeds, ?_, ?_, hends⟩
    all_goals rwa [List.flatten_cons, ← List.append_assoc]

theorem CliTakes.read (h : CliTakes max ⟨buf ++ c, cs⟩ r s') (hshort : ¬ max < buf.length) :
    CliTakes max ⟨buf, c :: cs⟩ r s' := by
  have hstream : stream ⟨buf ++ c, cs⟩ = stream ⟨buf, c :: cs⟩ := by simp [stream]
  cases h with
  | line l hl hsplit hsafe => exact .line l hl (hstream ▸ hsplit) ((lineSafe_read hshort).mpr hsafe)
  | tail hopen hne hend =>
    rw [hstream]
    rw [hstream] at hopen hne
    exact .tail hopen hne hend
  | swallowed l d hl hd hends hsplit hsafe =>
    exact .swallowed l d hl hd hends (hstream ▸ hsplit) fun h => hsafe ((lineSafe_read hshort).mp h)
  | done hend => exact .done (hstream ▸ hend)

/-- A drain takes a part of the stream that ends with a newline, or everything. -/
theorem exists_drained_stream (hmax : 0 < max) (s : CliTransport) :
    ∃ d, s.stream = d ++ (s.drainOversizeLine max).stream ∧
      (d.getLast? = some newline ∨ (s.drainOversizeLine max).stream = []) := by
  obtain ⟨d, hd, -, hends⟩ := exists_drained (s.unread max)
  rw [← unread_drainOversizeLine hmax, flatten_unread hmax, flatten_unread hmax] at hd
  refine ⟨d, hd, hends.imp_right fun hnil => ?_⟩
  rw [← flatten_unread hmax, unread_drainOversizeLine hmax, hnil]
  rfl

/-- An overrun whose newline is in the buffer: the line is gone, and the drain takes more. -/
theorem takes_overrun_found (hmax : 0 < max) (hmem : newline ∈ buf)
    (hlong : max < buf.idxOf newline) :
    CliTakes max ⟨buf, feeds⟩ (some .marker)
      (drainOversizeLine max ⟨buf.drop (buf.idxOf newline + 1), feeds⟩) := by
  obtain ⟨hsplit, hl⟩ := eq_take_idxOf hmem
  obtain ⟨d, hd, hends⟩ :=
    exists_drained_stream hmax ⟨buf.drop (buf.idxOf newline + 1), feeds⟩
  have hstream : stream ⟨buf, feeds⟩ = buf.take (buf.idxOf newline) ++
      newline :: stream ⟨buf.drop (buf.idxOf newline + 1), feeds⟩ := by
    rw [stream, stream, ← List.cons_append, ← List.append_assoc, ← hsplit]
  by_cases hnil : d = []
  · subst hnil
    have hend := hends.resolve_left (by simp)
    have hsafe := @lineSafe_of_short max _ _ _ hstream hl (.inr (hd.trans hend))
    rw [show stream ⟨buf.drop (buf.idxOf newline + 1), feeds⟩ = _ from hd] at hstream
    have h := @CliTakes.line max _ _ _ hl hstream hsafe
    rwa [length_take_idxOf hmem, if_pos hlong] at h
  · refine .swallowed _ d hl hnil hends (by rw [hstream, hd]) fun hsafe => ?_
    have hne : stream ⟨buf.drop (buf.idxOf newline + 1), feeds⟩ ≠ [] := by
      rw [hd]
      exact List.append_ne_nil_of_left_ne_nil hnil _
    obtain ⟨pre, post, -, hopen, -⟩ := hsafe _ _ hstream hl (by rwa [length_take_idxOf hmem]) hne
    exact hopen (List.mem_append_left _ hmem)

/-- An overrun without newline: the drain looks for it. -/
theorem takes_overrun_open (hmax : 0 < max) (hopen : newline ∉ buf) (hlong : max < buf.length) :
    CliTakes max ⟨buf, feeds⟩ (some .marker) (drainOversizeLine max ⟨[], feeds⟩) := by
  have hpieces : unread max ⟨[], feeds⟩ = feeds.flatMap (Streams.pieces max) := by simp [unread]
  by_cases hmem : newline ∈ feeds.flatten
  · have hmem' : newline ∈ (feeds.flatMap (Streams.pieces max)).flatten := by
      rwa [flatten_feeds hmax]
    obtain ⟨qs, x, y, rest, hfirst, hqs, hx⟩ := exists_first_piece hmem'
    have hflatten : feeds.flatten = qs.flatten ++ (x ++ newline :: (y ++ rest.flatten)) := by
      rw [← flatten_feeds hmax, hfirst]
      simp
    have hl : newline ∉ buf ++ qs.flatten ++ x := by simp [hopen, hx, hqs]
    have hstream : stream ⟨buf, feeds⟩ =
        (buf ++ qs.flatten ++ x) ++ newline :: (y ++ rest.flatten) := by
      rw [stream, hflatten]
      simp
    have hlength : max < (buf ++ qs.flatten ++ x).length := by
      rw [List.length_append, List.length_append]
      omega
    -- the drain passes the pieces of the line before the one with the newline
    have hdrop : (unread max ⟨[], feeds⟩).dropWhile (·.getLast? ≠ some newline) =
        ((x ++ newline :: y) :: rest).dropWhile (·.getLast? ≠ some newline) := by
      rw [hpieces, hfirst]
      refine List.dropWhile_append_of_pos fun q hq => decide_eq_true fun hlast => ?_
      exact hqs (List.mem_flatten_of_mem hq (List.mem_of_getLast? hlast))
    have hafter := unread_drainOversizeLine hmax ⟨[], feeds⟩
    rw [hdrop] at hafter
    have hend : EndsPiece (feeds.flatMap (Streams.pieces max)) ↔ y = [] := by
      rw [hfirst, endsPiece_append hqs, endsPiece_cons hx]
    by_cases hy : y = []
    · subst hy
      rw [List.dropWhile_cons_of_neg (by simp), List.tail_cons] at hafter
      have hrest : (drainOversizeLine max ⟨[], feeds⟩).stream = rest.flatten := by
        rw [← flatten_unread hmax, hafter]
      have hsafe : LineSafe max ⟨buf, feeds⟩ := fun _ _ _ _ _ _ =>
        ⟨[], feeds, rfl, by simpa using hopen, by simpa using hlong, hend.mpr rfl⟩
      rw [List.nil_append, ← hrest] at hstream
      have h := @CliTakes.line max _ _ _ hl hstream hsafe
      rwa [if_pos hlength] at h
    · obtain ⟨d, hd, hprefix, hends⟩ := exists_drained ((x ++ newline :: y) :: rest)
      obtain ⟨e, rfl⟩ := hprefix _ _ rfl
      rw [← hafter, flatten_unread hmax, List.flatten_cons] at hd
      have hsplit : y ++ rest.flatten = (y ++ e) ++ (drainOversizeLine max ⟨[], feeds⟩).stream := by
        simpa using hd
      refine .swallowed _ (y ++ e) hl (List.append_ne_nil_of_left_ne_nil hy e) ?_
        (by rw [hstream, hsplit]) fun hsafe => ?_
      · rcases hends with hlast | hnil
        · left
          have hassoc : x ++ newline :: y ++ e = (x ++ [newline]) ++ (y ++ e) := by simp
          rw [hassoc, List.getLast?_append_of_ne_nil _ (List.append_ne_nil_of_left_ne_nil hy e)]
            at hlast
          exact hlast
        · right
          rw [← flatten_unread hmax, hafter, hnil]
          rfl
      · obtain ⟨pre, post, rfl, hpre, -, hpost⟩ := hsafe _ _ hstream hl hlength
          (List.append_ne_nil_of_left_ne_nil hy _)
        refine hy (hend.mp ?_)
        rw [List.flatMap_append, endsPiece_append]
        · exact hpost
        · rw [flatten_feeds hmax]
          exact fun h => hpre (List.mem_append_right _ h)
  · have hno : newline ∉ stream ⟨buf, feeds⟩ := by simp [stream, hopen] at hmem ⊢; exact hmem
    obtain ⟨d, hd, hends⟩ := exists_drained_stream hmax ⟨[], feeds⟩
    have hend := hends.resolve_left fun hlast => hmem (by
      rw [show feeds.flatten = stream ⟨[], feeds⟩ from rfl, hd]
      exact List.mem_append_left _ (List.mem_of_getLast? hlast))
    have hlength : max < (stream ⟨buf, feeds⟩).length := by
      rw [stream, List.length_append]
      exact hlong.trans_le (Nat.le_add_right _ _)
    have h := @CliTakes.tail max _ _ hno
      (List.ne_nil_of_length_pos (Nat.zero_lt_of_lt hlength)) hend
    rwa [if_pos hlength] at h

/-- A call that finds a newline in the buffer. -/
theorem takes_answer_found (hmax : 0 < max) (hmem : newline ∈ buf) :
    CliTakes max ⟨buf, feeds⟩ (answer max (readerReadline max buf feeds)).1
      (answer max (readerReadline max buf feeds)).2 := by
  unfold readerReadline
  rw [if_pos hmem]
  by_cases hlong : max < buf.idxOf newline
  · simp only [if_pos hlong]
    exact takes_overrun_found hmax hmem hlong
  · obtain ⟨hsplit, hl⟩ := eq_take_idxOf hmem
    have htake : buf.take (buf.idxOf newline + 1) = buf.take (buf.idxOf newline) ++ [newline] := by
      rw [List.take_add_one, List.getElem?_idxOf hmem]
      rfl
    have hstream : stream ⟨buf, feeds⟩ = buf.take (buf.idxOf newline) ++
        newline :: stream ⟨buf.drop (buf.idxOf newline + 1), feeds⟩ := by
      rw [stream, stream, ← List.cons_append, ← List.append_assoc, ← hsplit]
    have hlength := length_take_idxOf hmem
    have h := @CliTakes.line max _ _ _ hl hstream
      (lineSafe_of_short hstream hl (.inl (by rwa [hlength])))
    rw [hlength, if_neg hlong] at h
    simp only [if_neg hlong, answer, htake, if_neg (List.append_ne_nil_of_right_ne_nil _
      (List.cons_ne_nil newline []))]
    exact h

/-- A call from its look at the buffer on. -/
theorem takes_answer (hmax : 0 < max) (buf : List UInt8) (feeds : List (List UInt8)) :
    CliTakes max ⟨buf, feeds⟩ (answer max (readerReadline max buf feeds)).1
      (answer max (readerReadline max buf feeds)).2 := by
  induction feeds generalizing buf with
  | nil =>
    by_cases hmem : newline ∈ buf
    · exact takes_answer_found hmax hmem
    · unfold readerReadline
      rw [if_neg hmem]
      by_cases hlong : max < buf.length
      · rw [if_pos hlong]
        exact takes_overrun_open hmax hmem hlong
      · rw [if_neg hlong]
        have hstream : stream ⟨buf, []⟩ = buf := List.append_nil buf
        by_cases hnil : buf = []
        · simp only [answer, if_pos hnil]
          exact .done (hstream.trans hnil)
        · have h := @CliTakes.tail max ⟨buf, []⟩ ⟨[], []⟩
            (hstream.symm ▸ hmem) (hstream.symm ▸ hnil) rfl
          rw [hstream, if_neg hlong] at h
          simpa only [answer, if_neg hnil] using h
  | cons c cs ih =>
    by_cases hmem : newline ∈ buf
    · exact takes_answer_found hmax hmem
    · unfold readerReadline
      rw [if_neg hmem]
      by_cases hlong : max < buf.length
      · rw [if_pos hlong]
        exact takes_overrun_open hmax hmem hlong
      · rw [if_neg hlong]
        exact (ih (buf ++ c)).read hlong

theorem stream_arrive (s : CliTransport) : s.arrive.stream = s.stream := by
  obtain ⟨buf, feeds⟩ := s
  cases feeds <;> simp [arrive, stream]

/-- A call of the transport. -/
theorem cliTakes_takeLine (hmax : 0 < max) (s : CliTransport) :
    CliTakes max s.arrive (s.takeLine max).1 (s.takeLine max).2 :=
  takes_answer hmax _ _

end Calls

/-! ## Reading to the end -/

section Reading

variable {max : ℕ} {s s' : CliTransport}

open CliTransport

/-- A call that returns a line. -/
def Calls (max : ℕ) (s s' : CliTransport) : Prop := ∃ l, s.takeLine max = (some l, s')

/-- At every call, the line at the head of the stream is safe. -/
def NeverSwallows (max : ℕ) (s : CliTransport) : Prop :=
  ∀ t, Relation.ReflTransGen (Calls max) s t → LineSafe max t.arrive

theorem neverSwallows_of_some {l : CliLine} (h : s.takeLine max = (some l, s')) :
    NeverSwallows max s ↔ LineSafe max s.arrive ∧ NeverSwallows max s' := by
  constructor
  · intro hnever
    exact ⟨hnever s .refl, fun t ht => hnever t (.head ⟨l, h⟩ ht)⟩
  · rintro ⟨hsafe, hrest⟩ t ht
    rcases ht.cases_head with rfl | ⟨u, ⟨l', hcall⟩, hut⟩
    · exact hsafe
    · obtain rfl := (Prod.mk.inj (h.symm.trans hcall)).2
      exact hrest t hut

theorem neverSwallows_of_none (h : s.takeLine max = (none, s')) (hsafe : LineSafe max s.arrive) :
    NeverSwallows max s := by
  intro t ht
  rcases ht.cases_head with rfl | ⟨u, ⟨l', hcall⟩, -⟩
  · exact hsafe
  · exact absurd (Prod.mk.inj (h.symm.trans hcall)).1 (by simp)

/-- At the end of the stream nothing is swallowed any more. -/
theorem neverSwallows_of_stream (hmax : 0 < max) (h : s.stream = []) : NeverSwallows max s := by
  have harrive : s.arrive.stream = [] := (stream_arrive s).trans h
  have htake := cliTakes_takeLine hmax s
  generalize hcall : s.takeLine max = taken at htake
  obtain ⟨r, s'⟩ := taken
  change CliTakes max s.arrive r s' at htake
  cases htake with
  | line l _ hstream => simp [harrive] at hstream
  | tail _ hne => exact absurd harrive hne
  | swallowed l d _ _ _ hstream => simp [harrive] at hstream
  | done =>
    exact neverSwallows_of_none hcall (lineSafe_of_open (by rw [harrive]; exact List.not_mem_nil))

/-- What a drain takes beyond a line is a line at least. -/
theorem lineCount_lt_drained {d bs : List UInt8} (hd : d ≠ [])
    (hends : d.getLast? = some newline ∨ bs = []) :
    lineCount newline bs < lineCount newline (d ++ bs) := by
  rcases hends with hlast | rfl
  · obtain ⟨d', rfl⟩ := List.getLast?_eq_some_iff.mp hlast
    rw [List.append_assoc]
    exact lineCount_lt_newline d' bs
  · rw [List.append_nil]
    exact lineCount_pos hd

/-- What the transport makes of a line. -/
def cliLine : RawLine → CliLine
  | .marker => .marker
  | .line bytes => .data (bytes ++ [newline])
  | .tail bytes => .data bytes

theorem cliLine_limited (raw : List UInt8 → RawLine) (l : List UInt8) :
    cliLine (limited max raw l) = if max < l.length then .marker else cliLine (raw l) := by
  rw [limited, apply_ite cliLine]
  rfl

/-- The transport takes the lines of the stream if no drain swallows any, and fewer otherwise. -/
theorem cliTakeLines_spec (hmax : 0 < max) (n : ℕ) (s : CliTransport) (h : s.stream.length < n) :
    (NeverSwallows max s → s.takeLines max n = (rawLines max s.stream).map cliLine) ∧
      (s.takeLines max n).length ≤ lineCount newline s.stream ∧
      (¬ NeverSwallows max s → (s.takeLines max n).length < lineCount newline s.stream) := by
  induction n generalizing s with
  | zero => exact absurd h (Nat.not_lt_zero _)
  | succ n ih =>
    have htake := cliTakes_takeLine hmax s
    have harrive := stream_arrive s
    unfold CliTransport.takeLines
    generalize hcall : s.takeLine max = taken at htake ⊢
    obtain ⟨r, s'⟩ := taken
    change CliTakes max s.arrive r s' at htake
    cases htake with
    | line l hl hstream hsafe =>
      rw [harrive] at hstream
      have hshort : s'.stream.length < n := by
        rw [hstream, List.length_append, List.length_cons] at h
        omega
      obtain ⟨heq, hle, hlt⟩ := ih s' hshort
      have hcount := lineCount_line hl s'.stream
      rw [← hstream] at hcount
      have hnever := neverSwallows_of_some hcall
      rw [hcount]
      refine ⟨fun hs => ?_, Nat.succ_le_succ hle, fun hs => Nat.succ_lt_succ (hlt fun hs' => ?_)⟩
      · rw [hstream, rawLines_line hl, List.map_cons, cliLine_limited]
        exact congrArg _ (heq (hnever.mp hs).2)
      · exact hs (hnever.mpr ⟨hsafe, hs'⟩)
    | tail hopen hne hend =>
      rw [harrive] at hopen hne
      have hshort : s'.stream.length < n := by
        have hpos := List.length_pos_iff.mpr hne
        rw [hend, List.length_nil]
        omega
      have hcount : lineCount newline s.stream = 1 := by
        rw [← length_rawLines max, rawLines_open hopen hne]
        rfl
      have hrest := neverSwallows_of_stream hmax hend
      have hnone : s'.takeLines max n = [] := by
        rw [(ih s' hshort).1 hrest, hend]
        rfl
      have hsafe : LineSafe max s.arrive := lineSafe_of_open (by rwa [harrive])
      simp only [hnone]
      rw [rawLines_open hopen hne, hcount, harrive, List.map_singleton, cliLine_limited]
      exact ⟨fun _ => rfl, le_rfl, fun hs =>
        absurd ((neverSwallows_of_some hcall).mpr ⟨hsafe, hrest⟩) hs⟩
    | swallowed l d hl hd hends hstream hsafe =>
      rw [harrive] at hstream
      have hshort : s'.stream.length < n := by
        rw [hstream, List.length_append, List.length_cons, List.length_append] at h
        omega
      have hlt : (s'.takeLines max n).length + 1 < lineCount newline s.stream := by
        rw [hstream, lineCount_line hl]
        exact Nat.succ_lt_succ ((ih s' hshort).2.1.trans_lt (lineCount_lt_drained hd hends))
      exact ⟨fun hs => absurd (hs s .refl) hsafe, hlt.le, fun _ => hlt⟩
    | done hend =>
      rw [harrive] at hend
      rw [hend]
      refine ⟨fun _ => rfl, Nat.zero_le _, fun hs => absurd (neverSwallows_of_none hcall ?_) hs⟩
      exact lineSafe_of_open (by rw [harrive, hend]; exact List.not_mem_nil)

/-! ### The text -/

/-- `b"\r"`. -/
def carriageReturn : UInt8 := 13

/-- The open line at the end of the stream is dropped, or it is well-formed and does not end with a
carriage return: the transport strips it and does not replace ill-formed parts. -/
def PlainEnd (max : ℕ) (bs : List UInt8) : Prop :=
  (openLine newline bs).length ≤ max →
    (decodeUtf8 (openLine newline bs)).isSome ∧ (openLine newline bs).getLast? ≠ some carriageReturn

/-- A line is decoded alike with its newline. -/
theorem text_cliLine_line {l : List UInt8} (hl : newline ∉ l) :
    (cliLine (.line l)).text = (RawLine.line l).text := by
  have hnl : encodeUtf8 "\n" = [newline] := by decide +kernel
  change (decodeUtf8 (l ++ [newline])).map (rstrip ['\r', '\n']) = (decodeUtf8 l).map (rstrip ['\r'])
  cases hdecode : decodeUtf8 l with
  | some t =>
    have hbytes := encodeUtf8_of_decodeUtf8 hdecode
    have htext : '\n' ∉ t.toList := fun hmem => hl (hbytes ▸ mem_encodeUtf8 (by decide) hmem)
    rw [← hbytes, ← hnl, ← encodeUtf8_append, decodeUtf8_encodeUtf8, Option.map_some,
      rstrip_newline htext, Option.map_some]
  | none =>
    cases hwhole : decodeUtf8 (l ++ [newline]) with
    | none => rfl
    | some u =>
      -- a text that ends with a newline is well-formed without it
      have hbytes := encodeUtf8_of_decodeUtf8 hwhole
      have hlast : (encodeUtf8 u).getLast? = some newline := by simp [hbytes]
      obtain ⟨cs, hcs⟩ := List.getLast?_eq_some_iff.mp
        ((getLast?_encodeUtf8 (c := '\n') (by decide) u).mp hlast)
      have hu : u = String.ofList cs ++ "\n" := by
        rw [← String.toList_inj, hcs]
        simp
      rw [hu, encodeUtf8_append, hnl] at hbytes
      rw [← List.append_cancel_right hbytes, decodeUtf8_encodeUtf8] at hdecode
      cases hdecode

/-- The open line is decoded alike if it is plain. -/
theorem text_cliLine_tail {bs : List UInt8} (hbs : newline ∉ bs) :
    (cliLine (.tail bs)).text = (RawLine.tail bs).text ↔
      (decodeUtf8 bs).isSome ∧ bs.getLast? ≠ some carriageReturn := by
  change (decodeUtf8 bs).map (rstrip ['\r', '\n']) = some (decodeReplace bs) ↔ _
  cases hdecode : decodeUtf8 bs with
  | none => simp
  | some t =>
    have hbytes := encodeUtf8_of_decodeUtf8 hdecode
    have hcr := getLast?_encodeUtf8 (c := '\r') (by decide) t
    rw [hbytes] at hcr
    have hnl : t.toList.getLast? ≠ some '\n' := fun hlast =>
      hbs (hbytes ▸ mem_encodeUtf8 (by decide) (List.mem_of_getLast? hlast))
    rw [decodeReplace_eq hdecode, Option.map_some, Option.some.injEq, rstrip_eq_self_iff]
    constructor
    · intro h
      exact ⟨rfl, fun hlast => h '\r' (by simp) (hcr.mp hlast)⟩
    · rintro ⟨-, h⟩ c hc
      rcases List.mem_pair.mp hc with rfl | rfl
      · exact fun hlast => h (hcr.mpr hlast)
      · exact hnl

/-- The lines of a stream are decoded alike exactly if its end is plain. -/
theorem text_cliLine_rawLines (max : ℕ) (bs : List UInt8) :
    ((rawLines max bs).map cliLine).map CliLine.text = streamTexts max bs ↔ PlainEnd max bs := by
  obtain ⟨hlines, hopen⟩ := @not_mem_splitLines _ _ newline bs
  have hfinished : ∀ l ∈ (splitLines newline bs).1,
      ((CliLine.text ∘ cliLine) ∘ limited max .line) l = (RawLine.text ∘ limited max .line) l := by
    intro l hl
    simp only [Function.comp_apply, limited]
    split
    · rfl
    · exact text_cliLine_line (hlines l hl)
  rw [List.map_map, streamTexts, rawLines, List.map_append, List.map_append, List.map_map,
    List.map_map, List.map_congr_left hfinished, List.append_cancel_left_eq, PlainEnd]
  split
  · next hnil =>
    simp only [hnil, List.map_nil, true_iff]
    intro _
    exact ⟨by decide +kernel, by simp⟩
  · simp only [List.map_singleton, List.cons.injEq, and_true, Function.comp_apply, limited]
    split
    · next hlong => exact ⟨fun _ hle => absurd hle (Nat.not_le.mpr hlong), fun _ => rfl⟩
    · next hlong =>
      rw [text_cliLine_tail hopen]
      exact ⟨fun h _ => h, fun h => h (Nat.not_lt.mp hlong)⟩

/-- The transport returns the lines of the stream exactly if every drain stops where its line ends and
the stream has a plain end. -/
theorem cliTexts_eq_iff (hmax : 0 < max) (feeds : List (List UInt8)) :
    cliTexts max feeds = streamTexts max feeds.flatten ↔
      NeverSwallows max ⟨[], feeds⟩ ∧ PlainEnd max feeds.flatten := by
  obtain ⟨heq, -, hlt⟩ :=
    cliTakeLines_spec hmax (feeds.flatten.length + 1) ⟨[], feeds⟩ (Nat.lt_succ_self _)
  rw [← text_cliLine_rawLines]
  constructor
  · intro hread
    have hnever : NeverSwallows max ⟨[], feeds⟩ := by
      by_contra hswallows
      have hfewer := hlt hswallows
      have hlength := congrArg List.length hread
      rw [cliTexts, streamTexts, List.length_map, List.length_map, length_rawLines] at hlength
      exact absurd hlength hfewer.ne
    refine ⟨hnever, ?_⟩
    rw [cliTexts, heq hnever] at hread
    exact hread
  · rintro ⟨hnever, htext⟩
    rw [cliTexts, heq hnever]
    exact htext

end Reading

/-! ## A line that is swallowed -/

open CliTransport

/-- With a limit of two bytes: `abc` is over it before `d` and its newline come, then `hi` comes. -/
theorem cliTexts_of_lineEnds :
    cliTexts 2 [[97, 98, 99], [100, 10], [104, 105, 10]] =
      streamTexts 2 [97, 98, 99, 100, 10, 104, 105, 10] := by
  have hfirst : CliTransport.takeLine 2 ⟨[], [[97, 98, 99], [100, 10], [104, 105, 10]]⟩ =
      (some .marker, ⟨[], [[104, 105, 10]]⟩) := by
    change (some CliLine.marker, drainOversizeLine 2 ⟨[], [[100, 10], [104, 105, 10]]⟩) = _
    rw [drainOversizeLine, if_pos (by decide)]
    rfl
  have hsecond : CliTransport.takeLine 2 ⟨[], [[104, 105, 10]]⟩ =
      (some (.data [104, 105, 10]), ⟨[], []⟩) := by decide
  have hsafe : LineSafe 2 (arrive ⟨[], [[97, 98, 99], [100, 10], [104, 105, 10]]⟩) := by
    intro l bs _ _ _ _
    refine ⟨[], [[100, 10], [104, 105, 10]], rfl, by decide, by decide, ?_⟩
    rw [List.flatMap_cons, pieces_of_ne_nil (by decide) (by simp)]
    exact ⟨[100], _, rfl, by decide⟩
  have hnever : NeverSwallows 2 ⟨[], [[97, 98, 99], [100, 10], [104, 105, 10]]⟩ := by
    refine (neverSwallows_of_some hfirst).mpr ⟨hsafe, (neverSwallows_of_some hsecond).mpr ⟨?_, ?_⟩⟩
    · exact @lineSafe_of_short _ _ [104, 105] [] rfl (by decide) (.inr rfl)
    · exact neverSwallows_of_stream (by decide) rfl
  exact (cliTexts_eq_iff (by decide) [[97, 98, 99], [100, 10], [104, 105, 10]]).mpr
    ⟨hnever, fun _ => ⟨by decide +kernel, by decide⟩⟩

/-- The line `OK` after a line of letters above the limit, when both are in the buffer. -/
theorem cliTexts_buffered {max : ℕ} (h : 3 ≤ max) :
    cliTexts max [letters (max + 1) ++ [10, 79, 75, 10]] = [some ""] ∧
      streamTexts max [letters (max + 1) ++ [10, 79, 75, 10]].flatten = [some "", some "OK"] := by
  have hlength : (letters (max + 1)).length = max + 1 := List.length_replicate
  have hno := newline_notMem_letters (max + 1)
  constructor
  · have hidx : (letters (max + 1) ++ newline :: [79, 75, 10]).idxOf newline = max + 1 := by
      rw [List.idxOf_append_of_notMem hno, List.idxOf_cons_self, hlength, Nat.add_zero]
    have hdrop : (letters (max + 1) ++ newline :: [79, 75, 10]).drop (max + 1 + 1) = [79, 75, 10] := by
      rw [List.drop_append, List.drop_eq_nil_of_le (by omega), hlength, Nat.add_sub_cancel_left]
      rfl
    have hdrain : drainOversizeLine max ⟨[79, 75, 10], []⟩ = ⟨[], []⟩ := by
      have hread : readerRead max [79, 75, 10] [] = ([79, 75, 10], ⟨[], []⟩) := by
        rw [readerRead, List.take_of_length_le h, List.drop_eq_nil_of_le h]
      rw [drainOversizeLine, hread, if_pos (.inr rfl)]
    have hfirst : CliTransport.takeLine max ⟨[], [letters (max + 1) ++ newline :: [79, 75, 10]]⟩ =
        (some .marker, ⟨[], []⟩) := by
      change answer max (readerReadline max (letters (max + 1) ++ newline :: [79, 75, 10]) []) = _
      unfold readerReadline
      rw [if_pos (by simp), hidx]
      simp only [if_pos (Nat.lt_succ_self max), hdrop, answer, hdrain]
    have hend : CliTransport.takeLine max ⟨[], []⟩ = (none, ⟨[], []⟩) := by
      change answer max (readerReadline max [] []) = _
      unfold readerReadline
      rw [if_neg List.not_mem_nil, List.length_nil, if_neg (Nat.not_lt_zero _)]
      rfl
    have hfuel : [letters (max + 1) ++ newline :: [79, 75, 10]].flatten.length + 1 =
        (max + 4) + 2 := by
      simp [hlength]
    change cliTexts max [letters (max + 1) ++ newline :: [79, 75, 10]] = _
    rw [cliTexts, hfuel]
    simp only [CliTransport.takeLines, hfirst, hend]
    rfl
  · have hflatten : [letters (max + 1) ++ [10, 79, 75, 10]].flatten =
        letters (max + 1) ++ newline :: ([79, 75] ++ newline :: []) := by
      simp [newline]
    have hmarker : max < (letters (max + 1)).length := by omega
    have hshort : ¬ max < ([79, 75] : List UInt8).length := by simp; omega
    rw [streamTexts, hflatten, rawLines_line hno, rawLines_line (by decide), limited, limited,
      if_pos hmarker, if_neg hshort, show rawLines max [] = [] from rfl]
    decide +kernel

/-- What is lost is a complete line. -/
theorem cliTexts_ne_of_buffered :
    cliTexts maxLineBytes [letters (maxLineBytes + 1) ++ [10, 79, 75, 10]] = [some ""] ∧
      streamTexts maxLineBytes [letters (maxLineBytes + 1) ++ [10, 79, 75, 10]].flatten =
        [some "", some "OK"] :=
  cliTexts_buffered (by decide)

end AgentCraft.Engine
