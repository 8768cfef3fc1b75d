import Mathlib.Data.List.Basic
import Mathlib.Data.List.Infix

/-!
# Splitting streams into lines

A stream is a list of symbols, and one symbol ends lines. `splitLines` gives the lines of a stream and
the open line behind the last newline. The laws follow a reader: it has read up to some point, and only
the open line matters for what it reads next.
-/

namespace AgentCraft.Streams

variable {α : Type*} [DecidableEq α] (nl : α)

/-- The lines of a stream, without their newlines, and the open line after the last of them. -/
@[grind] def splitLines : List α → List (List α) × List α
  | [] => ([], [])
  | b :: bs =>
    if b = nl then ([] :: (splitLines bs).1, (splitLines bs).2)
    else match (splitLines bs).1 with
      | [] => ([], b :: (splitLines bs).2)
      | l :: ls => ((b :: l) :: ls, (splitLines bs).2)

/-- What follows the last newline. -/
def openLine (bs : List α) : List α := (splitLines nl bs).2

variable {nl} {l bs : List α}

@[simp] theorem splitLines_nil : splitLines nl [] = ([], []) := rfl

theorem splitLines_newline (bs : List α) :
    splitLines nl (nl :: bs) = ([] :: (splitLines nl bs).1, (splitLines nl bs).2) := by
  simp [splitLines]

/-- The first line is what stands before the first newline. -/
theorem splitLines_line (h : nl ∉ l) (bs : List α) :
    splitLines nl (l ++ nl :: bs) = (l :: (splitLines nl bs).1, (splitLines nl bs).2) := by
  induction l with
  | nil => exact splitLines_newline bs
  | cons b l ih =>
    obtain ⟨hb, hl⟩ := List.ne_and_not_mem_of_not_mem_cons h
    rw [List.cons_append, splitLines, if_neg (Ne.symm hb), ih hl]

/-- Without newline there is only an open line. -/
theorem splitLines_open (h : nl ∉ bs) : splitLines nl bs = ([], bs) := by
  induction bs with
  | nil => rfl
  | cons b bs ih =>
    obtain ⟨hb, hbs⟩ := List.ne_and_not_mem_of_not_mem_cons h
    rw [splitLines, if_neg (Ne.symm hb), ih hbs]

theorem openLine_of_not_mem (h : nl ∉ bs) : openLine nl bs = bs := by
  rw [openLine, splitLines_open h]

/-- There is a line for a newline. -/
theorem splitLines_ne_nil (h : nl ∈ bs) : (splitLines nl bs).1 ≠ [] := by
  induction bs with
  | nil => cases h
  | cons b bs ih =>
    rw [splitLines]
    split
    · simp
    · next hb =>
      have hmem := (List.mem_cons.mp h).resolve_left (Ne.symm hb)
      split
      · next hnil => exact absurd hnil (ih hmem)
      · simp

/-- No line has a newline, and neither has the open one. -/
theorem not_mem_splitLines (bs : List α) :
    (∀ l ∈ (splitLines nl bs).1, nl ∉ l) ∧ nl ∉ openLine nl bs := by
  unfold openLine
  induction bs with
  | nil => exact ⟨(fun l hl => by cases hl), List.not_mem_nil⟩
  | cons b bs ih =>
    obtain ⟨hlines, hopen⟩ := ih
    rw [splitLines]
    split
    · refine ⟨fun l hl => ?_, hopen⟩
      rcases List.mem_cons.mp hl with rfl | hl
      · exact List.not_mem_nil
      · exact hlines l hl
    · next hb =>
      split
      · refine ⟨(fun l hl => by cases hl), fun hmem => ?_⟩
        exact hopen ((List.mem_cons.mp hmem).resolve_left (Ne.symm hb))
      · next first ls hsplit =>
        rw [hsplit] at hlines
        refine ⟨fun l hl hmem => ?_, hopen⟩
        rcases List.mem_cons.mp hl with rfl | hl
        · exact hlines first List.mem_cons_self ((List.mem_cons.mp hmem).resolve_left (Ne.symm hb))
        · exact hlines l (List.mem_cons_of_mem _ hl) hmem

/-- A newline ends the open line, whatever precedes it. -/
theorem openLine_append_newline (l bs : List α) :
    openLine nl (l ++ nl :: bs) = openLine nl bs := by
  induction l with
  | nil => rw [List.nil_append, openLine, splitLines_newline, openLine]
  | cons b l ih =>
    rw [← ih, openLine, List.cons_append, splitLines, openLine]
    split
    · rfl
    · split
      · next hnil => exact absurd hnil (splitLines_ne_nil (by simp))
      · rfl

/-- The first newline splits a stream. -/
theorem eq_take_idxOf (h : nl ∈ bs) :
    bs = bs.take (bs.idxOf nl) ++ nl :: bs.drop (bs.idxOf nl + 1) ∧ nl ∉ bs.take (bs.idxOf nl) := by
  have hlt := List.idxOf_lt_length_of_mem h
  constructor
  · calc bs = bs.take (bs.idxOf nl) ++ bs.drop (bs.idxOf nl) := (List.take_append_drop _ _).symm
      _ = bs.take (bs.idxOf nl) ++ nl :: bs.drop (bs.idxOf nl + 1) := by
        rw [List.drop_eq_getElem_cons hlt, List.getElem_idxOf hlt]
  · rw [List.mem_take_iff_idxOf_lt h]
    exact Nat.lt_irrefl _

/-- The number of lines of a stream, an open one included. -/
def lineCount (nl : α) (bs : List α) : ℕ :=
  (splitLines nl bs).1.length + if openLine nl bs = [] then 0 else 1

theorem lineCount_line (h : nl ∉ l) (bs : List α) :
    lineCount nl (l ++ nl :: bs) = lineCount nl bs + 1 := by
  rw [lineCount, openLine_append_newline, splitLines_line h, List.length_cons, lineCount]
  exact Nat.add_right_comm _ _ _

/-- Symbols before a line make it longer, and not another line. -/
theorem lineCount_append (h : nl ∉ l) (hbs : bs ≠ []) :
    lineCount nl (l ++ bs) = lineCount nl bs := by
  induction l with
  | nil => rfl
  | cons b l ih =>
    obtain ⟨hb, hl⟩ := List.ne_and_not_mem_of_not_mem_cons h
    rw [← ih hl, lineCount, lineCount, openLine, openLine, List.cons_append, splitLines,
      if_neg (Ne.symm hb)]
    split
    · next hnil =>
      have hopen : nl ∉ l ++ bs := fun hmem => splitLines_ne_nil hmem hnil
      rw [splitLines_open hopen, if_neg (by simp), if_neg (by simp [hbs])]
    · next hcons =>
      rw [hcons]
      rfl

/-- A line that ends, and whatever precedes it, counts. -/
theorem lineCount_lt_newline (l bs : List α) : lineCount nl bs < lineCount nl (l ++ nl :: bs) := by
  induction l with
  | nil => exact (lineCount_line (l := []) List.not_mem_nil bs).symm ▸ Nat.lt_succ_self _
  | cons b l ih =>
    refine ih.trans_le ?_
    by_cases hb : b = nl
    · subst hb
      rw [List.cons_append]
      exact (lineCount_line (l := []) List.not_mem_nil (l ++ b :: bs)).symm ▸ Nat.le_succ _
    · exact (lineCount_append (l := [b]) (by simpa using Ne.symm hb) (by simp)).ge

theorem lineCount_pos (h : bs ≠ []) : 0 < lineCount nl bs := by
  by_cases hmem : nl ∈ bs
  · obtain ⟨hsplit, -⟩ := eq_take_idxOf hmem
    rw [hsplit]
    exact Nat.zero_lt_of_lt (lineCount_lt_newline _ _)
  · rw [lineCount, splitLines_open hmem, openLine_of_not_mem hmem, if_neg h]
    exact Nat.one_pos

/-- The first line of a stream is determined. -/
theorem line_inj {l l' bs' : List α} (hl : nl ∉ l) (hl' : nl ∉ l')
    (h : l ++ nl :: bs = l' ++ nl :: bs') : l = l' ∧ bs = bs' := by
  have hfirst := congrArg (splitLines nl) h
  rw [splitLines_line hl, splitLines_line hl'] at hfirst
  obtain rfl := (List.cons.inj (Prod.mk.inj hfirst).1).1
  exact ⟨rfl, (List.cons.inj (List.append_cancel_left h)).2⟩

/-! ## Pieces -/

section Pieces

variable {β : Type*} {n : ℕ} {c : List β}

/-- The pieces in which a reader that takes at most `n` symbols at a time takes a chunk. -/
def pieces (n : ℕ) (c : List β) : List (List β) :=
  if c = [] ∨ n = 0 then [] else c.take n :: pieces n (c.drop n)
termination_by c.length
decreasing_by
  have := List.length_pos_iff.mpr (not_or.mp ‹_›).1
  simp only [List.length_drop]
  omega

theorem pieces_of_ne_nil (hn : 0 < n) (hc : c ≠ []) :
    pieces n c = c.take n :: pieces n (c.drop n) := by
  rw [pieces, if_neg (by simp [hc, hn.ne'])]

@[simp] theorem pieces_nil (n : ℕ) : pieces n ([] : List β) = [] := by
  rw [pieces, if_pos (.inl rfl)]

theorem flatten_pieces (hn : 0 < n) (c : List β) : (pieces n c).flatten = c := by
  induction c using pieces.induct n with
  | case1 c h =>
    obtain rfl := h.resolve_right hn.ne'
    rw [pieces_nil, List.flatten_nil]
  | case2 c h ih =>
    rw [pieces_of_ne_nil hn (not_or.mp h).1, List.flatten_cons, ih, List.take_append_drop]

end Pieces

end AgentCraft.Streams
