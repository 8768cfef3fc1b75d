import Mathlib.Data.List.DropRight

/-!
# Spaces and lines

`str.strip` and `str.splitlines` go by Unicode: there are more spaces than those of ASCII, and more line
breaks than carriage return and line feed.
-/

namespace AgentCraft.Python

/-- `str.isspace` of a character. -/
def isSpace (c : Char) : Bool :=
  (9 ≤ c.toNat && c.toNat ≤ 13) || (0x1C ≤ c.toNat && c.toNat ≤ 0x20) ||
    (0x2000 ≤ c.toNat && c.toNat ≤ 0x200A) ||
    [0x85, 0xA0, 0x1680, 0x2028, 0x2029, 0x202F, 0x205F, 0x3000].contains c.toNat

/-- `str.strip()`. -/
def strip (s : List Char) : List Char := (s.dropWhile isSpace).rdropWhile isSpace

/-- The characters at which `str.splitlines` breaks lines. -/
def isLineBreak (c : Char) : Bool :=
  (10 ≤ c.toNat && c.toNat ≤ 13) || (0x1C ≤ c.toNat && c.toNat ≤ 0x1E) ||
    [0x85, 0x2028, 0x2029].contains c.toNat

/-- The lines of a text; a carriage return and a line feed after it are one break. -/
@[grind] def breakLines : List Char → List Char × List (List Char)
  | [] => ([], [])
  | '\r' :: '\n' :: s => ([], (breakLines s).1 :: (breakLines s).2)
  | c :: s =>
    if isLineBreak c then ([], (breakLines s).1 :: (breakLines s).2)
    else (c :: (breakLines s).1, (breakLines s).2)

/-- `str.splitlines()`: a break at the end begins no line. -/
def splitlines (s : List Char) : List (List Char) :=
  let lines := (breakLines s).1 :: (breakLines s).2
  if lines.getLast? = some [] then lines.dropLast else lines

/-! ## Spaces -/

/-- Stripping takes the spaces around a text that neither begins nor ends with one. -/
theorem strip_frame {b c b' : List Char} (hb : ∀ x ∈ b, isSpace x = true)
    (hb' : ∀ x ∈ b', isSpace x = true) (hhead : ∃ x ∈ c.head?, isSpace x = false)
    (hlast : ∃ x ∈ c.getLast?, isSpace x = false) : strip (b ++ c ++ b') = c := by
  obtain ⟨x, hx, hxs⟩ := hhead
  obtain ⟨t, rfl⟩ := List.head?_eq_some_iff.mp hx
  obtain ⟨y, hy, hys⟩ := hlast
  obtain ⟨l, hl⟩ := List.getLast?_eq_some_iff.mp hy
  have hfront : (b ++ (x :: t) ++ b').dropWhile isSpace = x :: t ++ b' := by
    rw [List.append_assoc, List.dropWhile_append_of_pos hb, List.cons_append,
      List.dropWhile_cons_of_neg (by simp [hxs])]
  have hback (d : List Char) (hd : ∀ z ∈ d, isSpace z = true) :
      (l ++ [y] ++ d).rdropWhile isSpace = l ++ [y] := by
    induction d using List.reverseRecOn with
    | nil => rw [List.append_nil, List.rdropWhile_concat_neg _ _ _ (by simp [hys])]
    | append_singleton d z ih =>
      rw [← List.append_assoc, List.rdropWhile_concat_pos _ _ _ (hd z (by simp))]
      exact ih fun w hw => hd w (List.mem_append_left _ hw)
  rw [strip, hfront, hl, hback b' hb']

/-- The two ends are stripped in either order. -/
theorem rdropWhile_dropWhile (p : Char → Bool) (s : List Char) :
    (s.dropWhile p).rdropWhile p = (s.rdropWhile p).dropWhile p := by
  induction s using List.reverseRecOn with
  | nil => rfl
  | append_singleton s c ih =>
    by_cases hc : p c = true
    · rw [List.rdropWhile_concat_pos _ _ _ hc, ← ih, List.dropWhile_append]
      split
      · next hnil => simp [hc, List.isEmpty_iff.mp hnil]
      · rw [List.rdropWhile_concat_pos _ _ _ hc]
    · rw [List.rdropWhile_concat_neg _ _ _ hc, List.dropWhile_append]
      split
      · rw [List.dropWhile_cons_of_neg hc]
        exact List.rdropWhile_concat_neg _ [] _ hc
      · rw [List.rdropWhile_concat_neg _ _ _ hc]

/-- Spaces around a text are stripped with those of the text. -/
theorem strip_spaces {b b' : List Char} (hb : ∀ x ∈ b, isSpace x = true)
    (hb' : ∀ x ∈ b', isSpace x = true) (s : List Char) : strip (b ++ s ++ b') = strip s := by
  have hback (l d : List Char) (hd : ∀ z ∈ d, isSpace z = true) :
      (l ++ d).rdropWhile isSpace = l.rdropWhile isSpace := by
    rw [List.rdropWhile, List.reverse_append, List.dropWhile_append_of_pos fun z hz =>
      hd z (List.mem_reverse.mp hz), List.rdropWhile]
  rw [strip, rdropWhile_dropWhile, hback _ b' hb', ← rdropWhile_dropWhile,
    List.dropWhile_append_of_pos hb, strip]

/-- What is left after spaces at the end can be stripped again. -/
theorem strip_rdropWhile (s : List Char) : strip (s.rdropWhile isSpace) = strip s := by
  rw [strip, strip, rdropWhile_dropWhile, List.rdropWhile_idempotent, ← rdropWhile_dropWhile]

/-- A text that begins with no space keeps its beginning. -/
theorem strip_append {a : List Char} (ha : a ≠ []) (h : ∀ x ∈ a, isSpace x = false) (s : List Char) :
    strip (a ++ s) = a ++ s.rdropWhile isSpace := by
  obtain ⟨x, a, rfl⟩ := List.exists_cons_of_ne_nil ha
  have hx : isSpace x = false := h x List.mem_cons_self
  rw [strip, List.cons_append, List.dropWhile_cons_of_neg (by simp [hx])]
  induction s using List.reverseRecOn with
  | nil =>
    have hlast := h _ (List.getLast_mem ha)
    rw [List.append_nil, List.rdropWhile_nil, List.append_nil, List.rdropWhile_eq_self_iff]
    exact fun hne => by simp [hlast]
  | append_singleton s c ih =>
    rw [← List.append_assoc, ← List.cons_append]
    by_cases hc : isSpace c = true
    · rw [List.rdropWhile_concat_pos _ _ _ hc, List.rdropWhile_concat_pos _ _ _ hc]
      exact ih
    · rw [List.rdropWhile_concat_neg _ _ _ hc, List.rdropWhile_concat_neg _ _ _ hc]
      simp

/-! ## Lines -/

/-- The lines of a text, with an empty one after a break at the end. -/
def allLines (s : List Char) : List (List Char) := (breakLines s).1 :: (breakLines s).2

theorem breakLines_cons {c : Char} (hc : c ≠ '\r') (s : List Char) :
    breakLines (c :: s) =
      if isLineBreak c then ([], allLines s) else (c :: (breakLines s).1, (breakLines s).2) := by
  rw [breakLines]
  · rfl
  · rintro _ rfl
    exact absurd rfl hc

/-- A break ends a line, whatever follows. -/
theorem allLines_append {l eol : List Char} (hl : '\r' ∉ l) (heol : eol = ['\n'] ∨ eol = ['\r', '\n'])
    (s : List Char) : allLines (l ++ eol ++ s) = allLines l ++ allLines s := by
  induction l with
  | nil => rcases heol with rfl | rfl <;> rfl
  | cons c l ih =>
    obtain ⟨hc, hl⟩ := not_or.mp (mt List.mem_cons.mpr hl)
    have ih := ih hl
    rw [List.append_assoc] at ih ⊢
    simp only [allLines, List.cons_append] at ih ⊢
    obtain ⟨hfirst, hrest⟩ := List.cons.inj ih
    rw [breakLines_cons (Ne.symm hc), breakLines_cons (Ne.symm hc)]
    split
    · simp only [allLines, hfirst, hrest, List.cons_append]
    · simp only [hfirst, hrest]

/-- What begins with no break stays on the first line. -/
theorem breakLines_append {a : List Char} (h : ∀ c ∈ a, isLineBreak c = false) (s : List Char) :
    breakLines (a ++ s) = (a ++ (breakLines s).1, (breakLines s).2) := by
  induction a with
  | nil => rfl
  | cons c a ih =>
    have hc := h c List.mem_cons_self
    have hreturn : c ≠ '\r' := by
      rintro rfl
      exact absurd hc (by decide)
    rw [List.cons_append, breakLines_cons hreturn, hc, if_neg Bool.false_ne_true,
      ih fun x hx => h x (List.mem_cons_of_mem _ hx)]
    rfl

/-- The break at the end of a text begins no line. -/
theorem splitlines_of_end {s : List Char} {lines : List (List Char)} (h : allLines s = lines ++ [[]]) :
    splitlines s = lines := by
  have hlast : (allLines s).getLast? = some [] := by rw [h, List.getLast?_concat]
  calc splitlines s = (allLines s).dropLast := if_pos hlast
    _ = lines := by rw [h, List.dropLast_concat]

end AgentCraft.Python
