import AgentCraft.Python.JsonLoads
import AgentCraft.Python.Text

/-!
# What a JSON text means

A value that is read does not depend on what follows it (`scan_frame`), the scanner never runs out of
fuel (`scan_of_le`), the limits of the interpreter only ever turn a result into an error of their own
(`loads_upToLimits`), and a text means the same between any blanks (`loads_frame`).
-/

namespace AgentCraft.Python

open Transition

/-! ## What is read does not depend on what follows -/

theorem scanString_quote (s : List Char) : scanString ('\"' :: s) = some ([], s) := by
  rw [scanString.eq_def]
  exact if_pos rfl

/-- A character that stands for itself. -/
theorem scanString_char {c : Char} (hquote : c ≠ '\"') (hbackslash : c ≠ '\\') (s : List Char) :
    scanString (c :: s) =
      if c.toNat < 32 then none else (scanString s).map fun p => (c.toNat :: p.1, p.2) := by
  rw [scanString.eq_def]
  simp only [if_neg hquote, if_neg hbackslash]

/-- An escape of one letter. -/
theorem scanString_escape {e : Char} (he : e ≠ 'u') (s : List Char) :
    scanString ('\\' :: e :: s) =
      (escaped e).bind fun n => (scanString s).bind fun p => some (n :: p.1, p.2) := by
  rw [scanString, if_neg (by decide), if_pos rfl]
  · rfl
  · rintro _ _ _ _ _ rfl
    exact absurd rfl he

/-- An escape by a code point. -/
theorem scanString_unit (h₁ h₂ h₃ h₄ : Char) (s : List Char) :
    scanString ('\\' :: 'u' :: h₁ :: h₂ :: h₃ :: h₄ :: s) =
      ([h₁, h₂, h₃, h₄].mapM hexValue).bind fun n => (scanString s).bind fun p =>
        some (n.foldl (fun n d => 16 * n + d) 0 :: p.1, p.2) := by
  rw [scanString, if_neg (by decide), if_pos rfl]
  rfl

/-- A string that is read ends with its quote, whatever follows. -/
theorem scanString_frame {s r : List Char} {u : List ℕ} (h : scanString s = some (u, r)) :
    ∃ c, s = c ++ '\"' :: r ∧ ∀ y, scanString (c ++ '\"' :: y) = some (u, y) := by
  induction s using scanString.induct generalizing u r with
  | case1 => cases h
  | case2 s =>
    rw [scanString_quote] at h
    cases h
    exact ⟨[], rfl, scanString_quote⟩
  | case3 => cases h
  | case4 h₁ h₂ h₃ h₄ s _ ih =>
    rw [scanString_unit] at h
    obtain ⟨n, hn, h⟩ := Option.bind_eq_some_iff.mp h
    obtain ⟨⟨u', r'⟩, hs, h⟩ := Option.bind_eq_some_iff.mp h
    cases h
    obtain ⟨c, rfl, hc⟩ := ih hs
    refine ⟨'\\' :: 'u' :: h₁ :: h₂ :: h₃ :: h₄ :: c, rfl, fun y => ?_⟩
    simp only [List.cons_append]
    rw [scanString_unit, hn, hc y]
    rfl
  | case5 e s hshort _ ih =>
    have he : e ≠ 'u' := by
      rintro rfl
      rw [scanString, if_neg (by decide), if_pos rfl] at h
      · cases h
      · intro a b c d s' _ hs
        exact hshort a b c d s' rfl hs
    rw [scanString_escape he] at h
    obtain ⟨n, hn, h⟩ := Option.bind_eq_some_iff.mp h
    obtain ⟨⟨u', r'⟩, hs, h⟩ := Option.bind_eq_some_iff.mp h
    cases h
    obtain ⟨c, rfl, hc⟩ := ih hs
    refine ⟨'\\' :: e :: c, rfl, fun y => ?_⟩
    simp only [List.cons_append]
    rw [scanString_escape he, hn, hc y]
    rfl
  | case6 c s hquote hbackslash hcontrol =>
    rw [scanString_char hquote hbackslash, if_pos hcontrol] at h
    cases h
  | case7 c s hquote hbackslash hcontrol ih =>
    rw [scanString_char hquote hbackslash, if_neg hcontrol] at h
    obtain ⟨⟨u', r'⟩, hs, h⟩ := Option.map_eq_some_iff.mp h
    cases h
    obtain ⟨d, rfl, hd⟩ := ih hs
    refine ⟨c :: d, rfl, fun y => ?_⟩
    rw [List.cons_append, scanString_char hquote hbackslash, if_neg hcontrol, hd y]
    rfl

/-- What follows does not go on with a number. -/
def EndsNumber (y : List Char) : Prop :=
  ∀ c ∈ y.head?, c.isDigit = false ∧ c ≠ '.' ∧ c ≠ 'e' ∧ c ≠ 'E'

theorem takeWhile_digits {a z : List Char} (ha : ∀ c ∈ a, c.isDigit = true)
    (hz : ∀ c ∈ z.head?, c.isDigit = false) : (a ++ z).takeWhile Char.isDigit = a := by
  rw [List.takeWhile_append_of_pos ha]
  cases z with
  | nil => rw [List.takeWhile_nil, List.append_nil]
  | cons c z => rw [List.takeWhile_cons, hz c rfl]; exact List.append_nil a

theorem eq_takeWhile_append_drop (p : Char → Bool) (l : List Char) :
    l = l.takeWhile p ++ l.drop (l.takeWhile p).length := by
  have hsplit : l.takeWhile p ++ l.dropWhile p = l := List.takeWhile_append_dropWhile
  calc l = l.takeWhile p ++ l.dropWhile p := hsplit.symm
    _ = l.takeWhile p ++ (l.takeWhile p ++ l.dropWhile p).drop (l.takeWhile p).length := by
      rw [List.drop_left]
    _ = l.takeWhile p ++ l.drop (l.takeWhile p).length := by rw [hsplit]

/-- A whole part is read again before anything but a digit. -/
theorem wholePart_frame (l : List Char) :
    l = wholePart l ++ l.drop (wholePart l).length ∧ (∀ c ∈ wholePart l, c.isDigit = true) ∧
      ∀ z, wholePart l ≠ [] → (∀ c ∈ z.head?, c.isDigit = false) →
        wholePart (wholePart l ++ z) = wholePart l := by
  unfold wholePart
  split
  · next hzero =>
    obtain ⟨l', rfl⟩ := List.head?_eq_some_iff.mp hzero
    refine ⟨rfl, fun c hc => ?_, fun z _ _ => if_pos rfl⟩
    rw [List.mem_singleton.mp hc]
    decide
  · next hzero =>
    have hdigits : ∀ c ∈ l.takeWhile Char.isDigit, c.isDigit = true := fun c => List.mem_takeWhile_imp
    refine ⟨eq_takeWhile_append_drop _ l, hdigits, fun z hne hz => ?_⟩
    rw [if_neg, takeWhile_digits hdigits hz]
    obtain ⟨c, a, ha⟩ := List.exists_cons_of_ne_nil hne
    rw [ha]
    intro hhead
    obtain rfl := Option.some.inj hhead
    cases l with
    | nil => cases ha
    | cons d l =>
      rw [List.takeWhile_cons] at ha
      split at ha
      · exact hzero (congrArg some (List.cons.inj ha).1)
      · cases ha

/-- A fraction is read again before anything but a digit, and none is read where none is. -/
theorem fraction_frame (l : List Char) :
    l = fraction l ++ l.drop (fraction l).length ∧
      (fraction l = [] ∨ ∃ a, fraction l = '.' :: a ∧ a ≠ [] ∧ ∀ c ∈ a, c.isDigit = true) := by
  unfold fraction
  split
  · next s =>
    split
    · exact ⟨rfl, .inl rfl⟩
    · next hne =>
      refine ⟨congrArg ('.' :: ·) (eq_takeWhile_append_drop _ s), .inr ⟨_, rfl, hne, fun c => ?_⟩⟩
      exact List.mem_takeWhile_imp
  · exact ⟨rfl, .inl rfl⟩

theorem fraction_append {a z : List Char} (hne : a ≠ []) (ha : ∀ c ∈ a, c.isDigit = true)
    (hz : ∀ c ∈ z.head?, c.isDigit = false) : fraction ('.' :: a ++ z) = '.' :: a := by
  rw [List.cons_append, fraction, takeWhile_digits ha hz, if_neg hne]

theorem fraction_of_head {z : List Char} (hz : z.head? ≠ some '.') : fraction z = [] := by
  unfold fraction
  split
  · exact absurd rfl hz
  · rfl

/-- An exponent: its letter, its sign and its digits. -/
theorem exponent_frame (l : List Char) :
    l = exponent l ++ l.drop (exponent l).length ∧
      (exponent l = [] ∨ ∃ e sign a, exponent l = e :: (sign ++ a) ∧ (e = 'e' ∨ e = 'E') ∧
        (sign = [] ∨ sign = ['-'] ∨ sign = ['+']) ∧ a ≠ [] ∧ ∀ c ∈ a, c.isDigit = true) := by
  cases l with
  | nil => exact ⟨rfl, .inl rfl⟩
  | cons e s =>
    have hsign : s = exponentSign s ++ s.drop (exponentSign s).length ∧
        (exponentSign s = [] ∨ exponentSign s = ['-'] ∨ exponentSign s = ['+']) := by
      unfold exponentSign
      split
      · next h =>
        rcases h with h | h
        all_goals obtain ⟨s', rfl⟩ := List.head?_eq_some_iff.mp h
        · exact ⟨rfl, .inr (.inl rfl)⟩
        · exact ⟨rfl, .inr (.inr rfl)⟩
      · exact ⟨rfl, .inl rfl⟩
    simp only [exponent]
    split
    · next h =>
      refine ⟨?_, .inr ⟨e, _, _, rfl, h.1, hsign.2, h.2, fun c => List.mem_takeWhile_imp⟩⟩
      have hdigits := eq_takeWhile_append_drop Char.isDigit (s.drop (exponentSign s).length)
      rw [List.drop_drop] at hdigits
      rw [List.cons_append, List.length_cons, List.drop_succ_cons, List.length_append,
        List.append_assoc, ← hdigits, ← hsign.1]
    · exact ⟨rfl, .inl rfl⟩

theorem exponent_append {e : Char} {sign a z : List Char} (he : e = 'e' ∨ e = 'E')
    (hsign : sign = [] ∨ sign = ['-'] ∨ sign = ['+']) (hne : a ≠ [])
    (ha : ∀ c ∈ a, c.isDigit = true) (hz : ∀ c ∈ z.head?, c.isDigit = false) :
    exponent (e :: (sign ++ a) ++ z) = e :: (sign ++ a) := by
  have hread : exponentSign (sign ++ a ++ z) = sign := by
    obtain ⟨d, a, rfl⟩ := List.exists_cons_of_ne_nil hne
    have hd := ha d List.mem_cons_self
    rcases hsign with rfl | rfl | rfl
    · rw [exponentSign, if_neg]
      rintro (h | h)
      all_goals
        obtain rfl := Option.some.inj h
        exact absurd hd (by decide)
    · rfl
    · rfl
  have hdigits : (sign ++ a ++ z).drop sign.length = a ++ z := by
    rw [List.append_assoc, List.drop_left]
  rw [List.cons_append, exponent, hread, hdigits, takeWhile_digits ha hz, if_pos ⟨he, hne⟩]

theorem exponent_of_head {z : List Char} (hz : ∀ c ∈ z.head?, c ≠ 'e' ∧ c ≠ 'E') :
    exponent z = [] := by
  cases z with
  | nil => rfl
  | cons c z =>
    obtain ⟨he, hE⟩ := hz c rfl
    simp [exponent, he, hE]

/-- The parts of a number that is written. -/
structure NumberText.WellFormed (n : NumberText) : Prop where
  sign : n.sign = [] ∨ n.sign = ['-']
  whole : n.whole ≠ [] ∧ (∀ c ∈ n.whole, c.isDigit = true) ∧
    ∀ z, (∀ c ∈ z.head?, c.isDigit = false) → wholePart (n.whole ++ z) = n.whole
  point : n.point = [] ∨ ∃ a, n.point = '.' :: a ∧ a ≠ [] ∧ ∀ c ∈ a, c.isDigit = true
  power : n.power = [] ∨ ∃ e sign a, n.power = e :: (sign ++ a) ∧ (e = 'e' ∨ e = 'E') ∧
    (sign = [] ∨ sign = ['-'] ∨ sign = ['+']) ∧ a ≠ [] ∧ ∀ c ∈ a, c.isDigit = true

/-- A number is read as it is written, before anything that does not go on with it. -/
theorem numberText_append {n : NumberText} (h : n.WellFormed) {y : List Char} (hy : EndsNumber y) :
    numberText (n.text ++ y) = n := by
  obtain ⟨sign, whole, point, power⟩ := n
  obtain ⟨hsign, ⟨hne, hdigits, hwhole⟩, hpoint, hpower⟩ := h
  dsimp only at hsign hne hdigits hwhole hpoint hpower
  have htext : NumberText.text ⟨sign, whole, point, power⟩ ++ y =
      sign ++ (whole ++ (point ++ (power ++ y))) := by
    simp only [NumberText.text, List.append_assoc]
  -- what follows each of the parts
  have hpowerHead : ∀ c ∈ (power ++ y).head?, c.isDigit = false ∧ c ≠ '.' := by
    rcases hpower with rfl | ⟨e, _, _, rfl, he, -⟩
    · exact fun c hc => ⟨(hy c hc).1, (hy c hc).2.1⟩
    · intro c hc
      obtain rfl := Option.some.inj hc
      rcases he with rfl | rfl <;> decide
  have hpointHead : ∀ c ∈ (point ++ (power ++ y)).head?, c.isDigit = false := by
    rcases hpoint with rfl | ⟨a, rfl, -⟩
    · exact fun c hc => (hpowerHead c hc).1
    · intro c hc
      obtain rfl := Option.some.inj hc
      decide
  have hfraction : fraction (point ++ (power ++ y)) = point := by
    rcases hpoint with rfl | ⟨a, rfl, hane, ha⟩
    · exact fraction_of_head fun hhead => (hpowerHead '.' hhead).2 rfl
    · exact fraction_append hane ha fun c hc => (hpowerHead c hc).1
  have hexponent : exponent (power ++ y) = power := by
    rcases hpower with rfl | ⟨e, sg, a, rfl, he, hsg, hane, ha⟩
    · exact exponent_of_head fun c hc => (hy c hc).2.2
    · exact exponent_append he hsg hane ha fun c hc => (hy c hc).1
  have hminus : (if (sign ++ (whole ++ (point ++ (power ++ y)))).head? = some '-' then ['-'] else []) =
      sign := by
    rcases hsign with rfl | rfl
    · obtain ⟨d, whole, rfl⟩ := List.exists_cons_of_ne_nil hne
      have hd := hdigits d List.mem_cons_self
      refine if_neg fun hhead => ?_
      obtain rfl := Option.some.inj hhead
      exact absurd hd (by decide)
    · exact if_pos rfl
  rw [htext, numberText]
  simp only [hminus, ← List.drop_drop, List.drop_left, hwhole _ hpointHead, hfraction, hexponent]

/-- The number at the head is well-formed. -/
theorem numberText_wellFormed {s : List Char} (hne : (numberText s).whole ≠ []) :
    (numberText s).WellFormed ∧
      s = (numberText s).text ++ s.drop (numberText s).text.length := by
  obtain ⟨sign, hsign, hsigns, hs⟩ : ∃ sign, (if s.head? = some '-' then ['-'] else []) = sign ∧
      (sign = [] ∨ sign = ['-']) ∧ s = sign ++ s.drop sign.length := by
    refine ⟨_, rfl, ?_⟩
    split
    · next hhead =>
      obtain ⟨s', rfl⟩ := List.head?_eq_some_iff.mp hhead
      exact ⟨.inr rfl, rfl⟩
    · exact ⟨.inl rfl, rfl⟩
  have hparts : numberText s = ⟨sign, wholePart (s.drop sign.length),
      fraction ((s.drop sign.length).drop (wholePart (s.drop sign.length)).length),
      exponent (((s.drop sign.length).drop (wholePart (s.drop sign.length)).length).drop
        (fraction ((s.drop sign.length).drop (wholePart (s.drop sign.length)).length)).length)⟩ := by
    simp only [numberText, hsign, List.drop_drop]
  rw [hparts] at hne ⊢
  dsimp only at hne
  simp only [NumberText.text, List.length_append, ← List.drop_drop]
  obtain ⟨hwhole, hdigits, hread⟩ := wholePart_frame (s.drop sign.length)
  obtain ⟨hpoint, hpoints⟩ :=
    fraction_frame ((s.drop sign.length).drop (wholePart (s.drop sign.length)).length)
  obtain ⟨hpower, hpowers⟩ := exponent_frame
    (((s.drop sign.length).drop (wholePart (s.drop sign.length)).length).drop
      (fraction ((s.drop sign.length).drop (wholePart (s.drop sign.length)).length)).length)
  refine ⟨⟨hsigns, ⟨hne, hdigits, fun z => hread z hne⟩, hpoints, hpowers⟩, ?_⟩
  rw [List.append_assoc, ← hpower, List.append_assoc, ← hpoint, List.append_assoc, ← hwhole, ← hs]

/-- A character that is printed and is no space. -/
def isGraphic (c : Char) : Bool := 0x21 ≤ c.toNat && c.toNat ≤ 0x7E

/-- The text begins with a character of a value. -/
def StartsValue (c : List Char) : Prop := ∃ x ∈ c.head?, isGraphic x = true

/-- The text ends with a character of a value. -/
def EndsValue (c : List Char) : Prop := ∃ x ∈ c.getLast?, isGraphic x = true

theorem StartsValue.append {a : List Char} (h : StartsValue a) (b : List Char) :
    StartsValue (a ++ b) := by
  obtain ⟨x, hx, hgraphic⟩ := h
  exact ⟨x, by rw [List.head?_append, hx]; rfl, hgraphic⟩

theorem EndsValue.append {b : List Char} (h : EndsValue b) (a : List Char) : EndsValue (a ++ b) := by
  obtain ⟨x, hx, hgraphic⟩ := h
  exact ⟨x, by rw [List.getLast?_append, hx]; rfl, hgraphic⟩

theorem StartsValue.ne_nil {a : List Char} (h : StartsValue a) : a ≠ [] := by
  rintro rfl
  obtain ⟨x, hx, -⟩ := h
  cases hx

theorem isGraphic_of_isDigit {c : Char} (h : c.isDigit = true) : isGraphic c = true := by
  simp only [Char.isDigit, Bool.and_eq_true, decide_eq_true_eq, ge_iff_le, UInt32.le_iff_toNat_le] at h
  have hlow : 48 ≤ c.toNat := h.1
  have hhigh : c.toNat ≤ 57 := h.2
  simp only [isGraphic, Bool.and_eq_true, decide_eq_true_eq]
  omega

theorem startsValue_cons {c : Char} (h : isGraphic c = true) (s : List Char) :
    StartsValue (c :: s) := ⟨c, rfl, h⟩

theorem endsValue_concat {c : Char} (h : isGraphic c = true) (s : List Char) :
    EndsValue (s ++ [c]) := EndsValue.append ⟨c, rfl, h⟩ s

theorem startsValue_of_forall {c : List Char} (hne : c ≠ []) (h : ∀ x ∈ c, isGraphic x = true) :
    StartsValue c := by
  obtain ⟨x, c, rfl⟩ := List.exists_cons_of_ne_nil hne
  exact startsValue_cons (h x List.mem_cons_self) c

theorem endsValue_of_forall {c : List Char} (hne : c ≠ []) (h : ∀ x ∈ c, isGraphic x = true) :
    EndsValue c :=
  ⟨c.getLast hne, List.getLast?_eq_some_getLast hne, h _ (List.getLast_mem hne)⟩

/-- The characters of a number. -/
theorem NumberText.WellFormed.mem_text {n : NumberText} (h : n.WellFormed) {c : Char} (hc : c ∈ n.text) :
    c.isDigit = true ∨ c ∈ ['-', '+', '.', 'e', 'E'] := by
  simp only [NumberText.text, List.mem_append] at hc
  obtain ((hc | hc) | hc) | hc := hc
  · rcases h.sign with hsign | hsign
    · rw [hsign] at hc
      cases hc
    · rw [hsign] at hc
      obtain rfl := List.mem_singleton.mp hc
      exact .inr (by decide)
  · exact .inl (h.whole.2.1 c hc)
  · rcases h.point with hpoint | ⟨a, hpoint, -, ha⟩
    · rw [hpoint] at hc
      cases hc
    · rw [hpoint] at hc
      rcases List.mem_cons.mp hc with rfl | hc
      · exact .inr (by decide)
      · exact .inl (ha c hc)
  · rcases h.power with hpower | ⟨e, sign, a, hpower, he, hsign, -, ha⟩
    · rw [hpower] at hc
      cases hc
    · rw [hpower] at hc
      rcases List.mem_cons.mp hc with rfl | hc
      · rcases he with rfl | rfl <;> exact .inr (by decide)
      · rcases List.mem_append.mp hc with hc | hc
        · rcases hsign with rfl | rfl | rfl
          · cases hc
          · obtain rfl := List.mem_singleton.mp hc
            exact .inr (by decide)
          · obtain rfl := List.mem_singleton.mp hc
            exact .inr (by decide)
        · exact .inl (ha c hc)

/-- A number consists of characters of values. -/
theorem NumberText.WellFormed.isGraphic {n : NumberText} (h : n.WellFormed) :
    ∀ c ∈ n.text, isGraphic c = true := by
  intro c hc
  rcases h.mem_text hc with hdigit | hmem
  · exact isGraphic_of_isDigit hdigit
  · simp only [List.mem_cons, List.not_mem_nil, or_false] at hmem
    rcases hmem with rfl | rfl | rfl | rfl | rfl <;> decide

/-- A number begins with a digit, or with a sign and a digit. -/
theorem NumberText.WellFormed.head {n : NumberText} (h : n.WellFormed) :
    ∃ d x, d.isDigit = true ∧ (n.text = d :: x ∨ n.text = '-' :: d :: x) := by
  obtain ⟨d, whole, hwhole⟩ := List.exists_cons_of_ne_nil h.whole.1
  refine ⟨d, whole ++ n.point ++ n.power, h.whole.2.1 d (hwhole ▸ List.mem_cons_self), ?_⟩
  rcases h.sign with hsign | hsign
  · left
    simp [NumberText.text, hsign, hwhole]
  · right
    simp [NumberText.text, hsign, hwhole]

/-- A word is found before whatever follows. -/
theorem find_word : ∀ w ∈ words, ∀ y, words.find? (·.1.isPrefixOf (w.1 ++ y)) = some w ∧
    (w.1 ++ y).head? ≠ some '\"' ∧ StartsValue w.1 ∧ EndsValue w.1 := by
  intro w hw y
  simp only [words, List.mem_cons, List.not_mem_nil, or_false] at hw
  rcases hw with rfl | rfl | rfl | rfl | rfl | rfl
  all_goals
    exact ⟨rfl, fun h => absurd (Option.some.inj h) (by decide), ⟨_, rfl, by decide⟩,
      ⟨_, rfl, by decide⟩⟩

/-- No word begins like a number. -/
theorem find_word_digit {d : Char} (hd : d.isDigit = true) (y : List Char) :
    words.find? (·.1.isPrefixOf (d :: y)) = none ∧
      words.find? (·.1.isPrefixOf ('-' :: d :: y)) = none := by
  have hne : ∀ c : Char, c.isDigit = false → (c == d) = false := by
    intro c hc
    refine beq_false_of_ne ?_
    rintro rfl
    rw [hc] at hd
    cases hd
  constructor
  all_goals simp [words, List.find?, List.isPrefixOf, hne 'n' rfl, hne 't' rfl, hne 'f' rfl,
    hne 'N' rfl, hne 'I' rfl, hne '-' rfl]

/-- A value without parts does not depend on what follows it. -/
theorem scanScalar_frame {limits : Limits} {s r : List Char} {v : Json}
    (h : scanScalar limits s = .ok (v, r)) :
    ∃ c, s = c ++ r ∧ StartsValue c ∧ EndsValue c ∧
      ∀ y, EndsNumber y → scanScalar limits (c ++ y) = .ok (v, y) := by
  unfold scanScalar at h
  split at h
  · next hquote =>
    obtain ⟨s, rfl⟩ := List.head?_eq_some_iff.mp hquote
    rw [List.tail_cons] at h
    cases hstring : scanString s with
    | none => rw [hstring] at h; cases h
    | some p =>
      rw [hstring] at h
      cases h
      obtain ⟨c, rfl, hc⟩ := scanString_frame hstring
      refine ⟨'\"' :: (c ++ ['\"']), by simp, startsValue_cons (by decide) _,
        endsValue_concat (by decide) ('\"' :: c), fun y _ => ?_⟩
      have hshape : '\"' :: (c ++ ['\"']) ++ y = '\"' :: (c ++ '\"' :: y) := by simp
      rw [hshape, scanScalar, if_pos List.head?_cons, List.tail_cons, hc y]
  · next hquote =>
    cases hword : words.find? (·.1.isPrefixOf s) with
    | some w =>
      rw [hword] at h
      cases h
      have hmem := List.mem_of_find?_eq_some hword
      have hprefix := List.find?_some hword
      obtain ⟨r, rfl⟩ := List.isPrefixOf_iff_prefix.mp hprefix
      obtain ⟨-, -, hstarts, hends⟩ := find_word w hmem []
      refine ⟨w.1, by rw [List.drop_left], hstarts, hends, fun y _ => ?_⟩
      obtain ⟨hfind, hhead, -⟩ := find_word w hmem y
      rw [scanScalar, if_neg hhead, hfind]
      exact congrArg (fun r => Except.ok (w.2, r)) List.drop_left
    | none =>
      rw [hword] at h
      obtain ⟨w, hvalue, hw⟩ := map_eq_ok.mp h
      cases hw
      obtain ⟨hne, -⟩ := ite_error_eq_ok.mp hvalue
      obtain ⟨hwell, hs⟩ := numberText_wellFormed hne
      generalize numberText s = n at hvalue hne hwell hs ⊢
      have hnil : n.text ≠ [] := fun hnil => hne (by
        simp only [NumberText.text, List.append_eq_nil_iff] at hnil
        exact hnil.1.1.2)
      refine ⟨n.text, hs, startsValue_of_forall hnil hwell.isGraphic,
        endsValue_of_forall hnil hwell.isGraphic, fun y hy => ?_⟩
      obtain ⟨d, x, hd, htext⟩ := hwell.head
      have hread : scanNumber limits (n.text ++ y) = .ok (v, y) := by
        rw [scanNumber, numberText_append hwell hy, hvalue, List.drop_left]
        rfl
      rw [scanScalar, if_neg, show words.find? (·.1.isPrefixOf (n.text ++ y)) = none from ?_]
      · exact hread
      · rcases htext with htext | htext
        · rw [htext]
          exact (find_word_digit hd (x ++ y)).1
        · rw [htext]
          exact (find_word_digit hd (x ++ y)).2
      · intro hhead
        rcases htext with htext | htext
        · rw [htext] at hhead
          obtain rfl := Option.some.inj hhead
          exact absurd hd (by decide)
        · rw [htext] at hhead
          exact absurd (Option.some.inj hhead) (by decide)

/-! ### Containers -/

theorem skipBlanks_of_head {s : List Char} (h : ∀ c ∈ s.head?, isBlank c = false) :
    skipBlanks s = s := by
  cases s with
  | nil => rfl
  | cons c s => rw [skipBlanks, List.dropWhile_cons_of_neg (by simp [h c rfl])]

/-- Blanks, and what is left after them. -/
theorem skipBlanks_frame (s : List Char) :
    ∃ b, s = b ++ skipBlanks s ∧ (∀ c ∈ b, isBlank c = true) ∧
      (∀ c ∈ (skipBlanks s).head?, isBlank c = false) ∧
      ∀ y, (∀ c ∈ y.head?, isBlank c = false) → skipBlanks (b ++ y) = y := by
  have hblank : ∀ c ∈ s.takeWhile isBlank, isBlank c = true := fun c => List.mem_takeWhile_imp
  refine ⟨s.takeWhile isBlank, List.takeWhile_append_dropWhile.symm, hblank, fun c hc => ?_,
    fun y hy => ?_⟩
  · have := List.head?_dropWhile_not isBlank s
    rw [show (s.dropWhile isBlank).head? = some c from hc] at this
    simpa using this
  · rw [skipBlanks, List.dropWhile_append_of_pos hblank]
    exact skipBlanks_of_head hy

theorem not_isBlank_of_isGraphic {c : Char} (h : isGraphic c = true) : isBlank c = false := by
  simp only [isGraphic, Bool.and_eq_true, decide_eq_true_eq] at h
  have hne : ∀ b : Char, b.toNat < 0x21 → c ≠ b := by
    rintro b hb rfl
    omega
  simp [isBlank, hne ' ' (by decide), hne '\t' (by decide), hne '\n' (by decide),
    hne '\r' (by decide)]

theorem isSpace_of_isGraphic {c : Char} (h : isGraphic c = true) : isSpace c = false := by
  simp only [isGraphic, Bool.and_eq_true, decide_eq_true_eq] at h
  simp [isSpace]
  omega

theorem StartsValue.not_isBlank {a : List Char} (h : StartsValue a) :
    ∀ c ∈ a.head?, isBlank c = false := by
  obtain ⟨x, hx, hgraphic⟩ := h
  intro c hc
  obtain rfl := Option.some.inj (hx.symm.trans hc)
  exact not_isBlank_of_isGraphic hgraphic

namespace Container

theorem opening_append {a : List Char} (hne : a ≠ []) {x y : List Char}
    (h : opening (a ++ x) = none) : opening (a ++ y) = none := by
  obtain ⟨c, a, rfl⟩ := List.exists_cons_of_ne_nil hne
  simp only [List.cons_append, opening] at h ⊢
  split at h
  · cases h
  · next harray =>
    rw [if_neg harray]
    split at h
    · cases h
    · next hobject => rw [if_neg hobject]

/-- A container is opened by one character. -/
theorem opening_frame {s r : List Char} {k : Container} (h : opening s = some (k, r)) :
    ∃ c, isGraphic c = true ∧ s = c :: r ∧ ∀ y, opening (c :: y) = some (k, y) := by
  cases s with
  | nil => cases h
  | cons c s =>
    simp only [opening] at h
    split at h
    · next harray =>
      cases h
      exact ⟨c, by subst harray; decide, rfl, fun y => by rw [opening, if_pos harray]⟩
    · next harray =>
      split at h
      · next hobject =>
        cases h
        exact ⟨c, by subst hobject; decide, rfl, fun y => by
          rw [opening, if_neg harray, if_pos hobject]⟩
      · cases h

/-- A key that is read, with its colon. -/
theorem key_frame {s r : List Char} {k : Container} {u : List ℕ} (h : k.key s = some (u, r)) :
    ∃ c, s = c ++ r ∧ (c = [] ∨ StartsValue c) ∧
      ∀ y, (∀ x ∈ y.head?, isBlank x = false) → k.key (c ++ y) = some (u, y) := by
  cases k with
  | array =>
    cases h
    exact ⟨[], rfl, .inl rfl, fun y _ => rfl⟩
  | object =>
    simp only [key] at h
    split at h
    · next hquote =>
      obtain ⟨s, rfl⟩ := List.head?_eq_some_iff.mp hquote
      obtain ⟨⟨u', s'⟩, hstring, h⟩ := Option.bind_eq_some_iff.mp h
      obtain ⟨c, hs, hc⟩ := scanString_frame hstring
      split at h
      · next hcolon =>
        cases h
        obtain ⟨b, hb, -, -, hread⟩ := skipBlanks_frame s'
        obtain ⟨t, ht⟩ := List.head?_eq_some_iff.mp hcolon
        dsimp only at ht
        obtain ⟨b', hb', -, -, hread'⟩ := skipBlanks_frame t
        refine ⟨'\"' :: (c ++ '\"' :: (b ++ ':' :: b')), ?_, .inr (startsValue_cons (by decide) _),
          fun y hy => ?_⟩
        · rw [List.tail_cons] at hs
          rw [hs, ht, List.tail_cons]
          conv_lhs => rw [hb, ht, hb']
          simp
        · have hshape : '\"' :: (c ++ '\"' :: (b ++ ':' :: b')) ++ y =
              '\"' :: (c ++ '\"' :: (b ++ ':' :: (b' ++ y))) := by simp
          have hcolon' : skipBlanks (b ++ ':' :: (b' ++ y)) = ':' :: (b' ++ y) :=
            hread _ fun x hx => by obtain rfl := Option.some.inj hx; decide
          rw [hshape, key, if_pos List.head?_cons, List.tail_cons, hc]
          simp only [Option.bind_some, hcolon', List.head?_cons, if_true, List.tail_cons, hread' y hy]
      · cases h
    · cases h

theorem endsNumber_cons {c : Char} (h : isBlank c = true ∨ c = ',' ∨ c = ']' ∨ c = '\x7d')
    (s : List Char) : EndsNumber (c :: s) := by
  intro x hx
  obtain rfl := Option.some.inj hx
  simp only [isBlank, Bool.or_eq_true, decide_eq_true_eq] at h
  rcases h with (((rfl | rfl) | rfl) | rfl) | rfl | rfl | rfl <;> decide

/-- What ends an item. -/
theorem after_frame {s r : List Char} {k : Container} {b : Bool} (h : k.after s = some (b, r)) :
    ∃ c, s = c ++ r ∧ (∀ y, EndsNumber (c ++ y)) ∧ (b = true → EndsValue c) ∧
      ∀ y, (b = false → ∀ x ∈ y.head?, isBlank x = false) → k.after (c ++ y) = some (b, y) := by
  obtain ⟨bl, hs, hblank, -, hread⟩ := skipBlanks_frame s
  have hends (d : Char) (hd : d = ',' ∨ d = ']' ∨ d = '\x7d') (y : List Char) :
      EndsNumber (bl ++ d :: y) := by
    cases bl with
    | nil => exact endsNumber_cons (.inr hd) y
    | cons x bl => exact endsNumber_cons (.inl (hblank x List.mem_cons_self)) _
  unfold after at h
  cases hskip : skipBlanks s with
  | nil => rw [hskip] at h; cases h
  | cons d t =>
    rw [hskip] at h hs
    dsimp only at h
    have hd : ∀ y, isBlank d = false → skipBlanks (bl ++ d :: y) = d :: y := fun y hd =>
      hread (d :: y) fun x hx => by obtain rfl := Option.some.inj hx; exact hd
    split at h
    · next hclosing =>
      cases h
      have hgraphic : isGraphic d = true := by subst hclosing; cases k <;> decide
      refine ⟨bl ++ [d], by simp [hs], fun y => ?_, fun _ => endsValue_concat hgraphic bl,
        fun y _ => ?_⟩
      · rw [List.append_assoc]
        exact hends d (by subst hclosing; cases k <;> simp [closing]) y
      · rw [List.append_assoc, List.singleton_append, after,
          hd y (not_isBlank_of_isGraphic hgraphic)]
        exact if_pos hclosing
    · next hclosing =>
      split at h
      · next hcomma =>
        cases h
        obtain ⟨bl', ht, -, -, hread'⟩ := skipBlanks_frame t
        refine ⟨bl ++ d :: bl', by rw [hs]; conv_lhs => rw [ht]
                                   simp, fun y => ?_, fun hfalse => (by cases hfalse), fun y hy => ?_⟩
        · rw [List.append_assoc]
          exact hends d (.inl hcomma) _
        · rw [List.append_assoc, List.cons_append, after, hd _ (by subst hcomma; decide)]
          simp only [if_neg hclosing, if_pos hcomma, hread' y (hy rfl)]
      · cases h

end Container

/-- A value that is read, and the items of a container, do not depend on what follows them. -/
theorem scan_frame (limits : Limits) (n : ℕ) :
    (∀ level s v r, scanOnce limits n level s = .ok (v, r) →
      ∃ c, s = c ++ r ∧ StartsValue c ∧ EndsValue c ∧
        ∀ y, EndsNumber y → scanOnce limits n level (c ++ y) = .ok (v, y)) ∧
    ∀ level k s l r, scanItems limits n level k s = .ok (l, r) →
      ∃ c, s = c ++ r ∧ StartsValue c ∧ EndsValue c ∧
        ∀ y, scanItems limits n level k (c ++ y) = .ok (l, y) := by
  induction n with
  | zero =>
    refine ⟨fun level s v r h => ?_, fun level k s l r h => ?_⟩
    · rw [scanOnce] at h
      cases h
    · rw [scanItems] at h
      cases h
  | succ n ih =>
    obtain ⟨ihOnce, ihItems⟩ := ih
    refine ⟨fun level s v r h => ?_, fun level k s l r h => ?_⟩
    · rw [scanOnce] at h
      cases hopening : Container.opening s with
      | none =>
        rw [hopening] at h
        obtain ⟨c, rfl, hstarts, hends, hread⟩ := scanScalar_frame h
        refine ⟨c, rfl, hstarts, hends, fun y hy => ?_⟩
        rw [scanOnce, Container.opening_append hstarts.ne_nil hopening]
        exact hread y hy
      | some p =>
        obtain ⟨k, s'⟩ := p
        rw [hopening] at h
        dsimp only at h
        obtain ⟨c, hc, rfl, hopen⟩ := Container.opening_frame hopening
        obtain ⟨hdepth, h⟩ := ite_error_eq_ok.mp h
        obtain ⟨b, hb, -, -, hread⟩ := skipBlanks_frame s'
        split at h
        · next hempty =>
          cases h
          obtain ⟨t, ht⟩ := List.head?_eq_some_iff.mp hempty
          have hclosing : isGraphic k.closing = true := by cases k <;> decide
          rw [ht] at hb ⊢
          refine ⟨c :: (b ++ [k.closing]), by simp [hb], startsValue_cons hc _,
            endsValue_concat hclosing (c :: b), fun y _ => ?_⟩
          have hshape : c :: (b ++ [k.closing]) ++ y = c :: (b ++ k.closing :: y) := by simp
          have hskip : skipBlanks (b ++ k.closing :: y) = k.closing :: y :=
            hread _ (startsValue_cons hclosing y).not_isBlank
          rw [hshape, scanOnce, hopen]
          simp only [if_neg hdepth, hskip, List.head?_cons, if_true, List.tail_cons]
        · next hitems =>
          obtain ⟨⟨l, r'⟩, hl, heq⟩ := map_eq_ok.mp h
          cases heq
          obtain ⟨d, hd, hstarts, hends, hreadItems⟩ := ihItems _ _ _ _ _ hl
          rw [hd] at hb hitems
          refine ⟨c :: (b ++ d), by simp [hb], startsValue_cons hc _, hends.append (c :: b),
            fun y _ => ?_⟩
          have hshape : c :: (b ++ d) ++ y = c :: (b ++ (d ++ y)) := by simp
          have hskip : skipBlanks (b ++ (d ++ y)) = d ++ y :=
            hread _ (hstarts.append y).not_isBlank
          have hhead : (d ++ y).head? ≠ some k.closing := by
            obtain ⟨x, d, rfl⟩ := List.exists_cons_of_ne_nil hstarts.ne_nil
            exact hitems
          rw [hshape, scanOnce, hopen]
          simp only [if_neg hdepth, hskip, if_neg hhead, hreadItems y]
          rfl
    · rw [scanItems] at h
      cases hkey : k.key s with
      | none => rw [hkey] at h; cases h
      | some p =>
        obtain ⟨u, s'⟩ := p
        rw [hkey] at h
        obtain ⟨⟨v, s''⟩, hv, hitem⟩ := bind_eq_ok.mp h
        obtain ⟨c, rfl, hc, hreadKey⟩ := Container.key_frame hkey
        obtain ⟨d, rfl, hstarts, -, hreadValue⟩ := ihOnce _ _ _ _ hv
        have hstartsAll (x : List Char) : StartsValue (c ++ (d ++ x)) := by
          rcases hc with rfl | hc
          · exact hstarts.append x
          · exact hc.append _
        dsimp only at hitem
        cases hafter : k.after s'' with
        | none => rw [hafter] at hitem; cases hitem
        | some q =>
          obtain ⟨b, t⟩ := q
          rw [hafter] at hitem
          obtain ⟨e, rfl, hnumber, hends, hreadAfter⟩ := Container.after_frame hafter
          cases b with
          | true =>
            cases hitem
            refine ⟨c ++ (d ++ e), by simp, hstartsAll e, ?_, fun y => ?_⟩
            · rw [← List.append_assoc]
              exact (hends rfl).append _
            · have hshape : c ++ (d ++ e) ++ y = c ++ (d ++ (e ++ y)) := by simp
              rw [hshape, scanItems, hreadKey _ (hstarts.append _).not_isBlank]
              dsimp only
              rw [hreadValue _ (hnumber y)]
              simp only [Except.bind, hreadAfter y (fun hfalse => by cases hfalse)]
          | false =>
            obtain ⟨⟨l', r'⟩, hl, heq⟩ := map_eq_ok.mp hitem
            cases heq
            obtain ⟨f, rfl, hstartsRest, hendsRest, hreadRest⟩ := ihItems _ _ _ _ _ hl
            refine ⟨c ++ (d ++ (e ++ f)), by simp, hstartsAll _, ?_, fun y => ?_⟩
            · rw [← List.append_assoc, ← List.append_assoc]
              exact hendsRest.append _
            · have hshape : c ++ (d ++ (e ++ f)) ++ y = c ++ (d ++ (e ++ (f ++ y))) := by simp
              rw [hshape, scanItems, hreadKey _ (hstarts.append _).not_isBlank]
              dsimp only
              rw [hreadValue _ (hnumber _)]
              simp only [Except.bind, hreadAfter _ fun _ => (hstartsRest.append y).not_isBlank,
                hreadRest y]
              rfl

/-! ## The fuel is enough -/

theorem length_skipBlanks_le (s : List Char) : (skipBlanks s).length ≤ s.length :=
  (List.dropWhile_sublist isBlank).length_le

/-- The scanner does not run out of fuel. -/
theorem scan_of_le (limits : Limits) (n : ℕ) :
    (∀ m level s, 2 * s.length + 1 ≤ n → 2 * s.length + 1 ≤ m →
      scanOnce limits n level s = scanOnce limits m level s) ∧
    ∀ m level k s, 2 * s.length + 2 ≤ n → 2 * s.length + 2 ≤ m →
      scanItems limits n level k s = scanItems limits m level k s := by
  induction n with
  | zero =>
    refine ⟨fun m level s hn => ?_, fun m level k s hn => ?_⟩
    · exact absurd hn (by omega)
    · exact absurd hn (by omega)
  | succ n ih =>
    obtain ⟨ihOnce, ihItems⟩ := ih
    refine ⟨fun m level s hn hm => ?_, fun m level k s hn hm => ?_⟩
    · obtain ⟨m, rfl⟩ := Nat.exists_eq_add_one.mpr (Nat.zero_lt_of_lt hm)
      rw [scanOnce, scanOnce]
      cases hopening : Container.opening s with
      | none => rfl
      | some p =>
        obtain ⟨k, s'⟩ := p
        obtain ⟨c, -, rfl, -⟩ := Container.opening_frame hopening
        have hle := length_skipBlanks_le s'
        rw [List.length_cons] at hn hm
        dsimp only
        rw [ihItems m (level + 1) k (skipBlanks s') (by omega) (by omega)]
    · obtain ⟨m, rfl⟩ := Nat.exists_eq_add_one.mpr (Nat.zero_lt_of_lt hm)
      rw [scanItems, scanItems]
      cases hkey : k.key s with
      | none => rfl
      | some p =>
        obtain ⟨u, s'⟩ := p
        obtain ⟨c, rfl, -⟩ := Container.key_frame hkey
        rw [List.length_append] at hn hm
        dsimp only
        rw [← ihOnce m level s' (by omega) (by omega)]
        cases hv : scanOnce limits n level s' with
        | error e => rfl
        | ok v =>
          obtain ⟨d, hd, hstarts, -⟩ := (scan_frame limits n).1 level s' v.1 v.2 hv
          have hpos := List.length_pos_iff.mpr hstarts.ne_nil
          have hlength := congrArg List.length hd
          rw [List.length_append] at hlength
          simp only [Except.bind]
          cases hafter : k.after v.2 with
          | none => rfl
          | some q =>
            obtain ⟨b, t⟩ := q
            obtain ⟨e, he, -⟩ := Container.after_frame hafter
            have hrest := congrArg List.length he
            rw [List.length_append] at hrest
            cases b with
            | true => rfl
            | false =>
              dsimp only
              rw [ihItems m level k t (by omega) (by omega)]

/-! ## Limits -/

/-- The result without limits, or an error of a limit. -/
def UpToLimits {α : Type} (x y : Except LoadsError α) : Prop :=
  x = y ∨ x = .error .digits ∨ x = .error .recursion

theorem UpToLimits.map {α β : Type} {x y : Except LoadsError α} (h : UpToLimits x y) (f : α → β) :
    UpToLimits (x.map f) (y.map f) := by
  rcases h with rfl | rfl | rfl
  · exact .inl rfl
  · exact .inr (.inl rfl)
  · exact .inr (.inr rfl)

theorem UpToLimits.bind {α β : Type} {x y : Except LoadsError α} {f g : α → Except LoadsError β}
    (h : UpToLimits x y) (hfg : ∀ a, UpToLimits (f a) (g a)) : UpToLimits (x.bind f) (y.bind g) := by
  rcases h with rfl | rfl | rfl
  · cases x with
    | error e => exact .inl rfl
    | ok a => exact hfg a
  · exact .inr (.inl rfl)
  · exact .inr (.inr rfl)

theorem scanScalar_upToLimits (limits : Limits) (s : List Char) :
    UpToLimits (scanScalar limits s) (scanScalar ⟨none, none⟩ s) := by
  unfold scanScalar
  split
  · exact .inl rfl
  · cases words.find? (·.1.isPrefixOf s) with
    | some w => exact .inl rfl
    | none =>
      refine UpToLimits.map ?_ _
      unfold NumberText.value
      split
      · exact .inl rfl
      · split
        · exact .inl rfl
        · split
          · exact .inr (.inl rfl)
          · exact .inl rfl

theorem scan_upToLimits (limits : Limits) (n : ℕ) :
    (∀ level s, UpToLimits (scanOnce limits n level s) (scanOnce ⟨none, none⟩ n level s)) ∧
    ∀ level k s, UpToLimits (scanItems limits n level k s) (scanItems ⟨none, none⟩ n level k s) := by
  induction n with
  | zero =>
    refine ⟨fun level s => .inl ?_, fun level k s => .inl ?_⟩
    · rw [scanOnce, scanOnce]
    · rw [scanItems, scanItems]
  | succ n ih =>
    obtain ⟨ihOnce, ihItems⟩ := ih
    refine ⟨fun level s => ?_, fun level k s => ?_⟩
    · rw [scanOnce, scanOnce]
      cases Container.opening s with
      | none => exact scanScalar_upToLimits limits s
      | some p =>
        dsimp only
        split
        · exact .inr (.inr rfl)
        · rw [if_neg (show ¬ exceeds (level + 1) none = true from Bool.false_ne_true)]
          split
          · exact .inl rfl
          · exact (ihItems _ _ _).map _
    · rw [scanItems, scanItems]
      cases k.key s with
      | none => exact .inl rfl
      | some p =>
        refine (ihOnce _ _).bind fun v => ?_
        cases k.after v.2 with
        | none => exact .inl rfl
        | some q =>
          obtain ⟨b, t⟩ := q
          cases b with
          | true => exact .inl rfl
          | false => exact (ihItems _ _ _).map _

/-- A limit makes an error of its own of a text, or nothing. -/
theorem loads_upToLimits (limits : Limits) (s : List Char) :
    UpToLimits (loads limits s) (loads ⟨none, none⟩ s) :=
  ((scan_upToLimits limits _).1 _ _).bind fun _ => .inl rfl

/-! ## Texts between blanks -/

/-- A text is a value between blanks, and means the same between other blanks. -/
theorem loads_frame {limits : Limits} {s : List Char} {v : Json} (h : loads limits s = .ok v) :
    ∃ b c b', s = b ++ c ++ b' ∧ (∀ x ∈ b, isBlank x = true) ∧ (∀ x ∈ b', isBlank x = true) ∧
      StartsValue c ∧ EndsValue c ∧
      ∀ d d', (∀ x ∈ d, isBlank x = true) → (∀ x ∈ d', isBlank x = true) →
        loads limits (d ++ c ++ d') = .ok v := by
  obtain ⟨⟨w, r⟩, hscan, hrest⟩ := bind_eq_ok.mp h
  obtain ⟨hblank, hv⟩ := ite_ok_else_error.mp hrest
  cases hv
  obtain ⟨c, hc, hstarts, hends, hread⟩ := (scan_frame limits _).1 _ _ _ _ hscan
  obtain ⟨b, hb, hbs, -⟩ := skipBlanks_frame s
  have hr : ∀ x ∈ r, isBlank x = true := by
    simpa [skipBlanks, List.dropWhile_eq_nil_iff] using hblank
  refine ⟨b, c, r, by rw [List.append_assoc, ← hc]; exact hb, hbs, hr, hstarts, hends,
    fun d d' hd hd' => ?_⟩
  have hskip : skipBlanks (d ++ c ++ d') = c ++ d' := by
    rw [skipBlanks, List.append_assoc, List.dropWhile_append_of_pos hd]
    exact skipBlanks_of_head (hstarts.append d').not_isBlank
  have hnumber : EndsNumber d' := by
    cases d' with
    | nil => exact fun x hx => by cases hx
    | cons x d' => exact Container.endsNumber_cons (.inl (hd' x List.mem_cons_self)) d'
  -- the value is read alone, and then before the other blanks
  have hlength := length_skipBlanks_le s
  rw [hc, List.length_append] at hlength
  have halone := hread [] (fun x hx => by cases hx)
  rw [List.append_nil, (scan_of_le limits _).1 (2 * (d ++ c ++ d').length + 1) 0 c (by omega)
    (by simp only [List.length_append]; omega)] at halone
  obtain ⟨c', hc', -, -, hread'⟩ := (scan_frame limits _).1 _ _ _ _ halone
  rw [List.append_nil] at hc'
  subst hc'
  have htail : skipBlanks d' = [] := List.dropWhile_eq_nil_iff.mpr hd'
  rw [loads, hskip, hread' d' hnumber]
  exact if_pos htail

theorem isSpace_of_isBlank {c : Char} (h : isBlank c = true) : isSpace c = true := by
  simp only [isBlank, Bool.or_eq_true, decide_eq_true_eq] at h
  rcases h with ((rfl | rfl) | rfl) | rfl <;> decide

/-- A text can be stripped before it is read. -/
theorem loads_strip {limits : Limits} {s : List Char} {v : Json} (h : loads limits s = .ok v) :
    loads limits (strip s) = .ok v := by
  obtain ⟨b, c, b', rfl, hb, hb', ⟨x, hx, hgraphic⟩, ⟨y, hy, hgraphic'⟩, hread⟩ := loads_frame h
  rw [strip_frame (fun z hz => isSpace_of_isBlank (hb z hz)) (fun z hz => isSpace_of_isBlank (hb' z hz))
    ⟨x, hx, isSpace_of_isGraphic hgraphic⟩ ⟨y, hy, isSpace_of_isGraphic hgraphic'⟩]
  simpa using hread [] [] (fun z hz => by cases hz) (fun z hz => by cases hz)

/-- The characters that begin a value, besides the digits. -/
def valueHeads : List Char := ['\"', '[', '\x7b', 'n', 't', 'f', 'N', 'I', '-']

/-- A text whose first character begins no value is none. -/
theorem loads_of_head {limits : Limits} {b s : List Char} {c : Char} (hb : ∀ x ∈ b, isBlank x = true)
    (hblank : isBlank c = false) (hdigit : c.isDigit = false) (hc : c ∉ valueHeads) :
    loads limits (b ++ c :: s) = .error .decode := by
  have hskip : skipBlanks (b ++ c :: s) = c :: s := by
    rw [skipBlanks, List.dropWhile_append_of_pos hb, List.dropWhile_cons_of_neg (by simp [hblank])]
  simp only [valueHeads, List.mem_cons, List.not_mem_nil, or_false, not_or] at hc
  obtain ⟨hquote, hbracket, hbrace, hn, ht, hf, hN, hI, hminus⟩ := hc
  have hwords : words.find? (·.1.isPrefixOf (c :: s)) = none := by
    simp [words, List.find?, List.isPrefixOf, beq_false_of_ne (Ne.symm hn), beq_false_of_ne (Ne.symm ht),
      beq_false_of_ne (Ne.symm hf), beq_false_of_ne (Ne.symm hN), beq_false_of_ne (Ne.symm hI),
      beq_false_of_ne (Ne.symm hminus)]
  have hwhole : (numberText (c :: s)).whole = [] := by
    have hzero : c ≠ '0' := by
      rintro rfl
      cases hdigit
    simp [numberText, hminus, wholePart, hzero, hdigit]
  have hopening : Container.opening (c :: s) = none := by
    rw [Container.opening, if_neg hbracket, if_neg hbrace]
  have hscalar : scanScalar limits (c :: s) = .error .decode := by
    have hhead : (c :: s).head? ≠ some '\"' := fun h => hquote (Option.some.inj h)
    rw [scanScalar, if_neg hhead, hwords]
    simp only [scanNumber, NumberText.value, hwhole, if_true]
    rfl
  rw [loads, hskip, scanOnce, hopening]
  dsimp only
  rw [hscalar]
  rfl

/-! ## Texts beyond the limits -/

/-- More brackets than the scanner can enter. -/
theorem scanOnce_brackets {d : ℕ} (digits : Option ℕ) {k level n : ℕ} (hlevel : level ≤ d)
    (hk : d < level + k) (hn : 2 * k ≤ n) :
    scanOnce ⟨some d, digits⟩ n level (List.replicate k '[') = .error .recursion := by
  induction k generalizing level n with
  | zero => exact absurd hk (Nat.not_lt.mpr hlevel)
  | succ k ih =>
    obtain ⟨n, rfl⟩ : ∃ m, n = m + 2 := ⟨n - 2, by omega⟩
    rw [List.replicate_succ, scanOnce, Container.opening, if_pos rfl]
    dsimp only
    by_cases hfull : d < level + 1
    · exact if_pos (decide_eq_true hfull)
    · have hskip : skipBlanks (List.replicate k '[') = List.replicate k '[' :=
        skipBlanks_of_head fun c hc => by
          rw [List.eq_of_mem_replicate (List.mem_of_head? hc)]
          decide
      have hhead : (List.replicate k '[').head? ≠ some Container.array.closing := fun hhead =>
        absurd (List.eq_of_mem_replicate (List.mem_of_head? hhead)) (by decide)
      rw [if_neg (by simpa [exceeds] using hfull), hskip, if_neg hhead, scanItems]
      simp only [Container.key]
      rw [ih (by omega) (by omega) (by omega)]
      rfl

theorem loads_brackets (d : ℕ) (digits : Option ℕ) :
    loads ⟨some d, digits⟩ (List.replicate (d + 1) '[') = .error .recursion := by
  have hskip : skipBlanks (List.replicate (d + 1) '[') = List.replicate (d + 1) '[' :=
    skipBlanks_of_head fun c hc => by
      obtain rfl := Option.some.inj hc
      decide
  rw [loads, hskip, List.length_replicate,
    scanOnce_brackets digits (Nat.zero_le d) (by omega) (by omega)]
  rfl

/-- More digits than `int` takes. -/
theorem loads_ones (depth : Option ℕ) (m : ℕ) :
    loads ⟨depth, some m⟩ (List.replicate (m + 1) '1') = .error .digits := by
  have hskip : skipBlanks (List.replicate (m + 1) '1') = List.replicate (m + 1) '1' :=
    skipBlanks_of_head fun c hc => by
      obtain rfl := Option.some.inj hc
      decide
  have hdigits : (List.replicate (m + 1) '1').takeWhile Char.isDigit = List.replicate (m + 1) '1' := by
    have h := takeWhile_digits (a := List.replicate (m + 1) '1') (z := [])
      (fun c hc => by rw [List.eq_of_mem_replicate hc]; decide) (fun c hc => by cases hc)
    rwa [List.append_nil] at h
  have hnumber : numberText (List.replicate (m + 1) '1') =
      ⟨[], List.replicate (m + 1) '1', [], []⟩ := by
    have hsign : (List.replicate (m + 1) '1').head? ≠ some '-' := fun h =>
      absurd (Option.some.inj h) (by decide)
    have hzero : (List.replicate (m + 1) '1').head? ≠ some '0' := fun h =>
      absurd (Option.some.inj h) (by decide)
    simp [numberText, hsign, wholePart, hzero, hdigits, fraction, exponent]
  have hscalar : scanScalar ⟨depth, some m⟩ (List.replicate (m + 1) '1') = .error .digits := by
    have hquote : (List.replicate (m + 1) '1').head? ≠ some '\"' := fun h =>
      absurd (Option.some.inj h) (by decide)
    rw [scanScalar, if_neg hquote, show words.find? (·.1.isPrefixOf (List.replicate (m + 1) '1')) = none from
        (find_word_digit (d := '1') rfl (List.replicate m '1')).1]
    simp [scanNumber, hnumber, NumberText.value, NumberText.isFloat, exceeds]
    rfl
  rw [loads, hskip, scanOnce, show Container.opening (List.replicate (m + 1) '1') = none from rfl,
    hscalar]
  rfl

end AgentCraft.Python
