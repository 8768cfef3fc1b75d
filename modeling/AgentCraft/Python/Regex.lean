import AgentCraft.Python.Text
import Mathlib.Data.List.Dedup
import Mathlib.Data.List.Infix

/-!
# Regular expressions

`re` tries the ways to match an expression at a place one after the other. `ends` lists where they end, in
this order; `search`, `remove` and `occurrences` go by it. Which characters are letters and digits of
Unicode is a parameter. An expression that begins with a fixed text matches nowhere in a text that lacks it,
and what two texts with a foreign character between them have are the matches of either
(`occurrencesFrom_quiet`).
-/

namespace AgentCraft.Python

/-- A place in a text: the character before it, and what follows. -/
structure Place where
  before : Option Char
  rest : List Char
deriving DecidableEq, Repr

/-- Regular expressions. -/
inductive Regex
  | text (t : List Char)
  | one (p : Char → Bool)
  | seq (r s : Regex)
  | alt (r s : Regex)
  | star (r : Regex)
  /-- `\b`. -/
  | wordBoundary

/-- The place behind the next characters. -/
def Place.skip (p : Place) (t : List Char) : Place := ⟨t.getLast?.or p.before, p.rest.drop t.length⟩

namespace Regex

/-- Where a greedy repetition may end; an empty match is not repeated. -/
@[grind] def starEnds (f : Place → List Place) : ℕ → Place → List Place
  | 0, p => [p]
  | n + 1, p =>
    (f p).flatMap (fun q => if q.rest.length < p.rest.length then starEnds f n q else []) ++ [p]

section Matching

variable (isAlnum : Char → Bool)

/-- `\w`. -/
def isWord (c : Char) : Bool := isAlnum c || c == '_'

/-- Where an expression may end that is matched at a place, in the order of the attempts. -/
@[grind] def ends : Regex → Place → List Place
  | .text t, p => if t.isPrefixOf p.rest then [p.skip t] else []
  | .one f, p => if p.rest.head?.any f then [p.skip (p.rest.take 1)] else []
  | .seq r s, p => (ends r p).flatMap (ends s)
  | .alt r s, p => ends r p ++ ends s p
  | .star r, p => starEnds (ends r) p.rest.length p
  | .wordBoundary, p =>
    if p.before.any (isWord isAlnum) = p.rest.head?.any (isWord isAlnum) then [] else [p]

/-- The places of a text. -/
@[grind] def placesFrom (before : Option Char) : List Char → List Place
  | [] => [⟨before, []⟩]
  | c :: s => ⟨before, c :: s⟩ :: placesFrom (some c) s

/-- `re.search`. -/
def search (r : Regex) (s : List Char) : Bool := (placesFrom none s).any fun p => !(ends isAlnum r p).isEmpty

/-- What `re.sub` with an empty replacement leaves of a text. -/
@[grind] def removeFrom (r : Regex) : ℕ → Place → List Char
  | 0, p => p.rest
  | n + 1, p =>
    match (ends isAlnum r p).head?.filter (fun q => q.rest.length < p.rest.length), p.rest with
    | some q, _ => removeFrom r n q
    | none, [] => []
    | none, c :: s => c :: removeFrom r n ⟨some c, s⟩

def remove (r : Regex) (s : List Char) : List Char := removeFrom isAlnum r s.length ⟨none, s⟩

/-- What an expression matches at a place. -/
def matchesAt (r : Regex) (p : Place) : List (List Char) :=
  ((ends isAlnum r p).map fun q => p.rest.take (p.rest.length - q.rest.length)).dedup

/-- The parts of a text that an expression matches, by their begins. -/
def occurrencesFrom (r : Regex) (before : Option Char) (s : List Char) : List (List Char) :=
  (placesFrom before s).flatMap (matchesAt isAlnum r)

def occurrences (r : Regex) (s : List Char) : List (List Char) := occurrencesFrom isAlnum r none s

/-! ## Texts without a match -/

variable {isAlnum} {r : Regex}

theorem placesFrom_rest {b : Option Char} {s : List Char} {p : Place} (hp : p ∈ placesFrom b s) : p.rest <:+ s := by
  induction s generalizing b with
  | nil =>
    obtain rfl := List.mem_singleton.mp hp
    exact List.suffix_rfl
  | cons c s ih =>
    rcases List.mem_cons.mp hp with rfl | hp
    · exact List.suffix_rfl
    · exact (ih hp).trans (List.suffix_cons c s)

/-- A text is found where it stands. -/
theorem search_text_of_infix {t s : List Char} (h : t <:+: s) : search isAlnum (.text t) s = true := by
  have hplace (b : Option Char) : ∃ p ∈ placesFrom b s, t <+: p.rest := by
    induction s generalizing b with
    | nil =>
      rw [List.infix_nil.mp h]
      exact ⟨_, List.mem_singleton.mpr rfl, List.nil_prefix⟩
    | cons c s ih =>
      rcases List.infix_cons_iff.mp h with hstart | hrest
      · exact ⟨_, List.mem_cons_self, hstart⟩
      · obtain ⟨p, hp, hstart⟩ := ih hrest (some c)
        exact ⟨p, List.mem_cons_of_mem _ hp, hstart⟩
  obtain ⟨p, hp, hstart⟩ := hplace none
  refine List.any_eq_true.mpr ⟨p, hp, ?_⟩
  rw [ends, if_pos (List.isPrefixOf_iff_prefix.mpr hstart)]
  rfl

/-- An expression that matches only where a text stands. -/
def LedBy (isAlnum : Char → Bool) (t : List Char) (r : Regex) : Prop :=
  ∀ p : Place, ¬ t <+: p.rest → ends isAlnum r p = []

theorem ledBy_seq (t : List Char) (r : Regex) : LedBy isAlnum t (.seq (.text t) r) := by
  intro p hp
  rw [ends, ends, if_neg fun h => hp (List.isPrefixOf_iff_prefix.mp h)]
  rfl

theorem removeFrom_eq {n : ℕ} {p : Place} (hr : ∀ q ∈ placesFrom p.before p.rest, ends isAlnum r q = []) :
    removeFrom isAlnum r n p = p.rest := by
  induction n generalizing p with
  | zero => rfl
  | succ n ih =>
    obtain ⟨b, s⟩ := p
    cases s with
    | nil =>
      rw [removeFrom, hr _ (List.mem_singleton.mpr rfl)]
      rfl
    | cons c s =>
      have hrest := ih (p := ⟨some c, s⟩) fun q hq => hr q (List.mem_cons_of_mem _ hq)
      rw [removeFrom, hr _ List.mem_cons_self]
      exact congrArg (c :: ·) hrest

/-- Nothing is removed from a text without what leads the matches. -/
theorem remove_eq_self {t s : List Char} (hr : LedBy isAlnum t r) (hs : ¬ t <:+: s) : remove isAlnum r s = s :=
  removeFrom_eq fun q hq => hr q fun hstart => hs (hstart.isInfix.trans (placesFrom_rest hq).isInfix)

/-! ## Matches between foreign characters -/

theorem prefix_of_prefix_append_cons {t q u : List Char} {c : Char} (hc : c ∉ t) (h : t <+: q ++ c :: u) : t <+: q := by
  rcases List.prefix_or_prefix_of_prefix h (List.prefix_append q (c :: u)) with hshort | ⟨v, hv⟩
  · exact hshort
  · cases v with
    | nil =>
      rw [List.append_nil] at hv
      rw [hv]
    | cons d v =>
      rw [← hv, List.prefix_append_right_inj] at h
      obtain ⟨rfl, -⟩ := List.cons_prefix_cons.mp h
      exact absurd (hv ▸ List.mem_append_right q List.mem_cons_self) hc

/-- A text that lacks what leads the matches has none, and none goes past a foreign character. -/
theorem occurrencesFrom_quiet {t q : List Char} {c : Char} (hr : LedBy isAlnum t r) (ht : t ≠ []) (hc : c ∉ t)
    (hq : ¬ t <:+: q) (b : Option Char) (u : List Char) :
    occurrencesFrom isAlnum r b (q ++ c :: u) = occurrencesFrom isAlnum r (some c) u := by
  have hskip (b : Option Char) (d : Char) (s : List Char) (h : ¬ t <+: d :: s) :
      occurrencesFrom isAlnum r b (d :: s) = occurrencesFrom isAlnum r (some d) s := by
    rw [occurrencesFrom, placesFrom, List.flatMap_cons, matchesAt, hr ⟨b, d :: s⟩ h]
    rfl
  induction q generalizing b with
  | nil =>
    refine hskip b c u fun h => ?_
    exact ht (List.prefix_nil.mp (prefix_of_prefix_append_cons (q := []) hc h))
  | cons d q ih =>
    have hstart : ¬ t <+: d :: (q ++ c :: u) := fun h =>
      hq (prefix_of_prefix_append_cons (q := d :: q) hc h).isInfix
    rw [List.cons_append, hskip b d _ hstart]
    exact ih (fun h => hq (h.trans (List.suffix_cons d q).isInfix)) (some d)

theorem occurrencesFrom_cons (b : Option Char) (c : Char) (s : List Char) :
    occurrencesFrom isAlnum r b (c :: s) =
      matchesAt isAlnum r ⟨b, c :: s⟩ ++ occurrencesFrom isAlnum r (some c) s := by
  rw [occurrencesFrom, placesFrom, List.flatMap_cons]
  rfl

/-- A text of one character that is foreign to a text keeps its parts apart. -/
theorem infix_append_cons {t a b : List Char} {c : Char} (ht : t ≠ []) (hc : c ∉ t) (h : t <:+: a ++ c :: b) :
    t <:+: a ∨ t <:+: b := by
  induction a with
  | nil =>
    rcases List.infix_cons_iff.mp h with hstart | hrest
    · exact absurd (List.prefix_nil.mp (prefix_of_prefix_append_cons (q := []) hc hstart)) ht
    · exact .inr hrest
  | cons d a ih =>
    rcases List.infix_cons_iff.mp h with hstart | hrest
    · exact .inl (prefix_of_prefix_append_cons (q := d :: a) hc hstart).isInfix
    · exact (ih hrest).imp_left fun hin => hin.trans (List.suffix_cons d a).isInfix

/-- A text that lacks what leads the matches has none. -/
theorem occurrencesFrom_eq_nil {t s : List Char} (hr : LedBy isAlnum t r) (hs : ¬ t <:+: s) (b : Option Char) :
    occurrencesFrom isAlnum r b s = [] := by
  refine List.flatMap_eq_nil_iff.mpr fun p hp => ?_
  rw [matchesAt, hr p fun hstart => hs (hstart.isInfix.trans (placesFrom_rest hp).isInfix)]
  rfl

/-! ## Repeated characters -/

/-- A repetition of characters goes on as long as it can, and may end before. -/
theorem ends_star_one_cons {f : Char → Bool} {b : Option Char} {c : Char} {s : List Char} :
    ends isAlnum (.star (.one f)) ⟨b, c :: s⟩ =
      (if f c then ends isAlnum (.star (.one f)) ⟨some c, s⟩ else []) ++ [⟨b, c :: s⟩] := by
  rw [ends, List.length_cons, starEnds]
  by_cases hf : f c = true
  · have hone : ends isAlnum (.one f) ⟨b, c :: s⟩ = [⟨some c, s⟩] := by
      rw [ends, if_pos (by simpa using hf)]
      rfl
    have hshorter : s.length < (c :: s).length := Nat.lt_succ_self _
    rw [hone, if_pos hf, List.flatMap_singleton, if_pos hshorter, ends]
  · have hone : ends isAlnum (.one f) ⟨b, c :: s⟩ = [] := by
      rw [ends, if_neg (by simpa using hf)]
    rw [hone, if_neg hf]
    rfl

theorem ends_star_one_nil {f : Char → Bool} {b : Option Char} :
    ends isAlnum (.star (.one f)) ⟨b, []⟩ = [⟨b, []⟩] := by
  rw [ends]
  rfl

/-- Characters that cannot be repeated end a repetition at once. -/
theorem ends_star_one_stop {f : Char → Bool} {b : Option Char} {c : Char} {s : List Char} (hc : f c = false) :
    ends isAlnum (.star (.one f)) ⟨b, c :: s⟩ = [⟨b, c :: s⟩] := by
  rw [ends_star_one_cons, if_neg (by simp [hc]), List.nil_append]

/-- A repetition before a text whose first character it cannot take. -/
theorem ends_star_one_text {f : Char → Bool} {a t u : List Char} {c : Char} (ha : ∀ x ∈ a, f x = true ∧ x ≠ c)
    (hc : f c = false) (b : Option Char) :
    (ends isAlnum (.seq (.star (.one f)) (.text (c :: t))) ⟨b, a ++ c :: t ++ u⟩).map Place.rest = [u] := by
  have htext (b : Option Char) : (ends isAlnum (.text (c :: t)) ⟨b, c :: t ++ u⟩).map Place.rest = [u] := by
    rw [ends, if_pos (List.isPrefixOf_iff_prefix.mpr (List.prefix_append _ _)), List.map_singleton, Place.skip,
      List.drop_left]
  induction a generalizing b with
  | nil =>
    rw [ends, List.nil_append, List.cons_append, ends_star_one_stop hc, List.flatMap_singleton]
    exact htext b
  | cons x a ih =>
    obtain ⟨⟨hx, hxc⟩, ha⟩ := List.forall_mem_cons.mp ha
    have hstop : ends isAlnum (.text (c :: t)) ⟨b, x :: (a ++ c :: t ++ u)⟩ = [] := by
      rw [ends, if_neg fun h => hxc (List.cons_prefix_cons.mp (List.isPrefixOf_iff_prefix.mp h)).1.symm]
    have hrest := ih ha (some x)
    rw [ends] at hrest ⊢
    rw [List.cons_append, List.cons_append, ends_star_one_cons, if_pos hx, List.flatMap_append,
      List.flatMap_singleton, hstop, List.append_nil]
    exact hrest

/-! ## Sequences -/

theorem ends_seq_text (w : List Char) (r : Regex) (b : Option Char) (s : List Char) :
    ends isAlnum (.seq (.text w) r) ⟨b, w ++ s⟩ = ends isAlnum r ⟨w.getLast?.or b, s⟩ := by
  rw [ends, ends, if_pos (List.isPrefixOf_iff_prefix.mpr (List.prefix_append w s)), List.flatMap_singleton,
    Place.skip, List.drop_left]

theorem ends_seq_text_cons {w : List Char} {c : Char} (hw : w.head? ≠ some c) (hne : w ≠ []) (r : Regex)
    (b : Option Char) (s : List Char) : ends isAlnum (.seq (.text w) r) ⟨b, c :: s⟩ = [] := by
  rw [ends, ends, if_neg, List.flatMap_nil]
  intro hstart
  cases w with
  | nil => exact hne rfl
  | cons d w =>
    obtain ⟨rfl, -⟩ := List.cons_prefix_cons.mp (List.isPrefixOf_iff_prefix.mp hstart)
    exact hw rfl

theorem ends_seq_star_stop {f : Char → Bool} {c : Char} (hc : f c = false) (r : Regex) (b : Option Char)
    (s : List Char) : ends isAlnum (.seq (.star (.one f)) r) ⟨b, c :: s⟩ = ends isAlnum r ⟨b, c :: s⟩ := by
  rw [ends, ends_star_one_stop hc, List.flatMap_singleton]

theorem ends_seq_alt (r r' u : Regex) (p : Place) :
    ends isAlnum (.seq (.alt r r') u) p = ends isAlnum (.seq r u) p ++ ends isAlnum (.seq r' u) p := by
  simp only [ends, List.flatMap_append]

end Matching

end Regex

end AgentCraft.Python
