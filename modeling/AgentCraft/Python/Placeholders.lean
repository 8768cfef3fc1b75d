import Mathlib.Data.List.Infix
import Mathlib.Data.List.TakeWhile
import Mathlib.Tactic.Linarith

/-!
# Placeholders in texts

`str.replace`, and `re.findall` for the pattern `__[A-Z_]+__`, over texts of code points. A text can be taken
apart where one of two neighbours is no character of a placeholder: then both functions treat the two parts
on their own (`replaceAll_append`, `findTokens_append`). In a text without token there is nothing to replace
(`replaceAll_of_findTokens`).
-/

namespace AgentCraft.Python

/-- `[A-Z_]`. -/
def isTokenChar (n : ℕ) : Bool := (0x41 ≤ n && n ≤ 0x5A) || n == 0x5F

/-- `s.replace(old, new)`, with the number of code points to skip. -/
@[grind] def replaceAll (old new : List ℕ) : ℕ → List ℕ → List ℕ
  | _, [] => []
  | skip + 1, _ :: s => replaceAll old new skip s
  | 0, c :: s =>
    if old.isPrefixOf (c :: s) then new ++ replaceAll old new (old.length - 1) s
    else c :: replaceAll old new 0 s

/-- The longest prefix that ends with two underscores. -/
@[grind] def untilDouble : List ℕ → List ℕ
  | [] => []
  | c :: r =>
    if untilDouble r ≠ [] then c :: untilDouble r
    else if c = 0x5F ∧ r.head? = some 0x5F then [0x5F, 0x5F]
    else []

/-- The match at the head; empty if there is none. -/
def tokenAt (s : List ℕ) : List ℕ :=
  if 5 ≤ (untilDouble (s.takeWhile isTokenChar)).length ∧ [0x5F, 0x5F].isPrefixOf s then
    untilDouble (s.takeWhile isTokenChar)
  else []

/-- `re.findall("__[A-Z_]+__", s)`, with the number of code points to skip. -/
@[grind] def findTokens : ℕ → List ℕ → List (List ℕ)
  | _, [] => []
  | skip + 1, _ :: s => findTokens skip s
  | 0, c :: s =>
    if tokenAt (c :: s) = [] then findTokens 0 s
    else tokenAt (c :: s) :: findTokens ((tokenAt (c :: s)).length - 1) s

/-- A text that the pattern matches as a whole. -/
structure IsToken (t : List ℕ) : Prop where
  chars : ∀ c ∈ t, isTokenChar c = true
  length : 5 ≤ t.length
  starts : [0x5F, 0x5F] <+: t
  ends : [0x5F, 0x5F] <:+ t

/-- One of the two neighbours is no character of a placeholder. -/
def Seam (a b : List ℕ) : Prop :=
  (∀ c ∈ a.getLast?, isTokenChar c = false) ∨ ∀ c ∈ b.head?, isTokenChar c = false

/-! ## Parts of a text -/

section Seams

variable {a b old new s : List ℕ} {c : ℕ}

theorem Seam.of_cons (h : Seam (c :: a) b) (hne : a ≠ []) : Seam a b := by
  rwa [Seam, List.getLast?_cons_of_ne_nil hne] at h

/-- The run of characters at the head stays within its part. -/
theorem takeWhile_append_of_seam (hne : a ≠ []) (h : Seam a b) :
    (a ++ b).takeWhile isTokenChar = a.takeWhile isTokenChar := by
  by_cases hall : ∀ c ∈ a, isTokenChar c = true
  · have hlast : isTokenChar (a.getLast hne) = true := hall _ (List.getLast_mem hne)
    have hhead : ∀ c ∈ b.head?, isTokenChar c = false := by
      refine h.resolve_left fun hnot => ?_
      rw [hnot _ (List.getLast?_eq_some_getLast hne)] at hlast
      cases hlast
    rw [List.takeWhile_append_of_pos hall, List.takeWhile_eq_self_iff.mpr hall]
    cases b with
    | nil => simp
    | cons d b => rw [List.takeWhile_cons_of_neg (by simp [hhead d rfl]), List.append_nil]
  · rw [List.takeWhile_append, if_neg]
    intro hlength
    refine hall fun c hc => ?_
    have hself : a.takeWhile isTokenChar = a :=
      (List.takeWhile_prefix isTokenChar).eq_of_length hlength
    rw [← hself] at hc
    exact List.mem_takeWhile_imp hc

/-- A placeholder at the head stays within its part. -/
theorem isPrefixOf_append_of_seam (hold : ∀ c ∈ old, isTokenChar c = true) (hne : a ≠ []) (h : Seam a b) :
    old.isPrefixOf (a ++ b) = old.isPrefixOf a := by
  rw [Bool.eq_iff_iff, List.isPrefixOf_iff_prefix, List.isPrefixOf_iff_prefix]
  refine ⟨fun hprefix => ?_, fun hprefix => hprefix.trans (List.prefix_append a b)⟩
  rcases List.prefix_or_prefix_of_prefix hprefix (List.prefix_append a b) with hshort | ⟨rest, rfl⟩
  · exact hshort
  · cases rest with
    | nil => rw [List.append_nil]
    | cons d rest =>
      -- otherwise both neighbours are characters of the placeholder
      obtain ⟨b, rfl⟩ := (List.prefix_append_right_inj a).mp hprefix
      exfalso
      rcases h with hlast | hhead
      · have hd := hold (a.getLast hne) (List.mem_append_left _ (List.getLast_mem hne))
        rw [hlast _ (List.getLast?_eq_some_getLast hne)] at hd
        cases hd
      · have hd := hold d (by simp)
        rw [hhead d (by simp)] at hd
        cases hd

theorem tokenAt_append (hne : a ≠ []) (h : Seam a b) : tokenAt (a ++ b) = tokenAt a := by
  have hstarts : [0x5F, 0x5F].isPrefixOf (a ++ b) = [0x5F, 0x5F].isPrefixOf a :=
    isPrefixOf_append_of_seam (by decide) hne h
  rw [tokenAt, tokenAt, takeWhile_append_of_seam hne h, hstarts]

theorem length_untilDouble_le (r : List ℕ) : (untilDouble r).length ≤ r.length := by
  induction r with
  | nil => exact le_rfl
  | cons c r ih =>
    rw [untilDouble]
    split
    · exact Nat.succ_le_succ ih
    · split
      · next h =>
        obtain ⟨r, rfl⟩ := List.head?_eq_some_iff.mp h.2
        simp
      · exact Nat.zero_le _

theorem length_tokenAt_le (s : List ℕ) : (tokenAt s).length ≤ s.length := by
  unfold tokenAt
  split
  · exact (length_untilDouble_le _).trans (List.takeWhile_prefix isTokenChar).length_le
  · exact Nat.zero_le _

/-- The tokens of a text are those of its parts. -/
theorem findTokens_append (h : Seam a b) : findTokens 0 (a ++ b) = findTokens 0 a ++ findTokens 0 b := by
  have hskip : ∀ (a : List ℕ) (k : ℕ), k ≤ a.length → (a ≠ [] → Seam a b) →
      findTokens k (a ++ b) = findTokens k a ++ findTokens 0 b := by
    intro a
    induction a with
    | nil =>
      intro k hk _
      obtain rfl := Nat.le_zero.mp hk
      rfl
    | cons c a ih =>
      intro k hk hseam
      have hseam := hseam (List.cons_ne_nil c a)
      cases k with
      | succ k => exact ih k (Nat.le_of_succ_le_succ hk) fun hne => hseam.of_cons hne
      | zero =>
        rw [List.cons_append, findTokens, findTokens, ← List.cons_append,
          tokenAt_append (List.cons_ne_nil c a) hseam]
        split
        · exact ih 0 (Nat.zero_le _) fun hne => hseam.of_cons hne
        · have hle : (tokenAt (c :: a)).length - 1 ≤ a.length :=
            Nat.sub_le_of_le_add (length_tokenAt_le (c :: a))
          rw [ih _ hle fun hne => hseam.of_cons hne]
          rfl
  exact hskip a 0 (Nat.zero_le _) fun _ => h

/-- A text is replaced in its parts. -/
theorem replaceAll_append (hold : ∀ c ∈ old, isTokenChar c = true) (h : Seam a b) :
    replaceAll old new 0 (a ++ b) = replaceAll old new 0 a ++ replaceAll old new 0 b := by
  have hskip : ∀ (a : List ℕ) (k : ℕ), k ≤ a.length → (a ≠ [] → Seam a b) →
      replaceAll old new k (a ++ b) = replaceAll old new k a ++ replaceAll old new 0 b := by
    intro a
    induction a with
    | nil =>
      intro k hk _
      obtain rfl := Nat.le_zero.mp hk
      rfl
    | cons c a ih =>
      intro k hk hseam
      have hseam := hseam (List.cons_ne_nil c a)
      cases k with
      | succ k => exact ih k (Nat.le_of_succ_le_succ hk) fun hne => hseam.of_cons hne
      | zero =>
        rw [List.cons_append, replaceAll, replaceAll, ← List.cons_append,
          isPrefixOf_append_of_seam hold (List.cons_ne_nil c a) hseam]
        split
        · next hprefix =>
          have hle : old.length - 1 ≤ a.length :=
            Nat.sub_le_of_le_add (List.isPrefixOf_iff_prefix.mp hprefix).length_le
          rw [ih _ hle fun hne => hseam.of_cons hne, List.append_assoc]
        · rw [ih 0 (Nat.zero_le _) fun hne => hseam.of_cons hne]
          rfl
  exact hskip a 0 (Nat.zero_le _) fun _ => h

/-- What is replaced as a whole. -/
theorem replaceAll_self (hne : old ≠ []) : replaceAll old new 0 old = new := by
  have hskip (k : ℕ) (s : List ℕ) (hk : s.length ≤ k) : replaceAll old new k s = [] := by
    induction s generalizing k with
    | nil => cases k <;> rfl
    | cons c s ih =>
      obtain ⟨k, rfl⟩ := Nat.exists_eq_add_one.mpr (Nat.lt_of_lt_of_le (Nat.succ_pos _) hk)
      exact ih k (Nat.le_of_succ_le_succ hk)
  obtain ⟨c, s, rfl⟩ := List.exists_cons_of_ne_nil hne
  rw [replaceAll, if_pos (List.isPrefixOf_iff_prefix.mpr List.prefix_rfl), List.length_cons,
    hskip _ s (Nat.le_of_eq (Nat.add_sub_cancel ..).symm), List.append_nil]

end Seams

/-! ## Texts without tokens -/

section Tokens

variable {t x new : List ℕ}

/-- What does not occur is not replaced. -/
theorem replaceAll_of_not_infix (h : ¬ t <:+: x) : replaceAll t new 0 x = x := by
  induction x with
  | nil => rfl
  | cons c x ih =>
    have hprefix : ¬ t.isPrefixOf (c :: x) = true := fun hprefix =>
      h (List.isPrefixOf_iff_prefix.mp hprefix).isInfix
    rw [replaceAll, if_neg hprefix, ih fun hin => h (hin.trans (List.suffix_cons c x).isInfix)]

/-- It is a prefix. -/
theorem untilDouble_prefix (r : List ℕ) : untilDouble r <+: r := by
  induction r with
  | nil => exact List.prefix_rfl
  | cons c r ih =>
    rw [untilDouble]
    split
    · exact List.cons_prefix_cons.mpr ⟨rfl, ih⟩
    · split
      · next h =>
        obtain ⟨rfl, hhead⟩ := h
        obtain ⟨r, rfl⟩ := List.head?_eq_some_iff.mp hhead
        exact List.prefix_append [0x5F, 0x5F] r
      · exact List.nil_prefix

/-- The longest prefix has every prefix that ends with two underscores. -/
theorem prefix_untilDouble {r : List ℕ} (h : t <+: r) (hends : [0x5F, 0x5F] <:+ t) : t <+: untilDouble r := by
  induction r generalizing t with
  | nil =>
    obtain rfl := List.prefix_nil.mp h
    exact List.nil_prefix
  | cons c r ih =>
    cases t with
    | nil => exact List.nil_prefix
    | cons d t =>
      obtain ⟨rfl, htail⟩ := List.cons_prefix_cons.mp h
      rcases List.suffix_cons_iff.mp hends with heq | hends
      · -- the prefix is the two underscores themselves
        cases heq
        obtain ⟨r, rfl⟩ := htail
        rw [List.singleton_append] at *
        rw [untilDouble]
        split
        · next hne =>
          obtain ⟨e, m, hm⟩ := List.exists_cons_of_ne_nil hne
          have hprefix := untilDouble_prefix (0x5F :: r)
          rw [hm] at hprefix
          obtain ⟨rfl, -⟩ := List.cons_prefix_cons.mp hprefix
          rw [hm]
          exact List.prefix_append [0x5F, 0x5F] m
        · rw [if_pos ⟨rfl, rfl⟩]
      · have hrec := ih htail hends
        have hne : untilDouble r ≠ [] := by
          intro hnil
          rw [hnil, List.prefix_nil] at hrec
          subst hrec
          have hlength := hends.length_le
          simp at hlength
        rw [untilDouble, if_pos hne]
        exact List.cons_prefix_cons.mpr ⟨rfl, hrec⟩

/-- A token that begins here, whatever follows. -/
theorem tokenAt_ne_nil (ht : IsToken t) (h : t <+: x) : tokenAt x ≠ [] := by
  have hrun : t <+: x.takeWhile isTokenChar := by
    obtain ⟨rest, rfl⟩ := h
    rw [List.takeWhile_append_of_pos ht.chars]
    exact List.prefix_append t _
  have hlongest := prefix_untilDouble hrun ht.ends
  have hlength := ht.length.trans hlongest.length_le
  rw [tokenAt, if_pos ⟨hlength, List.isPrefixOf_iff_prefix.mpr (ht.starts.trans h)⟩]
  intro hnil
  rw [hnil] at hlength
  cases hlength

/-- A text without tokens has none anywhere. -/
theorem not_infix_of_findTokens (ht : IsToken t) (h : findTokens 0 x = []) : ¬ t <:+: x := by
  induction x with
  | nil =>
    intro hinfix
    rw [List.infix_nil.mp hinfix] at ht
    cases ht.length
  | cons c x ih =>
    rw [findTokens] at h
    split at h
    · next hnone =>
      intro hinfix
      rcases List.infix_cons_iff.mp hinfix with hprefix | hrest
      · exact tokenAt_ne_nil ht hprefix hnone
      · exact ih h hrest
    · cases h

/-- In a text without tokens there is nothing to replace. -/
theorem replaceAll_of_findTokens (ht : IsToken t) (h : findTokens 0 x = []) : replaceAll t new 0 x = x :=
  replaceAll_of_not_infix (not_infix_of_findTokens ht h)

/-- Two underscores stand together. -/
@[grind] def hasDouble : List ℕ → Bool
  | [] => false
  | c :: r => (c == 0x5F && r.head? == some 0x5F) || hasDouble r

/-- Without them there is no token. -/
theorem findTokens_of_hasDouble (h : hasDouble x = false) : findTokens 0 x = [] := by
  induction x with
  | nil => rfl
  | cons c x ih =>
    rw [hasDouble, Bool.or_eq_false_iff] at h
    have hnone : tokenAt (c :: x) = [] := by
      refine if_neg fun htoken => ?_
      obtain ⟨rest, hrest⟩ := List.isPrefixOf_iff_prefix.mp htoken.2
      cases hrest
      cases h.1
    rw [findTokens, if_pos hnone]
    exact ih h.2

theorem hasDouble_append {a b : List ℕ} (ha : hasDouble a = false) (hb : hasDouble b = false)
    (hhead : b.head? ≠ some 0x5F) : hasDouble (a ++ b) = false := by
  induction a with
  | nil => exact hb
  | cons c a ih =>
    rw [hasDouble, Bool.or_eq_false_iff] at ha
    rw [List.cons_append, hasDouble, ih ha.2, Bool.or_false]
    cases a with
    | nil =>
      rw [List.nil_append, Bool.and_eq_false_iff]
      exact .inr (beq_eq_false_iff_ne.mpr hhead)
    | cons d a => exact ha.1

/-- Of two parts, one has what occurs in the whole. -/
theorem infix_append_of_seam {a b : List ℕ} (hold : ∀ c ∈ t, isTokenChar c = true) (h : Seam a b) :
    t <:+: a ++ b ↔ t <:+: a ∨ t <:+: b := by
  refine ⟨fun hinfix => ?_, fun hinfix => ?_⟩
  · induction a with
    | nil => exact .inr hinfix
    | cons c a ih =>
      rcases List.infix_cons_iff.mp hinfix with hprefix | hrest
      · have hstarts := (isPrefixOf_append_of_seam hold (List.cons_ne_nil c a) h).symm.trans
          (List.isPrefixOf_iff_prefix.mpr hprefix)
        exact .inl (List.isPrefixOf_iff_prefix.mp hstarts).isInfix
      · by_cases ha : a = []
        · rw [ha] at hrest
          exact .inr hrest
        · exact (ih (h.of_cons ha) hrest).imp_left fun hin => hin.trans (List.suffix_cons c a).isInfix
  · rcases hinfix with hin | hin
    · exact hin.trans (List.prefix_append a b).isInfix
    · exact hin.trans (List.suffix_append a b).isInfix

end Tokens

/-! ## Templates -/

/-- A text with slots, and a text after each of them. -/
structure Template (S : Type*) where
  head : List ℕ
  rest : List (S × List ℕ)

section Templates

variable {S : Type*} {old new : List ℕ} {σ : S → List ℕ}

/-- The parts that follow the first text. -/
def renderRest (σ : S → List ℕ) (parts : List (S × List ℕ)) : List ℕ := parts.flatMap fun p => σ p.1 ++ p.2

/-- The text with `σ` in the slots. -/
def Template.render (σ : S → List ℕ) (t : Template S) : List ℕ := t.head ++ renderRest σ t.rest

theorem Template.render_congr {t : Template S} {τ : S → List ℕ} (h : ∀ s ∈ t.rest.map Prod.fst, σ s = τ s) :
    t.render σ = t.render τ := by
  have hrest : renderRest σ t.rest = renderRest τ t.rest := by
    refine List.flatMap_congr fun p hp => ?_
    rw [h p.1 (List.mem_map_of_mem hp)]
  rw [render, render, hrest]

/-- Where the slots agree but for one, that one decides. -/
theorem Template.render_eq_iff {t : Template S} {τ : S → List ℕ} {before after : List (S × List ℕ)} {s : S}
    {x : List ℕ} (ht : t.rest = before ++ (s, x) :: after)
    (h : ∀ u ∈ (before ++ after).map Prod.fst, σ u = τ u) : t.render σ = t.render τ ↔ σ s = τ s := by
  have hparts {parts : List (S × List ℕ)} (hsub : parts ⊆ before ++ after) :
      renderRest σ parts = renderRest τ parts :=
    List.flatMap_congr fun p hp => by rw [h p.1 (List.mem_map_of_mem (hsub hp))]
  have hshape (ρ : S → List ℕ) : t.render ρ =
      t.head ++ (renderRest ρ before ++ ((ρ s ++ x) ++ renderRest ρ after)) := by
    rw [render, ht, renderRest, List.flatMap_append, List.flatMap_cons]
    rfl
  rw [hshape, hshape, hparts (List.subset_append_left ..), hparts (List.subset_append_right ..),
    List.append_cancel_left_eq, List.append_cancel_left_eq, List.append_cancel_right_eq,
    List.append_cancel_right_eq]

/-- A text without two underscores that is set apart from its neighbours. -/
def isSpacer (x : List ℕ) : Bool :=
  !hasDouble x && x.head?.any (fun c => !isTokenChar c) && x.getLast?.any (fun c => !isTokenChar c)

/-- Every slot stands between spacers. -/
def Template.isSpaced (t : Template S) : Bool := isSpacer t.head && t.rest.all fun p => isSpacer p.2

theorem isSpacer_spec {x : List ℕ} (h : isSpacer x = true) :
    findTokens 0 x = [] ∧ (∀ a, Seam a x) ∧ ∀ a b, Seam (a ++ x) b := by
  rw [isSpacer, Bool.and_eq_true, Bool.and_eq_true] at h
  obtain ⟨⟨hnone, hfirst⟩, hlast⟩ := h
  refine ⟨findTokens_of_hasDouble (Bool.not_eq_true' _ |>.mp hnone), fun a => .inr ?_, fun a b => .inl ?_⟩
  · intro c hc
    rw [hc, Option.any_some, Bool.not_eq_true'] at hfirst
    exact hfirst
  · intro c hc
    obtain ⟨d, hd, hplain⟩ := Option.any_eq_true _ _ |>.mp hlast
    rw [List.getLast?_append, hd, Option.some_or] at hc
    rw [Bool.not_eq_true'] at hplain
    rw [← Option.some.inj hc]
    exact hplain

/-- The tokens of a text are those in its slots. -/
theorem Template.findTokens_render {t : Template S} (h : t.isSpaced = true) :
    findTokens 0 (t.render σ) = t.rest.flatMap fun p => findTokens 0 (σ p.1) := by
  have hrest : ∀ parts : List (S × List ℕ), (parts.all fun p => isSpacer p.2) = true →
      findTokens 0 (renderRest σ parts) = parts.flatMap fun p => findTokens 0 (σ p.1) := by
    intro parts hparts
    induction parts with
    | nil => rfl
    | cons p parts ih =>
      rw [List.all_cons, Bool.and_eq_true] at hparts
      obtain ⟨hnone, hbefore, hafter⟩ := isSpacer_spec hparts.1
      rw [renderRest, List.flatMap_cons, List.flatMap_cons, findTokens_append (hafter _ _),
        findTokens_append (hbefore _), hnone, List.append_nil]
      exact congrArg _ (ih hparts.2)
  rw [isSpaced, Bool.and_eq_true] at h
  obtain ⟨hnone, -, hspace⟩ := isSpacer_spec h.1
  have hafter (b : List ℕ) : Seam t.head b := hspace [] b
  rw [render, findTokens_append (hafter _), hnone, List.nil_append, hrest _ h.2]

/-- A placeholder is replaced in the slots. -/
theorem Template.replaceAll_render {t : Template S} (h : t.isSpaced = true) (hold : IsToken old) :
    replaceAll old new 0 (t.render σ) = t.render fun s => replaceAll old new 0 (σ s) := by
  have hrest : ∀ parts : List (S × List ℕ), (parts.all fun p => isSpacer p.2) = true →
      replaceAll old new 0 (renderRest σ parts) = renderRest (fun s => replaceAll old new 0 (σ s)) parts := by
    intro parts hparts
    induction parts with
    | nil => rfl
    | cons p parts ih =>
      rw [List.all_cons, Bool.and_eq_true] at hparts
      obtain ⟨hnone, hbefore, hafter⟩ := isSpacer_spec hparts.1
      rw [renderRest, renderRest, List.flatMap_cons, List.flatMap_cons,
        replaceAll_append hold.chars (hafter _ _), replaceAll_append hold.chars (hbefore _),
        replaceAll_of_findTokens hold hnone]
      exact congrArg _ (ih hparts.2)
  rw [isSpaced, Bool.and_eq_true] at h
  obtain ⟨hnone, -, hspace⟩ := isSpacer_spec h.1
  have hafter (b : List ℕ) : Seam t.head b := hspace [] b
  rw [render, replaceAll_append hold.chars (hafter _), replaceAll_of_findTokens hold hnone, hrest _ h.2]
  rfl

end Templates

end AgentCraft.Python
