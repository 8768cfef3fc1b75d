import AgentCraft.Python.JsonDumps
import AgentCraft.Python.Placeholders

/-!
# Placeholders in JSON texts

A string in ASCII can be encoded, and it has a placeholder where the string has one: what is escaped is no
character of a placeholder, and neither is any character of its escape (`infix_quoted_iff`).
-/

namespace AgentCraft.Python

/-! ## Strings in ASCII -/

theorem lt_of_mem_utf16 {n m : ℕ} (hn : n < 0x110000) (hm : m ∈ utf16 n) : m < 0x10000 := by
  unfold utf16 at hm
  split at hm
  · next hlt =>
    rw [List.mem_singleton.mp hm]
    exact hlt
  · simp only [List.mem_cons, List.not_mem_nil, or_false] at hm
    omega

theorem isEncodable_escapePoint_true {n : ℕ} (hn : n < 0x110000) : isEncodable (escapePoint true n) = true := by
  have hsmall {l : List ℕ} (hl : ∀ m ∈ l, m < 128) : isEncodable l = true :=
    List.all_eq_true.mpr fun m hm => decide_eq_true (isValidChar_of_lt (hl m hm))
  unfold escapePoint
  split
  · next c hc => 
    have hlt := (shortEscape_eq_some hc).2.1
    exact hsmall (by simpa using hlt)
  · split
    · next hlow => exact isEncodable_unitEscape (by omega)
    · split
      · refine List.all_eq_true.mpr fun m hm => ?_
        obtain ⟨k, hk, hmem⟩ := List.mem_flatMap.mp hm
        exact List.all_eq_true.mp (isEncodable_unitEscape (lt_of_mem_utf16 hn hk)) m hmem
      · next hlow hhigh => exact hsmall (by simp at hhigh; simp; omega)

theorem isEncodable_quoted_true {u : List ℕ} (hu : ∀ n ∈ u, n < 0x110000) : isEncodable (quoted true u) = true := by
  have hescapes : isEncodable (u.flatMap (escapePoint true)) = true := by
    refine List.all_eq_true.mpr fun m hm => ?_
    obtain ⟨n, hn, hmem⟩ := List.mem_flatMap.mp hm
    exact List.all_eq_true.mp (isEncodable_escapePoint_true (hu n hn)) m hmem
  rw [quoted, isEncodable_enclosed (by decide) (by decide), hescapes]

/-! ## Where placeholders stand -/

/-- An escaped code point is no character of a placeholder, and neither is its escape. -/
theorem escapePoint_true_cases {n : ℕ} (hn : n < 0x110000) : escapePoint true n = [n] ∨
    isTokenChar n = false ∧ escapePoint true n ≠ [] ∧ ∀ m ∈ escapePoint true n, isTokenChar m = false := by
  have hdigit : ∀ d < 16, isTokenChar (Nat.digitChar d).toNat = false := by decide
  have hunit {m : ℕ} (hm : m < 0x10000) : ∀ d ∈ unitEscape m, isTokenChar d = false := by
    intro d hd
    simp only [unitEscape, List.mem_cons, List.not_mem_nil, or_false] at hd
    rcases hd with rfl | rfl | rfl | rfl | rfl | rfl
    · rfl
    · rfl
    · exact hdigit _ (by omega)
    · exact hdigit _ (Nat.mod_lt _ (by decide))
    · exact hdigit _ (Nat.mod_lt _ (by decide))
    · exact hdigit _ (Nat.mod_lt _ (by decide))
  unfold escapePoint
  split
  · next c hc =>
    unfold shortEscape at hc
    split_ifs at hc with hquote hbackslash hfeed hreturn htab hback hform
    all_goals
      cases hc
      subst n
      exact .inr ⟨rfl, List.cons_ne_nil _ _, by decide⟩
  · split
    · next hlow =>
      refine .inr ⟨?_, List.cons_ne_nil _ _, hunit (by omega)⟩
      simp only [isTokenChar, Bool.or_eq_false_iff, Bool.and_eq_false_iff, decide_eq_false_iff_not,
        beq_eq_false_iff_ne]
      omega
    · split
      · next hhigh =>
        refine .inr ⟨?_, ?_, ?_⟩
        · simp only [isTokenChar, Bool.or_eq_false_iff, Bool.and_eq_false_iff, decide_eq_false_iff_not,
            beq_eq_false_iff_ne]
          omega
        · unfold utf16
          split <;> exact List.cons_ne_nil _ _
        · intro m hm
          obtain ⟨k, hk, hmem⟩ := List.mem_flatMap.mp hm
          exact hunit (lt_of_mem_utf16 hn hk) m hmem
      · exact .inl rfl

section Escapes

variable {t u : List ℕ}

/-- A placeholder begins an escaped text as it begins the text. -/
theorem prefix_escaped_iff (ht : ∀ c ∈ t, isTokenChar c = true) (hu : ∀ n ∈ u, n < 0x110000) :
    t <+: u.flatMap (escapePoint true) ↔ t <+: u := by
  induction u generalizing t with
  | nil => exact Iff.rfl
  | cons n u ih =>
    obtain ⟨hn, hrest⟩ := List.forall_mem_cons.mp hu
    cases t with
    | nil => exact iff_of_true List.nil_prefix List.nil_prefix
    | cons d t =>
      obtain ⟨hd, ht⟩ := List.forall_mem_cons.mp ht
      rw [List.flatMap_cons]
      rcases escapePoint_true_cases hn with hplain | ⟨hnot, hne, hescape⟩
      · rw [hplain, List.singleton_append, List.cons_prefix_cons, List.cons_prefix_cons, ih ht hrest]
      · obtain ⟨e, es, he⟩ := List.exists_cons_of_ne_nil hne
        rw [he] at hescape ⊢
        refine iff_of_false (fun h => ?_) fun h => ?_
        · obtain ⟨rfl, -⟩ := List.cons_prefix_cons.mp h
          rw [hescape d List.mem_cons_self] at hd
          cases hd
        · obtain ⟨rfl, -⟩ := List.cons_prefix_cons.mp h
          rw [hnot] at hd
          cases hd

/-- A placeholder stands in an escaped text if it stands in the text. -/
theorem infix_escaped_iff (ht : IsToken t) (hu : ∀ n ∈ u, n < 0x110000) :
    t <:+: u.flatMap (escapePoint true) ↔ t <:+: u := by
  obtain ⟨d, t', rfl⟩ := List.exists_cons_of_ne_nil
    (List.ne_nil_of_length_pos (Nat.lt_of_lt_of_le (by decide) ht.length) : t ≠ [])
  have hd := ht.chars d List.mem_cons_self
  induction u with
  | nil => exact Iff.rfl
  | cons n u ih =>
    obtain ⟨hn, hrest⟩ := List.forall_mem_cons.mp hu
    have hprefix := prefix_escaped_iff ht.chars hu
    have hinfix := ih hrest
    rw [List.infix_cons_iff]
    refine Iff.trans ?_ (or_congr hprefix hinfix)
    rw [List.flatMap_cons]
    rcases escapePoint_true_cases hn with hplain | ⟨hnot, hne, hescape⟩
    · rw [hplain, List.singleton_append, List.infix_cons_iff]
    · have hseam : Seam (escapePoint true n) (u.flatMap (escapePoint true)) :=
        .inl fun c hc => hescape c (List.mem_of_getLast? hc)
      have hfirst {s : List ℕ} (hs : ∀ m ∈ s, isTokenChar m = false) : ¬ (d :: t') <:+: s := by
        intro h
        rw [hs d (h.subset List.mem_cons_self)] at hd
        cases hd
      rw [infix_append_of_seam ht.chars hseam, or_iff_right (hfirst hescape)]
      refine (or_iff_right fun h => ?_).symm
      obtain ⟨e, es, he⟩ := List.exists_cons_of_ne_nil hne
      rw [he] at h hescape
      obtain ⟨rfl, -⟩ := List.cons_prefix_cons.mp h
      rw [hescape d List.mem_cons_self] at hd
      cases hd

/-- The quotes are no characters of a placeholder. -/
theorem infix_quoted_iff (ht : IsToken t) (hu : ∀ n ∈ u, n < 0x110000) : t <:+: quoted true u ↔ t <:+: u := by
  have hquote : ¬ t <:+: [0x22] := fun h => by
    have hlength := ht.length.trans h.length_le
    simp at hlength
  have hleft : Seam [0x22] (u.flatMap (escapePoint true) ++ [0x22]) := .inl (by decide)
  have hright : Seam (u.flatMap (escapePoint true)) [0x22] := .inr (by decide)
  rw [quoted, ← List.singleton_append, infix_append_of_seam ht.chars hleft, or_iff_right hquote,
    infix_append_of_seam ht.chars hright, or_iff_left hquote, infix_escaped_iff ht hu]

end Escapes

/-! ## Texts without two underscores -/

theorem hasDouble_of_not_mem {x : List ℕ} (h : 0x5F ∉ x) : hasDouble x = false := by
  induction x with
  | nil => rfl
  | cons c x ih =>
    rw [List.mem_cons, not_or] at h
    rw [hasDouble, ih h.2, Bool.or_false, Bool.and_eq_false_iff]
    exact .inl (beq_eq_false_iff_ne.mpr (Ne.symm h.1))

theorem findTokens_intText (i : ℤ) : findTokens 0 ((intText i).map Char.toNat) = [] := by
  refine findTokens_of_hasDouble (hasDouble_of_not_mem fun h => ?_)
  obtain ⟨c, hc, heq⟩ := List.mem_map.mp h
  have hnumeral := isNumeral_of_mem i c hc
  have hunderscore : c = '_' := Char.toNat_inj.mp heq
  rw [hunderscore] at hnumeral
  cases hnumeral

/-- Items between brackets have no two underscores together if none of them has. -/
theorem hasDouble_array {ts : List (List ℕ)} (h : ∀ t ∈ ts, hasDouble t = false) :
    hasDouble (0x5B :: ([0x2C, 0x20].intercalate ts ++ [0x5D])) = false := by
  have hitems : hasDouble ([0x2C, 0x20].intercalate ts ++ [0x5D]) = false := by
    induction ts with
    | nil => rfl
    | cons t ts ih =>
      obtain ⟨ht, hts⟩ := List.forall_mem_cons.mp h
      cases ts with
      | nil =>
        rw [List.intercalate_singleton]
        exact hasDouble_append ht rfl (by decide)
      | cons t' ts =>
        rw [List.intercalate_cons_cons, List.append_assoc, List.append_assoc]
        exact hasDouble_append ht (ih hts) (by simp)
  exact hitems

end AgentCraft.Python
