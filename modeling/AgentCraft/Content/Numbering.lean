import AgentCraft.Content.Publication

/-!
# The numbers of revisions

An edit overwrites the latest revision if it is a draft, and adds one with the next number otherwise. It counts
with the lock of the entity, so that what it has counted stands until it commits. Every other operation leaves the
numbers alone and turns drafts into something else.
-/

namespace AgentCraft.Content

open AgentCraft.Relational AgentCraft.Transition

/-- The revisions of an entity have the numbers from 1 on; at most one of them is a draft, which is then the last
one. -/
structure Catalogue.RevisionsNumbered (w : Catalogue) (e : EntityId) : Prop where
  numbers : ((w.revisionsOf e).map (·.2.no)).Perm (List.range' 1 (w.revisionsOf e).length)
  drafts : (w.revisionsOf e).countP (fun x => x.2.status = .draft) ≤ 1
  latest : ∀ x ∈ w.revisionsOf e, x.2.status = .draft → ∀ y ∈ w.revisionsOf e, y.2.no ≤ x.2.no

/-! ## Numbered entries -/

/-- Entries that may be open have the numbers from 1 on, and only the last one is open. -/
structure Counted (p : List (ℕ × Bool)) : Prop where
  numbers : (p.map Prod.fst).Perm (List.range' 1 p.length)
  last : ∀ x ∈ p, x.2 = true → x.1 = p.length

/-- The same entries, some of which have been closed. -/
def Closes : List (ℕ × Bool) → List (ℕ × Bool) → Prop :=
  List.Forall₂ fun x y => y.1 = x.1 ∧ (y.2 = true → x.2 = true)

section Entries

variable {p p' : List (ℕ × Bool)}

theorem counted_nil : Counted [] := ⟨.refl _, fun _ hx => absurd hx List.not_mem_nil⟩

theorem Counted.le (h : Counted p) {x : ℕ × Bool} (hx : x ∈ p) : x.1 ≤ p.length := by
  have hmem := h.numbers.mem_iff.mp (List.mem_map_of_mem hx)
  rw [List.mem_range'_1] at hmem
  omega

theorem Counted.eq_of_number (h : Counted p) {x y : ℕ × Bool} (hx : x ∈ p) (hy : y ∈ p) (hxy : x.1 = y.1) :
    x = y := by
  have hnodup : (p.map Prod.fst).Nodup := h.numbers.nodup_iff.mpr List.nodup_range'
  exact List.inj_on_of_nodup_map hnodup hx hy hxy

/-- The last number is given out if any is. -/
theorem Counted.exists_last (h : Counted p) (hne : p ≠ []) : ∃ x ∈ p, x.1 = p.length := by
  have hpos : 0 < p.length := List.length_pos_iff.mpr hne
  have hmem : p.length ∈ p.map Prod.fst := by
    rw [h.numbers.mem_iff, List.mem_range'_1]
    omega
  obtain ⟨x, hx, hlast⟩ := List.mem_map.mp hmem
  exact ⟨x, hx, hlast⟩

theorem Closes.map_fst (h : Closes p p') : p'.map Prod.fst = p.map Prod.fst := by
  induction h with
  | nil => rfl
  | cons hxy _ ih => rw [List.map_cons, List.map_cons, hxy.1, ih]

theorem Closes.exists_of_mem (h : Closes p p') {y : ℕ × Bool} (hy : y ∈ p') :
    ∃ x ∈ p, y.1 = x.1 ∧ (y.2 = true → x.2 = true) := by
  induction h with
  | nil => cases hy
  | cons hxy _ ih =>
    rcases List.mem_cons.mp hy with rfl | hy
    · exact ⟨_, List.mem_cons_self, hxy⟩
    · obtain ⟨x, hx, hyx⟩ := ih hy
      exact ⟨x, List.mem_cons_of_mem _ hx, hyx⟩

theorem Counted.closes (h : Counted p) (hc : Closes p p') : Counted p' := by
  have hlength : p'.length = p.length := (List.Forall₂.length_eq hc).symm
  constructor
  · rw [hc.map_fst, hlength]
    exact h.numbers
  · intro y hy hopen
    obtain ⟨x, hx, hyx, hwas⟩ := hc.exists_of_mem hy
    rw [hyx, hlength]
    exact h.last x hx (hwas hopen)

/-- The next entry is open, and no other one. -/
theorem Counted.snoc (h : Counted p) (hclosed : ∀ x ∈ p, x.2 = false) :
    Counted (p ++ [(p.length + 1, true)]) := by
  have hlength : (p ++ [(p.length + 1, true)]).length = p.length + 1 := by simp
  constructor
  · rw [hlength, List.range'_concat, List.map_append]
    refine h.numbers.append (List.Perm.of_eq ?_)
    simp [Nat.add_comm]
  · intro x hx hopen
    rw [hlength]
    rcases List.mem_append.mp hx with hx | hx
    · rw [hclosed x hx] at hopen
      cases hopen
    · rw [List.mem_singleton.mp hx]

end Entries

/-! ## What a commit does to the numbers -/

/-- The numbers of the revisions of an entity; those of drafts are open. -/
def numbersIn (t : Table RevisionId Revision) (e : EntityId) : List (ℕ × Bool) :=
  (t.rows.filter (·.2.entity = e)).map fun x => (x.2.no, decide (x.2.status = .draft))

section Numbers

variable {C : Checks} {w w' : Catalogue} {write : Write} {e newEntity : EntityId} {t : Table RevisionId Revision}
  {rid newRevision : RevisionId}

/-- Rewriting revisions without opening them. -/
theorem numbersIn_map {f : RevisionId → Revision → Revision} (hentity : ∀ rid r, (f rid r).entity = r.entity)
    (hno : ∀ rid r, (f rid r).no = r.no)
    (hstatus : ∀ rid r, (f rid r).status = .draft → r.status = .draft) :
    Closes (numbersIn t e) (numbersIn (t.map f) e) := by
  have hrows : (t.map f).rows = t.rows.map fun x => (x.1, f x.1 x.2) := rfl
  unfold numbersIn
  rw [hrows]
  induction t.rows with
  | nil => exact .nil
  | cons x rows ih =>
    simp only [List.map_cons, List.filter_cons, hentity]
    split
    · refine .cons ⟨hno x.1 x.2, fun h => ?_⟩ ih
      exact decide_eq_true (hstatus x.1 x.2 (of_decide_eq_true h))
    · exact ih

theorem numbersIn_insert (h : t.get? rid = none) (r : Revision) :
    numbersIn (t.insert rid r) e =
      numbersIn t e ++ if r.entity = e then [(r.no, decide (r.status = .draft))] else [] := by
  have hrows : (t.insert rid r).rows = t.rows ++ [(rid, r)] := by
    unfold Table.insert
    rw [dif_neg (Table.get?_eq_none_iff.mp h)]
  unfold numbersIn
  rw [hrows, List.filter_append, List.map_append]
  congr 1
  by_cases he : r.entity = e <;> simp [he]

/-- The revisions of an entity go. -/
theorem numbersIn_filter (e' : EntityId) :
    numbersIn (t.filter fun _ r => r.entity ≠ e') e = if e = e' then [] else numbersIn t e := by
  unfold numbersIn Table.filter
  rw [List.filter_filter]
  split
  · next heq =>
    subst heq
    simp
  · next hne =>
    congr 1
    apply List.filter_congr
    intro x _
    by_cases hx : x.2.entity = e <;> simp [hx, hne]

theorem numbersIn_eq_nil (h : ∀ rid r, t.get? rid = some r → r.entity ≠ e) : numbersIn t e = [] := by
  unfold numbersIn
  rw [List.map_eq_nil_iff, List.filter_eq_nil_iff]
  intro x hx
  have hne := h x.1 x.2 (Table.get?_eq_some_iff.mpr hx)
  simpa using hne

/-- The drafts that a transaction is about to add, and what it has counted. -/
structure Catalogue.Numbered (w : Catalogue) : Prop where
  counted : ∀ e, Counted (numbersIn w.revisions e)
  planned : ∀ id call e kind owner no content,
    w.txs.get? id = some ⟨call, .ready (.newDraft e kind owner no content)⟩ →
      no = (numbersIn w.revisions e).length + 1 ∧ ∀ x ∈ numbersIn w.revisions e, x.2 = false

/-- What the commit of a write does to the numbers of an entity. -/
inductive Renumbers (C : Checks) (w : Catalogue) (write : Write) (e : EntityId) (p : List (ℕ × Bool)) : Prop
  | closes (h : Closes (numbersIn w.revisions e) p)
  | adds (no : ℕ) (hp : p = numbersIn w.revisions e ++ [(no, true)])
      (hwrite : (∃ kind owner content, write = .newDraft e kind owner no content) ∨
        (no = 1 ∧ numbersIn w.revisions e = [] ∧ e ∉ w.issued))
  | removes (hp : p = []) (hwrite : write = .delete e)

theorem closes_refl (p : List (ℕ × Bool)) : Closes p p := List.forall₂_same.mpr fun _ _ => ⟨rfl, id⟩

theorem Catalogue.Sound.renumbers (hw : w.Sound C) (hne : newEntity ∉ w.issued) (hnr : newRevision ∉ w.issued) :
    Renumbers C w write e (numbersIn (w.apply C newEntity newRevision write).revisions e) := by
  have hfree : w.revisions.get? newRevision = none := by
    by_contra hsome
    obtain ⟨r, hr⟩ := Option.ne_none_iff_exists'.mp hsome
    exact hnr (hw.revisionIssued _ _ hr)
  cases write with
  | create kind owner content =>
    show Renumbers C w _ e
      (numbersIn (w.revisions.insert newRevision (Catalogue.draft C kind newEntity owner 1 content)) e)
    rw [numbersIn_insert hfree]
    by_cases he : newEntity = e
    · subst he
      refine .adds 1 (by simp [Catalogue.draft]) (.inr ⟨rfl, numbersIn_eq_nil fun rid r hr hre => ?_, hne⟩)
      obtain ⟨row, hrow, -⟩ := hw.fits rid r hr
      exact hne (hre ▸ hw.entityIssued _ _ hrow)
    · rw [if_neg (show (Catalogue.draft C kind newEntity owner 1 content).entity ≠ e from he), List.append_nil]
      exact .closes (closes_refl _)
  | newDraft e' kind owner no content =>
    show Renumbers C w _ e
      (numbersIn (w.revisions.insert newRevision (Catalogue.draft C kind e' owner no content)) e)
    rw [numbersIn_insert hfree]
    by_cases he : e' = e
    · subst he
      exact .adds no (by simp [Catalogue.draft]) (.inl ⟨kind, owner, content, rfl⟩)
    · rw [if_neg (show (Catalogue.draft C kind e' owner no content).entity ≠ e from he), List.append_nil]
      exact .closes (closes_refl _)
  | delete e' =>
    show Renumbers C w _ e (numbersIn (w.revisions.filter fun _ r => r.entity ≠ e') e)
    rw [numbersIn_filter]
    split
    · next heq => exact .removes rfl (by rw [heq])
    · exact .closes (closes_refl _)
  | offline e' => exact .closes (closes_refl _)
  | unchanged e' => exact .closes (closes_refl _)
  | overwrite e' rid content =>
    refine .closes (numbersIn_map (fun rid' r => ?_) (fun rid' r => ?_) fun rid' r => ?_) <;> split <;> simp
  | submit e' rid tools =>
    refine .closes (numbersIn_map (fun rid' r => ?_) (fun rid' r => ?_) fun rid' r => ?_) <;> split <;> simp
  | reject e' rid =>
    refine .closes (numbersIn_map (fun rid' r => ?_) (fun rid' r => ?_) fun rid' r => ?_) <;> split <;> simp
  | approve e' rid previous =>
    refine .closes (numbersIn_map (fun rid' r => ?_) (fun rid' r => ?_) fun rid' r => ?_) <;> split <;>
      first | simp | (split <;> simp)
  | takedown e' rid =>
    refine .closes (numbersIn_map (fun rid' r => ?_) (fun rid' r => ?_) fun rid' r => ?_) <;> split <;> simp

end Numbers

/-! ## What an edit counts -/

section Edits

variable {C : Checks} {w w' : Catalogue} {e e' : EntityId} {a : CatalogueAction}

/-- The revision that `edit_entity` takes for the latest has the last number, and is the draft if there is one. -/
theorem Catalogue.editLocked_newDraft (hc : Counted (numbersIn w.revisions e)) {kind kind' : Kind}
    {user owner : UserId} {content content' : ContentJson} {no : ℕ}
    (h : w.editLocked kind user e content = .ok (.ready (.newDraft e' kind' owner no content'))) :
    e' = e ∧ no = (numbersIn w.revisions e).length + 1 ∧ ∀ x ∈ numbersIn w.revisions e, x.2 = false := by
  have hnos : (w.revisionsOf e).map (·.2.no) = (numbersIn w.revisions e).map Prod.fst := by
    simp [numbersIn, Catalogue.revisionsOf, Function.comp_def]
  obtain ⟨row, -, h⟩ := bind_eq_ok.mp h
  cases hlatest : (w.revisionsOf e).find? fun r => w.latestNo e = some r.2.no with
  | none =>
    simp only [hlatest] at h
    cases h
    have hempty : numbersIn w.revisions e = [] := by
      by_contra hne
      obtain ⟨x, hx, hlast⟩ := hc.exists_last hne
      have hmax : w.latestNo e = some x.1 := by
        rw [Catalogue.latestNo, hnos, List.max?_eq_some_iff]
        refine ⟨List.mem_map_of_mem hx, fun n hn => ?_⟩
        obtain ⟨y, hy, rfl⟩ := List.mem_map.mp hn
        rw [hlast]
        exact hc.le hy
      obtain ⟨r, hr, hrx⟩ := List.mem_map.mp hx
      apply List.find?_eq_none.mp hlatest r hr
      rw [hmax, ← hrx]
      simp
    rw [hempty]
    exact ⟨rfl, rfl, fun x hx => absurd hx List.not_mem_nil⟩
  | some x =>
    obtain ⟨rid, r⟩ := x
    simp only [hlatest] at h
    split at h
    · cases h
    · next hnot =>
      cases h
      have hmem : (r.no, decide (r.status = .draft)) ∈ numbersIn w.revisions e :=
        List.mem_map_of_mem (List.mem_of_find?_eq_some hlatest)
      have hmax : w.latestNo e = some r.no := by simpa using List.find?_some hlatest
      rw [Catalogue.latestNo, hnos, List.max?_eq_some_iff] at hmax
      have hno : r.no = (numbersIn w.revisions e).length := by
        obtain ⟨y, hy, hlast⟩ := hc.exists_last (List.ne_nil_of_mem hmem)
        have hle : r.no ≤ (numbersIn w.revisions e).length := hc.le hmem
        have hge := hmax.2 y.1 (List.mem_map_of_mem hy)
        omega
      refine ⟨rfl, by rw [hno], fun x hx => ?_⟩
      rw [← Bool.not_eq_true]
      intro hopen
      -- an open entry would have the last number too
      have heq := hc.eq_of_number hx hmem ((hc.last x hx hopen).trans hno.symm)
      rw [heq] at hopen
      exact hnot (of_decide_eq_true hopen)

/-- Only an edit adds a draft. -/
theorem Catalogue.lockedStage_newDraft (hc : Counted (numbersIn w.revisions e)) {call : Call} {kind : Kind}
    {owner : UserId} {no : ℕ} {content : ContentJson}
    (h : w.lockedStage C e call = .ok (.ready (.newDraft e' kind owner no content))) :
    e' = e ∧ no = (numbersIn w.revisions e).length + 1 ∧ ∀ x ∈ numbersIn w.revisions e, x.2 = false := by
  cases Catalogue.lockedStage_grants h with
  | newDraft no' hrow hkind => exact Catalogue.editLocked_newDraft hc h
  | offline hrow hwrite => rcases hwrite with hwrite | hwrite <;> cases hwrite

/-! ## Steps and runs -/

theorem Catalogue.Numbered.of_planned (hw : w.Numbered) (hr : w'.revisions = w.revisions)
    (htxs : ∀ id call e kind owner no content,
      w'.txs.get? id = some ⟨call, .ready (.newDraft e kind owner no content)⟩ →
        w.txs.get? id = some ⟨call, .ready (.newDraft e kind owner no content)⟩ ∨
          no = (numbersIn w.revisions e).length + 1 ∧ ∀ x ∈ numbersIn w.revisions e, x.2 = false) :
    w'.Numbered := by
  refine ⟨fun e => ?_, fun id call e kind owner no content htx => ?_⟩ <;> rw [hr]
  · exact hw.counted e
  · rcases htxs id call e kind owner no content htx with hold | hnew
    · exact hw.planned id call e kind owner no content hold
    · exact hnew

/-- A commit keeps the numbers, and what others have counted with a lock of theirs. -/
theorem Catalogue.Numbered.commit (hk : w.Kept C) (hw : w.Numbered) {id : TxId} {call : Call} {write : Write}
    {newEntity : EntityId} {newRevision : RevisionId} (htx : w.txs.get? id = some ⟨call, .ready write⟩)
    (hne : newEntity ∉ w.issued) (hnr : newRevision ∉ w.issued) :
    ((w.apply C newEntity newRevision write).close id).Numbered := by
  constructor
  · intro e
    show Counted (numbersIn (w.apply C newEntity newRevision write).revisions e)
    cases hk.sound.renumbers hne hnr with
    | closes h => exact (hw.counted e).closes h
    | adds no hp hwrite =>
      rw [hp]
      rcases hwrite with ⟨kind, owner, content, rfl⟩ | ⟨rfl, hnil, -⟩
      · obtain ⟨rfl, hclosed⟩ := hw.planned id call e kind owner no content htx
        exact (hw.counted e).snoc hclosed
      · rw [hnil]
        exact counted_nil.snoc fun x hx => absurd hx List.not_mem_nil
    | removes hp =>
      rw [hp]
      exact counted_nil
  · intro id' call' e kind owner no content hid'
    obtain ⟨hid', hother⟩ := Catalogue.get?_txs_commit hid'
    obtain ⟨hno, hclosed⟩ := hw.planned id' call' e kind owner no content hid'
    -- the other transaction has the lock of the entity, so this one cannot have it
    have hfree : write.entity? ≠ some e := fun h =>
      hother (hk.orderly.exclusive id' id _ _ e hid' htx rfl h)
    show no = (numbersIn (w.apply C newEntity newRevision write).revisions e).length + 1 ∧
      ∀ x ∈ numbersIn (w.apply C newEntity newRevision write).revisions e, x.2 = false
    cases hk.sound.renumbers hne hnr with
    | closes h =>
      refine ⟨?_, fun y hy => ?_⟩
      · rw [← List.Forall₂.length_eq h]
        exact hno
      · obtain ⟨x, hx, -, hopen⟩ := h.exists_of_mem hy
        rw [← Bool.not_eq_true]
        intro hy'
        have hx' := hopen hy'
        rw [hclosed x hx] at hx'
        cases hx'
    | adds no' hp hwrite =>
      rcases hwrite with ⟨kind', owner', content', rfl⟩ | ⟨-, -, hissued⟩
      · exact absurd rfl hfree
      · obtain ⟨row, hrow⟩ := hk.orderly.here id' _ e hid' rfl
        exact absurd (hk.sound.entityIssued e row hrow) hissued
    | removes hp hwrite =>
      rw [hwrite] at hfree
      exact absurd rfl hfree

theorem Catalogue.Numbered.step (hk : w.Kept C) (hw : w.Numbered) (h : w.step C a = .ok w') : w'.Numbered := by
  cases Catalogue.step_moves h with
  | begun call stage hfree hstage =>
    refine hw.of_planned rfl fun id' call' e kind owner no content htx => ?_
    rcases Table.get?_insert_cases htx with hold | ⟨-, heq⟩
    · exact .inl hold
    · cases heq
      rcases hstage with ⟨content', -, hstage⟩ | ⟨e', hstage, -⟩ <;> cases hstage
  | granted htx hfree hgrant =>
    rename_i id call e stage
    have hlocked : w.lockedStage C e call = .ok stage := by
      simp only [Catalogue.step, htx, hfree, Bool.false_eq_true, if_false] at h
      obtain ⟨stage', hstage', h⟩ := bind_eq_ok.mp h
      have hget := congrArg (fun x => x.txs.get? id) (Except.ok.inj h)
      simp only [Table.get?_set_self htx, Option.some.injEq, Tx.mk.injEq, true_and] at hget
      rw [← hget]
      exact mapError_eq_ok.mp hstage'
    refine hw.of_planned rfl fun id' call' e' kind owner no content htx' => ?_
    rcases Table.get?_set_cases htx' with hold | ⟨-, heq⟩
    · exact .inl hold
    · cases heq
      obtain ⟨rfl, hplan⟩ := Catalogue.lockedStage_newDraft (hw.counted e) hlocked
      exact .inr hplan
  | advanced htx hadvance =>
    rename_i id tx stage
    obtain ⟨call, stage₀⟩ := tx
    refine hw.of_planned rfl fun id' call' e kind owner no content htx' => ?_
    rcases Table.get?_set_cases htx' with hold | ⟨-, heq⟩
    · exact .inl hold
    · cases heq
      -- no statement after the lock adds a draft
      generalize hstage : Stage.ready (.newDraft e kind owner no content) = stage at hadvance
      cases hadvance <;> cases hstage
  | committed htx he hrid hne hfree => exact hw.commit hk htx he hrid
  | rolledBack =>
    refine hw.of_planned rfl fun id' call e kind owner no content htx => ?_
    rw [Catalogue.close, Table.get?_filter, Option.filter_eq_some_iff] at htx
    exact .inl htx.1
  | switched => exact hw.of_planned rfl fun _ _ _ _ _ _ _ htx => .inl htx
  | aside authors tasks _ => exact hw.of_planned rfl fun _ _ _ _ _ _ _ htx => .inl htx

/-- Counted revisions are numbered as they should be. -/
theorem Catalogue.revisionsNumbered_of_counted (hc : Counted (numbersIn w.revisions e)) :
    w.RevisionsNumbered e := by
  have hnos : (w.revisionsOf e).map (·.2.no) = (numbersIn w.revisions e).map Prod.fst := by
    simp [numbersIn, Catalogue.revisionsOf, Function.comp_def]
  have hlength : (numbersIn w.revisions e).length = (w.revisionsOf e).length := by
    simp [numbersIn, Catalogue.revisionsOf]
  have hmem (x) (hx : x ∈ w.revisionsOf e) :
      (x.2.no, decide (x.2.status = .draft)) ∈ numbersIn w.revisions e := List.mem_map_of_mem hx
  have hlast (x) (hx : x ∈ w.revisionsOf e) (hdraft : x.2.status = .draft) :
      x.2.no = (numbersIn w.revisions e).length := hc.last _ (hmem x hx) (decide_eq_true hdraft)
  refine ⟨?_, ?_, fun x hx hdraft y hy => ?_⟩
  · rw [hnos, ← hlength]
    exact hc.numbers
  · -- two drafts would both have the last number
    have hnodup : ((w.revisionsOf e).map (·.2.no)).Nodup := by
      rw [hnos]
      exact hc.numbers.nodup_iff.mpr List.nodup_range'
    have hle : (w.revisionsOf e).countP (fun x => x.2.status = .draft) ≤
        ((w.revisionsOf e).map (·.2.no)).count (numbersIn w.revisions e).length := by
      rw [List.count, List.countP_map]
      refine List.countP_mono_left fun x hx hdraft => ?_
      simpa using hlast x hx (of_decide_eq_true hdraft)
    exact hle.trans (List.nodup_iff_count_le_one.mp hnodup _)
  · rw [hlast x hx hdraft]
    exact hc.le (hmem y hy)

end Edits

/-- The revisions of every entity are numbered as they should be in every run. -/
theorem Catalogue.revisionsNumbered_of_run {C : Checks} {w₀ : Catalogue} (h₀ : w₀.Initial)
    (as : List CatalogueAction) (e : EntityId) : ((catalogue C).run w₀ as).RevisionsNumbered e := by
  have hinv : ((catalogue C).run w₀ as).Kept C ∧ ((catalogue C).run w₀ as).Numbered := by
    refine @System.invariant_run _ _ _ (catalogue C) (fun w => w.Kept C ∧ w.Numbered) ?_ _ as ⟨.initial h₀, ?_⟩
    · exact fun w a w' hw h => ⟨hw.1.step h, hw.2.step hw.1 h⟩
    · refine ⟨fun e => ?_, by simp [h₀.txs]⟩
      rw [numbersIn_eq_nil (by simp [h₀.revisions])]
      exact counted_nil
  exact Catalogue.revisionsNumbered_of_counted (hinv.2.counted e)

/-- A second revision of a skill waits for its review while two edits at the same time make a third. -/
def editDuringReview : List CatalogueAction :=
  publishSkill ++
    [.begin 0 (.editEntity .skill "a" 1 ⟨[("name", ["second"])], []⟩), .next 0, .lock 0, .commit 0 5 3,
      .begin 0 (.submitRevision .skill "a" 1 3 []), .lock 0, .commit 0 5 6,
      .begin 0 (.editEntity .skill "a" 1 ⟨[("name", ["third"])], []⟩),
      .begin 1 (.editEntity .skill "a" 1 ⟨[("name", ["fourth"])], []⟩), .next 0, .next 1, .lock 0, .lock 1,
      .commit 0 5 4, .lock 1, .commit 1 5 6]

theorem Catalogue.revisionsNumbered_of_run_edits :
    ((catalogue plainChecks).run emptyCatalogue editDuringReview).RevisionsNumbered 1 ∧
      (((catalogue plainChecks).run emptyCatalogue editDuringReview).revisionsOf 1).map
        (fun x => (x.2.no, x.2.status)) = [(1, .published), (2, .pendingReview), (3, .draft)] :=
  ⟨Catalogue.revisionsNumbered_of_run ⟨rfl, rfl, rfl⟩ _ 1, by decide +kernel⟩

end AgentCraft.Content
