import AgentCraft.Content.Publication

/-!
# What a published expert rests on

`approve_revision` checks the tools and the skill revisions of an expert one after the other and locks none of
them; a tool that is disabled, or a skill revision that is withdrawn, between the check and the commit is
missing when the expert is published. It is there whenever nobody takes away what an approval in progress
has checked.
-/

namespace AgentCraft.Content

open AgentCraft.Python AgentCraft.Relational AgentCraft.Transition

variable (C : Checks)

/-- The skill revision that a reference names is published. -/
def Catalogue.RefPublished (w : Catalogue) (ref : SkillRef) : Prop :=
  ∃ rid r, parseUuid C.unicode ref.revisionId = some rid ∧ w.revisions.get? rid = some r ∧
    r.kind = .skill ∧ r.status = .published

/-- The parts of a revision are there: its tools are enabled, and the skill revisions that it refers to are
published. -/
structure Catalogue.Complete (w : Catalogue) (r : Revision) : Prop where
  tools : ∀ t ∈ r.tools, w.toolCatalog.get? t = some true
  refs : ∀ ref ∈ r.content.skillRefs, w.RefPublished C ref

/-- An expert revision that becomes published with the step has all its parts. -/
def Catalogue.PublishesComplete (w : Catalogue) (a : CatalogueAction) : Prop :=
  ∀ w' rid r', w.step C a = .ok w' → (∀ r, w.revisions.get? rid = some r → r.status ≠ .published) →
    w'.revisions.get? rid = some r' → r'.status = .published → r'.kind = .expert → w'.Complete C r'

/-- The tools and the references that an approval has checked. -/
def Catalogue.relied (w : Catalogue) : Stage → List Tool × List SkillRef
  | .checking x => (x.checkedTools, x.checkedRefs)
  | .ready (.approve _ rid _) =>
    match (w.revisions.get? rid).filter (·.kind = .expert) with
    | some r => (r.tools, r.content.skillRefs)
    | none => ([], [])
  | _ => ([], [])

/-- The revision is no longer published when the write is visible. -/
def Catalogue.withdraws (w : Catalogue) (rid : RevisionId) : Write → Bool
  | .takedown _ rid' => rid' = rid
  | .approve _ _ previous => previous = some rid
  | .delete e => (w.revisions.get? rid).any (·.entity = e)
  | _ => false

/-- The revision is no longer published when the transaction has committed. -/
def Catalogue.withdrawnBy (w : Catalogue) (id : TxId) (rid : RevisionId) : Bool :=
  match w.txs.get? id with
  | some ⟨_, .ready write⟩ => w.withdraws rid write
  | _ => false

/-- No tool is disabled and no skill revision withdrawn that another transaction, an approval in progress, has
checked. -/
def Catalogue.Undisturbed (w : Catalogue) : CatalogueAction → Prop
  | .setToolEnabled tool false => ∀ x ∈ w.txs.rows, (w.relied x.2.stage).1.contains tool = false
  | .commit id _ _ => ∀ x ∈ w.txs.rows, x.1 ≠ id → ∀ ref ∈ (w.relied x.2.stage).2,
      ∀ rid ∈ parseUuid C.unicode ref.revisionId, w.withdrawnBy id rid = false
  | _ => True

instance (w : Catalogue) (a : CatalogueAction) : Decidable (w.Undisturbed C a) := by
  unfold Catalogue.Undisturbed
  split <;> infer_instance

/-! ## What an approval has checked -/

/-- The parts that an approval has checked are there, and the others are still to be checked. -/
structure Stage.Reliant (w : Catalogue) (stage : Stage) : Prop where
  tools : ∀ t ∈ (w.relied stage).1, w.toolCatalog.get? t = some true
  refs : ∀ ref ∈ (w.relied stage).2, w.RefPublished C ref
  left : ∀ x, stage = .checking x → ∀ r, w.revisions.get? x.revision = some r → r.kind = .expert →
    (∀ t ∈ r.tools, t ∈ x.checkedTools ∨ t ∈ x.tools) ∧
      ∀ ref ∈ r.content.skillRefs, ref ∈ x.checkedRefs ∨ ref ∈ x.refs

variable {C} {w w' : Catalogue} {a : CatalogueAction} {id : TxId} {call : Call} {stage stage' : Stage}
  {e : EntityId} {write : Write}

/-- A transaction that is not an approval relies on nothing. -/
theorem Stage.Reliant.of_other (hrelied : w.relied stage = ([], []))
    (hchecking : ∀ x, stage ≠ .checking x) : stage.Reliant C w where
  tools := by simp [hrelied]
  refs := by simp [hrelied]
  left x hx := absurd hx (hchecking x)

/-- An approval begins with all its parts unchecked. -/
theorem CatalogueGrant.reliant (h : CatalogueGrant C w e call stage)
    (haimed : ∀ kind rid, call.reviews? = some (kind, rid) →
      ∀ r, w.revisions.get? rid = some r → r.kind = kind) : stage.Reliant C w := by
  cases h with
  | checking hrow hr hpending =>
    rename_i kind rid row r
    refine ⟨by simp [Catalogue.relied], by simp [Catalogue.relied], fun x hx r' hr' hexpert => ?_⟩
    cases hx
    rw [hr] at hr'
    cases hr'
    have hkind : r.kind = kind := haimed kind rid rfl r hr
    rw [hexpert] at hkind
    subst hkind
    exact ⟨fun _ ht => .inr ht, fun _ href => .inr href⟩
  | offline hrow hwrite => rcases hwrite with rfl | rfl <;> exact .of_other rfl (by simp)
  | _ => exact .of_other rfl (by simp)

/-- A check moves one part from those that are left to those that have been checked. -/
theorem CatalogueAdvance.reliant (h : CatalogueAdvance C w call stage stage')
    (hr : stage.Reliant C w) : stage'.Reliant C w := by
  cases h with
  | tool henabled =>
    refine ⟨fun t ht => ?_, hr.refs, fun x hx r hrev hexpert => ?_⟩
    · rcases List.mem_cons.mp ht with rfl | ht
      · exact henabled
      · exact hr.tools t ht
    · cases hx
      obtain ⟨htools, hrefs⟩ := hr.left _ rfl r hrev hexpert
      refine ⟨fun t ht => ?_, hrefs⟩
      rcases htools t ht with hchecked | hleft
      · exact .inl (List.mem_cons_of_mem _ hchecked)
      · rcases List.mem_cons.mp hleft with rfl | hleft
        · exact .inl List.mem_cons_self
        · exact .inr hleft
  | ref hparse hs hkind hpublished =>
    refine ⟨hr.tools, fun ref href => ?_, fun x hx r hrev hexpert => ?_⟩
    · rcases List.mem_cons.mp href with rfl | href
      · exact ⟨_, _, hparse, hs, hkind, hpublished⟩
      · exact hr.refs ref href
    · cases hx
      obtain ⟨htools, hrefs⟩ := hr.left _ rfl r hrev hexpert
      refine ⟨htools, fun ref href => ?_⟩
      rcases hrefs ref href with hchecked | hleft
      · exact .inl (List.mem_cons_of_mem _ hchecked)
      · rcases List.mem_cons.mp hleft with rfl | hleft
        · exact .inl List.mem_cons_self
        · exact .inr hleft
  | approved hrow hprevious =>
    rename_i e rid previous checkedTools checkedRefs row
    -- Nothing is left: all the parts of the revision have been checked.
    cases hrev : (w.revisions.get? rid).filter (·.kind = .expert) with
    | none => exact .of_other (by simp only [Catalogue.relied, hrev]) (by simp)
    | some r =>
      obtain ⟨hget, hexpert⟩ := Option.filter_eq_some_iff.mp hrev
      obtain ⟨htools, hrefs⟩ := hr.left _ rfl r hget (of_decide_eq_true hexpert)
      have hrelied : w.relied (.ready (.approve e rid previous)) = (r.tools, r.content.skillRefs) := by
        simp only [Catalogue.relied, hrev]
      refine ⟨fun t ht => ?_, fun ref href => ?_, fun x hx => by cases hx⟩
      · rw [hrelied] at ht
        exact hr.tools t ((htools t ht).resolve_right (by simp))
      · rw [hrelied] at href
        exact hr.refs ref ((hrefs ref href).resolve_right (by simp))
  | _ => exact .of_other rfl (by simp)

/-- The revision that an approval is about is the same as before. -/
theorem Stage.Current.relied_eq (hc : stage.Current C w)
    (hu : ∀ e, stage.holds = some e → w.Untouched w' e) : w'.relied stage = w.relied stage := by
  cases stage with
  | ready write =>
    cases write with
    | approve e rid previous =>
      obtain ⟨-, r, hr, he, -⟩ := hc
      simp only [Catalogue.relied, hr, (hu e rfl).revision rid r hr he]
    | _ => rfl
  | _ => rfl

/-- An approval finds its parts as long as nobody has taken them away. -/
theorem Stage.Reliant.of_untouched (h : stage.Reliant C w) (hc : stage.Current C w)
    (hu : ∀ e, stage.holds = some e → w.Untouched w' e)
    (htools : ∀ t ∈ (w.relied stage).1, w.toolCatalog.get? t = some true → w'.toolCatalog.get? t = some true)
    (hrefs : ∀ ref ∈ (w.relied stage).2, w.RefPublished C ref → w'.RefPublished C ref) :
    stage.Reliant C w' where
  tools := by
    rw [hc.relied_eq hu]
    exact fun t ht => htools t ht (h.tools t ht)
  refs := by
    rw [hc.relied_eq hu]
    exact fun ref href => hrefs ref href (h.refs ref href)
  left := by
    rintro x rfl r' hr'
    obtain ⟨r, hr, he, -⟩ := hc
    rw [(hu _ rfl).revision _ r hr he] at hr'
    cases hr'
    exact h.left x rfl _ hr

/-! ## What a commit withdraws and publishes -/

variable {newEntity : EntityId} {newRevision rid : RevisionId} {r : Revision}

/-- A published revision stays published unless the write withdraws it. -/
theorem Catalogue.Sound.apply_published (hw : w.Sound C) (hc : write.Current C w)
    (hnew : newRevision ∉ w.issued) (hr : w.revisions.get? rid = some r) (hpub : r.status = .published)
    (hstays : w.withdraws rid write = false) :
    ∃ r', (w.apply C newEntity newRevision write).revisions.get? rid = some r' ∧ r'.kind = r.kind ∧
      r'.status = .published := by
  -- The revisions that are rewritten in place are not published.
  have hother : ∀ {rid₁ : RevisionId} {r₁ : Revision} (f : Revision → Revision),
      w.revisions.get? rid₁ = some r₁ → r₁.status ≠ .published →
      (w.setRevision rid₁ f).revisions.get? rid = some r := by
    intro rid₁ r₁ f hr₁ hstatus
    rw [Catalogue.setRevision, Table.get?_map, hr, Option.map_some, if_neg]
    rintro rfl
    rw [hr] at hr₁
    cases hr₁
    exact hstatus hpub
  cases write with
  | create kind owner content => exact ⟨r, hw.get?_insert hnew hr, rfl, hpub⟩
  | newDraft e kind owner no content => exact ⟨r, hw.get?_insert hnew hr, rfl, hpub⟩
  | overwrite e rid₁ content =>
    obtain ⟨r₁, hr₁, -, hdraft⟩ := hc
    exact ⟨r, hother _ hr₁ (by simp [hdraft]), rfl, hpub⟩
  | submit e rid₁ tools =>
    obtain ⟨r₁, hr₁, -, hdraft, -⟩ := hc
    exact ⟨r, hother _ hr₁ (by simp [hdraft]), rfl, hpub⟩
  | reject e rid₁ =>
    obtain ⟨r₁, hr₁, -, hpending⟩ := hc
    exact ⟨r, hother _ hr₁ (by simp [hpending]), rfl, hpub⟩
  | offline e => exact ⟨r, hr, rfl, hpub⟩
  | unchanged e => exact ⟨r, hr, rfl, hpub⟩
  | delete e =>
    refine ⟨r, ?_, rfl, hpub⟩
    change (w.revisions.filter _).get? rid = some r
    rw [Table.get?_filter, hr]
    have hentity : r.entity ≠ e := by simpa [Catalogue.withdraws, hr] using hstays
    simp [Option.filter, hentity]
  | approve e rid₁ previous =>
    change ∃ r', (w.revisions.map _).get? rid = some r' ∧ _
    rw [Table.get?_map, hr, Option.map_some]
    refine ⟨_, rfl, ?_⟩
    split
    · exact ⟨rfl, rfl⟩
    · rw [if_neg (by simpa [Catalogue.withdraws] using hstays)]
      exact ⟨rfl, hpub⟩
  | takedown e rid₁ =>
    refine ⟨r, ?_, rfl, hpub⟩
    change (w.revisions.map _).get? rid = some r
    rw [Table.get?_map, hr, Option.map_some, if_neg (by simpa [Catalogue.withdraws, eq_comm] using hstays)]

/-- Only an approval publishes, and it publishes the revision as it is. -/
theorem Catalogue.apply_publishes
    (hbefore : ∀ r, w.revisions.get? rid = some r → r.status ≠ .published)
    (hr : (w.apply C newEntity newRevision write).revisions.get? rid = some r)
    (hpub : r.status = .published) :
    ∃ e previous r₀, write = .approve e rid previous ∧ w.revisions.get? rid = some r₀ ∧
      r.kind = r₀.kind ∧ r.tools = r₀.tools ∧ r.content = r₀.content := by
  have hinsert : ∀ r₀ : Revision, r₀.status = .draft →
      (w.revisions.insert newRevision r₀).get? rid ≠ some r := by
    intro r₀ hdraft h
    rcases Table.get?_insert_cases h with h | ⟨-, rfl⟩
    · exact hbefore r h hpub
    · rw [hdraft] at hpub
      cases hpub
  have hrewrite : ∀ {rid₁ : RevisionId} (f : Revision → Revision), (∀ r, (f r).status ≠ .published) →
      (w.setRevision rid₁ f).revisions.get? rid ≠ some r := by
    intro rid₁ f hf h
    obtain ⟨r₀, hr₀, rfl⟩ := Catalogue.get?_setRevision h
    split at hpub
    · exact hf _ hpub
    · exact hbefore r₀ hr₀ hpub
  cases write with
  | create kind owner content => exact absurd hr (hinsert _ rfl)
  | newDraft e kind owner no content => exact absurd hr (hinsert _ rfl)
  | overwrite e rid₁ content =>
    obtain ⟨r₀, hr₀, rfl⟩ := Catalogue.get?_setRevision hr
    have hstatus := hbefore r₀ hr₀
    split at hpub
    · exact absurd hpub hstatus
    · exact absurd hpub hstatus
  | submit e rid₁ tools => exact absurd hr (hrewrite _ (by simp))
  | reject e rid₁ => exact absurd hr (hrewrite _ (by simp))
  | offline e => exact absurd hpub (hbefore r hr)
  | unchanged e => exact absurd hpub (hbefore r hr)
  | delete e =>
    change (w.revisions.filter _).get? rid = some r at hr
    rw [Table.get?_filter, Option.filter_eq_some_iff] at hr
    exact absurd hpub (hbefore r hr.1)
  | approve e rid₁ previous =>
    change (w.revisions.map _).get? rid = some r at hr
    rw [Table.get?_map, Option.map_eq_some_iff] at hr
    obtain ⟨r₀, hr₀, rfl⟩ := hr
    by_cases hid : rid = rid₁
    · subst hid
      simp only [if_true]
      exact ⟨e, previous, r₀, rfl, hr₀, rfl, rfl, rfl⟩
    · rw [if_neg hid] at hpub
      split at hpub
      · cases hpub
      · exact absurd hpub (hbefore r₀ hr₀)
  | takedown e rid₁ =>
    change (w.revisions.map _).get? rid = some r at hr
    rw [Table.get?_map, Option.map_eq_some_iff] at hr
    obtain ⟨r₀, hr₀, rfl⟩ := hr
    split at hpub
    · cases hpub
    · exact absurd hpub (hbefore r₀ hr₀)

/-! ## The invariant -/

/-- The tables and the transactions, and what approvals rely on. -/
structure Catalogue.Backed (C : Checks) (w : Catalogue) : Prop where
  kept : w.Kept C
  reliant : ∀ id tx, w.txs.get? id = some tx → tx.stage.Reliant C w

/-- What a reference names stays published through a commit that does not withdraw it. -/
theorem Catalogue.RefPublished.commit {ref : SkillRef} (h : w.RefPublished C ref) (hw : w.Sound C)
    (hc : write.Current C w) (hnew : newRevision ∉ w.issued)
    (hstays : ∀ rid ∈ parseUuid C.unicode ref.revisionId, w.withdraws rid write = false) :
    ((w.apply C newEntity newRevision write).close id).RefPublished C ref := by
  obtain ⟨rid, r, hparse, hr, hkind, hpub⟩ := h
  obtain ⟨r', hr', hkind', hpub'⟩ := hw.apply_published hc hnew hr hpub (hstays rid hparse)
  exact ⟨rid, r', hparse, hr', hkind'.trans hkind, hpub'⟩

/-- An approval does not withdraw a skill revision that the expert refers to: it replaces a revision of the
expert. -/
theorem Catalogue.Kept.approve_stays (hw : w.Kept C) {previous : Option RevisionId} {s : Revision}
    {srid : RevisionId} (hc : (Write.approve e rid previous).Current C w)
    (hr : w.revisions.get? rid = some r) (hexpert : r.kind = .expert)
    (hs : w.revisions.get? srid = some s) (hskill : s.kind = .skill) :
    w.withdraws srid (.approve e rid previous) = false := by
  obtain ⟨⟨row, hrow, rfl⟩, r₁, hr₁, he, -⟩ := hc
  rw [hr] at hr₁
  cases hr₁
  simp only [Catalogue.withdraws, decide_eq_false_iff_not]
  intro hpublished
  obtain ⟨s', hs', hes, -⟩ := hw.sound.pointer e row srid hrow hpublished
  rw [hs] at hs'
  cases hs'
  -- Both revisions have the kind of the entity.
  obtain ⟨row₁, hrow₁, hfits₁⟩ := hw.sound.fits rid r hr
  obtain ⟨row₂, hrow₂, hfits₂⟩ := hw.sound.fits srid s hs
  rw [he, hrow] at hrow₁
  rw [hes, hrow] at hrow₂
  cases hrow₁
  cases hrow₂
  have hkinds : r.kind = s.kind := hfits₁.kind.trans hfits₂.kind.symm
  rw [hexpert, hskill] at hkinds
  cases hkinds

/-- An approval that commits finds every part of its revision in place. -/
theorem Catalogue.Backed.publishesComplete (hw : w.Backed C) : w.PublishesComplete C a := by
  intro w' rid r' h hbefore hr' hpub hexpert
  cases Catalogue.step_moves h with
  | committed htx he hrid hne hfree =>
    rename_i id call write e newRevision
    obtain ⟨e', previous, r, rfl, hr, hkind, htools, hcontent⟩ := Catalogue.apply_publishes hbefore hr' hpub
    have hcurrent : (Write.approve e' rid previous).Current C w := hw.kept.orderly.current id _ htx
    rw [hkind] at hexpert
    have hreliant := hw.reliant id _ htx
    have hrelied : w.relied (.ready (.approve e' rid previous)) = (r.tools, r.content.skillRefs) := by
      simp [Catalogue.relied, hr, Option.filter, hexpert]
    constructor
    · intro t ht
      rw [htools] at ht
      refine hreliant.tools t ?_
      rw [hrelied]
      exact ht
    · intro ref href
      rw [hcontent] at href
      have hpublished : w.RefPublished C ref := by
        refine hreliant.refs ref ?_
        rw [hrelied]
        exact href
      refine hpublished.commit hw.kept.sound hcurrent hrid fun srid' hparse' => ?_
      obtain ⟨srid, s, hparse, hs, hskill, -⟩ := hpublished
      have hsame : srid' = srid := Option.some.inj (hparse'.symm.trans hparse)
      rw [hsame]
      exact hw.kept.approve_stays hcurrent hr hexpert hs hskill
  | _ => exact absurd hpub (hbefore r' hr')

theorem Catalogue.Backed.initial (h₀ : w.Initial) : w.Backed C :=
  ⟨.initial h₀, by simp [h₀.txs]⟩

/-- The tables stay. -/
theorem Stage.Reliant.of_same (h : stage.Reliant C w) (hc : stage.Current C w)
    (he : w'.entities = w.entities) (hr : w'.revisions = w.revisions)
    (ht : ∀ t ∈ (w.relied stage).1, w.toolCatalog.get? t = some true → w'.toolCatalog.get? t = some true) :
    stage.Reliant C w' := by
  refine h.of_untouched hc (fun e _ => ⟨congrArg (·.get? e) he, fun rid r hget _ => ?_⟩) ht ?_
  · rw [hr]
    exact hget
  · rintro ref - ⟨srid, s, hparse, hs, hkind, hpub⟩
    exact ⟨srid, s, hparse, by rw [hr]; exact hs, hkind, hpub⟩

/-- What the approvals rely on stays, as nobody disturbs them. -/
theorem Catalogue.Backed.step (hw : w.Backed C) (hguard : w.Undisturbed C a) (h : w.step C a = .ok w') :
    w'.Backed C := by
  refine ⟨hw.kept.step h, fun id tx hid => ?_⟩
  have hold : ∀ {w'' : Catalogue}, w''.entities = w.entities → w''.revisions = w.revisions →
      w''.toolCatalog = w.toolCatalog → w.txs.get? id = some tx → tx.stage.Reliant C w'' :=
    fun he hr ht hid => (hw.reliant id tx hid).of_same (hw.kept.orderly.current id tx hid) he hr
      fun t _ htool => by rw [ht]; exact htool
  cases Catalogue.step_moves h with
  | begun call stage hfree hstage =>
    rcases Table.get?_insert_cases hid with hid | ⟨rfl, rfl⟩
    · exact hold rfl rfl rfl hid
    · rcases hstage with ⟨content, -, rfl⟩ | ⟨e, rfl, -⟩ <;> exact .of_other rfl (by simp)
  | granted htx hfree hgrant =>
    rename_i id₁ call e stage
    rcases Table.get?_set_cases hid with hid | ⟨rfl, rfl⟩
    · exact hold rfl rfl rfl hid
    · have haimed := fun kind rid hreviews => (hw.kept.orderly.aimed id _ htx kind rid e hreviews rfl).2
      have hreads := hgrant.reads hw.kept.sound fun kind rid hreviews r hr => (haimed kind rid hreviews r hr).1
      exact (hgrant.reliant fun kind rid hreviews r hr => (haimed kind rid hreviews r hr).2).of_same
        hreads.current rfl rfl fun _ _ htool => htool
  | advanced htx hadvance =>
    rename_i id₁ tx₁ stage
    rcases Table.get?_set_cases hid with hid | ⟨rfl, rfl⟩
    · exact hold rfl rfl rfl hid
    · have hcurrent := (hadvance.current (hw.kept.orderly.current id _ htx)).2.1
      exact (hadvance.reliant (hw.reliant id _ htx)).of_same hcurrent rfl rfl fun _ _ htool => htool
  | committed htx he hrid hne hfree =>
    rename_i id₁ call write e newRevision
    obtain ⟨hid, hother⟩ := Catalogue.get?_txs_commit hid
    have htools : ((w.apply C e newRevision write).close id₁).toolCatalog = w.toolCatalog := by
      cases write <;> rfl
    refine (hw.reliant id tx hid).of_untouched (hw.kept.orderly.current id tx hid)
      (fun e' hholds => hw.kept.commit_untouched htx he hrid hid hother hholds)
      (fun t _ htool => by rw [htools]; exact htool) fun ref href hpublished => ?_
    refine hpublished.commit hw.kept.sound (hw.kept.orderly.current id₁ _ htx) hrid fun srid hparse => ?_
    have hwithdrawn := hguard (id, tx) (Table.get?_eq_some_iff.mp hid) hother ref href srid hparse
    simpa only [Catalogue.withdrawnBy, htx] using hwithdrawn
  | rolledBack =>
    rw [Catalogue.close, Table.get?_filter, Option.filter_eq_some_iff] at hid
    exact hold rfl rfl rfl hid.1
  | switched =>
    rename_i tool enabled
    refine (hw.reliant id tx hid).of_same (hw.kept.orderly.current id tx hid) rfl rfl fun t ht htool => ?_
    change (w.toolCatalog.set tool enabled).get? t = some true
    rw [Table.get?_set]
    cases enabled with
    | true => split <;> simp_all
    | false =>
      have hchecked := hguard (id, tx) (Table.get?_eq_some_iff.mp hid)
      rw [if_neg]
      · exact htool
      · rintro rfl
        rw [List.contains_iff_mem.mpr ht] at hchecked
        cases hchecked
  | aside authors tasks _ => exact hold rfl rfl rfl hid

variable {w₀ : Catalogue} {as : List CatalogueAction}

/-- A published expert rests on published skills and enabled tools, in every run in which nobody takes away
what an approval in progress has checked. -/
theorem Catalogue.publishesComplete_of_run (h₀ : w₀.Initial)
    (hguard : (catalogue C).Guarded (Catalogue.Undisturbed C) w₀ as) :
    (catalogue C).Guarded (Catalogue.PublishesComplete C) w₀ as :=
  System.Guarded.of_invariant (S := catalogue C) (I := Catalogue.Backed C)
    (fun _ _ _ hw hguard h => hw.step hguard h) (fun _ _ hw _ => hw.publishesComplete) (.initial h₀) hguard

/-- What a reference names can be looked up. -/
theorem Catalogue.RefPublished.any {ref : SkillRef} (h : w.RefPublished C ref) :
    (parseUuid C.unicode ref.revisionId).any fun rid =>
      (w.revisions.get? rid).any (·.status = .published) := by
  obtain ⟨rid, r, hparse, hr, -, hpub⟩ := h
  simp [hparse, hr, hpub]

/-- A step after which a revision is newly published has committed. -/
theorem Catalogue.PublishesComplete.complete (h : w.PublishesComplete C a) (rid : RevisionId)
    (r r' : Revision) (hr : w.revisions.get? rid = some r) (hbefore : r.status ≠ .published)
    (hr' : ((catalogue C).next w a).revisions.get? rid = some r') (hpub : r'.status = .published)
    (hexpert : r'.kind = .expert) : ((catalogue C).next w a).Complete C r' := by
  rcases System.next_cases (S := catalogue C) w a with hc | hsame
  · refine h _ rid r' hc (fun r₀ hr₀ => ?_) hr' hpub hexpert
    rw [hr] at hr₀
    cases hr₀
    exact hbefore
  · rw [hsame, hr] at hr'
    cases hr'
    exact absurd hpub hbefore

/-- An expert with the number 5 and its revision with the number 6, which refers to the published skill and
is submitted with a tool; a reviewer has the lock. -/
def reviewExpert : List CatalogueAction :=
  publishSkill ++
    [.begin 0 (.createEntity .expert "a" ⟨[("name", ["expert"])], [⟨formatUuid 1, formatUuid 2⟩]⟩),
      .next 0, .next 0, .commit 0 5 6,
      .begin 0 (.submitRevision .expert "a" 5 6 [("search", "1")]), .lock 0, .commit 0 7 8,
      .begin 0 (.approveRevision .expert 6), .lock 0]

/-- The revision of the expert before and after the approval. -/
def pendingExpert : Revision where
  kind := .expert
  entity := 5
  owner := "a"
  no := 1
  content := ⟨[("name", ["expert"])], [⟨formatUuid 1, formatUuid 2⟩]⟩
  sha := "nameexpert"
  status := .pendingReview
  tools := [("search", "1")]
  frozen := some "nameexpert"
  superseded := false

def publishedExpert : Revision := { pendingExpert with status := .published }

/-- The tool is disabled after the approval, and the skill taken down. -/
theorem Catalogue.publishesComplete_of_run_review :
    (catalogue plainChecks).Guarded (Catalogue.PublishesComplete plainChecks) emptyCatalogue
      (reviewExpert ++ [.next 0, .next 0, .next 0, .commit 0 7 8, .setToolEnabled ("search", "1") false,
        .begin 0 (.takedown .skill 2), .lock 0, .commit 0 7 8]) :=
  Catalogue.publishesComplete_of_run ⟨rfl, rfl, rfl⟩ (by decide +kernel)

/-- The tool is disabled, or the skill taken down, after the check and before the commit. -/
theorem Catalogue.not_publishesComplete_of_review :
    ¬ (catalogue plainChecks).Guarded (Catalogue.PublishesComplete plainChecks) emptyCatalogue
        (reviewExpert ++ [.next 0, .setToolEnabled ("search", "1") false, .next 0, .next 0] ++
          [.commit 0 7 8]) ∧
      ¬ (catalogue plainChecks).Guarded (Catalogue.PublishesComplete plainChecks) emptyCatalogue
        (reviewExpert ++ [.next 0, .next 0, .begin 1 (.takedown .skill 2), .lock 1, .commit 1 7 8, .next 0] ++
          [.commit 0 7 8]) := by
  constructor
  · intro h
    have hcommit := (System.Guarded.append.mp h).2.1
    have hcomplete := hcommit.complete 6 pendingExpert publishedExpert (by decide +kernel) (by decide)
      (by decide +kernel) rfl rfl
    have htool := hcomplete.tools ("search", "1") (by decide)
    revert htool
    decide +kernel
  · intro h
    have hcommit := (System.Guarded.append.mp h).2.1
    have hcomplete := hcommit.complete 6 pendingExpert publishedExpert (by decide +kernel) (by decide)
      (by decide +kernel) rfl rfl
    have href := (hcomplete.refs ⟨formatUuid 1, formatUuid 2⟩ (by decide)).any
    revert href
    decide +kernel

end AgentCraft.Content
