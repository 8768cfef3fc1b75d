import AgentCraft.Content.Steps

/-!
# What is published

Four services move entities, revisions and publication pointers. Each of them locks the entity before it
reads what it relies on, and the lock keeps these rows as they were read until the commit, so that at the
commit its writes still fit. What is published is therefore the one revision that the pointer names, with
the content that was checked and frozen when it was submitted.
-/

namespace AgentCraft.Content

open AgentCraft.Python AgentCraft.Relational AgentCraft.Transition

/-- What should hold of entities and revisions at any time. -/
structure Catalogue.Published (C : Checks) (w : Catalogue) : Prop where
  /-- At most one revision of an entity is published. -/
  unique : ∀ rid rid' r r', w.revisions.get? rid = some r → w.revisions.get? rid' = some r' →
    r.status = .published → r'.status = .published → r.entity = r'.entity → rid = rid'
  /-- The pointer names a published revision of the entity. -/
  pointer : ∀ e row rid, w.entities.get? e = some row → row.published = some rid →
    ∃ r, w.revisions.get? rid = some r ∧ r.entity = e ∧ r.kind = row.kind ∧ r.status = .published
  /-- A published entity has a pointer. -/
  listed : ∀ e row, w.entities.get? e = some row → row.status = .published → row.published ≠ none
  /-- A revision that an approval has superseded is archived. -/
  superseded : ∀ rid r, w.revisions.get? rid = some r → r.superseded = true → r.status = .archived
  /-- The content of a published revision is the one that was checked and frozen. -/
  frozen : ∀ rid r, w.revisions.get? rid = some r → r.status = .published →
    r.frozen = some (C.contentSha256 r.content) ∧ C.runAutoCheck r.kind r.content = none

/-! ## What the rows rely on -/

/-- A revision fits the row of its entity. -/
structure Revision.Fits (C : Checks) (rid : RevisionId) (r : Revision) (row : Entity) : Prop where
  kind : r.kind = row.kind
  pointed : r.status = .published → row.published = some rid
  superseded : r.superseded = true → r.status = .archived
  hashed : C.contentSha256 r.content = r.sha
  frozen : r.status ≠ .draft → r.frozen = some r.sha ∧ C.runAutoCheck r.kind r.content = none

/-- The invariant of the tables. -/
structure Catalogue.Sound (C : Checks) (w : Catalogue) : Prop where
  entityIssued : ∀ e row, w.entities.get? e = some row → e ∈ w.issued
  revisionIssued : ∀ rid r, w.revisions.get? rid = some r → rid ∈ w.issued
  fits : ∀ rid r, w.revisions.get? rid = some r →
    ∃ row, w.entities.get? r.entity = some row ∧ r.Fits C rid row
  pointer : ∀ e row rid, w.entities.get? e = some row → row.published = some rid →
    ∃ r, w.revisions.get? rid = some r ∧ r.entity = e ∧ r.status = .published
  listed : ∀ e row, w.entities.get? e = some row → row.status = .published → row.published ≠ none

/-- What a transaction has read still stands. -/
def Write.Current (C : Checks) (w : Catalogue) : Write → Prop
  | .overwrite e rid _ => ∃ r, w.revisions.get? rid = some r ∧ r.entity = e ∧ r.status = .draft
  | .newDraft e kind _ _ _ => ∃ row, w.entities.get? e = some row ∧ row.kind = kind
  | .submit e rid _ => ∃ r, w.revisions.get? rid = some r ∧ r.entity = e ∧ r.status = .draft ∧
      C.runAutoCheck r.kind r.content = none
  | .approve e rid previous => (∃ row, w.entities.get? e = some row ∧ row.published = previous) ∧
      ∃ r, w.revisions.get? rid = some r ∧ r.entity = e ∧ r.status = .pendingReview
  | .reject e rid => ∃ r, w.revisions.get? rid = some r ∧ r.entity = e ∧ r.status = .pendingReview
  | .takedown e rid => ∃ row, w.entities.get? e = some row ∧ row.published = some rid
  | _ => True

/-- What an approval or a transaction at its end has read still stands. -/
def Stage.Current (C : Checks) (w : Catalogue) : Stage → Prop
  | .checking x => ∃ r, w.revisions.get? x.revision = some r ∧ r.entity = x.entity ∧
      r.status = .pendingReview
  | .ready write => write.Current C w
  | _ => True

/-- A reviewer waits for the entity of his revision. -/
def Tx.Aimed (w : Catalogue) (tx : Tx) : Prop :=
  ∀ kind rid e, tx.call.reviews? = some (kind, rid) → tx.stage = .locking e →
    rid ∈ w.issued ∧ ∀ r, w.revisions.get? rid = some r → r.entity = e ∧ r.kind = kind

/-- The invariant of the transactions: no two hold the same lock, and what they have read stands. -/
structure Catalogue.Orderly (C : Checks) (w : Catalogue) : Prop where
  exclusive : ∀ id id' tx tx' e, w.txs.get? id = some tx → w.txs.get? id' = some tx' →
    tx.stage.holds = some e → tx'.stage.holds = some e → id = id'
  current : ∀ id tx, w.txs.get? id = some tx → tx.stage.Current C w
  here : ∀ id tx e, w.txs.get? id = some tx → tx.stage.holds = some e →
    ∃ row, w.entities.get? e = some row
  aimed : ∀ id tx, w.txs.get? id = some tx → tx.Aimed w

/-! ## What a transaction reads -/

section Reads

variable {C : Checks} {w : Catalogue} {e : EntityId} {call : Call} {stage stage' : Stage}

/-- A transaction has the lock of the entity, which is there, and what it has read stands. -/
structure Stage.Reads (C : Checks) (w : Catalogue) (e : EntityId) (stage : Stage) : Prop where
  holds : stage.holds = some e
  here : ∃ row, w.entities.get? e = some row
  current : stage.Current C w

/-- With the lock, a transaction reads what stands. -/
theorem CatalogueGrant.reads (h : CatalogueGrant C w e call stage) (hw : w.Sound C)
    (haimed : ∀ kind rid, call.reviews? = some (kind, rid) →
      ∀ r, w.revisions.get? rid = some r → r.entity = e) : stage.Reads C w e := by
  cases h with
  | overwrite hrow hkind hr he hdraft => exact ⟨rfl, ⟨_, hrow⟩, _, hr, he, hdraft⟩
  | newDraft no hrow hkind => exact ⟨rfl, ⟨_, hrow⟩, _, hrow, hkind⟩
  | submit hrow hkind hr he hdraft hcheck =>
    -- The kind that is checked is the one of the revision.
    obtain ⟨row', hrow', hfits⟩ := hw.fits _ _ hr
    rw [he, hrow] at hrow'
    cases hrow'
    refine ⟨rfl, ⟨_, hrow⟩, _, hr, he, hdraft, ?_⟩
    rw [hfits.kind, hkind]
    exact hcheck
  | offline hrow hwrite => rcases hwrite with rfl | rfl <;> exact ⟨rfl, ⟨_, hrow⟩, trivial⟩
  | counting hrow hkind => exact ⟨rfl, ⟨_, hrow⟩, trivial⟩
  | checking hrow hr hpending => exact ⟨rfl, ⟨_, hrow⟩, _, hr, haimed _ _ rfl _ hr, hpending⟩
  | reject hrow hr hpending => exact ⟨rfl, ⟨_, hrow⟩, _, hr, haimed _ _ rfl _ hr, hpending⟩
  | takedown hrow hpublished => exact ⟨rfl, ⟨_, hrow⟩, _, hrow, hpublished⟩

/-- A statement takes no new lock, and what has been read still stands after it. -/
theorem CatalogueAdvance.current (h : CatalogueAdvance C w call stage stage') (hstage : stage.Current C w) :
    (stage'.holds = none ∨ stage'.holds = stage.holds) ∧ stage'.Current C w ∧
      (∀ e, stage' = .locking e → call.reviews? = none) := by
  cases h with
  | validated hcontent hvalid => exact ⟨.inl rfl, trivial, fun e he => by cases he⟩
  | created => exact ⟨.inl rfl, trivial, fun e he => by cases he⟩
  | waits => exact ⟨.inl rfl, trivial, fun _ _ => rfl⟩
  | tool henabled => exact ⟨.inr rfl, hstage, fun e he => by cases he⟩
  | ref hparse hs hkind hpublished => exact ⟨.inr rfl, hstage, fun e he => by cases he⟩
  | approved hrow hprevious => exact ⟨.inr rfl, ⟨⟨_, hrow, hprevious⟩, hstage⟩, fun e he => by cases he⟩
  | counted hcount => exact ⟨.inr rfl, trivial, fun e he => by cases he⟩

end Reads

/-! ## What a commit writes -/

section Writes

variable {C : Checks} {w : Catalogue} {write : Write} {e newEntity : EntityId}
  {rid newRevision : RevisionId} {r : Revision}

theorem Catalogue.get?_setRevision {f : Revision → Revision} {rid' : RevisionId} {r' : Revision}
    (h : (w.setRevision rid f).revisions.get? rid' = some r') :
    ∃ r, w.revisions.get? rid' = some r ∧ r' = if rid' = rid then f r else r := by
  rw [Catalogue.setRevision, Table.get?_map, Option.map_eq_some_iff] at h
  obtain ⟨r, hr, rfl⟩ := h
  exact ⟨r, hr, rfl⟩

theorem Catalogue.get?_setEntity {f : Entity → Entity} {e' : EntityId} {row' : Entity}
    (h : (w.setEntity e f).entities.get? e' = some row') :
    ∃ row, w.entities.get? e' = some row ∧ row' = if e' = e then f row else row := by
  rw [Catalogue.setEntity, Table.get?_map, Option.map_eq_some_iff] at h
  obtain ⟨row, hrow, rfl⟩ := h
  exact ⟨row, hrow, rfl⟩

/-- The identities that were given out stay with their revisions. -/
theorem Catalogue.apply_persist (hrid : rid ∈ w.issued) (hnew : newRevision ∉ w.issued)
    (h : (w.apply C newEntity newRevision write).revisions.get? rid = some r) :
    ∃ r₀, w.revisions.get? rid = some r₀ ∧ r.entity = r₀.entity ∧ r.kind = r₀.kind := by
  have hinsert : ∀ r', (w.revisions.insert newRevision r').get? rid = some r →
      w.revisions.get? rid = some r := by
    intro r' hr
    rcases Table.get?_insert_cases hr with hr | ⟨rfl, -⟩
    · exact hr
    · exact absurd hrid hnew
  cases write with
  | create kind owner content => exact ⟨r, hinsert _ h, rfl, rfl⟩
  | newDraft e kind owner no content => exact ⟨r, hinsert _ h, rfl, rfl⟩
  | overwrite e rid' content =>
    obtain ⟨r₀, hr₀, rfl⟩ := Catalogue.get?_setRevision h
    refine ⟨r₀, hr₀, ?_⟩
    split <;> exact ⟨rfl, rfl⟩
  | submit e rid' tools =>
    obtain ⟨r₀, hr₀, rfl⟩ := Catalogue.get?_setRevision h
    refine ⟨r₀, hr₀, ?_⟩
    split <;> exact ⟨rfl, rfl⟩
  | reject e rid' =>
    obtain ⟨r₀, hr₀, rfl⟩ := Catalogue.get?_setRevision h
    refine ⟨r₀, hr₀, ?_⟩
    split <;> exact ⟨rfl, rfl⟩
  | offline e => exact ⟨r, h, rfl, rfl⟩
  | unchanged e => exact ⟨r, h, rfl, rfl⟩
  | delete e =>
    change (w.revisions.filter _).get? rid = some r at h
    rw [Table.get?_filter, Option.filter_eq_some_iff] at h
    exact ⟨r, h.1, rfl, rfl⟩
  | approve e rid' previous =>
    change (w.revisions.map _).get? rid = some r at h
    rw [Table.get?_map, Option.map_eq_some_iff] at h
    obtain ⟨r₀, hr₀, rfl⟩ := h
    refine ⟨r₀, hr₀, ?_⟩
    split
    · exact ⟨rfl, rfl⟩
    · split <;> exact ⟨rfl, rfl⟩
  | takedown e rid' =>
    change (w.revisions.map _).get? rid = some r at h
    rw [Table.get?_map, Option.map_eq_some_iff] at h
    obtain ⟨r₀, hr₀, rfl⟩ := h
    refine ⟨r₀, hr₀, ?_⟩
    split <;> exact ⟨rfl, rfl⟩

/-- The rows of an entity are as before. -/
structure Catalogue.Untouched (w w' : Catalogue) (e : EntityId) : Prop where
  entity : w'.entities.get? e = w.entities.get? e
  revision : ∀ rid r, w.revisions.get? rid = some r → r.entity = e → w'.revisions.get? rid = some r

theorem Catalogue.setRevision_untouched {f : Revision → Revision} (hr : w.revisions.get? rid = some r)
    (he : r.entity ≠ e) : w.Untouched (w.setRevision rid f) e := by
  refine ⟨rfl, fun rid' r' hr' he' => ?_⟩
  rw [Catalogue.setRevision, Table.get?_map, hr', Option.map_some, if_neg]
  rintro rfl
  rw [hr] at hr'
  cases hr'
  exact he he'

theorem Catalogue.setEntity_get?_ne {f : Entity → Entity} {e' : EntityId} (he : e' ≠ e) :
    (w.setEntity e f).entities.get? e' = w.entities.get? e' := by
  rw [Catalogue.setEntity, Table.get?_map]
  simp [he]

/-- A revision is still there after a new one is inserted. -/
theorem Catalogue.Sound.get?_insert (hw : w.Sound C) (hnew : newRevision ∉ w.issued) {r₀ : Revision}
    (hr : w.revisions.get? rid = some r) : (w.revisions.insert newRevision r₀).get? rid = some r := by
  have hfree : w.revisions.get? newRevision = none := by
    by_contra hsome
    obtain ⟨r₁, hr₁⟩ := Option.ne_none_iff_exists'.mp hsome
    exact hnew (hw.revisionIssued _ _ hr₁)
  rw [Table.get?_insert hfree, if_neg]
  · exact hr
  · rintro rfl
    rw [hfree] at hr
    cases hr

/-- A commit writes only what its transaction has locked, and new rows. -/
theorem Catalogue.Sound.apply_untouched (hw : w.Sound C) (hc : write.Current C w)
    (he : write.entity? ≠ some e) (hissued : e ∈ w.issued) (hne : newEntity ∉ w.issued)
    (hnr : newRevision ∉ w.issued) : w.Untouched (w.apply C newEntity newRevision write) e := by
  cases write with
  | create kind owner content =>
    refine ⟨?_, fun rid r hr _ => hw.get?_insert hnr hr⟩
    change (w.entities.insert newEntity _).get? e = _
    have hfree : w.entities.get? newEntity = none := by
      by_contra hsome
      obtain ⟨row, hrow⟩ := Option.ne_none_iff_exists'.mp hsome
      exact hne (hw.entityIssued _ _ hrow)
    rw [Table.get?_insert hfree, if_neg]
    rintro rfl
    exact hne hissued
  | newDraft e' kind owner no content => exact ⟨rfl, fun rid r hr _ => hw.get?_insert hnr hr⟩
  | overwrite e' rid content =>
    obtain ⟨r, hr, rfl, -⟩ := hc
    exact Catalogue.setRevision_untouched hr fun h => he (congrArg some h)
  | submit e' rid tools =>
    obtain ⟨r, hr, rfl, -⟩ := hc
    exact Catalogue.setRevision_untouched hr fun h => he (congrArg some h)
  | reject e' rid =>
    obtain ⟨r, hr, rfl, -⟩ := hc
    exact Catalogue.setRevision_untouched hr fun h => he (congrArg some h)
  | offline e' => exact ⟨Catalogue.setEntity_get?_ne fun h => he (congrArg some h.symm), fun _ _ hr _ => hr⟩
  | unchanged e' => exact ⟨rfl, fun _ _ hr _ => hr⟩
  | delete e' =>
    have hne' : e ≠ e' := fun h => he (congrArg some h.symm)
    constructor
    · change (w.entities.filter _).get? e = _
      rw [Table.get?_filter]
      cases w.entities.get? e with
      | none => rfl
      | some row => simp [Option.filter, hne']
    · intro rid r hr hre
      change (w.revisions.filter _).get? rid = _
      rw [Table.get?_filter, hr]
      simp [Option.filter, hre, hne']
  | approve e' rid previous =>
    obtain ⟨⟨row, hrow, hprevious⟩, r, hr, rfl, -⟩ := hc
    refine ⟨Catalogue.setEntity_get?_ne fun h => he (congrArg some h.symm), fun rid' r' hr' hre => ?_⟩
    change (w.revisions.map _).get? rid' = _
    rw [Table.get?_map, hr', Option.map_some, if_neg, if_neg]
    · intro hp
      obtain ⟨r₀, hr₀, he₀, -⟩ := hw.pointer _ row rid' hrow (hprevious.trans hp)
      rw [hr'] at hr₀
      cases hr₀
      exact he (congrArg some (he₀.symm.trans hre))
    · rintro rfl
      rw [hr] at hr'
      cases hr'
      exact he (congrArg some hre)
  | takedown e' rid =>
    obtain ⟨row, hrow, hpublished⟩ := hc
    obtain ⟨r, hr, hre, -⟩ := hw.pointer _ row rid hrow hpublished
    refine ⟨Catalogue.setEntity_get?_ne fun h => he (congrArg some h.symm), fun rid' r' hr' hre' => ?_⟩
    change (w.revisions.map _).get? rid' = _
    rw [Table.get?_map, hr', Option.map_some, if_neg]
    rintro rfl
    rw [hr] at hr'
    cases hr'
    exact he (congrArg some (hre.symm.trans hre'))

/-- What a transaction has read stands as long as the rows of its entity are as before. -/
theorem Stage.Current.of_untouched {stage : Stage} {w' : Catalogue} (hc : stage.Current C w)
    (hu : ∀ e, stage.holds = some e → w.Untouched w' e) : stage.Current C w' := by
  cases stage with
  | checking x =>
    obtain ⟨r, hr, he, hpending⟩ := hc
    exact ⟨r, (hu _ rfl).revision _ r hr he, he, hpending⟩
  | ready write =>
    cases write with
    | overwrite e rid content =>
      obtain ⟨r, hr, he, hdraft⟩ := hc
      exact ⟨r, (hu _ rfl).revision _ r hr he, he, hdraft⟩
    | newDraft e kind owner no content =>
      obtain ⟨row, hrow, hkind⟩ := hc
      exact ⟨row, (hu _ rfl).entity.trans hrow, hkind⟩
    | submit e rid tools =>
      obtain ⟨r, hr, he, hdraft⟩ := hc
      exact ⟨r, (hu _ rfl).revision _ r hr he, he, hdraft⟩
    | approve e rid previous =>
      obtain ⟨⟨row, hrow, hprevious⟩, r, hr, he, hpending⟩ := hc
      exact ⟨⟨row, (hu _ rfl).entity.trans hrow, hprevious⟩, r, (hu _ rfl).revision _ r hr he, he, hpending⟩
    | reject e rid =>
      obtain ⟨r, hr, he, hpending⟩ := hc
      exact ⟨r, (hu _ rfl).revision _ r hr he, he, hpending⟩
    | takedown e rid =>
      obtain ⟨row, hrow, hpublished⟩ := hc
      exact ⟨row, (hu _ rfl).entity.trans hrow, hpublished⟩
    | _ => trivial
  | _ => trivial

/-! ## The tables -/

/-- The row of one entity is rewritten, and the revisions of this entity with it. -/
theorem Catalogue.Sound.rewrite (hw : w.Sound C) {g : Entity → Entity}
    {f : RevisionId → Revision → Revision} {row : Entity} (hrow : w.entities.get? e = some row)
    (hf : ∀ rid r, w.revisions.get? rid = some r → r.entity ≠ e → f rid r = r)
    (hfits : ∀ rid r, w.revisions.get? rid = some r → r.entity = e → r.Fits C rid row →
      (f rid r).entity = e ∧ (f rid r).Fits C rid (g row))
    (hpointer : ∀ rid, (g row).published = some rid →
      ∃ r, w.revisions.get? rid = some r ∧ r.entity = e ∧ (f rid r).status = .published)
    (hlisted : (g row).status = .published → (g row).published ≠ none) :
    ({ w.setEntity e g with revisions := w.revisions.map f } : Catalogue).Sound C := by
  -- An entity afterwards is the rewritten one or another one.
  have hentity : ∀ e' row', (w.setEntity e g).entities.get? e' = some row' →
      e' = e ∧ row' = g row ∨ e' ≠ e ∧ w.entities.get? e' = some row' := by
    intro e' row' he'
    obtain ⟨row₀, hrow₀, rfl⟩ := Catalogue.get?_setEntity he'
    by_cases he : e' = e
    · rw [he, hrow] at hrow₀
      cases hrow₀
      exact .inl ⟨he, if_pos he⟩
    · rw [if_neg he]
      exact .inr ⟨he, hrow₀⟩
  have hself : (w.setEntity e g).entities.get? e = some (g row) := by
    rw [Catalogue.setEntity, Table.get?_map, hrow, Option.map_some, if_pos rfl]
  have hrevision : ∀ rid r', (w.revisions.map f).get? rid = some r' →
      ∃ r, w.revisions.get? rid = some r ∧ r' = f rid r := by
    intro rid r' hr'
    rw [Table.get?_map, Option.map_eq_some_iff] at hr'
    obtain ⟨r, hr, rfl⟩ := hr'
    exact ⟨r, hr, rfl⟩
  constructor
  · intro e' row' he'
    obtain ⟨rfl, -⟩ | ⟨-, he'⟩ := hentity e' row' he'
    · exact hw.entityIssued _ _ hrow
    · exact hw.entityIssued _ _ he'
  · intro rid r' hr'
    obtain ⟨r, hr, -⟩ := hrevision rid r' hr'
    exact hw.revisionIssued _ _ hr
  · intro rid r' hr'
    obtain ⟨r, hr, rfl⟩ := hrevision rid r' hr'
    obtain ⟨row₀, hrow₀, hfits₀⟩ := hw.fits _ _ hr
    by_cases he : r.entity = e
    · rw [he, hrow] at hrow₀
      cases hrow₀
      obtain ⟨hparent, hfits'⟩ := hfits rid r hr he hfits₀
      exact ⟨g row, hparent ▸ hself, hfits'⟩
    · rw [hf rid r hr he]
      exact ⟨row₀, (Catalogue.setEntity_get?_ne he).trans hrow₀, hfits₀⟩
  · intro e' row' rid he' hpublished
    obtain ⟨rfl, rfl⟩ | ⟨hne, he'⟩ := hentity e' row' he'
    · obtain ⟨r, hr, hre, hpub⟩ := hpointer rid hpublished
      refine ⟨f rid r, ?_, ?_, hpub⟩
      · change (w.revisions.map f).get? rid = _
        rw [Table.get?_map, hr, Option.map_some]
      · obtain ⟨row₀, hrow₀, hfits₀⟩ := hw.fits _ _ hr
        rw [hre, hrow] at hrow₀
        cases hrow₀
        exact (hfits rid r hr hre hfits₀).1
    · obtain ⟨r, hr, hre, hpub⟩ := hw.pointer _ _ _ he' hpublished
      refine ⟨r, ?_, hre, hpub⟩
      change (w.revisions.map f).get? rid = _
      rw [Table.get?_map, hr, Option.map_some, hf rid r hr fun h => hne (hre.symm.trans h)]
  · intro e' row' he' hstatus
    obtain ⟨-, rfl⟩ | ⟨-, he'⟩ := hentity e' row' he'
    · exact hlisted hstatus
    · exact hw.listed _ _ he' hstatus

/-- One revision of an entity is rewritten that is not published, before or after. -/
theorem Catalogue.Sound.setRevision (hw : w.Sound C) {f : Revision → Revision}
    (hr : w.revisions.get? rid = some r) (hstatus : r.status ≠ .published)
    (hparent : (f r).entity = r.entity)
    (hfits : ∀ row, r.Fits C rid row → (f r).Fits C rid row) : (w.setRevision rid f).Sound C := by
  obtain ⟨row, hrow, -⟩ := hw.fits rid r hr
  have hsame : w.setRevision rid f = { w.setEntity r.entity id with
      revisions := w.revisions.map fun rid' r' => if rid' = rid then f r' else r' } := by
    have hid : (fun (e' : EntityId) (row : Entity) => if e' = r.entity then id row else row) =
        fun _ row => row := by
      funext e' row
      split <;> rfl
    rw [Catalogue.setRevision, Catalogue.setEntity, hid]
    simp [Table.map]
  rw [hsame]
  refine hw.rewrite hrow ?_ ?_ ?_ (hw.listed _ _ hrow)
  · intro rid' r' hr' hne
    refine if_neg ?_
    rintro rfl
    rw [hr] at hr'
    cases hr'
    exact hne rfl
  · intro rid' r' hr' hre hold
    split
    · next hid =>
      rw [hid, hr] at hr'
      cases hr'
      rw [hid] at hold ⊢
      exact ⟨hparent, hfits row hold⟩
    · exact ⟨hre, hold⟩
  · intro rid' hpublished
    obtain ⟨r', hr', hre, hpub⟩ := hw.pointer _ _ _ hrow hpublished
    refine ⟨r', hr', hre, ?_⟩
    rw [if_neg]
    · exact hpub
    · rintro rfl
      rw [hr] at hr'
      cases hr'
      exact hstatus hpub

/-- A new draft of an entity. -/
theorem Catalogue.Sound.insertDraft (hw : w.Sound C) (hnew : newRevision ∉ w.issued) {row : Entity}
    (hrow : w.entities.get? e = some row) (owner : UserId) (no : ℕ) (content : ContentJson) :
    ({ w with
      revisions := w.revisions.insert newRevision (draft C row.kind e owner no content)
      issued := newRevision :: w.issued } : Catalogue).Sound C := by
  have hfree : w.revisions.get? newRevision = none := by
    by_contra hsome
    obtain ⟨r, hr⟩ := Option.ne_none_iff_exists'.mp hsome
    exact hnew (hw.revisionIssued _ _ hr)
  constructor
  · intro e' row' he'
    exact List.mem_cons_of_mem _ (hw.entityIssued e' row' he')
  · intro rid r hr
    rcases Table.get?_insert_cases hr with hr | ⟨rfl, -⟩
    · exact List.mem_cons_of_mem _ (hw.revisionIssued _ _ hr)
    · exact List.mem_cons_self
  · intro rid r hr
    rcases Table.get?_insert_cases hr with hr | ⟨-, rfl⟩
    · exact hw.fits _ _ hr
    · exact ⟨row, hrow, rfl, fun h => (by cases h), fun h => (by cases h), rfl, fun h => absurd rfl h⟩
  · intro e' row' rid he' hpublished
    obtain ⟨r, hr, hre, hpub⟩ := hw.pointer e' row' rid he' hpublished
    refine ⟨r, ?_, hre, hpub⟩
    change (w.revisions.insert newRevision _).get? rid = some r
    rw [Table.get?_insert hfree, if_neg]
    · exact hr
    · rintro rfl
      rw [hfree] at hr
      cases hr
  · exact hw.listed

/-- An entity without revisions. -/
theorem Catalogue.Sound.insertEntity (hw : w.Sound C) (hnew : newEntity ∉ w.issued) (kind : Kind)
    (owner : UserId) :
    ({ w with
      entities := w.entities.insert newEntity ⟨kind, owner, none, .draft⟩
      issued := newEntity :: w.issued } : Catalogue).Sound C := by
  have hfree : w.entities.get? newEntity = none := by
    by_contra hsome
    obtain ⟨row, hrow⟩ := Option.ne_none_iff_exists'.mp hsome
    exact hnew (hw.entityIssued _ _ hrow)
  constructor
  · intro e row he
    rcases Table.get?_insert_cases he with he | ⟨rfl, -⟩
    · exact List.mem_cons_of_mem _ (hw.entityIssued _ _ he)
    · exact List.mem_cons_self
  · intro rid r hr
    exact List.mem_cons_of_mem _ (hw.revisionIssued rid r hr)
  · intro rid r hr
    obtain ⟨row, hrow, hfits⟩ := hw.fits rid r hr
    refine ⟨row, ?_, hfits⟩
    change (w.entities.insert newEntity _).get? r.entity = some row
    rw [Table.get?_insert hfree, if_neg]
    · exact hrow
    · intro he
      rw [he, hfree] at hrow
      cases hrow
  · intro e row rid he hpublished
    rcases Table.get?_insert_cases he with he | ⟨-, rfl⟩
    · exact hw.pointer _ _ _ he hpublished
    · cases hpublished
  · intro e row he hstatus
    rcases Table.get?_insert_cases he with he | ⟨-, rfl⟩
    · exact hw.listed _ _ he hstatus
    · cases hstatus

/-- An entity goes with its revisions. -/
theorem Catalogue.Sound.delete (hw : w.Sound C) :
    ({ w with
      entities := w.entities.filter fun e' _ => e' ≠ e
      revisions := w.revisions.filter fun _ r => r.entity ≠ e } : Catalogue).Sound C := by
  have hentity : ∀ e' row, (w.entities.filter fun e' _ => e' ≠ e).get? e' = some row ↔
      w.entities.get? e' = some row ∧ e' ≠ e := by
    intro e' row
    rw [Table.get?_filter, Option.filter_eq_some_iff]
    simp
  have hrevision : ∀ rid r, (w.revisions.filter fun _ r => r.entity ≠ e).get? rid = some r ↔
      w.revisions.get? rid = some r ∧ r.entity ≠ e := by
    intro rid r
    rw [Table.get?_filter, Option.filter_eq_some_iff]
    simp
  constructor
  · intro e' row he'
    exact hw.entityIssued _ _ ((hentity e' row).mp he').1
  · intro rid r hr
    exact hw.revisionIssued _ _ ((hrevision rid r).mp hr).1
  · intro rid r hr
    obtain ⟨hr, hre⟩ := (hrevision rid r).mp hr
    obtain ⟨row, hrow, hfits⟩ := hw.fits rid r hr
    exact ⟨row, (hentity _ _).mpr ⟨hrow, hre⟩, hfits⟩
  · intro e' row rid he' hpublished
    obtain ⟨he', hne⟩ := (hentity e' row).mp he'
    obtain ⟨r, hr, hre, hpub⟩ := hw.pointer _ _ _ he' hpublished
    exact ⟨r, (hrevision _ _).mpr ⟨hr, hre ▸ hne⟩, hre, hpub⟩
  · intro e' row he'
    exact hw.listed _ _ ((hentity e' row).mp he').1

/-- The entity is taken offline; its revisions stay as they are. -/
theorem Catalogue.Sound.offline (hw : w.Sound C) {row : Entity} (hrow : w.entities.get? e = some row) :
    (w.setEntity e fun row => { row with status := .draft }).Sound C := by
  have hsame : w.revisions = w.revisions.map fun _ r => r := by simp [Table.map]
  have hrewrite := hw.rewrite (g := fun row => { row with status := .draft }) (f := fun _ r => r) hrow
    (fun _ _ _ _ => rfl) (fun _ _ _ he h => ⟨he, h.kind, h.pointed, h.superseded, h.hashed, h.frozen⟩)
    (fun rid h => hw.pointer _ _ rid hrow h) (fun h => by cases h)
  rw [← hsame] at hrewrite
  exact hrewrite

/-- The pending revision of an entity is published, and the one that the pointer named is archived. -/
theorem Catalogue.Sound.approve (hw : w.Sound C) {row : Entity} (hrow : w.entities.get? e = some row)
    (hr : w.revisions.get? rid = some r) (he : r.entity = e) (hpending : r.status = .pendingReview) :
    (w.apply C newEntity newRevision (.approve e rid row.published)).Sound C := by
  refine hw.rewrite hrow ?_ ?_ ?_ (by simp)
  · -- The revisions of other entities are neither the approved nor the superseded one.
    intro rid' r' hr' hne
    rw [if_neg, if_neg]
    · intro hprevious
      obtain ⟨r₀, hr₀, hre, -⟩ := hw.pointer _ _ _ hrow hprevious
      rw [hr'] at hr₀
      cases hr₀
      exact hne hre
    · rintro rfl
      rw [hr] at hr'
      cases hr'
      exact hne he
  · intro rid' r' hr' hre hfits
    by_cases hid : rid' = rid
    · rw [if_pos hid]
      rw [hid, hr] at hr'
      cases hr'
      have hnot : r.superseded ≠ true := fun h => by
        have := hfits.superseded h
        rw [hpending] at this
        cases this
      exact ⟨he, hfits.kind, fun _ => congrArg some hid.symm, fun h => absurd h hnot, hfits.hashed,
        fun _ => hfits.frozen (by simp [hpending])⟩
    · rw [if_neg hid]
      by_cases hprevious : row.published = some rid'
      · rw [if_pos hprevious]
        obtain ⟨r₀, hr₀, -, hpub⟩ := hw.pointer _ _ _ hrow hprevious
        rw [hr'] at hr₀
        cases hr₀
        exact ⟨hre, hfits.kind, fun h => (by cases h), fun _ => rfl, hfits.hashed,
          fun _ => hfits.frozen (by simp [hpub])⟩
      · rw [if_neg hprevious]
        exact ⟨hre, hfits.kind, fun h => absurd (hfits.pointed h) hprevious, hfits.superseded, hfits.hashed,
          hfits.frozen⟩
  · intro rid' hpublished
    cases hpublished
    exact ⟨r, hr, he, by rw [if_pos rfl]⟩

/-- The published revision of an entity is archived, and the pointer is taken away. -/
theorem Catalogue.Sound.takedown (hw : w.Sound C) {row : Entity} (hrow : w.entities.get? e = some row)
    (hpublished : row.published = some rid) :
    (w.apply C newEntity newRevision (.takedown e rid)).Sound C := by
  obtain ⟨r, hr, he, hpub⟩ := hw.pointer _ _ _ hrow hpublished
  refine hw.rewrite hrow ?_ ?_ (fun _ h => by cases h) (fun h => by cases h)
  · intro rid' r' hr' hne
    refine if_neg ?_
    rintro rfl
    rw [hr] at hr'
    cases hr'
    exact hne he
  · intro rid' r' hr' hre hfits
    by_cases hid : rid' = rid
    · rw [if_pos hid]
      rw [hid, hr] at hr'
      cases hr'
      exact ⟨he, hfits.kind, fun h => (by cases h), fun _ => rfl, hfits.hashed,
        fun _ => hfits.frozen (by simp [hpub])⟩
    · rw [if_neg hid]
      refine ⟨hre, hfits.kind, fun h => ?_, hfits.superseded, hfits.hashed, hfits.frozen⟩
      have hpointed := hfits.pointed h
      rw [hpublished] at hpointed
      exact absurd (Option.some.inj hpointed).symm hid

/-- Every commit keeps the invariant of the tables. -/
theorem Catalogue.Sound.apply (hw : w.Sound C) (hc : write.Current C w)
    (hhere : ∀ e, write.entity? = some e → ∃ row, w.entities.get? e = some row)
    (hne : newEntity ∉ w.issued) (hnr : newRevision ∉ w.issued) (hdiff : newEntity ≠ newRevision) :
    (w.apply C newEntity newRevision write).Sound C := by
  cases write with
  | create kind owner content =>
    have hnr' : newRevision ∉ newEntity :: w.issued := by
      rw [List.mem_cons, not_or]
      exact ⟨Ne.symm hdiff, hnr⟩
    have hfree : w.entities.get? newEntity = none := by
      by_contra hsome
      obtain ⟨row, hrow⟩ := Option.ne_none_iff_exists'.mp hsome
      exact hne (hw.entityIssued _ _ hrow)
    have hrow : (w.entities.insert newEntity ⟨kind, owner, none, .draft⟩).get? newEntity =
        some ⟨kind, owner, none, .draft⟩ := by
      rw [Table.get?_insert hfree, if_pos rfl]
    exact (hw.insertEntity hne kind owner).insertDraft hnr' hrow owner 1 content
  | newDraft e kind owner no content =>
    obtain ⟨row, hrow, rfl⟩ := hc
    exact hw.insertDraft hnr hrow owner no content
  | overwrite e rid content =>
    obtain ⟨r, hr, -, hdraft⟩ := hc
    refine hw.setRevision hr (by simp [hdraft]) rfl fun row hfits => ?_
    exact ⟨hfits.kind, hfits.pointed, hfits.superseded, rfl, fun h => absurd hdraft h⟩
  | submit e rid tools =>
    obtain ⟨r, hr, -, hdraft, hcheck⟩ := hc
    refine hw.setRevision hr (by simp [hdraft]) rfl fun row hfits => ?_
    have hnot : r.superseded ≠ true := fun h => by
      rw [hfits.superseded h] at hdraft
      cases hdraft
    exact ⟨hfits.kind, fun h => (by cases h), fun h => absurd h hnot, hfits.hashed,
      fun _ => ⟨rfl, hcheck⟩⟩
  | offline e =>
    obtain ⟨row, hrow⟩ := hhere e rfl
    exact hw.offline hrow
  | unchanged e => exact hw
  | delete e => exact hw.delete
  | approve e rid previous =>
    obtain ⟨⟨row, hrow, rfl⟩, r, hr, he, hpending⟩ := hc
    exact hw.approve hrow hr he hpending
  | reject e rid =>
    obtain ⟨r, hr, -, hpending⟩ := hc
    refine hw.setRevision hr (by simp [hpending]) rfl fun row hfits => ?_
    have hnot : r.superseded ≠ true := fun h => by
      rw [hfits.superseded h] at hpending
      cases hpending
    exact ⟨hfits.kind, fun h => (by cases h), fun h => absurd h hnot, hfits.hashed,
      fun _ => hfits.frozen (by simp [hpending])⟩
  | takedown e rid =>
    obtain ⟨row, hrow, hpublished⟩ := hc
    exact hw.takedown hrow hpublished

end Writes

/-! ## The invariant -/

section Invariant

variable {C : Checks} {w w' : Catalogue} {a : CatalogueAction}

/-- The tables and the transactions. -/
structure Catalogue.Kept (C : Checks) (w : Catalogue) : Prop where
  sound : w.Sound C
  orderly : w.Orderly C

theorem Catalogue.Kept.initial (h₀ : w.Initial) : w.Kept C where
  sound := ⟨by simp [h₀.entities], by simp [h₀.revisions], by simp [h₀.revisions], by simp [h₀.entities],
    by simp [h₀.entities]⟩
  orderly := ⟨by simp [h₀.txs], by simp [h₀.txs], by simp [h₀.txs], by simp [h₀.txs]⟩

/-- The tables stay, and no transaction is new or has moved on. -/
theorem Catalogue.Kept.of_fewer (hw : w.Kept C) (he : w'.entities = w.entities)
    (hr : w'.revisions = w.revisions) (hi : w'.issued = w.issued)
    (htxs : ∀ id tx, w'.txs.get? id = some tx → w.txs.get? id = some tx) : w'.Kept C := by
  obtain ⟨entities, revisions, tools, authors, tasks, txs, issued⟩ := w'
  cases he
  cases hr
  cases hi
  refine ⟨⟨hw.sound.entityIssued, hw.sound.revisionIssued, hw.sound.fits, hw.sound.pointer,
    hw.sound.listed⟩, ?_, ?_, ?_, ?_⟩
  · intro id id' tx tx' e hid hid'
    exact hw.orderly.exclusive id id' tx tx' e (htxs id tx hid) (htxs id' tx' hid')
  · intro id tx hid
    exact (hw.orderly.current id tx (htxs id tx hid)).of_untouched fun e _ => ⟨rfl, fun _ _ hr _ => hr⟩
  · intro id tx e hid
    exact hw.orderly.here id tx e (htxs id tx hid)
  · intro id tx hid
    exact hw.orderly.aimed id tx (htxs id tx hid)

/-- The tables stay, and at most one transaction is new or has moved on. -/
theorem Catalogue.Kept.of_tx (hw : w.Kept C) (id₀ : TxId) (tx₀ : Tx) (he : w'.entities = w.entities)
    (hr : w'.revisions = w.revisions) (hi : w'.issued = w.issued)
    (htxs : ∀ id tx, w'.txs.get? id = some tx → w.txs.get? id = some tx ∨ id = id₀ ∧ tx = tx₀)
    (hcurrent : tx₀.stage.Current C w) (haimed : tx₀.Aimed w)
    (hhere : ∀ e, tx₀.stage.holds = some e → ∃ row, w.entities.get? e = some row)
    (hexclusive : ∀ e id tx, tx₀.stage.holds = some e → w.txs.get? id = some tx →
      tx.stage.holds = some e → id = id₀) : w'.Kept C := by
  obtain ⟨entities, revisions, tools, authors, tasks, txs, issued⟩ := w'
  cases he
  cases hr
  cases hi
  refine ⟨⟨hw.sound.entityIssued, hw.sound.revisionIssued, hw.sound.fits, hw.sound.pointer,
    hw.sound.listed⟩, ?_, ?_, ?_, ?_⟩
  · intro id id' tx tx' e hid hid' hholds hholds'
    rcases htxs id tx hid with hold | ⟨rfl, rfl⟩
    · rcases htxs id' tx' hid' with hold' | ⟨rfl, rfl⟩
      · exact hw.orderly.exclusive id id' tx tx' e hold hold' hholds hholds'
      · exact hexclusive e id tx hholds' hold hholds
    · rcases htxs id' tx' hid' with hold' | ⟨rfl, rfl⟩
      · exact (hexclusive e id' tx' hholds hold' hholds').symm
      · rfl
  · intro id tx hid
    rcases htxs id tx hid with hold | ⟨rfl, rfl⟩
    · exact (hw.orderly.current id tx hold).of_untouched fun e _ => ⟨rfl, fun _ _ hr _ => hr⟩
    · exact hcurrent.of_untouched fun e _ => ⟨rfl, fun _ _ hr _ => hr⟩
  · intro id tx e hid hholds
    rcases htxs id tx hid with hold | ⟨rfl, rfl⟩
    · exact hw.orderly.here id tx e hold hholds
    · exact hhere e hholds
  · intro id tx hid
    rcases htxs id tx hid with hold | ⟨rfl, rfl⟩
    · exact hw.orderly.aimed id tx hold
    · exact haimed

/-- A transaction that is still there after a commit was there before, and is not the one that commits. -/
theorem Catalogue.get?_txs_commit {id id' : TxId} {tx : Tx} {write : Write} {e : EntityId} {rid : RevisionId}
    (h : ((w.apply C e rid write).close id).txs.get? id' = some tx) :
    w.txs.get? id' = some tx ∧ id' ≠ id := by
  have hsame : (w.apply C e rid write).txs = w.txs := by cases write <;> rfl
  rw [Catalogue.close, hsame, Table.get?_filter, Option.filter_eq_some_iff] at h
  exact ⟨h.1, by simpa using h.2⟩

/-- The transactions other than the one that commits find their rows as before. -/
theorem Catalogue.Kept.commit_untouched (hw : w.Kept C) {id id' : TxId} {call : Call} {write : Write}
    {tx : Tx} {e e' : EntityId} {rid : RevisionId} (htx : w.txs.get? id = some ⟨call, .ready write⟩)
    (he : e ∉ w.issued) (hrid : rid ∉ w.issued) (hid' : w.txs.get? id' = some tx) (hother : id' ≠ id)
    (hholds : tx.stage.holds = some e') : w.Untouched ((w.apply C e rid write).close id) e' := by
  obtain ⟨row, hrow⟩ := hw.orderly.here id' tx e' hid' hholds
  have hfree : write.entity? ≠ some e' := fun h =>
    hother (hw.orderly.exclusive id' id tx _ e' hid' htx hholds h)
  have hu := hw.sound.apply_untouched (hw.orderly.current id _ htx) hfree
    (hw.sound.entityIssued _ _ hrow) he hrid
  exact ⟨hu.entity, hu.revision⟩

theorem Catalogue.Kept.commit (hw : w.Kept C) {id : TxId} {call : Call} {write : Write} {e : EntityId}
    {rid : RevisionId} (htx : w.txs.get? id = some ⟨call, .ready write⟩) (he : e ∉ w.issued)
    (hrid : rid ∉ w.issued) (hne : e ≠ rid) : ((w.apply C e rid write).close id).Kept C := by
  have hsound := hw.sound.apply (hw.orderly.current id _ htx)
    (fun e' h => hw.orderly.here id _ e' htx h) he hrid hne
  refine ⟨⟨hsound.entityIssued, hsound.revisionIssued, hsound.fits, hsound.pointer, hsound.listed⟩,
    ?_, ?_, ?_, ?_⟩
  · intro id₁ id₂ tx₁ tx₂ e' h₁ h₂
    exact hw.orderly.exclusive id₁ id₂ tx₁ tx₂ e' (Catalogue.get?_txs_commit h₁).1
      (Catalogue.get?_txs_commit h₂).1
  · intro id' tx hid'
    obtain ⟨hid', hother⟩ := Catalogue.get?_txs_commit hid'
    exact (hw.orderly.current id' tx hid').of_untouched fun e' hholds =>
      hw.commit_untouched htx he hrid hid' hother hholds
  · intro id' tx e' hid' hholds
    obtain ⟨hid', hother⟩ := Catalogue.get?_txs_commit hid'
    obtain ⟨row, hrow⟩ := hw.orderly.here id' tx e' hid' hholds
    exact ⟨row, (hw.commit_untouched htx he hrid hid' hother hholds).entity.trans hrow⟩
  · intro id' tx hid' kind rid' e' hreviews hstage
    obtain ⟨hissued, hparent⟩ :=
      hw.orderly.aimed id' tx (Catalogue.get?_txs_commit hid').1 kind rid' e' hreviews hstage
    constructor
    · change rid' ∈ (w.apply C e rid write).issued
      cases write with
      | create kind owner content => exact List.mem_cons_of_mem _ (List.mem_cons_of_mem _ hissued)
      | newDraft e kind owner no content => exact List.mem_cons_of_mem _ hissued
      | _ => exact hissued
    · intro r hr
      obtain ⟨r₀, hr₀, hre, hrkind⟩ := Catalogue.apply_persist hissued hrid hr
      have ⟨hentity, hkind⟩ := hparent r₀ hr₀
      exact ⟨hre.trans hentity, hrkind.trans hkind⟩

theorem Catalogue.Kept.step (hw : w.Kept C) (h : w.step C a = .ok w') : w'.Kept C := by
  cases Catalogue.step_moves h with
  | begun call stage hfree hstage =>
    rename_i id call₀
    have haimed : (⟨call, stage⟩ : Tx).Aimed w := by
      intro kind rid e hreviews hlocking
      rcases hstage with ⟨content, -, rfl⟩ | ⟨e', rfl, hentity⟩
      · cases hlocking
      · cases hlocking
        obtain ⟨r, hr, hre⟩ := Option.map_eq_some_iff.mp (hentity kind rid hreviews)
        obtain ⟨hr, hkind⟩ := Option.filter_eq_some_iff.mp hr
        refine ⟨hw.sound.revisionIssued _ _ hr, fun r' hr' => ?_⟩
        rw [hr] at hr'
        cases hr'
        exact ⟨hre, of_decide_eq_true hkind⟩
    have hidle : stage.holds = none ∧ stage.Current C w := by
      rcases hstage with ⟨content, -, rfl⟩ | ⟨e', rfl, -⟩ <;> exact ⟨rfl, trivial⟩
    refine hw.of_tx id ⟨call, stage⟩ rfl rfl rfl
      (fun id' tx hid' => Table.get?_insert_cases hid') hidle.2 haimed ?_ ?_
    · intro e hholds
      exact absurd (hidle.1.symm.trans hholds) (by simp)
    · intro e id' tx hholds
      exact absurd (hidle.1.symm.trans hholds) (by simp)
  | granted htx hfree hgrant =>
    rename_i id call e stage
    have hreads := hgrant.reads hw.sound
      fun kind rid hreviews r hr => ((hw.orderly.aimed id _ htx kind rid e hreviews rfl).2 r hr).1
    refine hw.of_tx id ⟨call, stage⟩ rfl rfl rfl
      (fun id' tx hid' => Table.get?_set_cases hid') hreads.current ?_ ?_ ?_
    · intro kind rid e' hreviews hlocking
      have hholds := hreads.holds
      rw [show stage = .locking e' from hlocking] at hholds
      cases hholds
    · intro e' hholds
      cases hreads.holds.symm.trans hholds
      exact hreads.here
    · intro e' id' tx hholds hid' hholds'
      cases hreads.holds.symm.trans hholds
      have hlocked : w.locked e = true :=
        List.any_eq_true.mpr ⟨(id', tx), Table.get?_eq_some_iff.mp hid', by simpa using hholds'⟩
      rw [hfree] at hlocked
      cases hlocked
  | advanced htx hadvance =>
    rename_i id tx stage
    obtain ⟨hholds, hcurrent, hlocking⟩ := hadvance.current (hw.orderly.current id tx htx)
    have hheld : ∀ e, stage.holds = some e → tx.stage.holds = some e := by
      intro e he
      rcases hholds with hnone | hsame
      · rw [hnone] at he
        cases he
      · exact hsame.symm.trans he
    refine hw.of_tx id ⟨tx.call, stage⟩ rfl rfl rfl
      (fun id' tx hid' => Table.get?_set_cases hid') hcurrent ?_ ?_ ?_
    · intro kind rid e hreviews hwaits
      rw [hlocking e hwaits] at hreviews
      cases hreviews
    · intro e he
      exact hw.orderly.here id tx e htx (hheld e he)
    · intro e id' tx' he hid' he'
      exact hw.orderly.exclusive id' id tx' tx e hid' htx he' (hheld e he)
  | committed htx he hrid hne hfree => exact hw.commit htx he hrid hne
  | rolledBack =>
    refine hw.of_fewer rfl rfl rfl fun id' tx hid' => ?_
    rw [Catalogue.close, Table.get?_filter, Option.filter_eq_some_iff] at hid'
    exact hid'.1
  | switched => exact hw.of_fewer rfl rfl rfl fun _ _ hid' => hid'
  | aside authors tasks _ => exact hw.of_fewer rfl rfl rfl fun _ _ hid' => hid'

/-- What is published is right wherever the tables are sound. -/
theorem Catalogue.Sound.published (hw : w.Sound C) : w.Published C where
  unique := by
    intro rid rid' r r' hr hr' hpub hpub' hsame
    obtain ⟨row, hrow, hfits⟩ := hw.fits rid r hr
    obtain ⟨row', hrow', hfits'⟩ := hw.fits rid' r' hr'
    rw [← hsame, hrow] at hrow'
    cases hrow'
    exact Option.some.inj ((hfits.pointed hpub).symm.trans (hfits'.pointed hpub'))
  pointer := by
    intro e row rid hrow hpublished
    obtain ⟨r, hr, he, hpub⟩ := hw.pointer e row rid hrow hpublished
    obtain ⟨row', hrow', hfits⟩ := hw.fits rid r hr
    rw [he, hrow] at hrow'
    cases hrow'
    exact ⟨r, hr, he, hfits.kind, hpub⟩
  listed := hw.listed
  superseded := by
    intro rid r hr
    obtain ⟨row, -, hfits⟩ := hw.fits rid r hr
    exact hfits.superseded
  frozen := by
    intro rid r hr hpub
    obtain ⟨row, -, hfits⟩ := hw.fits rid r hr
    have ⟨hfrozen, hcheck⟩ := hfits.frozen (by simp [hpub])
    exact ⟨hfrozen.trans (congrArg some hfits.hashed.symm), hcheck⟩

variable {w₀ : Catalogue} {as : List CatalogueAction}

theorem Catalogue.Kept.run (h₀ : w₀.Initial) : ((catalogue C).run w₀ as).Kept C :=
  System.invariant_run (S := catalogue C) (I := Catalogue.Kept C) (fun _ _ _ hw h => hw.step h)
    as (.initial h₀)

/-- What is published is right in every run. -/
theorem Catalogue.published_of_run (h₀ : w₀.Initial) (as : List CatalogueAction) :
    ((catalogue C).run w₀ as).Published C :=
  (Catalogue.Kept.run h₀).sound.published

end Invariant

/-- The texts one after the other as the hash; every content that has a text is valid. -/
def plainChecks : Checks where
  contentSha256 content := (content.fields.flatMap fun x => x.1 :: x.2).foldl (· ++ ·) ""
  contentSize content := content.fields.length
  runAutoCheck _ content := if content.fields = [] then some "name:required" else none
  unicode := ⟨fun _ => false, fun _ => none⟩

/-- One author, and a tool that is enabled. -/
def emptyCatalogue : Catalogue :=
  ⟨.empty, .empty, Table.empty.insert ("search", "1") true, ["a"], [], .empty, []⟩

/-- A skill with the number 1 and its first revision with the number 2, from the draft to the approval. -/
def publishSkill : List CatalogueAction :=
  [.begin 0 (.createEntity .skill "a" ⟨[("name", ["first"])], []⟩), .next 0, .commit 0 1 2,
    .begin 0 (.submitRevision .skill "a" 1 2 []), .lock 0, .commit 0 3 4,
    .begin 0 (.approveRevision .skill 2), .lock 0, .next 0, .commit 0 3 4]

/-- Its successor with the number 3; a request to take the skill offline waits for the lock twice. -/
def publishSuccessor : List CatalogueAction :=
  [.begin 0 (.editEntity .skill "a" 1 ⟨[("name", ["second"])], []⟩), .next 0, .lock 0,
    .begin 1 (.offlineEntity .skill "a" 1), .lock 1, .commit 0 5 3,
    .begin 0 (.submitRevision .skill "a" 1 3 []), .lock 0, .commit 0 5 6,
    .begin 0 (.approveRevision .skill 3), .lock 0, .next 0, .lock 1, .commit 0 5 6, .lock 1, .commit 1 5 6]

/-- The successor is published and the first revision archived, although the skill is offline. -/
theorem Catalogue.published_of_run_successor :
    ((catalogue plainChecks).run emptyCatalogue (publishSkill ++ publishSuccessor)).Published plainChecks ∧
      (((catalogue plainChecks).run emptyCatalogue (publishSkill ++ publishSuccessor)).revisions.rows.map
        fun x => (x.1, x.2.status, x.2.superseded)) = [(2, .archived, true), (3, .published, false)] ∧
      ((catalogue plainChecks).run emptyCatalogue (publishSkill ++ publishSuccessor)).entities.get? 1 =
        some ⟨.skill, "a", some 3, .draft⟩ :=
  ⟨Catalogue.published_of_run ⟨rfl, rfl, rfl⟩ _, by decide +kernel, by decide +kernel⟩

end AgentCraft.Content
