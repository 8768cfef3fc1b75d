import AgentCraft.Content.Dependencies

/-!
# What skill references name

`_validate_skill_refs` reads the skill revisions that an expert refers to before the expert is locked, and
`delete_entity` counts the experts that refer to a skill by the canonical spelling of its identifier, which nobody
asks of a reference. A skill can therefore be deleted under a reference that is spelled otherwise, one that has been
validated and is still to be stored, or one that is stored after the count. Where references are canonical and no
two such transactions cross, every reference of every expert revision names a skill revision (`noDangling_of_run`).
-/

namespace AgentCraft.Content

open AgentCraft.Python AgentCraft.Relational AgentCraft.Transition

variable (C : Checks)

/-- The reference names a revision of the skill that it names. -/
def Catalogue.Names (w : Catalogue) (ref : SkillRef) : Prop :=
  ∃ rid s, parseUuid C.unicode ref.revisionId = some rid ∧ w.revisions.get? rid = some s ∧ s.kind = .skill ∧
    parseUuid C.unicode ref.skillId = some s.entity

/-- No stored expert revision names a skill that has been deleted. -/
def Catalogue.NoDangling (w : Catalogue) : Prop :=
  ∀ rid r, w.revisions.get? rid = some r → r.kind = .expert → ∀ ref ∈ r.content.skillRefs, w.Names C ref

/-- The skill is named by its canonical identifier. -/
def SkillRef.Canonical (ref : SkillRef) : Prop :=
  ∀ n ∈ parseUuid C.unicode ref.skillId, ref.skillId = formatUuid n

instance (ref : SkillRef) : Decidable (ref.Canonical C) := by
  unfold SkillRef.Canonical
  infer_instance

/-- The content that a transaction stores. -/
def Write.content? : Write → Option ContentJson
  | .create _ _ content | .overwrite _ _ content | .newDraft _ _ _ _ content => some content
  | _ => none

/-- The references that a transaction has validated, until it commits. -/
def Tx.validated (tx : Tx) : List SkillRef :=
  match tx.stage with
  | .validating done _ => done
  | .locking _ => (tx.call.content?.map (·.skillRefs)).getD []
  | .ready write => (write.content?.map (·.skillRefs)).getD []
  | _ => []

/-- The entity whose references a transaction has counted. -/
def Stage.counted? : Stage → Option EntityId
  | .ready (.delete e) => some e
  | _ => none

/-- The one has counted the references to what the other has validated a reference to. -/
def Tx.crosses (tx tx' : Tx) : Bool :=
  tx.stage.counted?.any fun e => tx'.validated.any fun ref => parseUuid C.unicode ref.skillId = some e

/-- References are spelled canonically, and no transaction commits before another one that it crosses. -/
def Catalogue.KeepsApart (w : Catalogue) : CatalogueAction → Prop
  | .begin _ call => ∀ content ∈ call.content?, ∀ ref ∈ content.skillRefs, ref.Canonical C
  | .commit id _ _ => ∀ tx ∈ w.txs.get? id, ∀ x ∈ w.txs.rows, x.1 ≠ id →
      tx.crosses C x.2 = false ∧ x.2.crosses C tx = false
  | _ => True

instance (w : Catalogue) : (a : CatalogueAction) → Decidable (w.KeepsApart C a)
  | .begin _ call => inferInstanceAs (Decidable (∀ content ∈ call.content?, ∀ ref ∈ content.skillRefs, ref.Canonical C))
  | .commit id _ _ => inferInstanceAs (Decidable (∀ tx ∈ w.txs.get? id, ∀ x ∈ w.txs.rows, x.1 ≠ id →
      tx.crosses C x.2 = false ∧ x.2.crosses C tx = false))
  | .lock .. | .next .. | .rollBack .. | .setToolEnabled .. | .setAuthors .. | .createTask .. | .dropTask .. =>
    inferInstanceAs (Decidable True)

/-! ## What a commit leaves -/

variable {C} {w w' : Catalogue} {a : CatalogueAction} {id : TxId} {tx tx' : Tx} {call : Call}
  {stage stage' : Stage} {e newEntity : EntityId} {rid newRevision : RevisionId} {r r' : Revision}
  {write : Write} {ref : SkillRef}

/-- A revision stays, with its entity, unless the entity is deleted. -/
theorem Catalogue.apply_keeps (hr : w.revisions.get? rid = some r) (hne : rid ≠ newRevision)
    (hfresh : w.revisions.get? newRevision = none) (hdelete : write ≠ .delete r.entity) :
    ∃ r', (w.apply C newEntity newRevision write).revisions.get? rid = some r' ∧ r'.kind = r.kind ∧
      r'.entity = r.entity := by
  have hmap {f : RevisionId → Revision → Revision} (hf : ∀ r, (f rid r).kind = r.kind ∧ (f rid r).entity = r.entity) :
      ∃ r', (w.revisions.map f).get? rid = some r' ∧ r'.kind = r.kind ∧ r'.entity = r.entity :=
    ⟨f rid r, by rw [Table.get?_map, hr]; rfl, hf r⟩
  cases write with
  | create | newDraft =>
    refine ⟨r, ?_, rfl, rfl⟩
    show (w.revisions.insert newRevision _).get? rid = some r
    rw [Table.get?_insert hfresh, if_neg hne]
    exact hr
  | overwrite | submit | reject | takedown =>
    refine hmap fun r => ?_
    split <;> exact ⟨rfl, rfl⟩
  | approve e rid' previous =>
    refine hmap fun r => ?_
    split
    · exact ⟨rfl, rfl⟩
    · split <;> exact ⟨rfl, rfl⟩
  | offline | unchanged => exact ⟨r, hr, rfl, rfl⟩
  | delete e =>
    refine ⟨r, ?_, rfl, rfl⟩
    show (w.revisions.filter fun _ r => r.entity ≠ e).get? rid = some r
    rw [Table.get?_filter, hr, Option.filter_some, if_pos]
    simpa using fun heq : r.entity = e => hdelete (heq ▸ rfl)

/-- The content of a revision is the one that the transaction stores, or the one that it had. -/
theorem Catalogue.apply_content (h : (w.apply C newEntity newRevision write).revisions.get? rid = some r') :
    write.content? = some r'.content ∨
      ∃ r, w.revisions.get? rid = some r ∧ r'.content = r.content ∧ r'.kind = r.kind := by
  have hmap {f : RevisionId → Revision → Revision} (h : (w.revisions.map f).get? rid = some r')
      (hf : ∀ r, (f rid r).content = r.content ∧ (f rid r).kind = r.kind) :
      ∃ r, w.revisions.get? rid = some r ∧ r'.content = r.content ∧ r'.kind = r.kind := by
    rw [Table.get?_map, Option.map_eq_some_iff] at h
    obtain ⟨r, hr, rfl⟩ := h
    exact ⟨r, hr, hf r⟩
  cases write with
  | create kind owner content | newDraft e kind owner no content =>
    rcases Table.get?_insert_cases h with hr | ⟨-, rfl⟩
    · exact .inr ⟨r', hr, rfl, rfl⟩
    · exact .inl rfl
  | overwrite e rid' content =>
    obtain ⟨r, hr, rfl⟩ := Catalogue.get?_setRevision h
    split
    · exact .inl rfl
    · exact .inr ⟨r, hr, rfl, rfl⟩
  | submit | reject | takedown =>
    refine .inr (hmap h fun r => ?_)
    split <;> exact ⟨rfl, rfl⟩
  | approve e rid' previous =>
    refine .inr (hmap h fun r => ?_)
    split
    · exact ⟨rfl, rfl⟩
    · split <;> exact ⟨rfl, rfl⟩
  | offline | unchanged => exact .inr ⟨r', h, rfl, rfl⟩
  | delete e =>
    change (w.revisions.filter _).get? rid = some r' at h
    rw [Table.get?_filter, Option.filter_eq_some_iff] at h
    exact .inr ⟨r', h.1, rfl, rfl⟩

/-- What a reference names stays through every commit but the deletion of the skill. -/
theorem Catalogue.Names.commit (h : w.Names C ref) (hw : w.Sound C) (hnew : newRevision ∉ w.issued)
    (hdelete : ∀ e, write = .delete e → parseUuid C.unicode ref.skillId ≠ some e) :
    ((w.apply C newEntity newRevision write).close id).Names C ref := by
  obtain ⟨rid, s, hparse, hs, hkind, hentity⟩ := h
  have hfresh : w.revisions.get? newRevision = none := by
    cases hr : w.revisions.get? newRevision with
    | none => rfl
    | some r => exact absurd (hw.revisionIssued _ r hr) hnew
  have hne : rid ≠ newRevision := by
    rintro rfl
    exact hnew (hw.revisionIssued _ s hs)
  obtain ⟨s', hs', hkind', hentity'⟩ := Catalogue.apply_keeps hs hne hfresh
    fun heq => hdelete _ heq hentity
  exact ⟨rid, s', hparse, hs', hkind'.trans hkind, hentity.trans (congrArg some hentity'.symm)⟩

theorem Catalogue.Names.of_revisions (h : w.Names C ref) (hr : w'.revisions = w.revisions) : w'.Names C ref := by
  obtain ⟨rid, s, hparse, hs, hkind, hentity⟩ := h
  exact ⟨rid, s, hparse, by rw [hr]; exact hs, hkind, hentity⟩

/-- A reference that passes the validation names a skill revision. -/
theorem Catalogue.names_of_validateSkillRef {user : UserId} (h : w.validateSkillRef C user ref = .ok ()) :
    w.Names C ref := by
  obtain ⟨skillId, hskill, h⟩ := bind_eq_ok.mp h
  obtain ⟨rid, hrid, h⟩ := bind_eq_ok.mp h
  have hparse {value field : String} {n : ℕ} (h : Catalogue.rejectInvalidUuid C value field = .ok n) :
      parseUuid C.unicode value = some n := by
    unfold Catalogue.rejectInvalidUuid at h
    split at h
    · next m hm =>
      cases h
      exact hm
    · cases h
  split at h
  · cases h
  · next s hs =>
    obtain ⟨hs, hkind⟩ := Option.filter_eq_some_iff.mp hs
    rw [Bool.and_eq_true, decide_eq_true_iff] at hkind
    obtain ⟨hentity, -⟩ := ite_error_eq_ok.mp h
    exact ⟨rid, s, hparse hrid, hs, hkind.1, not_not.mp hentity ▸ hparse hskill⟩

/-! ## Transactions -/

/-- What a transaction has read of references still stands. -/
structure Tx.Anchored (C : Checks) (w : Catalogue) (tx : Tx) : Prop where
  named : ∀ ref ∈ tx.validated, w.Names C ref
  canonical : ∀ content, tx.call.content? = some content → ∀ ref ∈ content.skillRefs, ref.Canonical C
  /-- Every reference has been validated or is still to be. -/
  left : ∀ done left content, tx.stage = .validating done left → tx.call.content? = some content →
    ∀ ref ∈ content.skillRefs, ref ∈ done ∨ ref ∈ left
  stored : ∀ write content, tx.stage = .ready write → write.content? = some content →
    tx.call.content? = some content
  /-- A deletion counts the references to an entity of its kind. -/
  counting : ∀ kind user e e' row, tx.call = .deleteEntity kind user e' → tx.stage = .counting e →
    w.entities.get? e = some row → row.kind = kind
  /-- No expert refers to a skill whose references have been counted. -/
  counted : ∀ e row, tx.stage.counted? = some e → w.entities.get? e = some row → row.kind = .skill →
    ∀ rid r, w.revisions.get? rid = some r → r.kind = .expert → ∀ ref ∈ r.content.skillRefs,
      parseUuid C.unicode ref.skillId ≠ some e

/-- The references of stored revisions, and those of the transactions. -/
structure Catalogue.Linked (C : Checks) (w : Catalogue) : Prop where
  kept : w.Kept C
  noDangling : w.NoDangling C
  canonical : ∀ rid r, w.revisions.get? rid = some r → r.kind = .expert → ∀ ref ∈ r.content.skillRefs,
    ref.Canonical C
  anchored : ∀ id tx, w.txs.get? id = some tx → tx.Anchored C w

/-- Where a transaction starts: an author who stores content validates its references first. -/
theorem Catalogue.begin_starts (h : w.begin C id call = .ok w') :
    ∃ call' stage, w' = w.start id call' stage ∧ call'.content? = call.content? ∧
      ((∃ content, call.content? = some content ∧ stage = .validating [] content.skillRefs) ∨
        call.content? = none ∧ ∃ e, stage = .locking e) := by
  cases call with
  | createEntity kind user content | editEntity kind user e content =>
    obtain ⟨-, -, h⟩ := bind_eq_ok.mp h
    obtain ⟨-, -, h⟩ := bind_eq_ok.mp h
    obtain ⟨-, -, h⟩ := bind_eq_ok.mp h
    cases h
    exact ⟨_, _, rfl, rfl, .inl ⟨content, rfl, rfl⟩⟩
  | submitRevision kind user e rid tools =>
    obtain ⟨tools', -, h⟩ := bind_eq_ok.mp h
    split at h
    · cases h
    · obtain ⟨-, -, h⟩ := bind_eq_ok.mp h
      cases h
      exact ⟨_, _, rfl, rfl, .inr ⟨rfl, e, rfl⟩⟩
  | offlineEntity kind user e | deleteEntity kind user e =>
    obtain ⟨-, -, h⟩ := bind_eq_ok.mp h
    cases h
    exact ⟨_, _, rfl, rfl, .inr ⟨rfl, e, rfl⟩⟩
  | approveRevision kind rid | rejectRevision kind rid | takedown kind rid =>
    simp only [Catalogue.begin] at h
    split at h
    · cases h
    · next e _ =>
      cases h
      exact ⟨_, _, rfl, rfl, .inr ⟨rfl, e, rfl⟩⟩

/-- A transaction that begins has read nothing. -/
theorem Tx.Anchored.begun (hcanonical : ∀ content, call.content? = some content →
      ∀ ref ∈ content.skillRefs, ref.Canonical C)
    (hstage : (∃ content, call.content? = some content ∧ stage = .validating [] content.skillRefs) ∨
      call.content? = none ∧ ∃ e, stage = .locking e) : (⟨call, stage⟩ : Tx).Anchored C w := by
  rcases hstage with ⟨content, hcontent, rfl⟩ | ⟨hnone, e, rfl⟩
  · refine ⟨by simp [Tx.validated], hcanonical, ?_, by simp, by simp, by simp [Stage.counted?]⟩
    intro done left content' hstage hcontent' ref href
    cases hstage
    rw [hcontent] at hcontent'
    cases hcontent'
    exact .inr href
  · exact ⟨by simp [Tx.validated, hnone], hcanonical, by simp, by simp, by simp, by simp [Stage.counted?]⟩

/-- A transaction at its end stores what it has validated, or deletes what it has counted. -/
theorem Tx.Anchored.ready (hcanonical : ∀ content, call.content? = some content →
      ∀ ref ∈ content.skillRefs, ref.Canonical C)
    (hstored : ∀ content, write.content? = some content →
      call.content? = some content ∧ ∀ ref ∈ content.skillRefs, w.Names C ref)
    (hcounted : ∀ e row, write = .delete e → w.entities.get? e = some row → row.kind = .skill →
      ∀ rid r, w.revisions.get? rid = some r → r.kind = .expert → ∀ ref ∈ r.content.skillRefs,
        parseUuid C.unicode ref.skillId ≠ some e) : (⟨call, .ready write⟩ : Tx).Anchored C w where
  named ref href := by
    cases hcontent : write.content? with
    | none => simp [Tx.validated, hcontent] at href
    | some content =>
      simp only [Tx.validated, hcontent, Option.map_some, Option.getD_some] at href
      exact (hstored content hcontent).2 ref href
  canonical := hcanonical
  left := by simp
  stored := by
    rintro write' content ⟨⟩ hcontent
    exact (hstored content hcontent).1
  counting := by simp
  counted e row he := by
    refine hcounted e row ?_
    cases write with
    | delete e' =>
      cases he
      rfl
    | _ => cases he

/-- A transaction that stores nothing and counts nothing. -/
theorem Tx.Anchored.idle (hcanonical : ∀ content, call.content? = some content →
      ∀ ref ∈ content.skillRefs, ref.Canonical C)
    (hstored : write.content? = none) (hdelete : ∀ e, write ≠ .delete e) :
    (⟨call, .ready write⟩ : Tx).Anchored C w :=
  .ready hcanonical (by simp [hstored]) fun e _ he => absurd he (hdelete e)

/-- With the lock, an author writes the content whose references have been validated. -/
theorem CatalogueGrant.anchored (h : CatalogueGrant C w e call stage)
    (hold : (⟨call, .locking e⟩ : Tx).Anchored C w) : (⟨call, stage⟩ : Tx).Anchored C w := by
  cases h with
  | overwrite hrow hkind hr he hdraft =>
    refine .ready hold.canonical ?_ (by simp)
    rintro _ ⟨⟩
    exact ⟨rfl, hold.named⟩
  | newDraft no hrow hkind =>
    refine .ready hold.canonical ?_ (by simp)
    rintro _ ⟨⟩
    exact ⟨rfl, hold.named⟩
  | offline hrow hwrite => rcases hwrite with rfl | rfl <;> exact .idle hold.canonical rfl (by simp)
  | counting hrow hkind =>
    refine ⟨by simp [Tx.validated], hold.canonical, by simp, by simp, ?_, by simp [Stage.counted?]⟩
    intro kind user e₁ e' row hcall hstage hrow'
    cases hcall
    cases hstage
    rw [hrow] at hrow'
    cases hrow'
    exact hkind
  | checking hrow hr hpending =>
    exact ⟨by simp [Tx.validated], hold.canonical, by simp, by simp, by simp, by simp [Stage.counted?]⟩
  | submit | reject | takedown => exact .idle hold.canonical rfl (by simp)

/-- Canonical references are all counted. -/
theorem Catalogue.not_refers_of_count (hcount : w.countReferences .skill e = 0)
    (hcanonical : ∀ ref ∈ r.content.skillRefs, ref.Canonical C) (hr : w.revisions.get? rid = some r)
    (hkind : r.kind = .expert) (href : ref ∈ r.content.skillRefs) :
    parseUuid C.unicode ref.skillId ≠ some e := by
  intro hparse
  have hspelled : ref.skillId = formatUuid e := hcanonical ref href e hparse
  have hrefers : Catalogue.refersTo r.content e = true :=
    List.any_eq_true.mpr ⟨ref, href, by simpa using hspelled⟩
  have hmem : (rid, r) ∈ w.revisions.rows.filter fun r => r.2.kind = .expert && Catalogue.refersTo r.2.content e :=
    List.mem_filter.mpr ⟨Table.get?_eq_some_iff.mp hr, by simp [hkind, hrefers]⟩
  have hnone := List.length_eq_zero_iff.mp hcount
  rw [List.dedup_eq_nil, List.map_eq_nil_iff] at hnone
  rw [hnone] at hmem
  cases hmem

/-- Every statement validates one reference more, or leaves them all validated. -/
theorem CatalogueAdvance.anchored (h : CatalogueAdvance C w tx.call tx.stage stage')
    (hw : w.Linked C) (hold : tx.Anchored C w) :
    (⟨tx.call, stage'⟩ : Tx).Anchored C w := by
  obtain ⟨call, stage⟩ := tx
  cases h with
  | validated hcontent hvalid =>
    refine ⟨fun ref href => ?_, hold.canonical, ?_, by simp, by simp, by simp [Stage.counted?]⟩
    · rcases List.mem_cons.mp href with rfl | href
      · exact Catalogue.names_of_validateSkillRef hvalid
      · exact hold.named ref href
    · intro done left content hstage hcontent ref href
      cases hstage
      rcases hold.left _ _ content rfl hcontent ref href with hdone | hleft
      · exact .inl (List.mem_cons_of_mem _ hdone)
      · rcases List.mem_cons.mp hleft with rfl | hleft
        · exact .inl List.mem_cons_self
        · exact .inr hleft
  | created =>
    refine .ready hold.canonical ?_ (by simp)
    rintro _ ⟨⟩
    refine ⟨rfl, fun ref href => hold.named ref ?_⟩
    exact (hold.left _ _ _ rfl rfl ref href).resolve_right (by simp)
  | waits =>
    refine ⟨fun ref href => ?_, hold.canonical, by simp, by simp, by simp, by simp [Stage.counted?]⟩
    exact hold.named ref ((hold.left _ _ _ rfl rfl ref href).resolve_right (by simp))
  | tool | ref =>
    exact ⟨by simp [Tx.validated], hold.canonical, by simp, by simp, by simp, by simp [Stage.counted?]⟩
  | approved hrow hprevious => exact .idle hold.canonical rfl (by simp)
  | counted hcount =>
    rename_i kind user e e'
    refine .ready hold.canonical (by simp [Write.content?]) ?_
    rintro _ row ⟨⟩ hrow hskill rid r hr hexpert ref href
    have hkind := hold.counting kind user e e' row rfl rfl hrow
    rw [hskill] at hkind
    subst hkind
    exact Catalogue.not_refers_of_count hcount (hw.canonical rid r hr hexpert) hr hexpert href

/-! ## Steps -/

theorem Tx.Anchored.of_same (h : tx.Anchored C w) (he : w'.entities = w.entities)
    (hr : w'.revisions = w.revisions) : tx.Anchored C w' where
  named ref href := (h.named ref href).of_revisions hr
  canonical := h.canonical
  left := h.left
  stored := h.stored
  counting kind user e e' row hcall hstage hrow := h.counting kind user e e' row hcall hstage (he ▸ hrow)
  counted e row hstage hrow hskill rid r hrev := h.counted e row hstage (he ▸ hrow) hskill rid r (hr ▸ hrev)

theorem Stage.eq_of_counted (h : stage.counted? = some e) : stage = .ready (.delete e) := by
  unfold Stage.counted? at h
  split at h
  · cases h
    rfl
  · cases h

theorem Tx.not_refers_of_apart (h : tx.crosses C tx' = false) (hcounted : tx.stage.counted? = some e)
    (href : ref ∈ tx'.validated) : parseUuid C.unicode ref.skillId ≠ some e := by
  intro hparse
  have hcrosses : tx.crosses C tx' = true := by
    rw [Tx.crosses, hcounted, Option.any_some]
    exact List.any_eq_true.mpr ⟨ref, href, decide_eq_true hparse⟩
  rw [h] at hcrosses
  cases hcrosses

/-- The content that is stored has been validated. -/
theorem Tx.mem_validated {content : ContentJson} (hcontent : write.content? = some content)
    (href : ref ∈ content.skillRefs) : ref ∈ (⟨call, .ready write⟩ : Tx).validated := by
  simp only [Tx.validated, hcontent, Option.map_some, Option.getD_some]
  exact href

/-- A transaction keeps what it has read when another one commits that it does not cross. -/
theorem Tx.Anchored.commit (h : tx'.Anchored C w) (hw : w.Kept C)
    {id' : TxId} (htx : w.txs.get? id = some ⟨call, .ready write⟩) (he : newEntity ∉ w.issued)
    (hrid : newRevision ∉ w.issued) (htx' : w.txs.get? id' = some tx') (hother : id' ≠ id)
    (hcross : (⟨call, .ready write⟩ : Tx).crosses C tx' = false)
    (hcross' : tx'.crosses C ⟨call, .ready write⟩ = false) :
    tx'.Anchored C ((w.apply C newEntity newRevision write).close id) := by
  have hentity {e : EntityId} (hholds : tx'.stage.holds = some e) :=
    (hw.commit_untouched htx he hrid htx' hother hholds).entity
  refine ⟨fun ref href => ?_, h.canonical, h.left, h.stored, ?_, ?_⟩
  · refine (h.named ref href).commit hw.sound hrid fun e hdelete => ?_
    exact Tx.not_refers_of_apart hcross (by rw [hdelete]; rfl) href
  · intro kind user e e' row hcall hstage hrow
    rw [hentity (by rw [hstage]; rfl)] at hrow
    exact h.counting kind user e e' row hcall hstage hrow
  · intro e row hcounted hrow hskill rid r hr hexpert ref href
    rw [hentity (by rw [Stage.eq_of_counted hcounted]; rfl)] at hrow
    rcases Catalogue.apply_content hr with hcontent | ⟨r₀, hr₀, hcontent, hkind⟩
    · exact Tx.not_refers_of_apart hcross' hcounted (Tx.mem_validated hcontent href)
    · exact h.counted e row hcounted hrow hskill rid r₀ hr₀ (hkind ▸ hexpert) ref (hcontent ▸ href)

/-- A deletion does not take away what a stored reference names. -/
theorem Catalogue.Names.not_deleted (h : w.Names C ref) (hw : w.Sound C)
    (hanchored : (⟨call, .ready (.delete e)⟩ : Tx).Anchored C w) (hr : w.revisions.get? rid = some r)
    (hexpert : r.kind = .expert) (href : ref ∈ r.content.skillRefs) :
    parseUuid C.unicode ref.skillId ≠ some e := by
  intro hparse
  -- What the reference names is a skill.
  obtain ⟨srid, s, -, hs, hskill, hentity⟩ := h
  obtain ⟨row, hrow, hfits⟩ := hw.fits srid s hs
  rw [hparse] at hentity
  cases hentity
  exact hanchored.counted s.entity row rfl hrow (hfits.kind.symm.trans hskill) rid r hr hexpert ref href hparse

theorem Catalogue.Linked.initial (h₀ : w.Initial) : w.Linked C :=
  ⟨.initial h₀, by simp [Catalogue.NoDangling, h₀.revisions], by simp [h₀.revisions], by simp [h₀.txs]⟩

/-- The tables stay. -/
theorem Catalogue.Linked.of_same (hw : w.Linked C) (hkept : w'.Kept C) (he : w'.entities = w.entities)
    (hr : w'.revisions = w.revisions)
    (htxs : ∀ id tx, w'.txs.get? id = some tx → w.txs.get? id = some tx ∨ tx.Anchored C w) : w'.Linked C where
  kept := hkept
  noDangling rid r hrev hexpert ref href := (hw.noDangling rid r (hr ▸ hrev) hexpert ref href).of_revisions hr
  canonical rid r hrev := hw.canonical rid r (hr ▸ hrev)
  anchored id tx hid := by
    rcases htxs id tx hid with hold | hnew
    · exact (hw.anchored id tx hold).of_same he hr
    · exact hnew.of_same he hr

theorem Catalogue.Linked.commit (hw : w.Linked C) (htx : w.txs.get? id = some ⟨call, .ready write⟩)
    (he : newEntity ∉ w.issued) (hrid : newRevision ∉ w.issued) (hne : newEntity ≠ newRevision)
    (hguard : w.KeepsApart C (.commit id newEntity newRevision)) :
    ((w.apply C newEntity newRevision write).close id).Linked C := by
  have hanchored := hw.anchored id _ htx
  refine ⟨hw.kept.commit htx he hrid hne, ?_, ?_, ?_⟩
  · intro rid r hr hexpert ref href
    rcases Catalogue.apply_content hr with hcontent | ⟨r₀, hr₀, hcontent, hkind⟩
    · refine (hanchored.named ref (Tx.mem_validated hcontent href)).commit hw.kept.sound hrid ?_
      rintro e rfl
      cases hcontent
    · rw [hcontent] at href
      rw [hkind] at hexpert
      have hnames := hw.noDangling rid r₀ hr₀ hexpert ref href
      refine hnames.commit hw.kept.sound hrid ?_
      rintro e rfl
      exact hnames.not_deleted hw.kept.sound hanchored hr₀ hexpert href
  · intro rid r hr hexpert ref href
    rcases Catalogue.apply_content hr with hcontent | ⟨r₀, hr₀, hcontent, hkind⟩
    · exact hanchored.canonical _ (hanchored.stored write _ rfl hcontent) ref href
    · exact hw.canonical rid r₀ hr₀ (hkind ▸ hexpert) ref (hcontent ▸ href)
  · intro id' tx' hid'
    obtain ⟨hid', hother⟩ := Catalogue.get?_txs_commit hid'
    have hcross := hguard _ htx (id', tx') (Table.get?_eq_some_iff.mp hid') hother
    exact (hw.anchored id' tx' hid').commit hw.kept htx he hrid hid' hother hcross.1 hcross.2

theorem Catalogue.Linked.begin (hw : w.Linked C) (hguard : w.KeepsApart C (.begin id call))
    (h : w.step C (.begin id call) = .ok w') : w'.Linked C := by
  have hkept := hw.kept.step h
  simp only [Catalogue.step] at h
  split at h
  · cases h
  · obtain ⟨call', stage, rfl, hcontent, hstage⟩ := Catalogue.begin_starts (mapError_eq_ok.mp h)
    refine hw.of_same hkept rfl rfl fun id' tx hid' => ?_
    rcases Table.get?_insert_cases hid' with hid' | ⟨-, rfl⟩
    · exact .inl hid'
    · rw [← hcontent] at hstage
      exact .inr (.begun (fun content h => hguard content (hcontent.symm.trans h)) hstage)

theorem Catalogue.Linked.step (hw : w.Linked C) (hguard : w.KeepsApart C a) (h : w.step C a = .ok w') :
    w'.Linked C := by
  have hkept := hw.kept.step h
  cases Catalogue.step_moves h with
  | begun => exact hw.begin hguard h
  | granted htx hfree hgrant =>
    refine hw.of_same hkept rfl rfl fun id' tx hid' => ?_
    rcases Table.get?_set_cases hid' with hid' | ⟨-, rfl⟩
    · exact .inl hid'
    · exact .inr (hgrant.anchored (hw.anchored _ _ htx))
  | advanced htx hadvance =>
    refine hw.of_same hkept rfl rfl fun id' tx hid' => ?_
    rcases Table.get?_set_cases hid' with hid' | ⟨-, rfl⟩
    · exact .inl hid'
    · exact .inr (hadvance.anchored hw (hw.anchored _ _ htx))
  | committed htx he hrid hne hfree => exact hw.commit htx he hrid hne hguard
  | rolledBack =>
    refine hw.of_same hkept rfl rfl fun id' tx hid' => ?_
    rw [Catalogue.close, Table.get?_filter, Option.filter_eq_some_iff] at hid'
    exact .inl hid'.1
  | switched => exact hw.of_same hkept rfl rfl fun _ _ hid' => .inl hid'
  | aside => exact hw.of_same hkept rfl rfl fun _ _ hid' => .inl hid'

variable {w₀ : Catalogue} {as : List CatalogueAction}

/-- Every reference of every expert names a skill revision, in every run whose references are canonical and in
which no deletion crosses the storing of a reference. -/
theorem Catalogue.noDangling_of_run (h₀ : w₀.Initial)
    (hguard : (catalogue C).Guarded (Catalogue.KeepsApart C) w₀ as) :
    ((catalogue C).run w₀ as).NoDangling C :=
  (System.invariant_run_of_guarded (S := catalogue C) (I := Catalogue.Linked C)
    (fun _ _ _ hw hguard h => hw.step hguard h) (.initial h₀) hguard).noDangling

/-- The expert of `reviewExpert` keeps its skill, and once it is deleted, the skill can be deleted too. -/
theorem Catalogue.noDangling_of_run_review :
    ((catalogue plainChecks).run emptyCatalogue (reviewExpert ++ [.rollBack 0, .begin 0 (.deleteEntity .skill "a" 1),
        .lock 0, .next 0, .rollBack 0, .begin 1 (.deleteEntity .expert "a" 5), .lock 1, .next 1, .commit 1 7 8,
        .begin 0 (.deleteEntity .skill "a" 1), .lock 0, .next 0, .commit 0 7 8])).NoDangling plainChecks ∧
      ((catalogue plainChecks).run emptyCatalogue (reviewExpert ++ [.rollBack 0,
        .begin 0 (.deleteEntity .skill "a" 1), .lock 0, .next 0, .commit 0 7 8])).NoDangling plainChecks :=
  ⟨Catalogue.noDangling_of_run ⟨rfl, rfl, rfl⟩ (by decide +kernel),
    Catalogue.noDangling_of_run ⟨rfl, rfl, rfl⟩ (by decide +kernel)⟩

/-- What a reference names can be looked up. -/
theorem Catalogue.Names.any (h : w.Names C ref) :
    (parseUuid C.unicode ref.revisionId).any fun rid => (w.revisions.get? rid).isSome := by
  obtain ⟨rid, s, hparse, hs, -⟩ := h
  simp [hparse, hs]

/-- An expert is created that refers to the skill with the number 1. -/
def createExpert (id : TxId) (skillId : String) : CatalogueAction :=
  .begin id (.createEntity .expert "a" ⟨[("name", ["expert"])], [⟨skillId, formatUuid 2⟩]⟩)

/-- The draft of this expert. -/
def draftExpert (entity : EntityId) (skillId : String) : Revision where
  kind := .expert
  entity := entity
  owner := "a"
  no := 1
  content := ⟨[("name", ["expert"])], [⟨skillId, formatUuid 2⟩]⟩
  sha := "nameexpert"
  status := .draft
  tools := []
  frozen := none
  superseded := false

/-- The skill is deleted under a reference that is spelled otherwise, under one that has been validated, and under
one that is stored after the references have been counted. -/
theorem Catalogue.not_noDangling_of_deleted :
    ¬ ((catalogue plainChecks).run emptyCatalogue (publishSkill ++
        [createExpert 0 "----00000000000000000000000000000001", .next 0, .next 0, .commit 0 5 6,
          .begin 1 (.deleteEntity .skill "a" 1), .lock 1, .next 1, .commit 1 7 8])).NoDangling plainChecks ∧
      ¬ ((catalogue plainChecks).run emptyCatalogue (publishSkill ++
        [createExpert 0 (formatUuid 1), .next 0, .begin 1 (.deleteEntity .skill "a" 1), .lock 1, .next 1,
          .commit 1 5 6, .next 0, .commit 0 7 8])).NoDangling plainChecks ∧
      ¬ ((catalogue plainChecks).run emptyCatalogue (publishSkill ++
        [.begin 1 (.deleteEntity .skill "a" 1), .lock 1, .next 1, createExpert 0 (formatUuid 1), .next 0, .next 0,
          .commit 0 5 6, .commit 1 7 8])).NoDangling plainChecks := by
  refine ⟨fun h => ?_, fun h => ?_, fun h => ?_⟩
  · have hnames := (h 6 (draftExpert 5 "----00000000000000000000000000000001") (by decide +kernel) rfl _
      List.mem_cons_self).any
    revert hnames
    decide +kernel
  · have hnames := (h 8 (draftExpert 7 (formatUuid 1)) (by decide +kernel) rfl _ List.mem_cons_self).any
    revert hnames
    decide +kernel
  · have hnames := (h 6 (draftExpert 5 (formatUuid 1)) (by decide +kernel) rfl _ List.mem_cons_self).any
    revert hnames
    decide +kernel

end AgentCraft.Content
