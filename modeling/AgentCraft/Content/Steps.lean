import AgentCraft.Content.Catalogue

/-!
# What the steps of the catalogue do

The inversion of the step function: which transaction begins, what it reads when it gets the lock and with
every later statement, and what commits. The invariants are proved over these cases and not over the code.
-/

namespace AgentCraft.Content

open AgentCraft.Python AgentCraft.Relational AgentCraft.Transition

/-- The content that an author stores. -/
def Call.content? : Call → Option ContentJson
  | .createEntity _ _ content => some content
  | .editEntity _ _ _ content => some content
  | _ => none

/-- The revision that a reviewer names. -/
def Call.reviews? : Call → Option (Kind × RevisionId)
  | .approveRevision kind rid => some (kind, rid)
  | .rejectRevision kind rid => some (kind, rid)
  | _ => none

/-- What a transaction does when it gets the lock of the entity. -/
inductive CatalogueGrant (C : Checks) (w : Catalogue) (e : EntityId) : Call → Stage → Prop
  | overwrite {kind : Kind} {user : UserId} {e' : EntityId} {content : ContentJson} {row : Entity}
      {rid : RevisionId} {r : Revision} (hrow : w.entities.get? e = some row) (hkind : row.kind = kind)
      (hr : w.revisions.get? rid = some r) (he : r.entity = e) (hdraft : r.status = .draft) :
      CatalogueGrant C w e (.editEntity kind user e' content) (.ready (.overwrite e rid content))
  | newDraft {kind : Kind} {user : UserId} {e' : EntityId} {content : ContentJson} {row : Entity} (no : ℕ)
      (hrow : w.entities.get? e = some row) (hkind : row.kind = kind) :
      CatalogueGrant C w e (.editEntity kind user e' content) (.ready (.newDraft e kind user no content))
  | submit {kind : Kind} {user : UserId} {e' : EntityId} {rid : RevisionId} {tools : List Tool}
      {row : Entity} {r : Revision} (hrow : w.entities.get? e = some row) (hkind : row.kind = kind)
      (hr : w.revisions.get? rid = some r) (he : r.entity = e) (hdraft : r.status = .draft)
      (hcheck : C.runAutoCheck kind r.content = none) :
      CatalogueGrant C w e (.submitRevision kind user e' rid tools) (.ready (.submit e rid tools))
  | offline {kind : Kind} {user : UserId} {e' : EntityId} {row : Entity} {write : Write}
      (hrow : w.entities.get? e = some row) (hwrite : write = .offline e ∨ write = .unchanged e) :
      CatalogueGrant C w e (.offlineEntity kind user e') (.ready write)
  | counting {kind : Kind} {user : UserId} {e' : EntityId} {row : Entity}
      (hrow : w.entities.get? e = some row) (hkind : row.kind = kind) :
      CatalogueGrant C w e (.deleteEntity kind user e') (.counting e)
  | checking {kind : Kind} {rid : RevisionId} {row : Entity} {r : Revision}
      (hrow : w.entities.get? e = some row) (hr : w.revisions.get? rid = some r)
      (hpending : r.status = .pendingReview) :
      CatalogueGrant C w e (.approveRevision kind rid) (.checking ⟨e, rid, row.published, [],
        match kind with | .expert => r.tools | .skill => [], [],
        match kind with | .expert => r.content.skillRefs | .skill => []⟩)
  | reject {kind : Kind} {rid : RevisionId} {row : Entity} {r : Revision}
      (hrow : w.entities.get? e = some row) (hr : w.revisions.get? rid = some r)
      (hpending : r.status = .pendingReview) :
      CatalogueGrant C w e (.rejectRevision kind rid) (.ready (.reject e rid))
  | takedown {kind : Kind} {rid : RevisionId} {row : Entity} {current : RevisionId}
      (hrow : w.entities.get? e = some row) (hpublished : row.published = some current) :
      CatalogueGrant C w e (.takedown kind rid) (.ready (.takedown e current))

/-- What a transaction does with its next statement. -/
inductive CatalogueAdvance (C : Checks) (w : Catalogue) : Call → Stage → Stage → Prop
  | validated {call : Call} {content : ContentJson} {user : UserId} {done left : List SkillRef}
      {ref : SkillRef} (hcontent : call.content? = some content)
      (hvalid : w.validateSkillRef C user ref = .ok ()) :
      CatalogueAdvance C w call (.validating done (ref :: left)) (.validating (ref :: done) left)
  | created {kind : Kind} {user : UserId} {content : ContentJson} {done : List SkillRef} :
      CatalogueAdvance C w (.createEntity kind user content) (.validating done [])
        (.ready (.create kind user content))
  | waits {kind : Kind} {user : UserId} {e : EntityId} {content : ContentJson} {done : List SkillRef} :
      CatalogueAdvance C w (.editEntity kind user e content) (.validating done []) (.locking e)
  | tool {call : Call} {e : EntityId} {rid : RevisionId} {previous : Option RevisionId}
      {checkedTools tools : List Tool} {checkedRefs refs : List SkillRef} {t : Tool}
      (henabled : w.toolCatalog.get? t = some true) :
      CatalogueAdvance C w call (.checking ⟨e, rid, previous, checkedTools, t :: tools, checkedRefs, refs⟩)
        (.checking ⟨e, rid, previous, t :: checkedTools, tools, checkedRefs, refs⟩)
  | ref {call : Call} {e : EntityId} {rid : RevisionId} {previous : Option RevisionId}
      {checkedTools : List Tool} {checkedRefs refs : List SkillRef} {ref : SkillRef} {srid : RevisionId}
      {s : Revision} (hparse : parseUuid C.unicode ref.revisionId = some srid)
      (hs : w.revisions.get? srid = some s) (hkind : s.kind = .skill) (hpublished : s.status = .published) :
      CatalogueAdvance C w call (.checking ⟨e, rid, previous, checkedTools, [], checkedRefs, ref :: refs⟩)
        (.checking ⟨e, rid, previous, checkedTools, [], ref :: checkedRefs, refs⟩)
  | approved {call : Call} {e : EntityId} {rid : RevisionId} {previous : Option RevisionId}
      {checkedTools : List Tool} {checkedRefs : List SkillRef} {row : Entity}
      (hrow : w.entities.get? e = some row) (hprevious : row.published = previous) :
      CatalogueAdvance C w call (.checking ⟨e, rid, previous, checkedTools, [], checkedRefs, []⟩)
        (.ready (.approve e rid previous))
  | counted {kind : Kind} {user : UserId} {e e' : EntityId} (hcount : w.countReferences kind e = 0) :
      CatalogueAdvance C w (.deleteEntity kind user e') (.counting e) (.ready (.delete e))

/-- The action is the commit of a transaction. -/
def CatalogueAction.commits : CatalogueAction → Bool
  | .commit _ _ _ => true
  | _ => false

/-- What a step does. -/
inductive CatalogueMove (C : Checks) (w : Catalogue) : CatalogueAction → Catalogue → Prop
  | begun {id : TxId} {call₀ : Call} (call : Call) (stage : Stage) (hfree : w.txs.get? id = none)
      (hstage : (∃ content, call.content? = some content ∧ stage = .validating [] content.skillRefs) ∨
        ∃ e, stage = .locking e ∧
          ∀ kind rid, call.reviews? = some (kind, rid) → w.entityOf kind rid = some e) :
      CatalogueMove C w (.begin id call₀) (w.start id call stage)
  | granted {id : TxId} {call : Call} {e : EntityId} {stage : Stage}
      (htx : w.txs.get? id = some ⟨call, .locking e⟩) (hfree : w.locked e = false)
      (hgrant : CatalogueGrant C w e call stage) :
      CatalogueMove C w (.lock id) { w with txs := w.txs.set id ⟨call, stage⟩ }
  | advanced {id : TxId} {tx : Tx} {stage : Stage} (htx : w.txs.get? id = some tx)
      (hadvance : CatalogueAdvance C w tx.call tx.stage stage) :
      CatalogueMove C w (.next id) { w with txs := w.txs.set id ⟨tx.call, stage⟩ }
  | committed {id : TxId} {call : Call} {write : Write} {e : EntityId} {rid : RevisionId}
      (htx : w.txs.get? id = some ⟨call, .ready write⟩) (he : e ∉ w.issued) (hrid : rid ∉ w.issued)
      (hne : e ≠ rid) (hfree : w.restricted write = false) :
      CatalogueMove C w (.commit id e rid) ((w.apply C e rid write).close id)
  | rolledBack {id : TxId} : CatalogueMove C w (.rollBack id) (w.close id)
  | switched {tool : Tool} {enabled : Bool} :
      CatalogueMove C w (.setToolEnabled tool enabled)
        { w with toolCatalog := w.toolCatalog.set tool enabled }
  | aside {a : CatalogueAction} (authors : List UserId) (tasks : List RevisionId) (ha : a.commits = false) :
      CatalogueMove C w a { w with authors := authors, tasks := tasks }

section Moves

variable {C : Checks} {w w' : Catalogue} {a : CatalogueAction} {id : TxId} {call : Call} {e : EntityId}
  {stage stage' : Stage}

theorem Catalogue.ownEntity_eq_ok {kind : Kind} {user : UserId} {row : Entity}
    (h : w.ownEntity kind user e = .ok row) :
    w.entities.get? e = some row ∧ row.kind = kind ∧ row.owner = user := by
  unfold Catalogue.ownEntity at h
  cases he : w.entities.get? e with
  | none =>
    simp only [he] at h
    cases h
  | some row' =>
    simp only [he] at h
    obtain ⟨⟨hkind, howner⟩, h⟩ := ite_ok_else_error.mp h
    cases h
    exact ⟨rfl, hkind, howner⟩

theorem Catalogue.mem_revisionsOf {rid : RevisionId} {r : Revision} (h : (rid, r) ∈ w.revisionsOf e) :
    w.revisions.get? rid = some r ∧ r.entity = e := by
  obtain ⟨hmem, he⟩ := List.mem_filter.mp h
  exact ⟨Table.get?_eq_some_iff.mpr hmem, by simpa using he⟩

theorem Catalogue.reviewed_eq_ok {rid : RevisionId} {x : Entity → Revision → Stage}
    (h : (match w.entities.get? e, w.revisions.get? rid with
      | some entity, some r =>
        if r.owner ≠ entity.owner then .error (reviewPending "revision 归属与实体所有者不一致")
        else if r.status ≠ .pendingReview then .error (reviewPending "revision 不处于待审核状态")
        else if C.contentSha256 r.content ≠ r.sha then
          .error (reviewPending "revision 内容与哈希不一致，审核绑定失效")
        else .ok (x entity r)
      | _, _ => .error internalError) = (.ok stage : Except ContentProblem Stage)) :
    ∃ entity r, w.entities.get? e = some entity ∧ w.revisions.get? rid = some r ∧
      r.status = .pendingReview ∧ stage = x entity r := by
  cases he : w.entities.get? e with
  | none =>
    simp only [he] at h
    cases h
  | some entity =>
    cases hr : w.revisions.get? rid with
    | none =>
      simp only [he, hr] at h
      cases h
    | some r =>
      simp only [he, hr] at h
      obtain ⟨-, h⟩ := ite_error_eq_ok.mp h
      obtain ⟨hpending, h⟩ := ite_error_eq_ok.mp h
      obtain ⟨-, h⟩ := ite_error_eq_ok.mp h
      cases h
      exact ⟨entity, r, rfl, rfl, not_not.mp hpending, rfl⟩

theorem Catalogue.editLocked_grants {kind : Kind} {user : UserId} {e' : EntityId} {content : ContentJson}
    (h : w.editLocked kind user e content = .ok stage) :
    CatalogueGrant C w e (.editEntity kind user e' content) stage := by
  obtain ⟨row, hrow, h⟩ := bind_eq_ok.mp h
  obtain ⟨hrow, hkind, -⟩ := Catalogue.ownEntity_eq_ok hrow
  cases hlatest : (w.revisionsOf e).find? fun r => w.latestNo e = some r.2.no with
  | none =>
    simp only [hlatest] at h
    cases h
    exact .newDraft 1 hrow hkind
  | some x =>
    obtain ⟨rid, r⟩ := x
    simp only [hlatest] at h
    obtain ⟨hr, he⟩ := Catalogue.mem_revisionsOf (List.mem_of_find?_eq_some hlatest)
    split at h
    · next hdraft =>
      cases h
      exact .overwrite hrow hkind hr he hdraft
    · cases h
      exact .newDraft (r.no + 1) hrow hkind

theorem Catalogue.submitLocked_grants {kind : Kind} {user : UserId} {e' : EntityId} {rid : RevisionId}
    {tools : List Tool} (h : w.submitLocked C kind user e rid tools = .ok stage) :
    CatalogueGrant C w e (.submitRevision kind user e' rid tools) stage := by
  obtain ⟨row, hrow, h⟩ := bind_eq_ok.mp h
  obtain ⟨hrow, hkind, -⟩ := Catalogue.ownEntity_eq_ok hrow
  cases hr : w.revisions.get? rid with
  | none =>
    simp only [hr] at h
    cases h
  | some r =>
    simp only [hr] at h
    obtain ⟨he, h⟩ := ite_error_eq_ok.mp h
    obtain ⟨hdraft, h⟩ := ite_error_eq_ok.mp h
    rw [not_not] at he hdraft
    cases hcheck : C.runAutoCheck kind r.content with
    | some summary =>
      simp only [hcheck] at h
      cases h
    | none =>
      cases htool : tools.find? fun t => (w.toolCatalog.get? t).isNone with
      | some t =>
        simp only [hcheck, htool] at h
        cases h
      | none =>
        simp only [hcheck, htool] at h
        cases h
        exact .submit hrow hkind hr he hdraft hcheck

theorem Catalogue.offlineLocked_grants {kind : Kind} {user : UserId} {e' : EntityId}
    (h : w.offlineLocked kind user e = .ok stage) :
    CatalogueGrant C w e (.offlineEntity kind user e') stage := by
  obtain ⟨row, hrow, h⟩ := bind_eq_ok.mp h
  have hrow := (Catalogue.ownEntity_eq_ok hrow).1
  cases hstatus : row.status with
  | published =>
    simp only [hstatus] at h
    cases h
    exact .offline hrow (.inl rfl)
  | draft =>
    simp only [hstatus] at h
    cases h
    exact .offline hrow (.inr rfl)
  | archived =>
    simp only [hstatus] at h
    cases h

theorem Catalogue.approveLocked_grants {kind : Kind} {rid : RevisionId}
    (h : w.approveLocked C kind e rid = .ok stage) :
    CatalogueGrant C w e (.approveRevision kind rid) stage := by
  unfold Catalogue.approveLocked at h
  cases kind with
  | expert =>
    obtain ⟨row, r, hrow, hr, hpending, rfl⟩ := Catalogue.reviewed_eq_ok h
    exact .checking hrow hr hpending
  | skill =>
    obtain ⟨row, r, hrow, hr, hpending, rfl⟩ := Catalogue.reviewed_eq_ok h
    exact .checking hrow hr hpending

theorem Catalogue.takedownLocked_grants {kind : Kind} {rid : RevisionId}
    (h : w.takedownLocked e = .ok stage) : CatalogueGrant C w e (.takedown kind rid) stage := by
  unfold Catalogue.takedownLocked at h
  cases hrow : w.entities.get? e with
  | none =>
    simp only [hrow] at h
    cases h
  | some row =>
    simp only [hrow] at h
    cases hpublished : row.published with
    | none =>
      simp only [hpublished] at h
      cases h
    | some current =>
      simp only [hpublished] at h
      cases h
      exact .takedown hrow hpublished

theorem Catalogue.lockedStage_grants (h : w.lockedStage C e call = .ok stage) :
    CatalogueGrant C w e call stage := by
  cases call with
  | createEntity kind user content => cases h
  | editEntity kind user e' content => exact Catalogue.editLocked_grants h
  | submitRevision kind user e' rid tools => exact Catalogue.submitLocked_grants h
  | offlineEntity kind user e' => exact Catalogue.offlineLocked_grants h
  | deleteEntity kind user e' =>
    obtain ⟨row, hrow, h⟩ := bind_eq_ok.mp h
    obtain ⟨hrow, hkind, -⟩ := Catalogue.ownEntity_eq_ok hrow
    cases h
    exact .counting hrow hkind
  | approveRevision kind rid => exact Catalogue.approveLocked_grants h
  | rejectRevision kind rid =>
    change w.rejectLocked C e rid = .ok stage at h
    unfold Catalogue.rejectLocked at h
    obtain ⟨row, r, hrow, hr, hpending, rfl⟩ := Catalogue.reviewed_eq_ok h
    exact .reject hrow hr hpending
  | takedown kind rid => exact Catalogue.takedownLocked_grants h

theorem Catalogue.approveCheck_advances {x : Approval} (h : w.approveCheck C x = .ok stage) :
    CatalogueAdvance C w call (.checking x) stage := by
  obtain ⟨e, rid, previous, checkedTools, tools, checkedRefs, refs⟩ := x
  cases tools with
  | cons t tools =>
    obtain ⟨henabled, h⟩ := ite_ok_else_error.mp h
    cases h
    exact .tool henabled
  | nil =>
    cases refs with
    | cons ref refs =>
      simp only [Catalogue.approveCheck] at h
      cases hparse : parseUuid C.unicode ref.revisionId with
      | none =>
        simp only [hparse] at h
        cases h
      | some srid =>
        simp only [hparse] at h
        obtain ⟨hpublished, h⟩ := ite_ok_else_error.mp h
        cases h
        obtain ⟨s, hs, hskill⟩ := (Option.any_eq_true _ _).mp hpublished
        rw [Bool.and_eq_true, decide_eq_true_iff, decide_eq_true_iff] at hskill
        exact .ref hparse hs hskill.1 hskill.2
    | nil =>
      obtain ⟨hpointer, h⟩ := ite_ok_else_error.mp h
      cases h
      obtain ⟨row, hrow, hprevious⟩ := (Option.any_eq_true _ _).mp hpointer
      exact .approved hrow (of_decide_eq_true hprevious)

theorem Catalogue.nextStage_advances (h : w.nextStage C call stage = .ok stage') :
    CatalogueAdvance C w call stage stage' := by
  cases stage with
  | validating done left =>
    cases left with
    | nil =>
      cases call with
      | createEntity kind user content =>
        cases h
        exact .created
      | editEntity kind user e content =>
        cases h
        exact .waits
      | _ => cases h
    | cons ref left =>
      cases call with
      | createEntity kind user content =>
        obtain ⟨⟨⟩, hvalid, h⟩ := bind_eq_ok.mp h
        cases h
        exact .validated rfl (mapError_eq_ok.mp hvalid)
      | editEntity kind user e content =>
        obtain ⟨⟨⟩, hvalid, h⟩ := bind_eq_ok.mp h
        cases h
        exact .validated rfl (mapError_eq_ok.mp hvalid)
      | _ => cases h
  | locking e => cases h
  | checking x => exact Catalogue.approveCheck_advances (mapError_eq_ok.mp h)
  | counting e =>
    cases call with
    | deleteEntity kind user e' =>
      obtain ⟨hcount, h⟩ := ite_error_eq_ok.mp h
      cases h
      exact .counted (Nat.eq_zero_of_not_pos hcount)
    | _ => cases h
  | ready write => cases h

theorem Catalogue.begin_moves (hfree : w.txs.get? id = none) (h : w.begin C id call = .ok w') :
    CatalogueMove C w (.begin id call) w' := by
  cases call with
  | createEntity kind user content =>
    obtain ⟨-, -, h⟩ := bind_eq_ok.mp h
    obtain ⟨-, -, h⟩ := bind_eq_ok.mp h
    obtain ⟨-, -, h⟩ := bind_eq_ok.mp h
    cases h
    exact .begun _ _ hfree (.inl ⟨content, rfl, rfl⟩)
  | editEntity kind user e content =>
    obtain ⟨-, -, h⟩ := bind_eq_ok.mp h
    obtain ⟨-, -, h⟩ := bind_eq_ok.mp h
    obtain ⟨-, -, h⟩ := bind_eq_ok.mp h
    cases h
    exact .begun _ _ hfree (.inl ⟨content, rfl, rfl⟩)
  | submitRevision kind user e rid tools =>
    obtain ⟨tools', -, h⟩ := bind_eq_ok.mp h
    cases hfind : tools'.find? harnessToolKeys.contains with
    | some t =>
      simp only [hfind] at h
      cases h
    | none =>
      simp only [hfind] at h
      obtain ⟨-, -, h⟩ := bind_eq_ok.mp h
      cases h
      exact .begun _ _ hfree (.inr ⟨e, rfl, by simp [Call.reviews?]⟩)
  | offlineEntity kind user e =>
    obtain ⟨-, -, h⟩ := bind_eq_ok.mp h
    cases h
    exact .begun _ _ hfree (.inr ⟨e, rfl, by simp [Call.reviews?]⟩)
  | deleteEntity kind user e =>
    obtain ⟨-, -, h⟩ := bind_eq_ok.mp h
    cases h
    exact .begun _ _ hfree (.inr ⟨e, rfl, by simp [Call.reviews?]⟩)
  | approveRevision kind rid =>
    simp only [Catalogue.begin] at h
    cases he : w.entityOf kind rid with
    | none =>
      simp only [he] at h
      cases h
    | some e =>
      simp only [he] at h
      cases h
      exact .begun _ _ hfree (.inr ⟨e, rfl, fun _ _ hreviews => by cases hreviews; exact he⟩)
  | rejectRevision kind rid =>
    simp only [Catalogue.begin] at h
    cases he : w.entityOf kind rid with
    | none =>
      simp only [he] at h
      cases h
    | some e =>
      simp only [he] at h
      cases h
      exact .begun _ _ hfree (.inr ⟨e, rfl, fun _ _ hreviews => by cases hreviews; exact he⟩)
  | takedown kind rid =>
    simp only [Catalogue.begin] at h
    cases he : w.entityOf kind rid with
    | none =>
      simp only [he] at h
      cases h
    | some e =>
      simp only [he] at h
      cases h
      exact .begun _ _ hfree (.inr ⟨e, rfl, by simp [Call.reviews?]⟩)

theorem Catalogue.step_moves (h : w.step C a = .ok w') : CatalogueMove C w a w' := by
  cases a with
  | begin id call =>
    simp only [Catalogue.step] at h
    cases hfree : w.txs.get? id with
    | some tx =>
      simp only [hfree] at h
      cases h
    | none =>
      simp only [hfree] at h
      exact Catalogue.begin_moves hfree (mapError_eq_ok.mp h)
  | lock id =>
    simp only [Catalogue.step] at h
    cases htx : w.txs.get? id with
    | none =>
      simp only [htx] at h
      cases h
    | some tx =>
      obtain ⟨call, stage⟩ := tx
      cases stage with
      | locking e =>
        simp only [htx] at h
        obtain ⟨hfree, h⟩ := ite_error_eq_ok.mp h
        obtain ⟨stage, hstage, h⟩ := bind_eq_ok.mp h
        cases h
        exact .granted htx (by simpa using hfree) (Catalogue.lockedStage_grants (mapError_eq_ok.mp hstage))
      | _ =>
        simp only [htx] at h
        cases h
  | next id =>
    simp only [Catalogue.step] at h
    cases htx : w.txs.get? id with
    | none =>
      simp only [htx] at h
      cases h
    | some tx =>
      simp only [htx] at h
      obtain ⟨stage, hstage, h⟩ := bind_eq_ok.mp h
      cases h
      exact .advanced htx (Catalogue.nextStage_advances hstage)
  | commit id e rid =>
    simp only [Catalogue.step] at h
    cases htx : w.txs.get? id with
    | none =>
      simp only [htx] at h
      cases h
    | some tx =>
      obtain ⟨call, stage⟩ := tx
      cases stage with
      | ready write =>
        simp only [htx] at h
        obtain ⟨hissued, h⟩ := ite_error_eq_ok.mp h
        obtain ⟨hfree, h⟩ := ite_error_eq_ok.mp h
        cases h
        rw [not_or, not_or] at hissued
        exact .committed htx hissued.1 hissued.2.1 hissued.2.2 (by simpa using hfree)
      | _ =>
        simp only [htx] at h
        cases h
  | rollBack id =>
    cases h
    exact .rolledBack
  | setToolEnabled tool enabled =>
    simp only [Catalogue.step] at h
    cases htool : w.toolCatalog.get? tool with
    | none =>
      simp only [htool] at h
      cases h
    | some before =>
      simp only [htool] at h
      cases h
      exact .switched
  | setAuthors authors =>
    cases h
    exact .aside authors w.tasks rfl
  | createTask rid =>
    simp only [Catalogue.step] at h
    cases hrid : w.revisions.get? rid with
    | none =>
      simp only [hrid] at h
      cases h
    | some r =>
      simp only [hrid] at h
      cases h
      exact .aside w.authors (rid :: w.tasks) rfl
  | dropTask rid =>
    cases h
    exact .aside w.authors (w.tasks.erase rid) rfl

end Moves

end AgentCraft.Content
