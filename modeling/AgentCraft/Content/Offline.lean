import AgentCraft.Content.Publication

/-!
# Tasks of withdrawn experts

`offline_entity` and a takedown turn the entity back into a draft. The gate of `create_task` looks at the
status of the revision only; that an expert is withdrawn reaches it through the row-level policies, which
hide the revision from everybody but its owner. A takedown also archives the revision; `offline_entity`
leaves it published.
-/

namespace AgentCraft.Content

open AgentCraft.Relational AgentCraft.Transition

/-- The catalogue, and the entities that have been taken offline or down since their last approval. -/
structure Shelf where
  catalogue : Catalogue
  withdrawn : List EntityId

/-- The labels of the system. -/
inductive ShelfAction
  | other (a : CatalogueAction)
  /-- `create_task`. `rest` is what the other checks of the operation say. -/
  | createTask (user : UserId) (revision : RevisionId) (rest : Option ContentProblem)

/-- `REVISION_NOT_PUBLISHED` of `create_task`. -/
def revisionNotSelectable : ContentProblem := ⟨400, "REVISION_NOT_PUBLISHED", "专家修订版本不存在或未发布"⟩

/-- The gate of `create_task`: the revision is published, as the session of the user sees it. -/
def Catalogue.selectable (w : Catalogue) (user : UserId) (rid : RevisionId) : Bool :=
  (w.visibleRevision .expert user rid).any (·.status = .published)

/-- A commit that withdraws an entity, or ends its withdrawal. -/
def Write.withdraws (withdrawn : List EntityId) : Write → List EntityId
  | .offline e | .unchanged e | .takedown e _ => e :: withdrawn
  | .approve e _ _ => withdrawn.filter (· ≠ e)
  | _ => withdrawn

/-- What becomes of the withdrawn entities with a step of the catalogue. -/
def Shelf.after (s : Shelf) : CatalogueAction → List EntityId
  | .commit id _ _ =>
    match s.catalogue.txs.get? id with
    | some ⟨_, .ready write⟩ => write.withdraws s.withdrawn
    | _ => s.withdrawn
  | _ => s.withdrawn

def CatalogueAction.createsTask : CatalogueAction → Bool
  | .createTask _ => true
  | _ => false

variable (C : Checks)

/-- The step function. -/
def Shelf.step (s : Shelf) : ShelfAction → Except CatalogueFailure Shelf
  | .other a =>
    if a.createsTask then .error .notEnabled
    else do
      let catalogue ← s.catalogue.step C a
      .ok ⟨catalogue, s.after a⟩
  | .createTask user rid rest =>
    if s.catalogue.selectable user rid then
      match rest with
      | some p => .error (.problem p)
      | none => .ok { s with catalogue := { s.catalogue with tasks := rid :: s.catalogue.tasks } }
    else .error (.problem revisionNotSelectable)

/-- Experts and the tasks that are created with them. -/
def shelf : System Shelf ShelfAction CatalogueFailure := ⟨Shelf.step C⟩

/-- No content yet. -/
structure Shelf.Initial (s : Shelf) : Prop where
  catalogue : s.catalogue.Initial
  withdrawn : s.withdrawn = []

/-- No task is created with a revision of a withdrawn expert. -/
def Shelf.Blocks (s : Shelf) : ShelfAction → Prop
  | .createTask user rid rest => ∀ r, s.catalogue.revisions.get? rid = some r → r.entity ∈ s.withdrawn →
      ¬ (shelf C).Commits s (.createTask user rid rest)
  | .other _ => True

/-- The condition: nobody else has an objection, and it is not the author who asks for a revision that is
still published. -/
def Shelf.NotByAuthor (s : Shelf) : ShelfAction → Prop
  | .createTask user rid rest => ∀ r row, s.catalogue.revisions.get? rid = some r →
      s.catalogue.entities.get? r.entity = some row → r.entity ∈ s.withdrawn → r.kind = .expert →
      r.status = .published → rest = none → user ≠ r.owner ∧ user ≠ row.owner
  | .other _ => True

section Offline

variable {C : Checks} {s s' s₀ : Shelf} {w : Catalogue} {e : EntityId}

/-- The invariant: a withdrawn entity is not published, nor is one that an `offline_entity` has found so. -/
structure Shelf.Hidden (C : Checks) (s : Shelf) : Prop where
  kept : s.catalogue.Kept C
  hidden : ∀ e ∈ s.withdrawn, ∀ row, s.catalogue.entities.get? e = some row → row.status ≠ .published
  idle : ∀ id tx e, s.catalogue.txs.get? id = some tx → tx.stage = .ready (.unchanged e) →
    ∀ row, s.catalogue.entities.get? e = some row → row.status ≠ .published

/-- `offline_entity` has nothing to do when the entity is not published. -/
theorem Catalogue.lockedStage_unchanged {call : Call} {e' : EntityId} {row : Entity}
    (h : w.lockedStage C e call = .ok (.ready (.unchanged e'))) (hrow : w.entities.get? e' = some row) :
    row.status ≠ .published := by
  have hgrant := Catalogue.lockedStage_grants h
  cases hgrant with
  | offline hrow' hwrite =>
    rcases hwrite with hwrite | hwrite
    · cases hwrite
    · cases hwrite
      obtain ⟨row', hown, h⟩ := bind_eq_ok.mp h
      rw [(Catalogue.ownEntity_eq_ok hown).1] at hrow
      cases hrow
      intro hpublished
      rw [hpublished] at h
      cases h

/-- What a commit withdraws is not published afterwards, and what is withdrawn stays so. -/
theorem Catalogue.apply_hidden {write : Write} {withdrawn : List EntityId} {newEntity : EntityId}
    {newRevision : RevisionId} {row : Entity}
    (hold : ∀ e ∈ withdrawn, ∀ row, w.entities.get? e = some row → row.status ≠ .published)
    (hidle : ∀ e, write = .unchanged e → ∀ row, w.entities.get? e = some row → row.status ≠ .published)
    (he : e ∈ write.withdraws withdrawn)
    (hrow : (w.apply C newEntity newRevision write).entities.get? e = some row) : row.status ≠ .published := by
  cases write with
  | create kind owner content =>
    rcases Table.get?_insert_cases hrow with hrow | ⟨-, rfl⟩
    · exact hold e he row hrow
    · exact fun h => by cases h
  | offline e' =>
    obtain ⟨row₀, hrow₀, rfl⟩ := Catalogue.get?_setEntity hrow
    split
    · exact fun h => by cases h
    · next hne => exact hold e ((List.mem_cons.mp he).resolve_left hne) row₀ hrow₀
  | unchanged e' =>
    rcases List.mem_cons.mp he with rfl | he
    · exact hidle e rfl row hrow
    · exact hold e he row hrow
  | delete e' =>
    change (w.entities.filter _).get? e = some row at hrow
    rw [Table.get?_filter, Option.filter_eq_some_iff] at hrow
    exact hold e he row hrow.1
  | approve e' rid previous =>
    obtain ⟨hmem, hne⟩ := List.mem_filter.mp he
    obtain ⟨row₀, hrow₀, rfl⟩ := Catalogue.get?_setEntity hrow
    rw [if_neg (of_decide_eq_true hne)]
    exact hold e hmem row₀ hrow₀
  | takedown e' rid =>
    obtain ⟨row₀, hrow₀, rfl⟩ := Catalogue.get?_setEntity hrow
    split
    · exact fun h => by cases h
    · next hne => exact hold e ((List.mem_cons.mp he).resolve_left hne) row₀ hrow₀
  | _ => exact hold e he row hrow

/-- A step of the catalogue. -/
theorem Shelf.Hidden.other (hs : s.Hidden C) {a : CatalogueAction} {w' : Catalogue}
    (h : s.catalogue.step C a = .ok w') : Shelf.Hidden C ⟨w', s.after a⟩ := by
  have hkept := hs.kept.step h
  have hmoves := Catalogue.step_moves h
  refine ⟨hkept, ?_, ?_⟩
  · cases hmoves with
    | committed htx he hrid hne hfree =>
      intro e' he' row hrow
      simp only [Shelf.after, htx] at he'
      refine Catalogue.apply_hidden hs.hidden ?_ he' hrow
      rintro e₁ rfl row₁ hrow₁
      exact hs.idle _ _ e₁ htx rfl row₁ hrow₁
    | aside authors tasks ha =>
      have hsame : s.after a = s.withdrawn := by
        cases a with
        | commit id e rid => cases ha
        | _ => rfl
      rw [hsame]
      exact hs.hidden
    | _ => exact hs.hidden
  · cases hmoves with
    | begun call stage hfree hstage =>
      intro id tx e' hid hready
      rcases Table.get?_insert_cases hid with hid | ⟨-, rfl⟩
      · exact hs.idle id tx e' hid hready
      · rcases hstage with ⟨content, -, rfl⟩ | ⟨e₁, rfl, -⟩ <;> cases hready
    | granted htx hfree hgrant =>
      rename_i id₀ call e₀ stage
      intro id tx e' hid hready
      rcases Table.get?_set_cases hid with hid | ⟨-, rfl⟩
      · exact hs.idle id tx e' hid hready
      · change stage = _ at hready
        subst hready
        intro row hrow
        simp only [Catalogue.step, htx] at h
        obtain ⟨-, h⟩ := ite_error_eq_ok.mp h
        obtain ⟨stage, hstage, heq⟩ := bind_eq_ok.mp h
        have hset := congrArg (fun w : Catalogue => w.txs.get? id₀) (Except.ok.inj heq)
        simp only [Table.get?_set_self htx, Option.some.injEq, Tx.mk.injEq] at hset
        rw [hset.2] at hstage
        exact Catalogue.lockedStage_unchanged (mapError_eq_ok.mp hstage) hrow
    | advanced htx hadvance =>
      rename_i id₀ tx₀ stage
      intro id tx e' hid hready
      rcases Table.get?_set_cases hid with hid | ⟨-, rfl⟩
      · exact hs.idle id tx e' hid hready
      · change _ = Stage.ready (Write.unchanged e') at hready
        generalize tx₀.call = call at hadvance
        generalize tx₀.stage = before at hadvance
        cases hadvance <;> cases hready
    | committed htx he hrid hne hfree =>
      intro id tx e' hid hready row hrow
      obtain ⟨hid, hother⟩ := Catalogue.get?_txs_commit hid
      have hholds : tx.stage.holds = some e' := by
        rw [hready]
        rfl
      have hu := hs.kept.commit_untouched htx he hrid hid hother hholds
      exact hs.idle id tx e' hid hready row (hu.entity.symm.trans hrow)
    | rolledBack =>
      intro id tx e' hid hready
      rw [Catalogue.close, Table.get?_filter, Option.filter_eq_some_iff] at hid
      exact hs.idle id tx e' hid.1 hready
    | _ => exact hs.idle

theorem Shelf.Hidden.step (hs : s.Hidden C) {a : ShelfAction} (h : s.step C a = .ok s') : s'.Hidden C := by
  cases a with
  | other a =>
    obtain ⟨-, h⟩ := ite_error_eq_ok.mp h
    obtain ⟨w', hw', h⟩ := bind_eq_ok.mp h
    cases h
    exact hs.other hw'
  | createTask user rid rest =>
    obtain ⟨-, h⟩ := ite_ok_else_error.mp h
    cases rest with
    | some p => cases h
    | none =>
      cases h
      exact ⟨hs.kept.of_fewer rfl rfl rfl fun _ _ hid => hid, hs.hidden, hs.idle⟩

/-! ## The gate -/

/-- For a withdrawn expert the gate is open to the author only, and only while the revision is published. -/
theorem Shelf.Hidden.selectable_iff (hs : s.Hidden C) {user : UserId} {rid : RevisionId} {r : Revision}
    {row : Entity} (hr : s.catalogue.revisions.get? rid = some r)
    (hrow : s.catalogue.entities.get? r.entity = some row) (hw : r.entity ∈ s.withdrawn) :
    s.catalogue.selectable user rid = true ↔
      r.kind = .expert ∧ r.status = .published ∧ (user = r.owner ∨ user = row.owner) := by
  obtain ⟨row', hrow', hfits⟩ := hs.kept.sound.fits rid r hr
  rw [hrow] at hrow'
  cases hrow'
  simp only [Catalogue.selectable, Catalogue.visibleRevision, hr, Option.filter_some]
  constructor
  · intro h
    split at h
    · next hvis =>
      simp only [Bool.and_eq_true, decide_eq_true_eq, Bool.or_eq_true] at hvis
      obtain ⟨hkind, hvis⟩ := hvis
      refine ⟨hkind, of_decide_eq_true h, ?_⟩
      rcases hvis with howner | hany
      · exact .inl howner.symm
      · obtain ⟨⟨e', row'⟩, hmem, hx⟩ := List.any_eq_true.mp hany
        simp only [Bool.and_eq_true, decide_eq_true_eq, Bool.or_eq_true] at hx
        obtain ⟨⟨-, hpointer⟩, hsees⟩ := hx
        have hrow' := Table.get?_eq_some_iff.mpr hmem
        -- the pointer names the row of the expert itself
        obtain ⟨r', hr', he', -⟩ := hs.kept.sound.pointer e' row' rid hrow' hpointer
        rw [hr] at hr'
        cases hr'
        subst he'
        rw [hrow] at hrow'
        cases hrow'
        rcases hsees with hpublished | howner
        · exact absurd hpublished (hs.hidden _ hw row hrow)
        · exact .inr howner.symm
    · cases h
  · rintro ⟨hkind, hstatus, howner⟩
    have hpointer := hfits.pointed hstatus
    have hvis : (decide (r.kind = .expert) && (decide (r.owner = user) ||
        s.catalogue.entities.rows.any fun x => decide (x.2.kind = .expert) &&
          decide (x.2.published = some rid) &&
          (decide (x.2.status = .published) || decide (x.2.owner = user)))) = true := by
      simp only [Bool.and_eq_true, decide_eq_true_eq, Bool.or_eq_true]
      refine ⟨hkind, howner.imp Eq.symm fun ho => ?_⟩
      refine List.any_eq_true.mpr ⟨(r.entity, row), Table.get?_eq_some_iff.mp hrow, ?_⟩
      simp [← hfits.kind, hkind, hpointer, ho]
    rw [if_pos hvis]
    simp [hstatus]

/-- A task is created when the gate is open and the other checks pass. -/
theorem Shelf.commits_createTask_iff {user : UserId} {rid : RevisionId} {rest : Option ContentProblem} :
    (shelf C).Commits s (.createTask user rid rest) ↔
      s.catalogue.selectable user rid = true ∧ rest = none := by
  constructor
  · rintro ⟨s', h⟩
    obtain ⟨hsel, h⟩ := ite_ok_else_error.mp h
    cases rest with
    | some p => cases h
    | none => exact ⟨hsel, rfl⟩
  · rintro ⟨hsel, rfl⟩
    exact ⟨_, ite_ok_else_error.mpr ⟨hsel, rfl⟩⟩

/-- A step that creates a task with a revision of a withdrawn expert. -/
theorem Shelf.Hidden.blocks_iff (hs : s.Hidden C) (a : ShelfAction) : s.Blocks C a ↔ s.NotByAuthor a := by
  cases a with
  | other a => exact Iff.rfl
  | createTask user rid rest =>
    constructor
    · intro h r row hr hrow hw hkind hstatus hrest
      have hno := h r hr hw
      rw [Shelf.commits_createTask_iff, hs.selectable_iff hr hrow hw, not_and] at hno
      by_contra howner
      refine hno ⟨hkind, hstatus, ?_⟩ hrest
      by_contra hneither
      exact howner ⟨fun h => hneither (.inl h), fun h => hneither (.inr h)⟩
    · intro h r hr hw hcommit
      obtain ⟨row, hrow, -⟩ := hs.kept.sound.fits rid r hr
      obtain ⟨hsel, hrest⟩ := Shelf.commits_createTask_iff.mp hcommit
      obtain ⟨hkind, hstatus, howner⟩ := (hs.selectable_iff hr hrow hw).mp hsel
      obtain ⟨hne, hne'⟩ := h r row hr hrow hw hkind hstatus hrest
      rcases howner with ho | ho
      · exact hne ho
      · exact hne' ho

/-! ## Runs -/

theorem Shelf.Initial.hidden (h₀ : s.Initial) : s.Hidden C where
  kept := .initial h₀.catalogue
  hidden := by simp [h₀.withdrawn]
  idle := by simp [h₀.catalogue.txs]

/-- In every run: no task is created with a revision of a withdrawn expert if and only if the author does
not ask for one whose revision is still published. -/
theorem Shelf.blocks_of_run_iff (h₀ : s₀.Initial) (as : List ShelfAction) :
    (shelf C).Guarded (fun s a => s.Blocks C a) s₀ as ↔ (shelf C).Guarded (fun s a => s.NotByAuthor a) s₀ as := by
  constructor
  · exact System.Guarded.of_invariant (I := Shelf.Hidden C) (fun _ _ _ hs _ h => hs.step h)
      (fun _ a hs h => (hs.blocks_iff a).mp h) h₀.hidden
  · exact System.Guarded.of_invariant (I := Shelf.Hidden C) (fun _ _ _ hs _ h => hs.step h)
      (fun _ a hs h => (hs.blocks_iff a).mpr h) h₀.hidden

end Offline

/-- No content, and one author. -/
def emptyShelf : Shelf := ⟨emptyCatalogue, []⟩

/-- The expert 1 of author `a` is approved with revision 2 and then taken offline. -/
def offlineExpert : List ShelfAction :=
  [.begin 0 (.createEntity .expert "a" ⟨[("name", ["first"])], []⟩), .next 0, .commit 0 1 2,
    .begin 0 (.submitRevision .expert "a" 1 2 []), .lock 0, .commit 0 3 4,
    .begin 0 (.approveRevision .expert 2), .lock 0, .next 0, .commit 0 3 4,
    .begin 0 (.offlineEntity .expert "a" 1), .lock 0, .commit 0 3 4].map .other

/-- User `b` asks for a task of the expert and is refused. -/
theorem Shelf.blocks_of_run_iff_stranger :
    ((shelf plainChecks).Guarded (fun s a => s.Blocks plainChecks a) emptyShelf
        (offlineExpert ++ [.createTask "b" 2 none]) ↔
      (shelf plainChecks).Guarded (fun s a => s.NotByAuthor a) emptyShelf
        (offlineExpert ++ [.createTask "b" 2 none])) ∧
      ((shelf plainChecks).run emptyShelf offlineExpert).withdrawn = [1] ∧
      ((shelf plainChecks).run emptyShelf (offlineExpert ++ [.createTask "b" 2 none])).catalogue.tasks = [] :=
  ⟨Shelf.blocks_of_run_iff ⟨⟨rfl, rfl, rfl⟩, rfl⟩ _, by decide +kernel, by decide +kernel⟩

/-- The author creates a task of the expert that is offline. -/
theorem Shelf.not_blocks_of_offline :
    ¬ (shelf plainChecks).Guarded (fun s a => s.Blocks plainChecks a) emptyShelf
        (offlineExpert ++ [.createTask "a" 2 none]) := by
  intro h
  have hblocks := (System.Guarded.append.mp h).2.1
  have hentity : (((shelf plainChecks).run emptyShelf offlineExpert).catalogue.revisions.get? 2).map
      (·.entity) = some 1 := by decide +kernel
  have hwithdrawn : 1 ∈ ((shelf plainChecks).run emptyShelf offlineExpert).withdrawn := by decide +kernel
  have hopen : ((shelf plainChecks).run emptyShelf offlineExpert).catalogue.selectable "a" 2 = true := by
    decide +kernel
  obtain ⟨r, hr, he⟩ := Option.map_eq_some_iff.mp hentity
  exact hblocks r hr (he ▸ hwithdrawn) (Shelf.commits_createTask_iff.mpr ⟨hopen, rfl⟩)

end AgentCraft.Content
