import AgentCraft.Access.Moderation
import AgentCraft.Transition.Fallible

/-!
# What a decision has locked

The statements of the decisions one by one: each takes only what is free, and what it has read under a lock
stands until the commit, which writes only what is locked.
-/

namespace AgentCraft.Access.Moderation

open AgentCraft.Relational AgentCraft.Transition
open AgentCraft.Content (Catalogue EntityId RevisionId)

/-- The report that is resolved, and how. -/
def AuditAction.resolves : AuditAction → Option (ReportId × ReportStatus)
  | dismiss r => some (r, .dismissed)
  | banAuthor r _ | takedown r _ _ _ => some (r, .actioned)
  | _ => none

/-- The user who is suspended, or no longer is. -/
def AuditAction.moves : AuditAction → Option (UserId × Bool)
  | banAuthor _ u | suspend u _ _ => some (u, true)
  | unsuspend u _ => some (u, false)
  | _ => none

/-! ## What is locked -/

/-- The user whose status the transaction has moved, and whether he is suspended then. -/
def Phase.moves : Phase → Option (UserId × Bool)
  | stripping _ u _ | strippingRow _ u _ _ => some (u, true)
  | ready (.banned _ u _ _) | ready (.suspended u _) => some (u, true)
  | ready (.unsuspended u _) => some (u, false)
  | _ => none

/-- The row of an entitlement that it has deleted. -/
def Phase.deletes : Phase → Option (RowId × Entitlement)
  | ready (.banned _ u _ (some row)) => some (row, authorship u)
  | ready (.revoked x row) => some (row, x)
  | _ => none

/-- The row that it is about to lock. -/
def Phase.finds : Phase → Option (RowId × Entitlement)
  | strippingRow _ u _ row => some (row, authorship u)
  | revokingRow x row => some (row, x)
  | _ => none

/-- The entitlement that it has inserted. -/
def Phase.inserts : Phase → Option Entitlement
  | ready (.granted x) => some x
  | _ => none

/-- The status of a user that it has read for its audit row. -/
def Phase.read : Phase → Option (UserId × UserStatus)
  | flipping none u before | unflipping u before => some (u, before)
  | ready (.suspended u before) | ready (.unsuspended u before) => some (u, before)
  | _ => none

/-- The user has the status. -/
def Bureau.Has (w : Bureau) (u : UserId) (status : UserStatus) : Prop :=
  ∃ row, w.users.get? u = some row ∧ row.status = status

/-- What a transaction relies on. -/
structure Phase.Current (w : Bureau) (p : Phase) : Prop where
  report : ∀ r, .report r ∈ p.holds → ∃ report, w.reports.get? r = some report ∧ report.status = .opened
  user : ∀ u suspended, p.moves = some (u, suspended) →
    ∃ row, w.users.get? u = some row ∧ (row.status = .suspended ↔ suspended = false)
  row : ∀ row x, p.deletes = some (row, x) → w.entitlements.get? row = some x
  found : ∀ row x, p.finds = some (row, x) → row ∈ w.issued ∧ ∀ y, w.entitlements.get? row = some y → y = x
  place : ∀ x, p.inserts = some x → ∀ row, w.entitlements.get? row ≠ some x

/-- What is locked is as it was. -/
def Bureau.Keeps (w w' : Bureau) : LockRow → Prop
  | .report r => w'.reports.get? r = w.reports.get? r
  | .user u => w'.users.get? u = w.users.get? u
  | .entitlement x => ∀ row, w'.entitlements.get? row = some x ↔ w.entitlements.get? row = some x
  | .entity _ => True

/-- The numbers that have been given to rows are given to no others. -/
def Bureau.Numbered (w w' : Bureau) : Prop :=
  ∀ row ∈ w.issued, row ∈ w'.issued ∧
    ∀ y, w'.entitlements.get? row = some y → w.entitlements.get? row = some y

variable {w w' : Bureau} {p p' : Phase} {tx : TxId} {x : Tx} {call : Call} {outcome : Outcome} {a : Action}
  {r : ReportId} {u : UserId} {row : RowId} {entitlement : Entitlement} {l : LockRow} {suspended : Bool}

theorem Phase.mem_holds_of_moves (h : p.moves = some (u, suspended)) : .user u ∈ p.holds := by
  cases p with
  | stripping | strippingRow =>
    cases h
    simp [holds]
  | ready outcome =>
    cases outcome with
    | banned r u before row =>
      cases h
      cases row <;> simp [holds, Outcome.holds]
    | suspended | unsuspended =>
      cases h
      simp [holds, Outcome.holds]
    | _ => cases h
  | _ => cases h

theorem Phase.mem_holds_of_deletes (h : p.deletes = some (row, entitlement)) :
    .entitlement entitlement ∈ p.holds := by
  cases p with
  | ready outcome =>
    cases outcome with
    | banned r u before row =>
      cases row with
      | none => cases h
      | some row =>
        cases h
        simp [holds, Outcome.holds]
    | revoked =>
      cases h
      simp [holds, Outcome.holds]
    | _ => cases h
  | _ => cases h

theorem Phase.mem_holds_of_inserts (h : p.inserts = some entitlement) : .entitlement entitlement ∈ p.holds := by
  cases p with
  | ready outcome =>
    cases outcome with
    | granted =>
      cases h
      exact List.mem_singleton_self _
    | _ => cases h
  | _ => cases h

/-- What a transaction relies on is locked, but for the number of a row. -/
theorem Phase.Current.of_keeps (h : p.Current w) (hk : ∀ l ∈ p.holds, w.Keeps w' l) (hn : w.Numbered w') :
    p.Current w' where
  report r hr := by
    obtain ⟨report, hget, hopened⟩ := h.report r hr
    exact ⟨report, (hk _ hr).trans hget, hopened⟩
  user u suspended hu := by
    obtain ⟨row, hget, hstatus⟩ := h.user u suspended hu
    exact ⟨row, (hk _ (mem_holds_of_moves hu)).trans hget, hstatus⟩
  row row x hx := (hk _ (mem_holds_of_deletes hx) row).mpr (h.row row x hx)
  found row x hx := by
    obtain ⟨hissued, hget⟩ := h.found row x hx
    exact ⟨(hn row hissued).1, fun y hy => hget y ((hn row hissued).2 y hy)⟩
  place x hx row hget := h.place x hx row ((hk _ (mem_holds_of_inserts hx) row).mp hget)

/-- A transaction that relies on its report at most. -/
theorem Phase.Current.of_report (hmoves : p.moves = none) (hdeletes : p.deletes = none)
    (hfinds : p.finds = none) (hinserts : p.inserts = none)
    (hreport : ∀ r, .report r ∈ p.holds → ∃ report, w.reports.get? r = some report ∧ report.status = .opened) :
    p.Current w where
  report := hreport
  user := by simp [hmoves]
  row := by simp [hdeletes]
  found := by simp [hfinds]
  place := by simp [hinserts]

/-! ## The next statement -/

theorem Bureau.withLock_eq_ok {phase : Except Problem Phase} :
    w.withLock tx l phase = .ok p' ↔ w.rowLocked tx l = false ∧ phase = .ok p' := by
  rw [withLock, ite_error_eq_ok, mapError_eq_ok, Bool.not_eq_true]

/-- The row of an entitlement is one that is there. -/
theorem Bureau.entitlementRow_eq_some (h : w.entitlementRow entitlement = some row) :
    w.entitlements.get? row = some entitlement := by
  obtain ⟨x, hx, rfl⟩ := Option.map_eq_some_iff.mp h
  have hfound : x.2 = entitlement := by simpa using List.find?_some hx
  exact Table.get?_eq_some_iff.mpr (hfound ▸ List.mem_of_find?_eq_some hx)

theorem Bureau.entitlementRow_eq_none (h : w.entitlementRow entitlement = none) (row : RowId) :
    w.entitlements.get? row ≠ some entitlement := by
  intro hget
  have hnone := List.find?_eq_none.mp (Option.map_eq_none_iff.mp h) _ (Table.get?_eq_some_iff.mp hget)
  simp at hnone

/-- A transaction that goes on takes only what is free, relies only on what stands, and has read what it had
read before or what stands. -/
structure Bureau.Goes (w : Bureau) (tx : TxId) (p p' : Phase) : Prop where
  holds : ∀ l ∈ p'.holds, l ∈ p.holds ∨ w.rowLocked tx l = false
  current : p'.Current w
  read : ∀ u before, p'.read = some (u, before) → p.read = some (u, before) ∨ w.Has u before

/-- A step that locks at most the report. -/
theorem Bureau.Goes.of_report (hmoves : p'.moves = none) (hdeletes : p'.deletes = none)
    (hfinds : p'.finds = none) (hinserts : p'.inserts = none)
    (hread : p'.read = none)
    (hreport : ∀ r, .report r ∈ p'.holds → ∃ report, w.reports.get? r = some report ∧ report.status = .opened)
    (hholds : ∀ l ∈ p'.holds, l ∈ p.holds ∨ w.rowLocked tx l = false) : w.Goes tx p p' :=
  ⟨hholds, .of_report hmoves hdeletes hfinds hinserts hreport, by simp [hread]⟩

/-- A step that locks nothing and keeps its locks. -/
theorem Bureau.Goes.of_same (hp : p.Current w) (hmoves : p'.moves = none) (hdeletes : p'.deletes = none)
    (hfinds : p'.finds = none) (hinserts : p'.inserts = none)
    (hread : ∀ u before, p'.read = some (u, before) → w.Has u before) (hholds : p'.holds = p.holds) :
    w.Goes tx p p' :=
  ⟨fun _ hl => .inl (hholds ▸ hl),
    .of_report hmoves hdeletes hfinds hinserts fun r hr => hp.report r (hholds ▸ hr),
    fun u before h => .inr (hread u before h)⟩

theorem Bureau.resolve_goes {action : ReportAction} (hfree : w.rowLocked tx (.report r) = false)
    (h : w.resolve r action = .ok p') : w.Goes tx (.resolving r action) p' := by
  unfold resolve at h
  split at h
  · cases h
  · next report hreport =>
    obtain ⟨hopened, h⟩ := ite_error_eq_ok.mp h
    have hgoes {p' : Phase} (hholds : p'.holds = [.report r]) (hmoves : p'.moves = none)
        (hdeletes : p'.deletes = none) (hfinds : p'.finds = none) (hinserts : p'.inserts = none)
        (hread : p'.read = none) : w.Goes tx (.resolving r action) p' := by
      refine .of_report hmoves hdeletes hfinds hinserts hread (fun r' hr' => ?_) fun l hl => ?_
      · rw [hholds, List.mem_singleton] at hr'
        cases hr'
        exact ⟨report, hreport, not_not.mp hopened⟩
      · rw [hholds, List.mem_singleton] at hl
        exact .inr (hl ▸ hfree)
    split at h
    all_goals
      cases h
      try exact hgoes rfl rfl rfl rfl rfl rfl

theorem Bureau.takedown_goes {e : EntityId} (hp : (Phase.takingEntity r e).Current w)
    (hfree : w.rowLocked tx (.entity e) = false) (h : w.takedown r e = .ok p') :
    w.Goes tx (.takingEntity r e) p' := by
  unfold takedown at h
  split at h
  · cases h
  · split at h
    · cases h
    · split at h
      · cases h
      · cases h
        refine .of_report rfl rfl rfl rfl rfl (fun r' hr' => ?_) fun l hl => ?_
        · simp only [Phase.holds, Outcome.holds, List.mem_cons, reduceCtorEq, List.not_mem_nil, or_false] at hr'
          cases hr'
          exact hp.report r List.mem_cons_self
        · simp only [Phase.holds, Outcome.holds, List.mem_cons, List.not_mem_nil, or_false] at hl
          rcases hl with rfl | rfl
          · exact .inl List.mem_cons_self
          · exact .inr hfree

theorem Bureau.flip_goes {report : Option ReportId} {before : UserStatus}
    (hp : (Phase.flipping report u before).Current w) (hfree : w.rowLocked tx (.user u) = false)
    (h : w.flip report u before = .ok p') : w.Goes tx (.flipping report u before) p' := by
  unfold flip at h
  split at h
  · cases h
  · next row hrow =>
    obtain ⟨hstatus, h⟩ := ite_ok_else_error.mp h
    have hmoves (u' : UserId) (suspended : Bool) (heq : some (u, true) = some (u', suspended)) :
        ∃ row, w.users.get? u' = some row ∧ (row.status = .suspended ↔ suspended = false) := by
      cases heq
      refine ⟨row, hrow, ?_⟩
      rcases hstatus with hstatus | hstatus <;> simp [hstatus]
    cases report with
    | none =>
      cases h
      refine ⟨fun l hl => ?_, ⟨by simp [Phase.holds, Outcome.holds], hmoves, by simp [Phase.deletes],
        by simp [Phase.finds], by simp [Phase.inserts]⟩, fun _ _ hread => .inl hread⟩
      exact .inr (List.mem_singleton.mp hl ▸ hfree)
    | some r =>
      cases h
      refine ⟨fun l hl => ?_, ⟨fun r' hr' => hp.report r' ?_, hmoves, by simp [Phase.deletes],
        by simp [Phase.finds], by simp [Phase.inserts]⟩, by simp [Phase.read]⟩
      · rcases List.mem_cons.mp hl with rfl | hl
        · exact .inl List.mem_cons_self
        · exact .inr (List.mem_singleton.mp hl ▸ hfree)
      · simpa [Phase.holds] using hr'

theorem Bureau.unflip_goes {before : UserStatus} (hfree : w.rowLocked tx (.user u) = false)
    (h : w.unflip u before = .ok p') : w.Goes tx (.unflipping u before) p' := by
  unfold unflip at h
  split at h
  · cases h
  · next row hrow =>
    obtain ⟨hstatus, h⟩ := ite_ok_else_error.mp h
    cases h
    refine ⟨fun l hl => ?_, ⟨by simp [Phase.holds, Outcome.holds], ?_, by simp [Phase.deletes],
      by simp [Phase.finds], by simp [Phase.inserts]⟩, fun _ _ hread => .inl hread⟩
    · exact .inr (List.mem_singleton.mp hl ▸ hfree)
    · rintro u' suspended ⟨⟩
      exact ⟨row, hrow, by simp [hstatus]⟩

/-- A ban that has the lock of the entitlement, or has found none. -/
theorem Bureau.goes_banned {before : UserStatus} {found : Option RowId}
    (hp : p.Current w) (hholds : p.holds = [.report r, .user u]) (hmoves : p.moves = some (u, true))
    (hrow : ∀ row, found = some row → w.entitlements.get? row = some (authorship u) ∧
      w.rowLocked tx (.entitlement (authorship u)) = false) :
    w.Goes tx p (.ready (.banned r u before found)) := by
  refine ⟨fun l hl => ?_, ⟨fun r' hr' => hp.report r' ?_, fun u' s heq => hp.user u' s (hmoves.trans heq), ?_,
    by simp [Phase.finds], by simp [Phase.inserts]⟩, by simp [Phase.read]⟩
  · rw [hholds]
    cases found with
    | none => exact .inl hl
    | some row =>
      rcases List.mem_cons.mp hl with rfl | hl
      · exact .inl List.mem_cons_self
      · rcases List.mem_cons.mp hl with rfl | hl
        · exact .inl (List.mem_cons_of_mem _ List.mem_cons_self)
        · exact .inr (List.mem_singleton.mp hl ▸ (hrow row rfl).2)
  · rw [hholds]
    cases found <;> simpa [Phase.holds, Outcome.holds] using hr'
  · cases found with
    | none => simp [Phase.deletes]
    | some row =>
      rintro row' x ⟨⟩
      exact (hrow row rfl).1

/-- Every statement takes only what is free, and relies only on what stands. -/
theorem Bureau.nextPhase_goes (hissued : ∀ row x, w.entitlements.get? row = some x → row ∈ w.issued)
    (hp : p.Current w) (h : w.nextPhase tx p = .ok p') : w.Goes tx p p' := by
  -- A row that has been found is that of the entitlement.
  have hfound {y : Entitlement} {row : RowId} (hrow : w.entitlementRow y = some row) :
      row ∈ w.issued ∧ ∀ x, w.entitlements.get? row = some x → x = y := by
    have hget := entitlementRow_eq_some hrow
    exact ⟨hissued row y hget, fun x hx => Option.some.inj (hx.symm.trans hget)⟩
  cases p with
  | resolving r action =>
    obtain ⟨hfree, h⟩ := withLock_eq_ok.mp h
    exact resolve_goes hfree h
  | banning r kind target | taking r kind target =>
    have h := mapError_eq_ok.mp h
    obtain ⟨e, -, rfl⟩ := map_eq_ok.mp h
    exact .of_same hp rfl rfl rfl rfl (by simp [Phase.read]) rfl
  | owning r e =>
    simp only [nextPhase] at h
    split at h
    · cases h
    · cases h
      exact .of_same hp rfl rfl rfl rfl (by simp [Phase.read]) rfl
  | takingEntity r e =>
    obtain ⟨hfree, h⟩ := withLock_eq_ok.mp h
    exact takedown_goes hp hfree h
  | reading report u =>
    simp only [nextPhase] at h
    split at h
    · cases h
    · next row hrow =>
      cases h
      cases report with
      | none => exact .of_same hp rfl rfl rfl rfl (by rintro _ _ ⟨⟩; exact ⟨row, hrow, rfl⟩) rfl
      | some r => exact .of_same hp rfl rfl rfl rfl (by simp [Phase.read]) rfl
  | flipping report u before =>
    obtain ⟨hfree, h⟩ := withLock_eq_ok.mp h
    exact flip_goes hp hfree h
  | stripping r u before =>
    simp only [nextPhase] at h
    split at h
    · cases h
      exact goes_banned hp rfl rfl (by simp)
    · next row hrow =>
      cases h
      refine ⟨fun l hl => .inl hl, ⟨hp.report, hp.user, by simp [Phase.deletes], ?_, by simp [Phase.inserts]⟩,
        by simp [Phase.read]⟩
      rintro row' x ⟨⟩
      exact hfound hrow
  | strippingRow r u before row =>
    obtain ⟨hfree, h⟩ := withLock_eq_ok.mp h
    cases h
    refine goes_banned hp rfl rfl fun row' hrow' => ?_
    obtain ⟨y, hy, rfl⟩ := Option.map_eq_some_iff.mp hrow'
    rw [(hp.found row _ rfl).2 y hy] at hy
    exact ⟨hy, hfree⟩
  | restoring u =>
    simp only [nextPhase] at h
    split at h
    · cases h
    · next row hrow =>
      cases h
      exact .of_same hp rfl rfl rfl rfl (by rintro _ _ ⟨⟩; exact ⟨row, hrow, rfl⟩) rfl
  | unflipping u before =>
    obtain ⟨hfree, h⟩ := withLock_eq_ok.mp h
    exact unflip_goes hfree h
  | granting x =>
    obtain ⟨-, h⟩ := ite_error_eq_ok.mp h
    cases h
    exact .of_same hp rfl rfl rfl rfl (by simp [Phase.read]) rfl
  | inserting x =>
    obtain ⟨hfree, h⟩ := withLock_eq_ok.mp h
    obtain ⟨hnone, h⟩ := ite_error_eq_ok.mp h
    cases h
    refine ⟨fun l hl => .inr (List.mem_singleton.mp hl ▸ hfree), ⟨by simp [Phase.holds, Outcome.holds],
      by simp [Phase.moves], by simp [Phase.deletes], by simp [Phase.finds], ?_⟩, by simp [Phase.read]⟩
    rintro x' ⟨⟩
    exact entitlementRow_eq_none (Option.not_isSome_iff_eq_none.mp hnone)
  | revoking x =>
    simp only [nextPhase] at h
    split at h
    · cases h
    · next row hrow =>
      cases h
      refine ⟨by simp [Phase.holds], ⟨by simp [Phase.holds], by simp [Phase.moves], by simp [Phase.deletes], ?_,
        by simp [Phase.inserts]⟩, by simp [Phase.read]⟩
      rintro row' x' ⟨⟩
      exact hfound hrow
  | revokingRow x row =>
    obtain ⟨hfree, h⟩ := withLock_eq_ok.mp h
    obtain ⟨hsome, h⟩ := ite_ok_else_error.mp h
    cases h
    refine ⟨fun l hl => .inr (List.mem_singleton.mp hl ▸ hfree), ⟨by simp [Phase.holds, Outcome.holds],
      by simp [Phase.moves], ?_, by simp [Phase.finds], by simp [Phase.inserts]⟩, by simp [Phase.read]⟩
    rintro row' x' ⟨⟩
    obtain ⟨y, hy⟩ := Option.isSome_iff_exists.mp hsome
    rw [(hp.found row _ rfl).2 y hy] at hy
    exact hy
  | ready outcome => cases h

/-! ## Commits -/

/-- What becomes of a report by a commit. -/
def AuditAction.afterReport (a : AuditAction) (r : ReportId) (report : Report) : Report :=
  match a.resolves with
  | some (r', status) => if r = r' then { report with status := status } else report
  | none => report

/-- A commit that is about another report. -/
theorem AuditAction.afterReport_of_ne {a : AuditAction} (h : ∀ status, a.resolves ≠ some (r, status)) :
    a.afterReport r = id := by
  funext report
  unfold afterReport
  split
  · next r' status hr' =>
    refine if_neg ?_
    rintro rfl
    exact h status hr'
  · rfl

/-- Who resolves a report has locked it. -/
theorem Outcome.resolves_audit {status : ReportStatus} (h : (outcome.audit row).resolves = some (r, status)) :
    .report r ∈ outcome.holds ∧ status ≠ .opened := by
  cases outcome with
  | dismissed | takenDown =>
    cases h
    exact ⟨List.mem_cons_self, by simp⟩
  | banned r' u before found =>
    cases h
    exact ⟨by cases found <;> exact List.mem_cons_self, by simp⟩
  | suspended | unsuspended | granted | revoked => cases h

theorem Bureau.get?_reports_finish : (w.finish tx row call outcome).reports.get? r =
    (w.reports.get? r).map ((outcome.audit row).afterReport r) := by
  have hset (status : ReportStatus) (r' : ReportId) : (w.setStatus r' status).reports.get? r =
      (w.reports.get? r).map fun report => if r = r' then { report with status := status } else report :=
    Table.get?_map _ _ _
  have hsame : w.reports.get? r = (w.reports.get? r).map fun report => report := Option.map_id'.symm
  cases outcome with
  | dismissed r' => exact hset .dismissed r'
  | banned r' u before found => cases found <;> exact hset .actioned r'
  | takenDown r' e rid sha => exact hset .actioned r'
  | suspended | unsuspended | granted | revoked => exact hsame

/-- The row of a user after a commit. -/
def Phase.afterUser (p : Phase) (u : UserId) (row : UserRow) : UserRow :=
  match p.moves with
  | some (u', true) => if u = u' then ⟨.suspended, if row.status = .deleting then none else row.deadline⟩ else row
  | some (u', false) => if u = u' then { row with status := .active } else row
  | none => row

/-- A commit that is about another user. -/
theorem Phase.afterUser_of_ne (h : ∀ suspended, p.moves ≠ some (u, suspended)) : p.afterUser u = id := by
  funext user
  unfold afterUser
  split
  · next u' hu' =>
    refine if_neg ?_
    rintro rfl
    exact h true hu'
  · next u' hu' =>
    refine if_neg ?_
    rintro rfl
    exact h false hu'
  · rfl

theorem Bureau.get?_users_finish : (w.finish tx row call outcome).users.get? u =
    (w.users.get? u).map ((Phase.ready outcome).afterUser u) := by
  have hsame : w.users.get? u = (w.users.get? u).map fun row => row := Option.map_id'.symm
  cases outcome with
  | banned r u' before found => cases found <;> exact Table.get?_map _ _ _
  | suspended | unsuspended => exact Table.get?_map _ _ _
  | dismissed | takenDown | granted | revoked => exact hsame

/-- The rows of entitlements after a commit: without the deleted one, or with the new one. -/
theorem Bureau.get?_entitlements_finish (hfree : w.entitlements.get? row = none) {row' : RowId} {y : Entitlement} :
    (w.finish tx row call outcome).entitlements.get? row' = some y ↔
      outcome = .granted y ∧ row' = row ∨
        w.entitlements.get? row' = some y ∧ ∀ x, (Phase.ready outcome).deletes ≠ some (row', x) := by
  have hdelete (row₀ : RowId) (x₀ : Entitlement) :
      (w.entitlements.filter fun row' _ => row' ≠ row₀).get? row' = some y ↔
        w.entitlements.get? row' = some y ∧ ∀ x, some (row₀, x₀) ≠ some (row', x) := by
    rw [Table.get?_filter, Option.filter_eq_some_iff]
    have hne : (∀ x, some (row₀, x₀) ≠ some (row', x)) ↔ row' ≠ row₀ := by
      constructor
      · rintro hall rfl
        exact hall x₀ rfl
      · rintro hne x ⟨⟩
        exact hne rfl
    rw [hne, decide_eq_true_iff]
  have hsame : w.entitlements.get? row' = some y ↔
      w.entitlements.get? row' = some y ∧ ∀ x : Entitlement, none ≠ some (row', x) := by simp
  have hother {p : Prop} (hne : outcome ≠ .granted y) : p ↔ outcome = .granted y ∧ row' = row ∨ p :=
    (or_iff_right fun h => hne h.1).symm
  cases outcome with
  | granted x =>
    have hinsert : (w.finish tx row call (.granted x)).entitlements.get? row' =
        if row' = row then some x else w.entitlements.get? row' := Table.get?_insert hfree row' x
    rw [hinsert]
    by_cases hrow : row' = row
    · subst hrow
      simp [hfree]
    · simp [hrow, Phase.deletes]
  | banned r u before found =>
    cases found with
    | none => exact hsame.trans (hother (by simp))
    | some row₀ => exact (hdelete row₀ (authorship u)).trans (hother (by simp))
  | revoked x row₀ => exact (hdelete row₀ x).trans (hother (by simp))
  | dismissed | takenDown | suspended | unsuspended => exact hsame.trans (hother (by simp))

/-- A commit leaves alone what its transaction has not locked. -/
theorem Bureau.finish_keeps (hc : (Phase.ready outcome).Current w) (hfree : w.entitlements.get? row = none)
    (hl : l ∉ outcome.holds) : w.Keeps (w.finish tx row call outcome) l := by
  cases l with
  | report r =>
    have hsame : (outcome.audit row).afterReport r = id :=
      AuditAction.afterReport_of_ne fun status h => hl (Outcome.resolves_audit h).1
    show (w.finish tx row call outcome).reports.get? r = w.reports.get? r
    rw [get?_reports_finish, hsame, Option.map_id, id]
  | user u =>
    have hsame : (Phase.ready outcome).afterUser u = id :=
      Phase.afterUser_of_ne fun suspended h => hl (Phase.mem_holds_of_moves h)
    show (w.finish tx row call outcome).users.get? u = w.users.get? u
    rw [get?_users_finish, hsame, Option.map_id, id]
  | entitlement x =>
    intro row'
    rw [get?_entitlements_finish hfree]
    constructor
    · rintro (⟨rfl, -⟩ | ⟨hget, -⟩)
      · exact absurd (List.mem_singleton_self _) hl
      · exact hget
    · intro hget
      refine .inr ⟨hget, fun y hdeletes => hl ?_⟩
      -- The row that is deleted is that of another entitlement.
      have hy := hc.row row' y hdeletes
      rw [hget] at hy
      cases hy
      exact Phase.mem_holds_of_deletes hdeletes
  | entity e => trivial

/-- A commit closes its own transaction only. -/
theorem Bureau.finish_txs : (w.finish tx row call outcome).txs = w.txs.filter fun tx' _ => tx' ≠ tx := by
  cases outcome with
  | banned r u before found => cases found <;> rfl
  | dismissed | takenDown | suspended | unsuspended | granted | revoked => rfl

theorem Bureau.get?_txs_finish {tx' : TxId} {x : Tx}
    (hx : (w.finish tx row call outcome).txs.get? tx' = some x) : w.txs.get? tx' = some x ∧ tx' ≠ tx := by
  rw [finish_txs, Table.get?_filter, Option.filter_eq_some_iff, decide_eq_true_iff] at hx
  exact hx

theorem Bureau.finish_issued : w.issued ⊆ (w.finish tx row call outcome).issued := by
  intro row' hrow'
  cases outcome with
  | granted => exact List.mem_cons_of_mem _ hrow'
  | banned r u before found => cases found <;> exact hrow'
  | dismissed | takenDown | suspended | unsuspended | revoked => exact hrow'

theorem Bureau.finish_numbered (hrow : row ∉ w.issued) (hfree : w.entitlements.get? row = none) :
    w.Numbered (w.finish tx row call outcome) := by
  refine fun row' hrow' => ⟨finish_issued hrow', fun y hy => ?_⟩
  rcases (get?_entitlements_finish hfree).mp hy with ⟨-, rfl⟩ | ⟨hget, -⟩
  · exact absurd hrow' hrow
  · exact hget

end AgentCraft.Access.Moderation
