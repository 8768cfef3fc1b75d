import AgentCraft.Access.ModerationSteps
import AgentCraft.Transition.Trace

/-!
# What the audit rows tell

Whatever the interleaving, the audit rows of administrators account for what they have decided: a report has
the one row of its resolution, the suspensions of a user and their ends alternate and say whether the user is
suspended, and every entitlement is backed by the one row of its grant. The status before a suspension is read
without a lock and written into the audit row; it is right when nobody moves the status in between.
-/

namespace AgentCraft.Access.Moderation

open AgentCraft.Relational AgentCraft.Transition
open AgentCraft.Content (Catalogue EntityId RevisionId)

/-! ## Readings of the audit rows -/

def AuditAction.grants : AuditAction → Option (RowId × Entitlement)
  | grant x row => some (row, x)
  | _ => none

def AuditAction.revokes : AuditAction → Option (RowId × Entitlement)
  | revoke x row => some (row, x)
  | _ => none

/-- What the rows tell about a key. -/
def readings {κ α : Type} [DecidableEq κ] (f : AuditAction → Option (κ × α)) (k : κ) (audit : List AuditLog) :
    List α :=
  audit.filterMap fun a => ((f a.action).filter (·.1 = k)).map (·.2)

/-- The status that a report has been given. -/
def Report.resolution (report : Report) : List ReportStatus :=
  if report.status = .opened then [] else [report.status]

/-- The audit rows about a report are the one of its resolution. -/
def Bureau.ResolvedOnce (w : Bureau) : Prop :=
  ∀ r, readings AuditAction.resolves r w.audit = ((w.reports.get? r).map Report.resolution).getD []

/-- The user is suspended. -/
def Bureau.isSuspended (w : Bureau) (u : UserId) : Bool := (w.users.get? u).any (·.status = .suspended)

/-- Suspensions and their ends alternate, and the last one says whether the user is suspended. -/
def Bureau.Alternating (w : Bureau) : Prop :=
  ∀ u, ∃ n, readings AuditAction.moves u w.audit =
    (List.replicate n [true, false]).flatten ++ if w.isSuspended u then [true] else []

/-- Entitlements are backed by audit rows. -/
structure Bureau.Backed (w : Bureau) : Prop where
  /-- Nobody has an entitlement twice. -/
  unique : ∀ row row' x, w.entitlements.get? row = some x → w.entitlements.get? row' = some x → row = row'
  /-- It has been granted once and not been revoked. -/
  granted : ∀ row x, w.entitlements.get? row = some x →
    readings AuditAction.grants row w.audit = [x] ∧ readings AuditAction.revokes row w.audit = []
  /-- What has been revoked was granted, and is gone. -/
  revoked : ∀ row x, x ∈ readings AuditAction.revokes row w.audit → w.entitlements.get? row = none ∧
    readings AuditAction.grants row w.audit = [x] ∧ readings AuditAction.revokes row w.audit = [x]
  /-- What has been granted and is gone was revoked, or its user banned as an author. -/
  accounted : ∀ row x, x ∈ readings AuditAction.grants row w.audit → w.entitlements.get? row = some x ∨
    x ∈ readings AuditAction.revokes row w.audit ∨
    ∃ a ∈ w.audit, ∃ r u, a.action = .banAuthor r u ∧ x = authorship u

section Readings

variable {κ α : Type} [DecidableEq κ] {f : AuditAction → Option (κ × α)} {k : κ} {audit : List AuditLog}
  {a : AuditLog} {v : α}

theorem readings_concat : readings f k (audit ++ [a]) =
    readings f k audit ++ (((f a.action).filter (·.1 = k)).map (·.2)).toList := by
  rw [readings, List.filterMap_append]
  rfl

theorem readings_of_ne (h : ∀ v, f a.action ≠ some (k, v)) :
    readings f k (audit ++ [a]) = readings f k audit := by
  rw [readings_concat]
  cases hf : f a.action with
  | none => exact List.append_nil _
  | some x =>
    obtain ⟨k', v⟩ := x
    have hne : k' ≠ k := by
      rintro rfl
      exact h v hf
    rw [Option.filter_some, if_neg (by simpa using hne)]
    exact List.append_nil _

theorem readings_of_eq (h : f a.action = some (k, v)) :
    readings f k (audit ++ [a]) = readings f k audit ++ [v] := by
  rw [readings_concat, h, Option.filter_some, if_pos (by simp)]
  rfl

theorem mem_readings_concat :
    v ∈ readings f k (audit ++ [a]) ↔ v ∈ readings f k audit ∨ f a.action = some (k, v) := by
  rw [readings_concat, List.mem_append, Option.mem_toList]
  cases hf : f a.action with
  | none => simp
  | some x =>
    obtain ⟨k', v'⟩ := x
    by_cases hk : k' = k <;> simp [Option.filter, hk]

end Readings

variable {w w' : Bureau} {p p' : Phase} {tx : TxId} {x : Tx} {call : Call} {outcome : Outcome} {a : Action}
  {r : ReportId} {u : UserId} {row : RowId} {entitlement : Entitlement} {l : LockRow} {suspended : Bool}

/-! ## The invariant -/

/-- The locks, what they keep, and what the audit rows tell. -/
structure Bureau.Sound (w : Bureau) : Prop where
  exclusive : HeldOnce Tx.holds w.txs
  current : ∀ tx x, w.txs.get? tx = some x → x.phase.Current w
  issued : ∀ row x, w.entitlements.get? row = some x → row ∈ w.issued
  fresh : ∀ row, row ∉ w.issued →
    readings AuditAction.grants row w.audit = [] ∧ readings AuditAction.revokes row w.audit = []
  resolved : w.ResolvedOnce
  alternating : w.Alternating
  backed : w.Backed

/-- What the audit rows account for is as it was. -/
theorem Bureau.Sound.of_same (hw : w.Sound) (haudit : w'.audit = w.audit)
    (hentitlements : w'.entitlements = w.entitlements) (hissued : w'.issued = w.issued)
    (hreports : ∀ r, ((w'.reports.get? r).map Report.resolution).getD [] =
      ((w.reports.get? r).map Report.resolution).getD [])
    (husers : ∀ u, w'.isSuspended u = w.isSuspended u) (hexclusive : HeldOnce Tx.holds w'.txs)
    (hcurrent : ∀ tx x, w'.txs.get? tx = some x → x.phase.Current w') : w'.Sound where
  exclusive := hexclusive
  current := hcurrent
  issued := by
    rw [hentitlements, hissued]
    exact hw.issued
  fresh := by
    rw [haudit, hissued]
    exact hw.fresh
  resolved r := by
    rw [haudit, hreports]
    exact hw.resolved r
  alternating u := by
    rw [haudit, husers]
    exact hw.alternating u
  backed := by
    obtain ⟨hunique, hgranted, hrevoked, haccounted⟩ := hw.backed
    constructor
    · rw [hentitlements]
      exact hunique
    · rw [hentitlements, haudit]
      exact hgranted
    · rw [hentitlements, haudit]
      exact hrevoked
    · rw [hentitlements, haudit]
      exact haccounted

/-- The numbers of the rows are as they were. -/
theorem Bureau.Numbered.of_same (hentitlements : w'.entitlements = w.entitlements) (hissued : w'.issued = w.issued) :
    w.Numbered w' := by
  intro row hrow
  rw [hentitlements, hissued]
  exact ⟨hrow, fun y hy => hy⟩

theorem Phase.Current.of_same (h : p.Current w) (husers : w'.users = w.users)
    (hentitlements : w'.entitlements = w.entitlements) (hreports : w'.reports = w.reports)
    (hissued : w'.issued = w.issued) : p.Current w' := by
  refine h.of_keeps (fun l _ => ?_) (.of_same hentitlements hissued)
  cases l with
  | report r => exact congrArg (·.get? r) hreports
  | user u => exact congrArg (·.get? u) husers
  | entitlement x =>
    intro row
    rw [hentitlements]
  | entity => trivial

/-- Only the transactions change. -/
theorem Bureau.Sound.of_txs (hw : w.Sound) {txs : Table TxId Tx} (hexclusive : HeldOnce Tx.holds txs)
    (hcurrent : ∀ tx x, txs.get? tx = some x → x.phase.Current w) : ({ w with txs := txs } : Bureau).Sound :=
  hw.of_same rfl rfl rfl (fun _ => rfl) (fun _ => rfl) hexclusive fun tx x hx =>
    (hcurrent tx x hx).of_same rfl rfl rfl rfl

/-- A transaction has moved the status of the user that it has locked. -/
theorem Phase.moves_of_mem_holds (h : .user u ∈ p.holds) : ∃ suspended, p.moves = some (u, suspended) := by
  cases p with
  | stripping r u' | strippingRow r u' =>
    have heq : u = u' := by simpa [holds] using h
    exact ⟨true, heq ▸ rfl⟩
  | reading report u' | flipping report u' => cases report <;> simp [holds] at h
  | ready outcome =>
    cases outcome with
    | banned r u' before found =>
      have heq : u = u' := by cases found <;> simpa [holds, Outcome.holds] using h
      exact ⟨true, heq ▸ rfl⟩
    | suspended u' before =>
      have heq : u = u' := by simpa [holds, Outcome.holds] using h
      exact ⟨true, heq ▸ rfl⟩
    | unsuspended u' before =>
      have heq : u = u' := by simpa [holds, Outcome.holds] using h
      exact ⟨false, heq ▸ rfl⟩
    | _ => simp [holds, Outcome.holds] at h
  | _ => simp [holds] at h

theorem Bureau.firstPhase_current {request : Request} (h : w.firstPhase request = .ok p) :
    p.holds = [] ∧ p.Current w ∧ p.read = none := by
  have hidle {p : Phase} (hholds : p.holds = []) (hmoves : p.moves = none) (hdeletes : p.deletes = none)
      (hfinds : p.finds = none) (hinserts : p.inserts = none) (hread : p.read = none) :
      p.holds = [] ∧ p.Current w ∧ p.read = none :=
    ⟨hholds, .of_report hmoves hdeletes hfinds hinserts (by simp [hholds]), hread⟩
  cases request with
  | resolveReport | suspendUser | unsuspendUser =>
    cases h
    exact hidle rfl rfl rfl rfl rfl rfl
  | grantEntitlement u kind | revokeEntitlement u kind =>
    obtain ⟨-, -, h⟩ := bind_eq_ok.mp h
    obtain ⟨-, -, h⟩ := bind_eq_ok.mp h
    cases h
    exact hidle rfl rfl rfl rfl rfl rfl

/-- The row of a user is written by a statement for which it is free. -/
theorem Bureau.Sound.moveUser (hw : w.Sound) {before : UserStatus} {f : UserRow → UserRow}
    (hbefore : before ≠ .suspended) (hafter : ∀ row, row.status = before → (f row).status ≠ .suspended)
    (h : w.moveUser u before f = .ok w') : w'.Sound := by
  obtain ⟨hcond, h⟩ := ite_error_eq_ok.mp h
  cases h
  rw [not_or, Bool.not_eq_true, not_not] at hcond
  obtain ⟨hlocked, hrow⟩ := hcond
  obtain ⟨row, hrow, hstatus⟩ := Option.map_eq_some_iff.mp hrow
  refine hw.of_same rfl rfl rfl (fun _ => rfl) (fun u' => ?_) hw.exclusive fun tx x hx => ?_
  · simp only [isSuspended, Table.get?_map]
    by_cases hu : u' = u
    · subst hu
      simp [hrow, hafter row hstatus, hstatus, hbefore]
    · simp [hu]
  · refine (hw.current tx x hx).of_keeps (fun l hl => ?_) (.of_same rfl rfl)
    cases l with
    | user u' =>
      show (w.users.map _).get? u' = w.users.get? u'
      have hu : u' ≠ u := by
        rintro rfl
        have hheld : w.locked (.user u') = true :=
          List.any_eq_true.mpr ⟨(tx, x), Table.get?_eq_some_iff.mp hx, List.contains_iff_mem.mpr hl⟩
        rw [hlocked] at hheld
        cases hheld
      rw [Table.get?_map]
      simp [hu]
    | report => rfl
    | entitlement => exact fun _ => Iff.rfl
    | entity => trivial

/-! ## What a commit writes down -/

theorem Outcome.moves_audit : (outcome.audit row).moves = (Phase.ready outcome).moves := by
  cases outcome <;> rfl

theorem Bureau.ResolvedOnce.finish (hw : w.ResolvedOnce) (hc : (Phase.ready outcome).Current w) :
    (w.finish tx row call outcome).ResolvedOnce := by
  intro r
  have haudit : (w.finish tx row call outcome).audit =
      w.audit ++ [⟨call.admin, outcome.audit row, call.reason, call.requestId⟩] := rfl
  rw [haudit, get?_reports_finish]
  by_cases hresolves : ∃ status, (outcome.audit row).resolves = some (r, status)
  · obtain ⟨status, hresolves⟩ := hresolves
    obtain ⟨hheld, hstatus⟩ := Outcome.resolves_audit hresolves
    obtain ⟨report, hreport, hopened⟩ := hc.report r hheld
    rw [readings_of_eq hresolves, hw r, hreport]
    simp [AuditAction.afterReport, hresolves, Report.resolution, hopened, hstatus]
  · have hne (status : ReportStatus) : (outcome.audit row).resolves ≠ some (r, status) :=
      fun h => hresolves ⟨status, h⟩
    rw [readings_of_ne hne, hw r, AuditAction.afterReport_of_ne hne, Option.map_id, id]

theorem Bureau.Alternating.finish (hw : w.Alternating) (hc : (Phase.ready outcome).Current w) :
    (w.finish tx row call outcome).Alternating := by
  intro u
  have haudit : (w.finish tx row call outcome).audit =
      w.audit ++ [⟨call.admin, outcome.audit row, call.reason, call.requestId⟩] := rfl
  obtain ⟨n, hn⟩ := hw u
  by_cases hmoves : ∃ suspended, (Phase.ready outcome).moves = some (u, suspended)
  · obtain ⟨suspended, hmoves⟩ := hmoves
    obtain ⟨user, huser, hstatus⟩ := hc.user u suspended hmoves
    have hafter : (w.finish tx row call outcome).isSuspended u = suspended := by
      rw [isSuspended, get?_users_finish, huser]
      cases suspended <;> simp [Phase.afterUser, hmoves]
    have hbefore : w.isSuspended u = !suspended := by
      rw [isSuspended, huser]
      cases suspended <;> simpa using hstatus
    rw [haudit, readings_of_eq (Outcome.moves_audit.trans hmoves), hn, hafter, hbefore]
    cases suspended with
    | true => exact ⟨n, by simp⟩
    | false => exact ⟨n + 1, by simp [List.replicate_succ']⟩
  · have hne (suspended : Bool) : (Phase.ready outcome).moves ≠ some (u, suspended) :=
      fun h => hmoves ⟨suspended, h⟩
    have hafter : (w.finish tx row call outcome).isSuspended u = w.isSuspended u := by
      rw [isSuspended, get?_users_finish, Phase.afterUser_of_ne hne, Option.map_id, id, isSuspended]
    refine ⟨n, ?_⟩
    rw [haudit, readings_of_ne fun suspended h => hne suspended (Outcome.moves_audit.symm.trans h), hn, hafter]

theorem Outcome.grants_audit {row' : RowId} {y : Entitlement} :
    (outcome.audit row).grants = some (row', y) ↔ outcome = .granted y ∧ row' = row := by
  cases outcome <;> simp [audit, AuditAction.grants, eq_comm, and_comm]

theorem Outcome.revokes_audit {row' : RowId} {y : Entitlement} :
    (outcome.audit row).revokes = some (row', y) ↔ outcome = .revoked y row' := by
  cases outcome <;> simp [audit, AuditAction.revokes, and_comm]

/-- Rows are deleted by revocations and by bans. -/
theorem Outcome.deletes_eq_some {row' : RowId} {y : Entitlement}
    (h : (Phase.ready outcome).deletes = some (row', y)) :
    outcome = .revoked y row' ∨ ∃ r u before, outcome = .banned r u before (some row') ∧ y = authorship u := by
  cases outcome with
  | banned r u before found =>
    cases found with
    | none => cases h
    | some found =>
      cases h
      exact .inr ⟨r, u, before, rfl, rfl⟩
  | revoked x row =>
    cases h
    exact .inl rfl
  | _ => cases h

section Backing

variable {row' : RowId} {y : Entitlement}

/-- Only a grant is read for a row, and only for its new row. -/
theorem Bureau.grants_finish (hrow : row' ≠ row) :
    readings AuditAction.grants row' (w.finish tx row call outcome).audit =
      readings AuditAction.grants row' w.audit :=
  readings_of_ne fun _ h => hrow (Outcome.grants_audit.mp h).2

theorem Bureau.revokes_finish (h : ∀ y, (Phase.ready outcome).deletes ≠ some (row', y)) :
    readings AuditAction.revokes row' (w.finish tx row call outcome).audit =
      readings AuditAction.revokes row' w.audit := by
  refine readings_of_ne fun y hy => h y ?_
  rw [Outcome.revokes_audit.mp hy]
  rfl

/-- A row that is there has been granted before, and is not the new one. -/
theorem Bureau.Sound.row_ne (hw : w.Sound) (hrow : row ∉ w.issued) (hget : w.entitlements.get? row' = some y) :
    row' ≠ row := by
  rintro rfl
  exact hrow (hw.issued row' y hget)

theorem Bureau.Sound.backed_finish (hw : w.Sound) (hc : (Phase.ready outcome).Current w) (hrow : row ∉ w.issued) :
    (w.finish tx row call outcome).Backed := by
  have hfree : w.entitlements.get? row = none := by
    cases hget : w.entitlements.get? row with
    | none => rfl
    | some x => exact absurd rfl (hw.row_ne hrow hget)
  refine ⟨fun row₁ row₂ y h₁ h₂ => ?_, fun row' y h => ?_, fun row' y h => ?_, fun row' y h => ?_⟩
  · -- A row that is inserted was nobody's before.
    have hnew {row' : RowId} (hgranted : outcome = .granted y) : w.entitlements.get? row' ≠ some y := by
      subst hgranted
      exact hc.place y rfl row'
    rcases (get?_entitlements_finish hfree).mp h₁ with ⟨hgranted, rfl⟩ | ⟨hget₁, -⟩
    · rcases (get?_entitlements_finish hfree).mp h₂ with ⟨-, rfl⟩ | ⟨hget₂, -⟩
      · rfl
      · exact absurd hget₂ (hnew hgranted)
    · rcases (get?_entitlements_finish hfree).mp h₂ with ⟨hgranted, -⟩ | ⟨hget₂, -⟩
      · exact absurd hget₁ (hnew hgranted)
      · exact hw.backed.unique row₁ row₂ y hget₁ hget₂
  · rcases (get?_entitlements_finish hfree).mp h with ⟨rfl, rfl⟩ | ⟨hget, hkept⟩
    · obtain ⟨hgrants, hrevokes⟩ := hw.fresh row' hrow
      constructor
      · refine (readings_of_eq rfl).trans ?_
        rw [hgrants]
        rfl
      · exact (revokes_finish (by simp [Phase.deletes])).trans hrevokes
    · rw [grants_finish (hw.row_ne hrow hget), revokes_finish hkept]
      exact hw.backed.granted row' y hget
  · rcases mem_readings_concat.mp h with hold | hnew
    · obtain ⟨hget, hgrants, hrevokes⟩ := hw.backed.revoked row' y hold
      have hne : row' ≠ row := by
        rintro rfl
        rw [(hw.fresh row' hrow).2] at hold
        cases hold
      have hkept (x : Entitlement) : (Phase.ready outcome).deletes ≠ some (row', x) := by
        intro hdeletes
        rw [hc.row row' x hdeletes] at hget
        cases hget
      refine ⟨?_, (grants_finish hne).trans hgrants, (revokes_finish hkept).trans hrevokes⟩
      rw [Option.eq_none_iff_forall_ne_some]
      intro x hx
      rcases (get?_entitlements_finish hfree).mp hx with ⟨-, heq⟩ | ⟨hx, -⟩
      · exact hne heq
      · rw [hget] at hx
        cases hx
    · obtain rfl := Outcome.revokes_audit.mp hnew
      have hget := hc.row row' y rfl
      obtain ⟨hgrants, hrevokes⟩ := hw.backed.granted row' y hget
      refine ⟨?_, (grants_finish (hw.row_ne hrow hget)).trans hgrants, ?_⟩
      · rw [Option.eq_none_iff_forall_ne_some]
        intro x hx
        rcases (get?_entitlements_finish hfree).mp hx with ⟨hgranted, -⟩ | ⟨-, hkept⟩
        · cases hgranted
        · exact hkept y rfl
      · refine (readings_of_eq rfl).trans ?_
        rw [hrevokes]
        rfl
  · rcases mem_readings_concat.mp h with hold | hnew
    · rcases hw.backed.accounted row' y hold with hget | hrevoked | ⟨a, ha, r, u, haction, rfl⟩
      · by_cases hdeleted : ∃ x, (Phase.ready outcome).deletes = some (row', x)
        · obtain ⟨x, hdeletes⟩ := hdeleted
          have hx := hc.row row' x hdeletes
          rw [hget] at hx
          cases hx
          rcases Outcome.deletes_eq_some hdeletes with rfl | ⟨r, u, before, rfl, rfl⟩
          · exact .inr (.inl (mem_readings_concat.mpr (.inr rfl)))
          · exact .inr (.inr ⟨_, List.mem_append_right _ (List.mem_singleton_self _), r, u, rfl, rfl⟩)
        · exact .inl ((get?_entitlements_finish hfree).mpr (.inr ⟨hget, fun x hx => hdeleted ⟨x, hx⟩⟩))
      · exact .inr (.inl (mem_readings_concat.mpr (.inl hrevoked)))
      · exact .inr (.inr ⟨a, List.mem_append_left _ ha, r, u, haction, rfl⟩)
    · obtain ⟨rfl, rfl⟩ := Outcome.grants_audit.mp hnew
      exact .inl ((get?_entitlements_finish hfree).mpr (.inl ⟨rfl, rfl⟩))

end Backing

theorem Bureau.Sound.finish (hw : w.Sound) (hx : w.txs.get? tx = some ⟨call, .ready outcome⟩)
    (hrow : row ∉ w.issued) : (w.finish tx row call outcome).Sound := by
  have hc := hw.current tx _ hx
  have hfree : w.entitlements.get? row = none := by
    cases hget : w.entitlements.get? row with
    | none => rfl
    | some x => exact absurd rfl (hw.row_ne hrow hget)
  refine ⟨?_, ?_, ?_, ?_, hw.resolved.finish hc, hw.alternating.finish hc, hw.backed_finish hc hrow⟩
  · rw [finish_txs]
    exact hw.exclusive.filter _
  · intro tx' x hx'
    obtain ⟨hx', hne⟩ := get?_txs_finish hx'
    refine (hw.current tx' x hx').of_keeps (fun l hl => finish_keeps hc hfree fun hl' => hne ?_)
      (finish_numbered hrow hfree)
    exact hw.exclusive tx' x tx _ l hx' hx hl hl'
  · intro row' y hy
    rcases (get?_entitlements_finish hfree).mp hy with ⟨rfl, rfl⟩ | ⟨hget, -⟩
    · exact List.mem_cons_self
    · exact finish_issued (hw.issued row' y hget)
  · intro row' hrow'
    have hne : row' ∉ w.issued := fun h => hrow' (finish_issued h)
    obtain ⟨hgrants, hrevokes⟩ := hw.fresh row' hne
    constructor
    · refine (readings_of_ne fun y hy => ?_).trans hgrants
      obtain ⟨rfl, rfl⟩ := Outcome.grants_audit.mp hy
      exact hrow' List.mem_cons_self
    · refine (revokes_finish fun y hy => hne ?_).trans hrevokes
      exact hw.issued row' y (hc.row row' y hy)

theorem Bureau.Sound.step (hw : w.Sound) (h : w.step a = .ok w') : w'.Sound := by
  cases a with
  | begin tx call =>
    simp only [step] at h
    split at h
    · cases h
    · obtain ⟨phase, hphase, h⟩ := bind_eq_ok.mp h
      cases h
      obtain ⟨hholds, hcurrent, -⟩ := firstPhase_current (mapError_eq_ok.mp hphase)
      refine hw.of_txs (hw.exclusive.insert hholds) fun tx' x hx => ?_
      rcases Table.get?_insert_cases hx with hx | ⟨-, rfl⟩
      · exact hw.current tx' x hx
      · exact hcurrent
  | next tx =>
    simp only [step] at h
    split at h
    · next x hx =>
      obtain ⟨phase, hphase, h⟩ := bind_eq_ok.mp h
      cases h
      have hgoes := nextPhase_goes hw.issued (hw.current tx x hx) hphase
      refine hw.of_txs (hw.exclusive.set hx fun l hl => (hgoes.holds l hl).imp id freeFor_iff.mp) fun tx' x' hx' => ?_
      rcases get?_set_of_some hx hx' with ⟨-, hx'⟩ | ⟨-, rfl⟩
      · exact hw.current tx' x' hx'
      · exact hgoes.current
    · cases h
  | commit tx row =>
    simp only [step] at h
    split at h
    · next call outcome hx =>
      obtain ⟨hrow, h⟩ := ite_error_eq_ok.mp h
      cases h
      exact hw.finish hx hrow
    · cases h
  | rollBack tx =>
    cases h
    refine hw.of_txs (hw.exclusive.filter _) fun tx' x hx => ?_
    rw [Table.get?_filter, Option.filter_eq_some_iff] at hx
    exact hw.current tx' x hx.1
  | createReport id report =>
    simp only [step] at h
    split at h
    · cases h
    · next hid =>
      obtain ⟨⟨⟩, -, h⟩ := bind_eq_ok.mp h
      cases h
      refine hw.of_same rfl rfl rfl (fun r => ?_) (fun _ => rfl) hw.exclusive fun tx x hx => ?_
      · rw [Table.get?_insert hid]
        split
        · next heq =>
          rw [heq, hid]
          rfl
        · rfl
      · refine (hw.current tx x hx).of_keeps (fun l hl => ?_) (.of_same rfl rfl)
        cases l with
        | report r =>
          obtain ⟨report', hget, -⟩ := (hw.current tx x hx).report r hl
          refine (Table.get?_insert hid r _).trans (if_neg ?_)
          rintro rfl
          rw [hid] at hget
          cases hget
        | user => rfl
        | entitlement => exact fun _ => Iff.rfl
        | entity => trivial
  | register u =>
    simp only [step] at h
    split at h
    · cases h
    · next hu =>
      cases h
      refine hw.of_same rfl rfl rfl (fun _ => rfl) (fun u' => ?_) hw.exclusive fun tx x hx => ?_
      · rw [isSuspended, isSuspended, Table.get?_insert hu]
        split
        · next heq =>
          rw [heq, hu]
          rfl
        · rfl
      · refine (hw.current tx x hx).of_keeps (fun l hl => ?_) (.of_same rfl rfl)
        cases l with
        | user u' =>
          obtain ⟨suspended, hmoves⟩ := Phase.moves_of_mem_holds hl
          obtain ⟨user, hget, -⟩ := (hw.current tx x hx).user u' suspended hmoves
          refine (Table.get?_insert hu u' _).trans (if_neg ?_)
          rintro rfl
          rw [hu] at hget
          cases hget
        | report => rfl
        | entitlement => exact fun _ => Iff.rfl
        | entity => trivial
  | activate u | requestDeletion u deadline | cancelDeletion u | anonymise u =>
    exact hw.moveUser (by simp) (by simp) h
  | setContent content =>
    obtain ⟨-, h⟩ := ite_ok_else_error.mp h
    cases h
    exact hw.of_same rfl rfl rfl (fun _ => rfl) (fun _ => rfl) hw.exclusive fun tx x hx =>
      (hw.current tx x hx).of_same rfl rfl rfl rfl
  | setMessages messages =>
    cases h
    exact hw.of_same rfl rfl rfl (fun _ => rfl) (fun _ => rfl) hw.exclusive fun tx x hx =>
      (hw.current tx x hx).of_same rfl rfl rfl rfl

/-! ## Runs -/

variable {content : Catalogue} {messages : Table MessageId Message} {as : List Action}

theorem Bureau.Sound.blank (content : Catalogue) (messages : Table MessageId Message) :
    (Bureau.blank content messages).Sound := by
  refine ⟨heldOnce_empty, fun tx x hx => ?_, fun row x hx => ?_, fun _ _ => ⟨rfl, rfl⟩, fun _ => rfl,
    fun _ => ⟨0, rfl⟩, fun row row' x hx => ?_, fun row x hx => ?_, fun row x hx => ?_, fun row x hx => ?_⟩
  all_goals cases hx

theorem Bureau.sound_run (content : Catalogue) (messages : Table MessageId Message) (as : List Action) :
    (bureau.run (.blank content messages) as).Sound :=
  System.invariant_run (S := bureau) (I := Bureau.Sound) (fun _ _ _ hw h => hw.step h) as (.blank content messages)

/-- In every run, the audit rows about a report are the one of its resolution. -/
theorem resolvedOnce_run (content : Catalogue) (messages : Table MessageId Message) (as : List Action) :
    (bureau.run (.blank content messages) as).ResolvedOnce :=
  (Bureau.sound_run content messages as).resolved

/-- In every run, suspensions and their ends alternate, and say who is suspended. -/
theorem alternating_run (content : Catalogue) (messages : Table MessageId Message) (as : List Action) :
    (bureau.run (.blank content messages) as).Alternating :=
  (Bureau.sound_run content messages as).alternating

/-- In every run, entitlements are backed by audit rows. -/
theorem backed_run (content : Catalogue) (messages : Table MessageId Message) (as : List Action) :
    (bureau.run (.blank content messages) as).Backed :=
  (Bureau.sound_run content messages as).backed

/-! ## The status before -/

/-- What an audit row says of the user is what a commit finds. -/
def AuditAction.Tells (w : Bureau) : AuditAction → Prop
  | suspend u before cleared =>
    ∃ row, w.users.get? u = some row ∧ row.status = before ∧ row.deadline.isSome = cleared
  | unsuspend u before => ∃ row, w.users.get? u = some row ∧ row.status = before
  | _ => True

/-- The audit row that a commit writes is right. -/
def Truthful (w : Bureau) : Action → Prop
  | .commit tx row => ∀ call outcome, w.txs.get? tx = some ⟨call, .ready outcome⟩ → (outcome.audit row).Tells w
  | _ => True

/-- The user whose status the step moves. -/
def Bureau.touches (w : Bureau) : Action → Option UserId
  | .activate u | .requestDeletion u _ | .cancelDeletion u | .anonymise u => some u
  | .commit tx _ => (w.txs.get? tx).bind fun x => x.phase.moves.map (·.1)
  | _ => none

/-- The transaction of a step. -/
def Action.tx? : Action → Option TxId
  | begin tx _ | next tx | commit tx _ | rollBack tx => some tx
  | _ => none

/-- Nobody moves the status of a user that another transaction has read for its audit row. -/
def Steady (w : Bureau) (a : Action) : Prop :=
  ∀ u ∈ w.touches a, ∀ x ∈ w.txs.rows, a.tx? ≠ some x.1 → x.2.phase.read.map (·.1) ≠ some u

instance (w : Bureau) (a : Action) : Decidable (Steady w a) := by
  unfold Steady
  infer_instance

/-- What has been read of users still stands, and exactly the deletions have deadlines. -/
structure Bureau.Informed (w : Bureau) : Prop where
  sound : w.Sound
  read : ∀ tx x u before, w.txs.get? tx = some x → x.phase.read = some (u, before) → w.Has u before
  dated : ∀ u row, w.users.get? u = some row → row.deadline.isSome = decide (row.status = .deleting)

theorem Bureau.Informed.blank (content : Catalogue) (messages : Table MessageId Message) :
    (Bureau.blank content messages).Informed := by
  refine ⟨.blank content messages, fun tx x u before hx => ?_, fun u row hu => ?_⟩
  · cases hx
  · cases hu

/-- The users are as they were. -/
theorem Bureau.Informed.of_same (hw : w.Informed) (hsound : w'.Sound) (husers : w'.users = w.users)
    (hread : ∀ tx x u before, w'.txs.get? tx = some x → x.phase.read = some (u, before) →
      w.txs.get? tx = some x ∨ w.Has u before) : w'.Informed where
  sound := hsound
  read tx x u before hx hr := by
    rw [Has, husers]
    rcases hread tx x u before hx hr with hold | hhas
    · exact hw.read tx x u before hold hr
    · exact hhas
  dated u row hu := hw.dated u row (husers ▸ hu)

/-- The row of one user changes. -/
theorem Bureau.Informed.of_touched (hw : w.Informed) (u : UserId) (f : UserRow → UserRow) (hsound : w'.Sound)
    (husers : ∀ u', w'.users.get? u' = (w.users.get? u').map fun row => if u' = u then f row else row)
    (hdated : ∀ row, w.users.get? u = some row → (f row).deadline.isSome = decide ((f row).status = .deleting))
    (hread : ∀ tx x u' before, w'.txs.get? tx = some x → x.phase.read = some (u', before) →
      w.txs.get? tx = some x ∧ u' ≠ u) : w'.Informed where
  sound := hsound
  read tx x u' before hx hr := by
    obtain ⟨hold, hne⟩ := hread tx x u' before hx hr
    obtain ⟨row, hrow, hstatus⟩ := hw.read tx x u' before hold hr
    exact ⟨row, by rw [husers, hrow, Option.map_some, if_neg hne], hstatus⟩
  dated u' row' hu' := by
    rw [husers, Option.map_eq_some_iff] at hu'
    obtain ⟨row, hrow, rfl⟩ := hu'
    split
    · next heq => exact hdated row (heq ▸ hrow)
    · exact hw.dated u' row hrow

theorem Bureau.Informed.moveUser (hw : w.Informed) (hsteady : Steady w a) (htouches : w.touches a = some u)
    (htx : a.tx? = none) {before : UserStatus} {f : UserRow → UserRow} (hsound : w'.Sound)
    (hdated : ∀ row, w.users.get? u = some row → row.status = before →
      (f row).deadline.isSome = decide ((f row).status = .deleting))
    (h : w.moveUser u before f = .ok w') : w'.Informed := by
  obtain ⟨hcond, h⟩ := ite_error_eq_ok.mp h
  cases h
  rw [not_or, not_not] at hcond
  refine hw.of_touched u f hsound (fun u' => Table.get?_map _ _ _) (fun row hrow => hdated row hrow ?_)
    fun tx x u' before' hx hr => ⟨hx, ?_⟩
  · simpa [hrow] using hcond.2
  · have hne := hsteady u htouches (tx, x) (Table.get?_eq_some_iff.mp hx) (by simp [htx])
    rintro rfl
    rw [hr] at hne
    exact hne rfl

theorem Bureau.Informed.finish (hw : w.Informed) (hsteady : Steady w (.commit tx row))
    (hx : w.txs.get? tx = some ⟨call, .ready outcome⟩) (hsound : (w.finish tx row call outcome).Sound) :
    (w.finish tx row call outcome).Informed := by
  cases hmoves : (Phase.ready outcome).moves with
  | none =>
    have hsame : (w.finish tx row call outcome).users = w.users := by
      cases outcome with
      | banned | suspended | unsuspended => cases hmoves
      | dismissed | takenDown | granted | revoked => rfl
    exact hw.of_same hsound hsame fun tx' x u before hx' _ => .inl (get?_txs_finish hx').1
  | some move =>
    obtain ⟨u, suspended⟩ := move
    obtain ⟨user, huser, hstatus⟩ := (hw.sound.current tx _ hx).user u suspended hmoves
    refine hw.of_touched u ((Phase.ready outcome).afterUser u) hsound (fun u' => ?_) (fun user' huser' => ?_)
      fun tx' x u' before hx' hr => ⟨(get?_txs_finish hx').1, ?_⟩
    · rw [get?_users_finish]
      congr 1
      funext user'
      split
      · next heq => rw [heq]
      · next hne =>
        rw [Phase.afterUser_of_ne fun s h => hne ?_, id]
        rw [hmoves] at h
        cases h
        rfl
    · rw [huser] at huser'
      cases huser'
      have hdated := hw.dated u user huser
      cases suspended with
      | true =>
        simp only [Phase.afterUser, hmoves, if_true]
        by_cases hdeleting : user.status = .deleting
        · simp [hdeleting]
        · simpa [hdeleting] using hdated
      | false =>
        simp only [Phase.afterUser, hmoves, if_true]
        rw [hstatus.mpr rfl] at hdated
        simpa using hdated
    · have htouches : w.touches (.commit tx row) = some u := by simp [touches, hx, hmoves]
      have hne := hsteady u htouches (tx', x) (Table.get?_eq_some_iff.mp (get?_txs_finish hx').1)
        (by simpa [Action.tx?] using (get?_txs_finish hx').2.symm)
      rintro rfl
      rw [hr] at hne
      exact hne rfl

theorem Bureau.Informed.step (hw : w.Informed) (hsteady : Steady w a) (h : w.step a = .ok w') : w'.Informed := by
  have hsound := hw.sound.step h
  cases a with
  | begin tx call =>
    simp only [Bureau.step] at h
    split at h
    · cases h
    · obtain ⟨phase, hphase, h⟩ := bind_eq_ok.mp h
      cases h
      refine hw.of_same hsound rfl fun tx' x u before hx hr => ?_
      rcases Table.get?_insert_cases hx with hx | ⟨-, rfl⟩
      · exact .inl hx
      · rw [(firstPhase_current (mapError_eq_ok.mp hphase)).2.2] at hr
        cases hr
  | next tx =>
    simp only [Bureau.step] at h
    split at h
    · next x hx =>
      obtain ⟨phase, hphase, h⟩ := bind_eq_ok.mp h
      cases h
      have hgoes := nextPhase_goes hw.sound.issued (hw.sound.current tx x hx) hphase
      refine hw.of_same hsound rfl fun tx' x' u before hx' hr => ?_
      rcases get?_set_of_some hx hx' with ⟨-, hx'⟩ | ⟨-, rfl⟩
      · exact .inl hx'
      · refine .inr ((hgoes.read u before hr).elim (hw.read tx x u before hx) id)
    · cases h
  | commit tx row =>
    simp only [Bureau.step] at h
    split at h
    · next call outcome hx =>
      obtain ⟨-, h⟩ := ite_error_eq_ok.mp h
      cases h
      exact hw.finish hsteady hx hsound
    · cases h
  | rollBack tx =>
    cases h
    refine hw.of_same hsound rfl fun tx' x u before hx _ => .inl ?_
    rw [close, Table.get?_filter, Option.filter_eq_some_iff] at hx
    exact hx.1
  | createReport id report =>
    simp only [Bureau.step] at h
    split at h
    · cases h
    · obtain ⟨⟨⟩, -, h⟩ := bind_eq_ok.mp h
      cases h
      exact hw.of_same hsound rfl fun _ _ _ _ hx _ => .inl hx
  | register u =>
    simp only [Bureau.step] at h
    split at h
    · cases h
    · next hu =>
      cases h
      refine ⟨hsound, fun tx x u' before hx hr => ?_, fun u' row hrow => ?_⟩
      · obtain ⟨row, hrow, hstatus⟩ := hw.read tx x u' before hx hr
        refine ⟨row, (Table.get?_insert hu u' _).trans ?_, hstatus⟩
        rw [if_neg]
        · exact hrow
        · rintro rfl
          rw [hu] at hrow
          cases hrow
      · rcases Table.get?_insert_cases hrow with hrow | ⟨-, rfl⟩
        · exact hw.dated u' row hrow
        · rfl
  | activate u =>
    refine hw.moveUser hsteady rfl rfl hsound (fun row hrow hstatus => ?_) h
    have hdated := hw.dated u row hrow
    rw [hstatus] at hdated
    simpa using hdated
  | requestDeletion u deadline | cancelDeletion u | anonymise u =>
    exact hw.moveUser hsteady rfl rfl hsound (fun _ _ _ => rfl) h
  | setContent content =>
    obtain ⟨-, h⟩ := ite_ok_else_error.mp h
    cases h
    exact hw.of_same hsound rfl fun _ _ _ _ hx _ => .inl hx
  | setMessages messages =>
    cases h
    exact hw.of_same hsound rfl fun _ _ _ _ hx _ => .inl hx

/-- What has been read is what the commit writes down. -/
theorem Bureau.Informed.truthful (hw : w.Informed) : Truthful w a := by
  cases a with
  | commit tx row =>
    intro call outcome hx
    cases outcome with
    | suspended u before =>
      obtain ⟨user, huser, hstatus⟩ := hw.read tx _ u before hx rfl
      exact ⟨user, huser, hstatus, by rw [hw.dated u user huser, hstatus]⟩
    | unsuspended u before => exact hw.read tx _ u before hx rfl
    | dismissed | banned | takenDown | granted | revoked => trivial
  | _ => trivial

/-- In a run in which nobody moves the status of a user between the two statements of a suspension, the audit
rows tell the status before, and whether a deadline was cleared. -/
theorem truthful_of_run (content : Catalogue) (messages : Table MessageId Message)
    (hG : bureau.Guarded Steady (.blank content messages) as) :
    bureau.Guarded Truthful (.blank content messages) as :=
  System.Guarded.of_invariant (S := bureau) (I := Bureau.Informed) (fun _ _ _ hw hsteady h => hw.step hsteady h)
    (fun _ _ hw _ => hw.truthful) (.blank content messages) hG

/-- No contents. -/
def noContent : Catalogue := ⟨.empty, .empty, .empty, [], [], .empty, []⟩

/-- The suspension of a user by an administrator, up to the statement that moves the status. -/
def suspension (tx : TxId) : List Action := [.begin tx ⟨"root", "spam", none, .suspendUser "u"⟩, .next tx]

/-- The deletion is requested before the suspension begins. -/
theorem truthful_of_run_requested :
    bureau.Guarded Truthful (.blank noContent .empty)
      ([.register "u", .activate "u", .requestDeletion "u" 14] ++ suspension 0 ++ [.next 0, .commit 0 1]) :=
  truthful_of_run noContent .empty (by decide +kernel)

/-- The deletion is requested between the two statements: the deadline is cleared, and the audit row denies it. -/
theorem not_truthful_of_requested :
    ¬ bureau.Guarded Truthful (.blank noContent .empty)
        ([.register "u", .activate "u"] ++ suspension 0 ++ [.requestDeletion "u" 14, .next 0] ++ [.commit 0 1]) := by
  intro h
  have hcommit := (System.Guarded.append.mp h).2.1
  obtain ⟨row, hrow, hstatus, -⟩ := hcommit ⟨"root", "spam", none, .suspendUser "u"⟩ (.suspended "u" .active)
    (by decide +kernel)
  have hdeleting : ((bureau.run (.blank noContent .empty) ([.register "u", .activate "u"] ++ suspension 0 ++
      [.requestDeletion "u" 14, .next 0])).users.get? "u").map (·.status) = some .deleting := by decide +kernel
  rw [hrow, Option.map_some, hstatus] at hdeleting
  cases hdeleting

end AgentCraft.Access.Moderation
