import AgentCraft.Requests.Idempotency

/-!
# What idempotency keys guarantee

The unique key and the expiry of the records keep executions of one key apart: when a second one
commits, the record of the first has expired. A lookup finds exactly what has been committed and has not
expired. Two things go beyond the record by design: `begin` purges what has expired whatever becomes of
its request, and a kill switch answers with the receipts of its cascade, which the record does not have.
-/

namespace AgentCraft.Requests

open AgentCraft.Relational AgentCraft.Transition

/-- What happens to the records and the business tables: a lookup, a purge, a store that meets another
record, and a commit. -/
inductive DeskMark (β : Type*)
  | looked (id : RequestId) (idem : IdempotencyKey) (hash : String) (time : Time)
      (found : Option IdempotencyRecord)
  | purged (id : RequestId) (time : Time) (removed : List IdempotencyRecord)
  | blocked (id : RequestId) (startedAt : Time) (record : IdempotencyRecord)
  | committed (id : RequestId) (idem : IdempotencyKey) (time : Time) (record : IdempotencyRecord)
      (write : β → β)

variable {β : Type*}

/-- The marks that a request in progress leaves with an action. -/
def Request.marks (w : Desk β) (id : RequestId) (q : Request β) : DeskAction β → List (DeskMark β)
  | .lookup _ => [.looked id q.idem q.hash w.now (w.select q.idem)]
  | .purge _ =>
    match q.phase with
    | .missed startedAt =>
      [.purged id startedAt ((w.records.rows.map Prod.snd).filter (·.expiresAt ≤ startedAt))]
    | _ => []
  | .store _ _ =>
    match q.phase with
    | .worked startedAt _ _ =>
      (((w.records.get? q.idem).filter fun r => startedAt < r.expiresAt).map
        (.blocked id startedAt)).toList
    | _ => []
  | .commit _ =>
    match q.phase with
    | .flushed _ write record => [.committed id q.idem w.now record write]
    | _ => []
  | _ => []

/-- The marks of an action that takes effect. -/
def Desk.marks (w : Desk β) (a : DeskAction β) : List (DeskMark β) :=
  match a.request?.bind fun id => (w.requests.get? id).map fun q => (id, q) with
  | some (id, q) => q.marks w id a
  | none => []

/-- What happens along a run. -/
def deskHistory (w₀ : Desk β) (as : List (DeskAction β)) : List (DeskMark β) :=
  (desk β).trace Desk.marks w₀ as

/-- The write of a commit. -/
def DeskMark.apply (b : β) : DeskMark β → β
  | .committed _ _ _ _ write => write b
  | _ => b

/-- The request has committed. -/
def HasCommitted (h : List (DeskMark β)) (id : RequestId) : Prop :=
  ∃ idem t r write, .committed id idem t r write ∈ h

/-- The record has been committed under the key. -/
def IsRecorded (h : List (DeskMark β)) (idem : IdempotencyKey) (r : IdempotencyRecord) : Prop :=
  ∃ id t write, .committed id idem t r write ∈ h

/-- Executions of one key are kept apart. -/
structure Serialised (b₀ : β) (w : Desk β) (h : List (DeskMark β)) : Prop where
  /-- Two executions of one key do not commit within a retention window. -/
  once : ∀ pre id idem t r write post, h = pre ++ .committed id idem t r write :: post →
    ∀ r', IsRecorded pre idem r' → r'.expiresAt ≤ t
  /-- A lookup finds what has been committed and has not expired, and nothing else. -/
  looks : ∀ pre id idem hash t found post, h = pre ++ .looked id idem hash t found :: post →
    ∀ r, found = some r ↔ IsRecorded pre idem r ∧ t < r.expiresAt
  /-- A hit is replayed if the body is the same and rejected otherwise. -/
  hits : ∀ id idem hash t r, .looked id idem hash t (some r) ∈ h → ¬ HasCommitted h id ∧
    ∃ q, w.requests.get? id = some q ∧
      q.phase = .done (if r.requestHash = hash then .replayed r.response else .failed .otherBody)
  /-- What blocks an execution had not expired when its transaction began. -/
  blocks : ∀ id t r, .blocked id t r ∈ h → t < r.expiresAt ∧ ¬ HasCommitted h id ∧
    ∃ q, w.requests.get? id = some q ∧ q.phase = .done (.failed .concurrent)
  /-- The business tables are what the commits have written. -/
  business : w.business = h.foldl DeskMark.apply b₀

/-- Successful replies equal the stored response, and failed requests change nothing. -/
structure Idempotent (b₀ : β) (w : Desk β) (h : List (DeskMark β)) : Prop extends Serialised b₀ w h where
  replies : ∀ id q r, w.requests.get? id = some q →
    (q.phase = .done (.executed r) ∨ q.phase = .done (.replayed r)) →
    ∃ record, IsRecorded h q.idem record ∧ record.requestHash = q.hash ∧ record.response = r
  failures : ∀ id q f, w.requests.get? id = some q → q.phase = .done (.failed f) →
    ¬ HasCommitted h id ∧ ∀ t removed, .purged id t removed ∈ h → removed = []

/-- Replies equal the stored response up to the receipts of a kill switch, and a request that fails has
at most purged what had expired, unless it is a kill switch whose cascade has failed. -/
structure IdempotentUpTo (b₀ : β) (w : Desk β) (h : List (DeskMark β)) : Prop
    extends Serialised b₀ w h where
  replayed : ∀ id q r, w.requests.get? id = some q → q.phase = .done (.replayed r) →
    ¬ HasCommitted h id ∧
      ∃ record, IsRecorded h q.idem record ∧ record.requestHash = q.hash ∧ record.response = r
  executed : ∀ id q r, w.requests.get? id = some q → q.phase = .done (.executed r) →
    ∃ t record write, .committed id q.idem t record write ∈ h ∧ record.requestHash = q.hash ∧
      (q.shell = .plain → record.response = r) ∧
      record.response = { r with receipts := record.response.receipts }
  failures : ∀ id q f, w.requests.get? id = some q → q.phase = .done (.failed f) →
    HasCommitted h id → q.shell = .killSwitch ∧ f = .internal
  purges : ∀ id t removed, .purged id t removed ∈ h → ∀ r ∈ removed, r.expiresAt ≤ t
  /-- What has not expired is still there. -/
  kept : ∀ idem r, IsRecorded h idem r → w.now < r.expiresAt → w.records.get? idem = some r

/-! ## What a step does -/

/-- The phases of a request that move without touching the tables. -/
inductive Request.Moves (now : Time) (q : Request β) : Phase β → Prop
  | enter (hphase : q.phase = .clear) : Moves now q (.working now)
  | worked (s : Time) (write : β → β) (response : Response) (hphase : q.phase = .working s) :
      Moves now q (.worked s write response)
  | refused (s : Time) (status : ℕ) (hphase : q.phase = .working s) :
      Moves now q (.done (.failed (.business status)))
  | cascaded (response : Response) (receipts : Option String) (hphase : q.phase = .committed response) :
      Moves now q (.done (.executed { response with receipts := receipts }))
  | failed (hphase : q.phase.isDone = false) : Moves now q (.done (.failed .internal))

/-- What an action does to its request, with the marks it leaves. -/
inductive Desk.Move (w : Desk β) (id : RequestId) (q : Request β) :
    Desk β → List (DeskMark β) → Prop
  | silent (phase : Phase β) (hmoves : q.Moves w.now phase) : Move w id q (w.setPhase id q phase) []
  | miss (hphase : q.phase = .arrived) (hnone : w.select q.idem = none) :
      Move w id q (w.setPhase id q (.missed w.now)) [.looked id q.idem q.hash w.now none]
  | hit (r : IdempotencyRecord) (hphase : q.phase = .arrived) (hsome : w.select q.idem = some r) :
      Move w id q (w.setPhase id q (.done
        (if r.requestHash = q.hash then .replayed r.response else .failed .otherBody)))
        [.looked id q.idem q.hash w.now (some r)]
  | purge (s : Time) (hphase : q.phase = .missed s) : Move w id q (w.purge id q s)
      [.purged id s ((w.records.rows.map Prod.snd).filter (·.expiresAt ≤ s))]
  | block (s : Time) (write : β → β) (response : Response) (r : IdempotencyRecord)
      (hphase : q.phase = .worked s write response) (hr : w.records.get? q.idem = some r)
      (hlt : s < r.expiresAt) :
      Move w id q (w.setPhase id q (.done (.failed .concurrent))) [.blocked id s r]
  | flush (s : Time) (write : β → β) (response : Response) (clock : Time)
      (hphase : q.phase = .worked s write response) (hfree : w.isAwaited q.idem = false)
      (hnone : ∀ r, w.records.get? q.idem = some r → r.expiresAt ≤ s) :
      Move w id q (w.setPhase id q (.flushed s write ⟨q.hash, response, clock + recordTtl⟩)) []
  | commit (s : Time) (write : β → β) (record : IdempotencyRecord)
      (hphase : q.phase = .flushed s write record) :
      Move w id q (w.commit id q s write record) [.committed id q.idem w.now record write]

section Steps

variable {w w' : Desk β} {a : DeskAction β} {id : RequestId} {q : Request β}

theorem Desk.advance_move (hid : a.request? = some id) (hs : w.advance id q a = .ok w') :
    w.Move id q w' (q.marks w id a) := by
  cases a with
  | tick | arrive => cases hid
  | lookup id' =>
    simp only [Desk.advance] at hs
    split at hs <;> cases hs
    next hphase =>
    unfold Desk.lookup Request.marks
    cases hsel : w.select q.idem with
    | none => exact .miss hphase hsel
    | some r => exact .hit r hphase hsel
  | purge id' =>
    simp only [Desk.advance] at hs
    split at hs <;> cases hs
    next s hphase =>
    simp only [Request.marks, hphase]
    exact .purge s hphase
  | enter id' =>
    simp only [Desk.advance] at hs
    split at hs <;> cases hs
    next hphase => exact .silent _ (.enter hphase)
  | work id' result =>
    simp only [Desk.advance] at hs
    split at hs
    · next s hphase =>
      split at hs <;> cases hs
      · exact .silent _ (.worked _ _ _ hphase)
      · exact .silent _ (.refused _ _ hphase)
    · cases hs
  | store id' clock =>
    simp only [Desk.advance] at hs
    split at hs
    · next s write response hphase =>
      obtain ⟨hfree, hs⟩ := ite_error_eq_ok.mp hs
      cases hs
      simp only [Request.marks, hphase, Desk.store]
      cases hget : w.records.get? q.idem with
      | none =>
        exact .flush s write response clock hphase (Bool.eq_false_iff.mpr hfree) (by simp [hget])
      | some r =>
        by_cases hlt : s < r.expiresAt
        · simp only [Option.filter, hlt, decide_true]
          exact .block s write response r hphase hget hlt
        · simp only [Option.filter, hlt, decide_false]
          refine .flush s write response clock hphase (Bool.eq_false_iff.mpr hfree) fun r' hr' => ?_
          rw [hget] at hr'
          cases hr'
          exact Nat.not_lt.mp hlt
    · cases hs
  | commit id' =>
    simp only [Desk.advance] at hs
    split at hs <;> cases hs
    next s write record hphase =>
    simp only [Request.marks, hphase]
    exact .commit s write record hphase
  | cascade id' receipts =>
    simp only [Desk.advance] at hs
    split at hs
    · next response hphase =>
      split at hs <;> cases hs
      · exact .silent _ (.cascaded _ _ hphase)
      · exact .silent _ (.failed (by rw [hphase]; rfl))
    · cases hs
  | fail id' =>
    simp only [Desk.advance] at hs
    obtain ⟨hdone, hs⟩ := ite_error_eq_ok.mp hs
    cases hs
    exact .silent _ (.failed (Bool.eq_false_iff.mpr hdone))

/-- A step lets time pass, lets a request arrive, or moves one on. -/
theorem Desk.step_cases (hs : w.step a = .ok w') :
    (∃ micros, w' = { w with now := w.now + micros } ∧ w.marks a = []) ∨
    (∃ id idem hash shell, w.requests.get? id = none ∧ w.marks a = [] ∧
      w' = { w with requests := w.requests.insert id ⟨idem, hash, shell, .arrived⟩ }) ∨
    ∃ id q, w.requests.get? id = some q ∧ w.Move id q w' (w.marks a) := by
  have hadvance (hs : (match a.request?.bind fun id => (w.requests.get? id).map fun q => (id, q) with
      | some (id, q) => w.advance id q a
      | none => .error .notEnabled) = .ok w') :
      ∃ id q, w.requests.get? id = some q ∧ w.Move id q w' (w.marks a) := by
    split at hs
    · next id q hq =>
      have hmarks : w.marks a = q.marks w id a := by simp only [Desk.marks, hq]
      obtain ⟨id', hid, hget⟩ := Option.bind_eq_some_iff.mp hq
      obtain ⟨q', hq', heq⟩ := Option.map_eq_some_iff.mp hget
      cases heq
      rw [hmarks]
      exact ⟨id, q, hq', Desk.advance_move hid hs⟩
    · cases hs
  cases a with
  | tick micros =>
    cases hs
    exact .inl ⟨micros, rfl, rfl⟩
  | arrive id idem hash shell =>
    simp only [Desk.step] at hs
    split at hs <;> cases hs
    next hnone => exact .inr (.inl ⟨id, idem, hash, shell, hnone, rfl, rfl⟩)
  | lookup | purge | enter | work | store | commit | cascade | fail => exact .inr (.inr (hadvance hs))

end Steps

/-! ## Locks and clocks -/

/-- When the transaction of the request has begun. -/
def Phase.startedAt? : Phase β → Option Time
  | .missed s | .working s | .worked s _ _ | .flushed s _ _ => some s
  | _ => none

/-- A transaction begins in the past, one request at a time has flushed a record under a key, and what is
left under its key has expired. -/
structure Desk.Locked (w : Desk β) : Prop where
  begun : ∀ id q s, w.requests.get? id = some q → q.phase.startedAt? = some s → s ≤ w.now
  exclusive : ∀ id id' q q', w.requests.get? id = some q → w.requests.get? id' = some q' →
    q.phase.isFlushed = true → q'.phase.isFlushed = true → q.idem = q'.idem → id = id'
  gives : ∀ id q s write record, w.requests.get? id = some q → q.phase = .flushed s write record →
    record.requestHash = q.hash ∧ ∀ r, w.records.get? q.idem = some r → r.expiresAt ≤ s

section Locked

variable {w w' : Desk β} {a : DeskAction β} {id id' : RequestId} {q q' : Request β} {phase : Phase β}

/-- The requests after one has moved on. -/
theorem Desk.get?_of_set (hq : w.requests.get? id = some q)
    (hw : w'.requests = w.requests.set id { q with phase := phase })
    (hq' : w'.requests.get? id' = some q') :
    (id' = id ∧ q' = { q with phase := phase }) ∨ (id' ≠ id ∧ w.requests.get? id' = some q') := by
  rw [hw, Table.get?_set] at hq'
  split at hq'
  · next heq =>
    rw [heq, hq] at hq'
    exact .inl ⟨heq, (Option.some.inj hq').symm⟩
  · next hne => exact .inr ⟨hne, hq'⟩

/-- A request moves on, and flushes nothing; the records may only become fewer. -/
theorem Desk.Locked.setPhase (hl : w.Locked) (hq : w.requests.get? id = some q)
    (hw : w'.requests = w.requests.set id { q with phase := phase }) (hnow : w'.now = w.now)
    (hbegun : ∀ s, phase.startedAt? = some s → s ≤ w.now) (hflushed : phase.isFlushed = false)
    (hrecords : ∀ id' q', id' ≠ id → w.requests.get? id' = some q' → q'.phase.isFlushed = true →
      ∀ r, w'.records.get? q'.idem = some r → w.records.get? q'.idem = some r) :
    w'.Locked := by
  refine ⟨fun id' q' s hq' hs => ?_, fun id₁ id₂ q₁ q₂ h₁ h₂ hf₁ hf₂ heq => ?_,
    fun id' q' s write record hq' hphase => ?_⟩
  · rw [hnow]
    rcases Desk.get?_of_set hq hw hq' with ⟨-, rfl⟩ | ⟨-, hq'⟩
    · exact hbegun s hs
    · exact hl.begun id' q' s hq' hs
  · rcases Desk.get?_of_set hq hw h₁ with ⟨-, rfl⟩ | ⟨-, h₁⟩
    · rw [hflushed] at hf₁
      cases hf₁
    · rcases Desk.get?_of_set hq hw h₂ with ⟨-, rfl⟩ | ⟨-, h₂⟩
      · rw [hflushed] at hf₂
        cases hf₂
      · exact hl.exclusive id₁ id₂ q₁ q₂ h₁ h₂ hf₁ hf₂ heq
  · rcases Desk.get?_of_set hq hw hq' with ⟨-, rfl⟩ | ⟨hne, hq'⟩
    · simp only at hphase
      rw [hphase] at hflushed
      cases hflushed
    · obtain ⟨hhash, hgives⟩ := hl.gives id' q' s write record hq' hphase
      exact ⟨hhash, fun r hr => hgives r (hrecords id' q' hne hq' (by rw [hphase]; rfl) r hr)⟩

theorem Desk.Locked.flush (hl : w.Locked) (hq : w.requests.get? id = some q) {s : Time}
    {write : β → β} {response : Response} (clock : Time) (hphase : q.phase = .worked s write response)
    (hfree : w.isAwaited q.idem = false)
    (hnone : ∀ r, w.records.get? q.idem = some r → r.expiresAt ≤ s) :
    (w.setPhase id q (.flushed s write ⟨q.hash, response, clock + recordTtl⟩)).Locked := by
  -- nobody else has flushed a record under the key
  have halone (id' : RequestId) (q' : Request β) (hq' : w.requests.get? id' = some q')
      (hf : q'.phase.isFlushed = true) (heq : q'.idem = q.idem) : False := by
    have hmem := List.any_eq_false.mp hfree (id', q') (Table.get?_eq_some_iff.mp hq')
    simp [hf, heq] at hmem
  refine ⟨fun id' q' s' hq' hs => ?_, fun id₁ id₂ q₁ q₂ h₁ h₂ hf₁ hf₂ heq => ?_,
    fun id' q' s' write' record hq' hphase' => ?_⟩
  · rcases Desk.get?_of_set hq rfl hq' with ⟨-, rfl⟩ | ⟨-, hq'⟩
    · cases hs
      exact hl.begun id q s hq (by rw [hphase]; rfl)
    · exact hl.begun id' q' s' hq' hs
  · rcases Desk.get?_of_set hq rfl h₁ with ⟨rfl, rfl⟩ | ⟨-, g₁⟩ <;>
      rcases Desk.get?_of_set hq rfl h₂ with ⟨rfl, rfl⟩ | ⟨-, g₂⟩
    · rfl
    · exact (halone id₂ q₂ g₂ hf₂ heq.symm).elim
    · exact (halone id₁ q₁ g₁ hf₁ heq).elim
    · exact hl.exclusive id₁ id₂ q₁ q₂ g₁ g₂ hf₁ hf₂ heq
  · rcases Desk.get?_of_set hq rfl hq' with ⟨-, rfl⟩ | ⟨-, hq'⟩
    · cases hphase'
      exact ⟨rfl, hnone⟩
    · exact hl.gives id' q' s' write' record hq' hphase'

/-- The records after a commit. -/
theorem Desk.get?_records_commit {s : Time} {write : β → β} {record r : IdempotencyRecord}
    {idem : IdempotencyKey} (hl : w.Locked) (hq : w.requests.get? id = some q)
    (hphase : q.phase = .flushed s write record) :
    (w.commit id q s write record).records.get? idem = some r ↔
      if idem = q.idem then r = record else w.records.get? idem = some r := by
  have hempty : (w.records.filter fun k r => !(k = q.idem && r.expiresAt ≤ s)).get? q.idem = none := by
    rw [Table.get?_filter]
    cases hget : w.records.get? q.idem with
    | none => rfl
    | some r =>
      have hle := (hl.gives id q s write record hq hphase).2 r hget
      simp [hle]
  simp only [Desk.commit, Table.get?_insert hempty]
  by_cases hk : idem = q.idem
  · simp only [hk, if_true, Option.some.injEq]
    exact eq_comm
  · simp only [hk, if_false, Table.get?_filter]
    cases w.records.get? idem <;> simp

theorem Desk.Locked.step (hl : w.Locked) (hs : w.step a = .ok w') : w'.Locked := by
  rcases Desk.step_cases hs with ⟨micros, rfl, -⟩ | ⟨id, idem, hash, shell, hnone, -, rfl⟩ |
    ⟨id, q, hq, hm⟩
  · exact ⟨fun id q s hq hs => (hl.begun id q s hq hs).trans (Nat.le_add_right _ _), hl.exclusive,
      hl.gives⟩
  · have hget (id' : RequestId) (q' : Request β)
        (hq' : (w.requests.insert id ⟨idem, hash, shell, .arrived⟩).get? id' = some q') :
        q'.phase = .arrived ∨ w.requests.get? id' = some q' := by
      rw [Table.get?_insert hnone] at hq'
      split at hq'
      · cases hq'
        exact .inl rfl
      · exact .inr hq'
    refine ⟨fun id' q' s hq' hs => ?_, fun id₁ id₂ q₁ q₂ h₁ h₂ hf₁ hf₂ heq => ?_,
      fun id' q' s write record hq' hphase => ?_⟩
    · rcases hget id' q' hq' with hphase | hq'
      · rw [hphase] at hs
        cases hs
      · exact hl.begun id' q' s hq' hs
    · rcases hget id₁ q₁ h₁ with hphase | h₁
      · rw [hphase] at hf₁
        cases hf₁
      · rcases hget id₂ q₂ h₂ with hphase | h₂
        · rw [hphase] at hf₂
          cases hf₂
        · exact hl.exclusive id₁ id₂ q₁ q₂ h₁ h₂ hf₁ hf₂ heq
    · rcases hget id' q' hq' with harrived | hq'
      · rw [hphase] at harrived
        cases harrived
      · exact hl.gives id' q' s write record hq' hphase
  · generalize w.marks a = ms at hm
    cases hm with
    | silent phase hmoves =>
      refine hl.setPhase hq rfl rfl (fun s hs => ?_) ?_ fun _ _ _ _ _ _ hr => hr
      · cases hmoves with
        | enter hphase =>
          cases hs
          exact le_rfl
        | worked s' write response hphase =>
          cases hs
          exact hl.begun id q s hq (by rw [hphase]; rfl)
        | refused | cascaded | failed => cases hs
      · cases hmoves <;> rfl
    | miss hphase hnone =>
      exact hl.setPhase hq rfl rfl (by simp [Phase.startedAt?]) rfl fun _ _ _ _ _ _ hr => hr
    | hit r hphase hsome =>
      exact hl.setPhase hq rfl rfl (by simp [Phase.startedAt?]) rfl fun _ _ _ _ _ _ hr => hr
    | purge s hphase =>
      refine hl.setPhase hq rfl rfl (by simp [Phase.startedAt?]) rfl fun id' q' _ _ _ r hr => ?_
      rw [Desk.purge, Table.get?_filter, Option.filter_eq_some_iff] at hr
      exact hr.1
    | block s write response r hphase hr hlt =>
      exact hl.setPhase hq rfl rfl (by simp [Phase.startedAt?]) rfl fun _ _ _ _ _ _ hr => hr
    | flush s write response clock hphase hfree hnone => exact hl.flush hq clock hphase hfree hnone
    | commit s write record hphase =>
      refine hl.setPhase hq rfl rfl ?_ ?_ fun id' q' hne hq' hf r hr => ?_
      · cases q.shell <;> simp [Phase.startedAt?]
      · cases q.shell <;> rfl
      · rw [Desk.get?_records_commit hl hq hphase, if_neg] at hr
        · exact hr
        · intro heq
          exact hne (hl.exclusive id' id q' q hq' hq hf (by rw [hphase]; rfl) heq)

theorem Desk.Initial.locked (h₀ : w.Initial) : w.Locked := by
  have hnone (id : RequestId) : w.requests.get? id = none := by
    rw [h₀.requests]
    rfl
  refine ⟨fun id q s hq => ?_, fun id id' q q' hq => ?_, fun id q s write record hq => ?_⟩ <;>
  · rw [hnone] at hq
    cases hq

end Locked

/-! ## The records -/

/-- What the past allows: a lookup finds what is there, and a commit follows what has expired. -/
def DeskMark.Allowed (pre : List (DeskMark β)) : DeskMark β → Prop
  | .looked _ idem _ t found => ∀ r, found = some r ↔ IsRecorded pre idem r ∧ t < r.expiresAt
  | .committed _ idem t _ _ => ∀ r', IsRecorded pre idem r' → r'.expiresAt ≤ t
  | _ => True

/-- The mark decides what becomes of the request. -/
def DeskMark.IsFinal (id : RequestId) : DeskMark β → Prop
  | .looked id' _ _ _ found => id' = id ∧ found.isSome = true
  | .blocked id' _ _ => id' = id
  | .committed id' _ _ _ _ => id' = id
  | .purged _ _ _ => False

/-- The request that the mark is about. -/
def DeskMark.request : DeskMark β → RequestId
  | .looked id _ _ _ _ | .purged id _ _ | .blocked id _ _ | .committed id _ _ _ _ => id

/-- What has become of a request, and what it has been told. -/
def Request.Told (h : List (DeskMark β)) (id : RequestId) (q : Request β) : Prop :=
  match q.phase with
  | .committed response => q.shell = .killSwitch ∧ ∃ t record write,
      .committed id q.idem t record write ∈ h ∧ record.requestHash = q.hash ∧ record.response = response
  | .done (.replayed r) => ¬ HasCommitted h id ∧
      ∃ record, IsRecorded h q.idem record ∧ record.requestHash = q.hash ∧ record.response = r
  | .done (.executed r) => ∃ t record write, .committed id q.idem t record write ∈ h ∧
      record.requestHash = q.hash ∧ (q.shell = .plain → record.response = r) ∧
      record.response = { r with receipts := record.response.receipts }
  | .done (.failed f) => HasCommitted h id → q.shell = .killSwitch ∧ f = .internal
  | _ => ∀ m ∈ h, ¬ m.IsFinal id

/-- The tables and the requests agree with what has been observed. -/
structure Desk.Recorded (b₀ : β) (w : Desk β) (h : List (DeskMark β)) : Prop where
  locked : w.Locked
  orderly : Orderly DeskMark.Allowed h
  business : w.business = h.foldl DeskMark.apply b₀
  kept : ∀ idem r, IsRecorded h idem r → w.records.get? idem = some r ∨ r.expiresAt ≤ w.now
  source : ∀ idem r, w.records.get? idem = some r → IsRecorded h idem r
  told : ∀ id q, w.requests.get? id = some q → q.Told h id
  unseen : ∀ id, w.requests.get? id = none → ∀ m ∈ h, ¬ m.IsFinal id
  hits : ∀ id idem hash t r, .looked id idem hash t (some r) ∈ h → ¬ HasCommitted h id ∧
    ∃ q, w.requests.get? id = some q ∧
      q.phase = .done (if r.requestHash = hash then .replayed r.response else .failed .otherBody)
  blocks : ∀ id t r, .blocked id t r ∈ h → t < r.expiresAt ∧ ¬ HasCommitted h id ∧
    ∃ q, w.requests.get? id = some q ∧ q.phase = .done (.failed .concurrent)
  purges : ∀ id t removed, .purged id t removed ∈ h → ∀ r ∈ removed, r.expiresAt ≤ t

section Recorded

variable {b₀ : β} {w w' : Desk β} {h ms : List (DeskMark β)} {a : DeskAction β} {id : RequestId}
  {q : Request β} {phase : Phase β} {idem : IdempotencyKey} {r : IdempotencyRecord}

theorem HasCommitted.of_append (hm : HasCommitted (h ++ ms) id) :
    HasCommitted h id ∨ HasCommitted ms id := by
  obtain ⟨idem, t, r, write, hm⟩ := hm
  exact (List.mem_append.mp hm).imp (fun hm => ⟨idem, t, r, write, hm⟩) fun hm => ⟨idem, t, r, write, hm⟩

theorem IsRecorded.append (hr : IsRecorded h idem r) (ms : List (DeskMark β)) :
    IsRecorded (h ++ ms) idem r := by
  obtain ⟨id, t, write, hm⟩ := hr
  exact ⟨id, t, write, List.mem_append_left _ hm⟩

theorem IsRecorded.of_append (hr : IsRecorded (h ++ ms) idem r) :
    IsRecorded h idem r ∨ IsRecorded ms idem r := by
  obtain ⟨id, t, write, hm⟩ := hr
  exact (List.mem_append.mp hm).imp (fun hm => ⟨id, t, write, hm⟩) fun hm => ⟨id, t, write, hm⟩

/-- A request without decisive marks has not committed. -/
theorem not_hasCommitted (hm : ∀ m ∈ h, ¬ m.IsFinal id) : ¬ HasCommitted h id := by
  rintro ⟨idem, t, r, write, hmem⟩
  exact hm _ hmem rfl

/-- Marks about other requests leave what a request has been told. -/
theorem Request.Told.append (ht : q.Told h id) (hms : ∀ m ∈ ms, ¬ m.IsFinal id) : q.Told (h ++ ms) id := by
  have hno (hc : HasCommitted (h ++ ms) id) : HasCommitted h id :=
    hc.of_append.resolve_right (not_hasCommitted hms)
  unfold Request.Told at ht ⊢
  split
  · next heq =>
    rw [heq] at ht
    obtain ⟨hshell, t, record, write, hm, hrest⟩ := ht
    exact ⟨hshell, t, record, write, List.mem_append_left _ hm, hrest⟩
  · next heq =>
    rw [heq] at ht
    obtain ⟨hnot, record, hr, hrest⟩ := ht
    exact ⟨fun hc => hnot (hno hc), record, hr.append ms, hrest⟩
  · next heq =>
    rw [heq] at ht
    obtain ⟨t, record, write, hm, hrest⟩ := ht
    exact ⟨t, record, write, List.mem_append_left _ hm, hrest⟩
  · next heq =>
    rw [heq] at ht
    exact fun hc => ht (hno hc)
  · next h₁ h₂ h₃ h₄ =>
    have hquiet : ∀ m ∈ h, ¬ m.IsFinal id := by
      split at ht
      · next heq => exact (h₁ _ heq).elim
      · next heq => exact (h₂ _ heq).elim
      · next heq => exact (h₃ _ heq).elim
      · next heq => exact (h₄ _ heq).elim
      · exact ht
    intro m hm
    exact (List.mem_append.mp hm).elim (hquiet m) (hms m)

namespace Desk.Recorded

/-- A request that is not done has met no record. -/
theorem not_met (hi : w.Recorded b₀ h) (hq : w.requests.get? id = some q)
    (hdone : q.phase.isDone = false) :
    (∀ idem hash t r, .looked id idem hash t (some r) ∉ h) ∧ ∀ t r, .blocked id t r ∉ h := by
  refine ⟨fun idem hash t r hm => ?_, fun t r hm => ?_⟩
  · obtain ⟨-, q', hq', hphase⟩ := hi.hits id idem hash t r hm
    rw [hq] at hq'
    cases hq'
    rw [hphase] at hdone
    cases hdone
  · obtain ⟨-, -, q', hq', hphase⟩ := hi.blocks id t r hm
    rw [hq] at hq'
    cases hq'
    rw [hphase] at hdone
    cases hdone

/-- A request moves on, with marks of its own. -/
theorem move (hi : w.Recorded b₀ h) (hq : w.requests.get? id = some q)
    (hdone : q.phase.isDone = false) (hlocked : w'.Locked)
    (hw : w'.requests = w.requests.set id { q with phase := phase })
    (hms : ∀ m ∈ ms, m.request = id) (horderly : Orderly DeskMark.Allowed (h ++ ms))
    (hbusiness : w'.business = ms.foldl DeskMark.apply w.business)
    (hkept : ∀ idem r, IsRecorded (h ++ ms) idem r →
      w'.records.get? idem = some r ∨ r.expiresAt ≤ w'.now)
    (hsource : ∀ idem r, w'.records.get? idem = some r → IsRecorded (h ++ ms) idem r)
    (htold : Request.Told (h ++ ms) id { q with phase := phase })
    (hhits : ∀ idem hash t r, .looked id idem hash t (some r) ∈ ms → ¬ HasCommitted (h ++ ms) id ∧
      phase = .done (if r.requestHash = hash then .replayed r.response else .failed .otherBody))
    (hblocks : ∀ t r, .blocked id t r ∈ ms → t < r.expiresAt ∧ ¬ HasCommitted (h ++ ms) id ∧
      phase = .done (.failed .concurrent))
    (hpurges : ∀ id t removed, .purged id t removed ∈ ms → ∀ r ∈ removed, r.expiresAt ≤ t) :
    w'.Recorded b₀ (h ++ ms) := by
  have hself : w'.requests.get? id = some { q with phase := phase } := by
    rw [hw, Table.get?_set_self hq]
  -- another request is where it was, and the marks are not about it
  have hother {id' : RequestId} (hne : id' ≠ id) : w'.requests.get? id' = w.requests.get? id' ∧
      ∀ m ∈ ms, ¬ m.IsFinal id' := by
    refine ⟨by rw [hw, Table.get?_set_ne _ hne], fun m hm hf => ?_⟩
    have heq := hms m hm
    cases m <;> simp only [DeskMark.IsFinal, DeskMark.request] at hf heq
    · exact hne (hf.1.symm.trans heq)
    · exact hne (hf.symm.trans heq)
    · exact hne (hf.symm.trans heq)
  have hkeeps {id' : RequestId} (hne : id' ≠ id) (hno : ¬ HasCommitted h id') :
      ¬ HasCommitted (h ++ ms) id' := fun hc =>
    hno (hc.of_append.resolve_right (not_hasCommitted (hother hne).2))
  refine ⟨hlocked, horderly, by rw [hbusiness, hi.business, List.foldl_append], hkept, hsource,
    fun id' q' hq' => ?_, fun id' hnone => ?_, fun id' idem hash t r hm => ?_, fun id' t r hm => ?_,
    fun id' t removed hm => ?_⟩
  · by_cases hne : id' = id
    · subst hne
      rw [hself] at hq'
      cases hq'
      exact htold
    · rw [(hother hne).1] at hq'
      exact (hi.told id' q' hq').append (hother hne).2
  · have hne : id' ≠ id := by
      rintro rfl
      rw [hself] at hnone
      cases hnone
    rw [(hother hne).1] at hnone
    intro m hm
    exact (List.mem_append.mp hm).elim (hi.unseen id' hnone m) ((hother hne).2 m)
  · by_cases hne : id' = id
    · subst hne
      have hmem := (List.mem_append.mp hm).resolve_left ((hi.not_met hq hdone).1 idem hash t r)
      obtain ⟨hno, hphase⟩ := hhits idem hash t r hmem
      exact ⟨hno, _, hself, hphase⟩
    · have hmem : .looked id' idem hash t (some r) ∈ h :=
        (List.mem_append.mp hm).resolve_right fun hm => hne (hms _ hm)
      obtain ⟨hno, q', hq', hphase⟩ := hi.hits id' idem hash t r hmem
      exact ⟨hkeeps hne hno, q', by rw [(hother hne).1, hq'], hphase⟩
  · by_cases hne : id' = id
    · subst hne
      have hmem := (List.mem_append.mp hm).resolve_left ((hi.not_met hq hdone).2 t r)
      obtain ⟨hlt, hno, hphase⟩ := hblocks t r hmem
      exact ⟨hlt, hno, _, hself, hphase⟩
    · have hmem : .blocked id' t r ∈ h :=
        (List.mem_append.mp hm).resolve_right fun hm => hne (hms _ hm)
      obtain ⟨hlt, hno, q', hq', hphase⟩ := hi.blocks id' t r hmem
      exact ⟨hlt, hkeeps hne hno, q', by rw [(hother hne).1, hq'], hphase⟩
  · rcases List.mem_append.mp hm with hm | hm
    · exact hi.purges id' t removed hm
    · exact hpurges id' t removed hm

/-- A request moves on without a commit, and the records may only lose what has expired. -/
theorem moveOn (hi : w.Recorded b₀ h) (hq : w.requests.get? id = some q)
    (hdone : q.phase.isDone = false) (hlocked : w'.Locked)
    (hw : w'.requests = w.requests.set id { q with phase := phase }) (hnow : w'.now = w.now)
    (hbusiness : w'.business = w.business) (hms : ∀ m ∈ ms, m.request = id)
    (hnone : ∀ idem r, ¬ IsRecorded ms idem r) (horderly : Orderly DeskMark.Allowed (h ++ ms))
    (happly : ∀ b, ms.foldl DeskMark.apply b = b)
    (hrecords : ∀ idem r, w'.records.get? idem = some r → w.records.get? idem = some r)
    (hlost : ∀ idem r, w.records.get? idem = some r →
      w'.records.get? idem = some r ∨ r.expiresAt ≤ w.now)
    (htold : Request.Told (h ++ ms) id { q with phase := phase })
    (hhits : ∀ idem hash t r, .looked id idem hash t (some r) ∈ ms → ¬ HasCommitted (h ++ ms) id ∧
      phase = .done (if r.requestHash = hash then .replayed r.response else .failed .otherBody))
    (hblocks : ∀ t r, .blocked id t r ∈ ms → t < r.expiresAt ∧ ¬ HasCommitted (h ++ ms) id ∧
      phase = .done (.failed .concurrent))
    (hpurges : ∀ id t removed, .purged id t removed ∈ ms → ∀ r ∈ removed, r.expiresAt ≤ t) :
    w'.Recorded b₀ (h ++ ms) := by
  refine hi.move hq hdone hlocked hw hms horderly (by rw [happly, hbusiness]) (fun idem r hr => ?_)
    (fun idem r hr => (hi.source idem r (hrecords idem r hr)).append ms) htold hhits hblocks hpurges
  rw [hnow]
  rcases hi.kept idem r (hr.of_append.resolve_right (hnone idem r)) with hget | hle
  · exact hlost idem r hget
  · exact .inr hle

/-- What a lookup finds is what has been committed and has not expired. -/
theorem select_iff (hi : w.Recorded b₀ h) :
    w.select idem = some r ↔ IsRecorded h idem r ∧ w.now < r.expiresAt := by
  rw [Desk.select, Option.filter_eq_some_iff, decide_eq_true_eq]
  refine ⟨fun ⟨hget, hlt⟩ => ⟨hi.source idem r hget, hlt⟩, fun ⟨hr, hlt⟩ => ⟨?_, hlt⟩⟩
  exact (hi.kept idem r hr).resolve_right (Nat.not_le.mpr hlt)

/-- A request that is not done and has not committed has no decisive mark. -/
theorem quiet (hi : w.Recorded b₀ h) (hq : w.requests.get? id = some q)
    (hdone : q.phase.isDone = false) (hopen : ∀ response, q.phase ≠ .committed response) :
    ∀ m ∈ h, ¬ m.IsFinal id := by
  have ht := hi.told id q hq
  unfold Request.Told at ht
  split at ht
  · next heq => exact (hopen _ heq).elim
  · next heq =>
    rw [heq] at hdone
    cases hdone
  · next heq =>
    rw [heq] at hdone
    cases hdone
  · next heq =>
    rw [heq] at hdone
    cases hdone
  · exact ht

/-- The moves that leave no mark. -/
theorem silent (hi : w.Recorded b₀ h) (hq : w.requests.get? id = some q)
    (hmoves : q.Moves w.now phase) (hlocked : (w.setPhase id q phase).Locked) :
    (w.setPhase id q phase).Recorded b₀ h := by
  have hdone : q.phase.isDone = false := by
    cases hmoves with
    | enter hphase | worked _ _ _ hphase | refused _ _ hphase | cascaded _ _ hphase =>
      rw [hphase]
      rfl
    | failed hphase => exact hphase
  have htold : Request.Told h id { q with phase := phase } := by
    have ht := hi.told id q hq
    cases hmoves with
    | enter hphase => exact hi.quiet hq hdone (by simp [hphase])
    | worked s write response hphase => exact hi.quiet hq hdone (by simp [hphase])
    | refused s status hphase =>
      exact fun hc => (not_hasCommitted (hi.quiet hq hdone (by simp [hphase])) hc).elim
    | cascaded response receipts hphase =>
      simp only [Request.Told, hphase] at ht
      obtain ⟨hshell, t, record, write, hm, hhash, hresponse⟩ := ht
      exact ⟨t, record, write, hm, hhash, fun hplain => by simp [hshell] at hplain, by
        rw [← hresponse]⟩
    | failed hphase =>
      intro hc
      by_cases hcommitted : ∃ response, q.phase = .committed response
      · obtain ⟨response, heq⟩ := hcommitted
        simp only [Request.Told, heq] at ht
        exact ⟨ht.1, rfl⟩
      · exact (not_hasCommitted (hi.quiet hq hdone fun response heq => hcommitted ⟨response, heq⟩)
          hc).elim
  have hnil : h ++ [] = h := List.append_nil h
  rw [← hnil]
  refine hi.moveOn hq hdone hlocked rfl rfl rfl (by simp) ?_ (by rw [hnil]; exact hi.orderly)
    (fun _ => rfl) (fun _ _ hr => hr) (fun _ _ hr => .inl hr) (by rw [hnil]; exact htold) (by simp)
    (by simp) (by simp)
  rintro idem r ⟨id, t, write, hm⟩
  cases hm

/-- A commit stores its record where everything else has expired. -/
theorem commit (hi : w.Recorded b₀ h) (hq : w.requests.get? id = some q) {s : Time} {write : β → β}
    {record : IdempotencyRecord} (hphase : q.phase = .flushed s write record)
    (hlocked : (w.commit id q s write record).Locked) :
    (w.commit id q s write record).Recorded b₀ (h ++ [.committed id q.idem w.now record write]) := by
  have hdone : q.phase.isDone = false := by rw [hphase]; rfl
  have hbegun := hi.locked.begun id q s hq (by rw [hphase]; rfl)
  obtain ⟨hhash, hgives⟩ := hi.locked.gives id q s write record hq hphase
  have hmem : .committed id q.idem w.now record write ∈
      h ++ [DeskMark.committed id q.idem w.now record write] :=
    List.mem_append_right _ List.mem_cons_self
  -- whatever has been recorded under the key before has expired
  have hexpired (r : IdempotencyRecord) (hr : IsRecorded h q.idem r) : r.expiresAt ≤ w.now :=
    (hi.kept q.idem r hr).elim (fun hget => (hgives r hget).trans hbegun) fun hle => hle
  refine hi.move hq hdone hlocked rfl (by simp [DeskMark.request]) (hi.orderly.concat hexpired) rfl
    (fun idem r hr => ?_) (fun idem r hr => ?_) ?_ (by simp) (by simp) (by simp)
  · rw [Desk.get?_records_commit hi.locked hq hphase]
    rcases hr.of_append with hr | ⟨id', t, write', hm⟩
    · by_cases hk : idem = q.idem
      · exact .inr (hexpired r (hk ▸ hr))
      · rw [if_neg hk]
        exact hi.kept idem r hr
    · cases List.mem_singleton.mp hm
      rw [if_pos rfl]
      exact .inl rfl
  · rw [Desk.get?_records_commit hi.locked hq hphase] at hr
    split at hr
    · next hk =>
      rw [hk, hr]
      exact ⟨id, w.now, write, hmem⟩
    · exact (hi.source idem r hr).append _
  · cases hshell : q.shell with
    | plain => exact ⟨w.now, record, write, hmem, hhash, fun _ => rfl, rfl⟩
    | killSwitch => exact ⟨rfl, w.now, record, write, hmem, hhash, rfl⟩

theorem step (hi : w.Recorded b₀ h) (hs : w.step a = .ok w') : w'.Recorded b₀ (h ++ w.marks a) := by
  have hlocked := hi.locked.step hs
  rcases Desk.step_cases hs with ⟨micros, rfl, hmarks⟩ | ⟨id, idem, hash, shell, hnone, hmarks, rfl⟩ |
    ⟨id, q, hq, hm⟩
  · rw [hmarks, List.append_nil]
    exact ⟨hlocked, hi.orderly, hi.business, fun idem r hr => (hi.kept idem r hr).imp_right fun hle =>
      hle.trans (Nat.le_add_right _ _), hi.source, hi.told, hi.unseen, hi.hits, hi.blocks, hi.purges⟩
  · rw [hmarks, List.append_nil]
    have hkeep (id' : RequestId) (q' : Request β) (hq' : w.requests.get? id' = some q') :
        (w.requests.insert id ⟨idem, hash, shell, .arrived⟩).get? id' = some q' := by
      rw [Table.get?_insert hnone, if_neg, hq']
      rintro rfl
      rw [hnone] at hq'
      cases hq'
    refine ⟨hlocked, hi.orderly, hi.business, hi.kept, hi.source, fun id' q' hq' => ?_,
      fun id' hnone' => ?_, fun id' idem' hash' t r hm => ?_, fun id' t r hm => ?_, hi.purges⟩
    · rw [Table.get?_insert hnone] at hq'
      split at hq'
      · next heq =>
        cases hq'
        exact hi.unseen id' (heq ▸ hnone)
      · exact hi.told id' q' hq'
    · rw [Table.get?_insert hnone] at hnone'
      split at hnone'
      · cases hnone'
      · exact hi.unseen id' hnone'
    · obtain ⟨hno, q', hq', hphase⟩ := hi.hits id' idem' hash' t r hm
      exact ⟨hno, q', hkeep id' q' hq', hphase⟩
    · obtain ⟨hlt, hno, q', hq', hphase⟩ := hi.blocks id' t r hm
      exact ⟨hlt, hno, q', hkeep id' q' hq', hphase⟩
  · generalize w.marks a = ms at hm
    cases hm with
    | silent phase hmoves =>
      rw [List.append_nil]
      exact hi.silent hq hmoves hlocked
    | miss hphase hnone =>
      have hdone : q.phase.isDone = false := by rw [hphase]; rfl
      have hquiet := hi.quiet hq hdone (by simp [hphase])
      refine hi.moveOn hq hdone hlocked rfl rfl rfl (by simp [DeskMark.request])
        (by rintro _ _ ⟨_, _, _, hm⟩; simp at hm) (hi.orderly.concat fun r => ?_) (fun _ => rfl)
        (fun _ _ hr => hr) (fun _ _ hr => .inl hr) (fun m hm => ?_) (by simp) (by simp) (by simp)
      · rw [← hi.select_iff, hnone]
      · rcases List.mem_append.mp hm with hm | hm
        · exact hquiet m hm
        · rw [List.mem_singleton.mp hm]
          simp [DeskMark.IsFinal]
    | hit r hphase hsome =>
      have hdone : q.phase.isDone = false := by rw [hphase]; rfl
      have hno : ¬ HasCommitted (h ++ [.looked id q.idem q.hash w.now (some r)]) id := by
        intro hc
        rcases hc.of_append with hc | ⟨_, _, _, _, hm⟩
        · exact not_hasCommitted (hi.quiet hq hdone (by simp [hphase])) hc
        · simp at hm
      have hr := (hi.select_iff.mp hsome).1
      refine hi.moveOn hq hdone hlocked rfl rfl rfl (by simp [DeskMark.request])
        (by rintro _ _ ⟨_, _, _, hm⟩; simp at hm) (hi.orderly.concat fun r' => ?_) (fun _ => rfl)
        (fun _ _ hr => hr) (fun _ _ hr => .inl hr) ?_ (fun idem hash t r' hm => ?_) (by simp) (by simp)
      · rw [← hi.select_iff, hsome]
      · unfold Request.Told
        by_cases hhash : r.requestHash = q.hash
        · simp only [if_pos hhash]
          exact ⟨hno, r, hr.append _, hhash, rfl⟩
        · simp only [if_neg hhash]
          exact fun hc => (hno hc).elim
      · cases List.mem_singleton.mp hm
        exact ⟨hno, rfl⟩
    | purge s hphase =>
      have hdone : q.phase.isDone = false := by rw [hphase]; rfl
      have hquiet := hi.quiet hq hdone (by simp [hphase])
      have hbegun := hi.locked.begun id q s hq (by rw [hphase]; rfl)
      refine hi.moveOn hq hdone hlocked rfl rfl rfl (by simp [DeskMark.request])
        (by rintro _ _ ⟨_, _, _, hm⟩; simp at hm) (hi.orderly.concat trivial) (fun _ => rfl)
        (fun idem r hr => ?_) (fun idem r hr => ?_) (fun m hm => ?_) (by simp) (by simp)
        (fun id' t removed hm r hr => ?_)
      · rw [Desk.purge, Table.get?_filter, Option.filter_eq_some_iff] at hr
        exact hr.1
      · by_cases hlt : s < r.expiresAt
        · left
          rw [Desk.purge, Table.get?_filter, hr]
          simp [hlt]
        · exact .inr ((Nat.not_lt.mp hlt).trans hbegun)
      · rcases List.mem_append.mp hm with hm | hm
        · exact hquiet m hm
        · rw [List.mem_singleton.mp hm]
          exact not_false
      · cases List.mem_singleton.mp hm
        exact of_decide_eq_true (List.mem_filter.mp hr).2
    | block s write response r hphase hr hlt =>
      have hdone : q.phase.isDone = false := by rw [hphase]; rfl
      have hno : ¬ HasCommitted (h ++ [.blocked id s r]) id := by
        intro hc
        rcases hc.of_append with hc | ⟨_, _, _, _, hm⟩
        · exact not_hasCommitted (hi.quiet hq hdone (by simp [hphase])) hc
        · simp at hm
      refine hi.moveOn hq hdone hlocked rfl rfl rfl (by simp [DeskMark.request])
        (by rintro _ _ ⟨_, _, _, hm⟩; simp at hm) (hi.orderly.concat trivial) (fun _ => rfl)
        (fun _ _ hr => hr) (fun _ _ hr => .inl hr) (fun hc => (hno hc).elim) (by simp)
        (fun t r' hm => ?_) (by simp)
      cases List.mem_singleton.mp hm
      exact ⟨hlt, hno, rfl⟩
    | flush s write response clock hphase hfree hnone =>
      have hdone : q.phase.isDone = false := by rw [hphase]; rfl
      have hquiet := hi.quiet hq hdone (by simp [hphase])
      refine hi.moveOn hq hdone hlocked rfl rfl rfl (by simp)
        (by rintro _ _ ⟨_, _, _, hm⟩; cases hm) (by rw [List.append_nil]; exact hi.orderly)
        (fun _ => rfl) (fun _ _ hr => hr) (fun _ _ hr => .inl hr) ?_ (by simp) (by simp) (by simp)
      rw [List.append_nil]
      exact hquiet
    | commit s write record hphase =>
      exact hi.commit hq hphase hlocked

theorem initial (h₀ : w.Initial) : w.Recorded w.business [] where
  locked := h₀.locked
  orderly := orderly_nil
  business := rfl
  kept idem r hr := by
    obtain ⟨_, _, _, hm⟩ := hr
    cases hm
  source idem r hr := by
    rw [h₀.records] at hr
    cases hr
  told id q hq := by
    rw [h₀.requests] at hq
    cases hq
  unseen _ _ _ hm := by cases hm
  hits _ _ _ _ _ hm := by cases hm
  blocks _ _ _ hm := by cases hm
  purges _ _ _ hm := by cases hm

theorem idempotentUpTo (hi : w.Recorded b₀ h) : IdempotentUpTo b₀ w h where
  once pre id idem t r write post heq := hi.orderly pre _ post heq
  looks pre id idem hash t found post heq := hi.orderly pre _ post heq
  hits := hi.hits
  blocks := hi.blocks
  business := hi.business
  replayed id q r hq hphase := by
    have ht := hi.told id q hq
    simpa only [Request.Told, hphase] using ht
  executed id q r hq hphase := by
    have ht := hi.told id q hq
    simpa only [Request.Told, hphase] using ht
  failures id q f hq hphase := by
    have ht := hi.told id q hq
    simpa only [Request.Told, hphase] using ht
  purges := hi.purges
  kept idem r hr hlt := (hi.kept idem r hr).resolve_right (Nat.not_le.mpr hlt)

end Desk.Recorded

end Recorded

/-! ## Runs -/

section Runs

variable {β : Type*} {w₀ : Desk β} {as : List (DeskAction β)}

/-- In every run the history is on record. -/
theorem recorded_of_run (h₀ : w₀.Initial) (as : List (DeskAction β)) :
    Desk.Recorded w₀.business ((desk β).run w₀ as) (deskHistory w₀ as) :=
  System.trace_invariant (S := desk β) (fun _ _ _ _ hi hs => hi.step hs)
    (Desk.Recorded.initial h₀) as

/-- In every run the keys keep executions apart, and replies are those that have been stored. -/
theorem idempotentUpTo_of_run (h₀ : w₀.Initial) :
    IdempotentUpTo w₀.business ((desk β).run w₀ as) (deskHistory w₀ as) :=
  (recorded_of_run h₀ as).idempotentUpTo

/-- A counter as the business tables, and no requests. -/
def Desk.small : Desk ℕ := ⟨.empty, 0, .empty, 0⟩

theorem Desk.small_initial : Desk.small.Initial := ⟨rfl, rfl⟩

/-- A request up to its work, which counts. -/
def counting (id : RequestId) (idem : IdempotencyKey) : List (DeskAction ℕ) :=
  [.arrive id idem "body" .plain, .lookup id, .purge id, .enter id,
    .work id (.ok (Nat.succ, ⟨201, "counted", none⟩))]

/-- Two requests of one key side by side, and a third after them: one counts, one loses, the last is
replayed. -/
theorem idempotentUpTo_of_run_overlap : IdempotentUpTo 0
    ((desk ℕ).run .small (counting 0 ⟨"u", "/tasks", "k"⟩ ++ counting 1 ⟨"u", "/tasks", "k"⟩ ++
      [.store 0 0, .commit 0, .store 1 0, .arrive 2 ⟨"u", "/tasks", "k"⟩ "body" .plain, .lookup 2]))
    (deskHistory .small (counting 0 ⟨"u", "/tasks", "k"⟩ ++ counting 1 ⟨"u", "/tasks", "k"⟩ ++
      [.store 0 0, .commit 0, .store 1 0, .arrive 2 ⟨"u", "/tasks", "k"⟩ "body" .plain, .lookup 2])) :=
  idempotentUpTo_of_run Desk.small_initial

/-- A day after the first request another one fails, and has purged the record of the first. -/
def failingPurge : List (DeskAction ℕ) :=
  counting 0 ⟨"u", "/tasks", "k"⟩ ++ [.store 0 0, .commit 0, .tick recordTtl,
    .arrive 1 ⟨"u", "/tasks", "l"⟩ "body" .plain, .lookup 1, .purge 1, .enter 1, .work 1 (.error 404)]

/-- A kill switch that commits; then its cascade ends with receipts or with an exception. -/
def stopping (receipts : Option (Option String)) : List (DeskAction ℕ) :=
  [.arrive 0 ⟨"a", "/suspend", "k"⟩ "body" .killSwitch, .lookup 0, .purge 0, .enter 0,
    .work 0 (.ok (Nat.succ, ⟨200, "suspended", none⟩)), .store 0 0, .commit 0, .cascade 0 receipts]

/-- A failing request purges, the reply of a kill switch has receipts that are not stored, and one whose
cascade fails has committed. -/
theorem not_idempotent_of_purge_of_killSwitch :
    ¬ Idempotent 0 ((desk ℕ).run .small failingPurge) (deskHistory .small failingPurge) ∧
    ¬ Idempotent 0 ((desk ℕ).run .small (stopping (some (some "1 aborted"))))
        (deskHistory .small (stopping (some (some "1 aborted")))) ∧
    ¬ Idempotent 0 ((desk ℕ).run .small (stopping none)) (deskHistory .small (stopping none)) := by
  refine ⟨fun h => ?_, fun h => ?_, fun h => ?_⟩
  · have hq : ((desk ℕ).run .small failingPurge).requests.get? 1 =
        some ⟨⟨"u", "/tasks", "l"⟩, "body", .plain, .done (.failed (.business 404))⟩ := rfl
    have hm : .purged 1 recordTtl [⟨"body", ⟨201, "counted", none⟩, recordTtl⟩] ∈
        deskHistory .small failingPurge :=
      List.mem_of_getElem? (show (deskHistory .small failingPurge)[4]? = _ from rfl)
    cases (h.failures 1 _ _ hq rfl).2 _ _ hm
  · have hq : ((desk ℕ).run .small (stopping (some (some "1 aborted")))).requests.get? 0 =
        some ⟨⟨"a", "/suspend", "k"⟩, "body", .killSwitch,
          .done (.executed ⟨200, "suspended", some "1 aborted"⟩)⟩ := rfl
    have hhistory : deskHistory .small (stopping (some (some "1 aborted"))) =
        [.looked 0 ⟨"a", "/suspend", "k"⟩ "body" 0 none, .purged 0 0 [],
          .committed 0 ⟨"a", "/suspend", "k"⟩ 0 ⟨"body", ⟨200, "suspended", none⟩, recordTtl⟩
            Nat.succ] := rfl
    obtain ⟨record, ⟨id, t, write, hm⟩, -, hresponse⟩ := h.replies 0 _ _ hq (.inl rfl)
    rw [hhistory] at hm
    simp only [List.mem_cons, List.not_mem_nil, or_false, reduceCtorEq, false_or,
      DeskMark.committed.injEq] at hm
    rw [hm.2.2.2.1] at hresponse
    cases hresponse
  · have hq : ((desk ℕ).run .small (stopping none)).requests.get? 0 =
        some ⟨⟨"a", "/suspend", "k"⟩, "body", .killSwitch, .done (.failed .internal)⟩ := rfl
    have hm : .committed 0 ⟨"a", "/suspend", "k"⟩ 0 ⟨"body", ⟨200, "suspended", none⟩, recordTtl⟩
        Nat.succ ∈ deskHistory .small (stopping none) :=
      List.mem_of_getElem? (show (deskHistory .small (stopping none))[2]? = _ from rfl)
    exact (h.failures 0 _ _ hq rfl).1 ⟨_, _, _, _, hm⟩

end Runs

end AgentCraft.Requests
