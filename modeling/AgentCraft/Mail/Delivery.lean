import AgentCraft.Mail.Outbox

/-!
# Delivery

Whatever the workers do, and wherever they stop: what is sent or has failed for good stays so, a row becomes
sent after a send of it has succeeded, its attempts are its recorded failures, nobody but the holder of the
lease records a result, and a pending row can be claimed again when its lease and its backoff are over.
-/

namespace AgentCraft.Mail

open AgentCraft.Relational AgentCraft.Transition

/-- What should hold of the rows after a history, and of all runs from here. -/
structure Outbox.Delivers (w : Outbox) (h : List OutboxMark) : Prop where
  /-- `sent` and `delivery_failed` are absorbing. -/
  absorbing : ∀ id row as, w.rows.get? id = some row → row.state ≠ .pending →
    (outbox.run w as).rows.get? id = some row
  /-- A row is sent only if a send of it has succeeded. -/
  succeeded : ∀ id row, w.rows.get? id = some row → row.state = .sent → .succeeded id ∈ h
  /-- The attempts are the recorded failures, and never more than the maximum. -/
  attempts : ∀ id row, w.rows.get? id = some row →
    row.attempts = h.count (.failed id) ∧ row.attempts ≤ maxAttempts
  /-- The result that is recorded is that of the holder of the lease. -/
  holder : ∀ id row row' a, w.rows.get? id = some row → (outbox.next w a).rows.get? id = some row' →
    row'.state ≠ row.state ∨ row'.attempts ≠ row.attempts →
    ∃ worker startedAt, a = .record worker startedAt ∧ row.leaseOwner = some worker
  /-- No row is lost. -/
  kept : ∀ id row as, w.rows.get? id = some row → ∃ row', (outbox.run w as).rows.get? id = some row'
  /-- A lease and a backoff are over after a bounded time. -/
  bounded : ∀ id row, w.rows.get? id = some row →
    (∀ t ∈ row.nextAttemptAt, t ≤ w.now + seconds 1800) ∧ ∀ t ∈ row.leaseExpiresAt, t ≤ w.now + lease
  /-- When they are, the next claim that has room for the row takes it. -/
  claimable : ∀ id row worker batch locked startedAt, w.rows.get? id = some row → row.Due startedAt →
    startedAt ≤ w.now → w.workers.get? worker = some .idle → id ∉ locked →
    (w.rows.rows.countP fun x => x.1 ≠ id ∧ x.2.Due startedAt ∧ x.2.createdAt ≤ row.createdAt) < batch →
    (outbox.next w (.claim worker batch locked startedAt)).rows.get? id =
      some { row with leaseOwner := some worker, leaseExpiresAt := some (startedAt + lease) }

/-! ## The steps -/

/-- The rows of a cycle whose result is not written yet. -/
def Cycle.rows : Cycle → List Claimed
  | .idle => []
  | .working claimed => claimed
  | .finished row _ rest => row :: rest

/-- What the result of a send makes of a row. -/
inductive Settles (c : Claimed) (startedAt : Time) (row : EmailOutbox) : Bool → EmailOutbox → Prop
  | sent : Settles c startedAt row true { row with state := .sent, leaseOwner := none, leaseExpiresAt := none }
  | retry (secs : ℕ) (hsecs : secs ≤ 1800) (hmore : c.attempts + 1 < maxAttempts) :
      Settles c startedAt row false
        { row with
          leaseOwner := none
          leaseExpiresAt := none
          attempts := c.attempts + 1
          nextAttemptAt := some (startedAt + seconds secs) }
  | dead (hlast : maxAttempts ≤ c.attempts + 1) :
      Settles c startedAt row false
        { row with
          state := .deliveryFailed
          leaseOwner := none
          leaseExpiresAt := none
          attempts := c.attempts + 1 }

/-- What a step does, and what is noted of it. -/
inductive OutboxMove (w : Outbox) : OutboxAction → List OutboxMark → Outbox → Prop
  | ticked (micros : ℕ) : OutboxMove w (.tick micros) [] { w with now := w.now + micros }
  | enqueued (id : OutboxId) (purpose payload : String) (createdAt : Time) :
      OutboxMove w (.enqueue id purpose payload createdAt) []
        { w with rows := w.rows.insert id ⟨purpose, payload, .pending, none, none, 0, none, createdAt⟩ }
  | booted (worker : WorkerId) :
      OutboxMove w (.boot worker) [] { w with workers := w.workers.insert worker .idle }
  | claimed (worker : WorkerId) (batch : ℕ) (locked : List OutboxId) (startedAt : Time)
      (hidle : w.workers.get? worker = some .idle) (hstart : startedAt ≤ w.now) :
      OutboxMove w (.claim worker batch locked startedAt) [] (w.claim worker batch locked startedAt)
  | sent (worker : WorkerId) (ok : Bool) (c : Claimed) (rest : List Claimed)
      (hworker : w.workers.get? worker = some (.working (c :: rest))) :
      OutboxMove w (.send worker ok) (if ok then [.succeeded c.id] else [])
        { w with workers := w.workers.set worker (.finished c ok rest) }
  | rested (worker : WorkerId) (a : OutboxAction) :
      OutboxMove w a [] { w with workers := w.workers.set worker .idle }
  | recorded (worker : WorkerId) (startedAt : Time) (c : Claimed) (ok : Bool) (rest : List Claimed)
      (f : EmailOutbox → EmailOutbox) (hworker : w.workers.get? worker = some (.finished c ok rest))
      (hstart : startedAt ≤ w.now) (hf : ∀ row, Settles c startedAt row ok (f row)) :
      OutboxMove w (.record worker startedAt)
        (if ok = false ∧ (w.rows.get? c.id).any (·.leaseOwner = some worker) then [.failed c.id] else [])
        { w.update c.id worker f with workers := w.workers.set worker (.working rest) }

section Steps

variable {w w' : Outbox} {a : OutboxAction} {id : OutboxId} {row row' : EmailOutbox} {worker : WorkerId}
  {h : List OutboxMark}

theorem backoff_le {n secs : ℕ} (h : backoffSeconds[n]? = some secs) : secs ≤ 1800 := by
  have hall : ∀ s ∈ backoffSeconds, s ≤ 1800 := by decide
  exact hall secs (List.mem_of_getElem? h)

theorem Outbox.finalizeRow_eq_ok {c : Claimed} {ok : Bool} {startedAt : Time}
    (h : w.finalizeRow worker c ok startedAt = .ok w') :
    ∃ f, w' = w.update c.id worker f ∧ ∀ row, Settles c startedAt row ok (f row) := by
  cases ok with
  | true =>
    cases h
    exact ⟨_, rfl, fun _ => .sent⟩
  | false =>
    simp only [Outbox.finalizeRow, Bool.false_eq_true, if_false] at h
    split at h
    · next hlast =>
      cases h
      exact ⟨_, rfl, fun _ => .dead hlast⟩
    · next hmore =>
      split at h
      · cases h
      · next secs hsecs =>
        cases h
        exact ⟨_, rfl, fun _ => .retry secs (backoff_le hsecs) (Nat.not_le.mp hmore)⟩

theorem Outbox.step_moves (h : w.step a = .ok w') : OutboxMove w a (w.marks a) w' := by
  cases a with
  | tick micros =>
    cases h
    exact .ticked micros
  | enqueue id purpose payload createdAt =>
    cases h
    exact .enqueued id purpose payload createdAt
  | boot worker =>
    cases h
    exact .booted worker
  | claim worker batch locked startedAt =>
    obtain ⟨-, h⟩ := ite_error_eq_ok.mp h
    obtain ⟨⟨hidle, hstart⟩, h⟩ := ite_ok_else_error.mp h
    cases h
    exact .claimed worker batch locked startedAt hidle hstart
  | send worker ok =>
    simp only [Outbox.step] at h
    split at h
    · next c rest hworker =>
      cases h
      have hmarks : w.marks (.send worker ok) = if ok then [.succeeded c.id] else [] := by
        cases ok with
        | true => simp [Outbox.marks, hworker]
        | false => rfl
      rw [hmarks]
      exact .sent worker ok c rest hworker
    · next hworker =>
      cases h
      have hmarks : w.marks (.send worker ok) = [] := by
        cases ok with
        | true => simp [Outbox.marks, hworker]
        | false => rfl
      rw [hmarks]
      exact .rested worker _
    · cases h
  | record worker startedAt =>
    simp only [Outbox.step] at h
    split at h
    · next c ok rest hworker =>
      split at h
      · next hstart =>
        obtain ⟨w₁, hfinal, h⟩ := bind_eq_ok.mp h
        obtain ⟨f, rfl, hf⟩ := Outbox.finalizeRow_eq_ok hfinal
        cases h
        have hmarks : w.marks (.record worker startedAt) =
            if ok = false ∧ (w.rows.get? c.id).any (·.leaseOwner = some worker) then [.failed c.id] else [] := by
          cases ok with
          | true => simp [Outbox.marks, hworker]
          | false => simp [Outbox.marks, hworker]
        rw [hmarks]
        exact .recorded worker startedAt c ok rest f hworker hstart hf
      · cases h
    · cases h
  | stop worker =>
    cases h
    exact .rested worker _

/-! ## The batch of a claim -/

variable {batch : ℕ} {locked : List OutboxId} {startedAt : Time}

theorem Outbox.mem_batchOf {x : OutboxId × EmailOutbox} (h : x ∈ w.batchOf batch locked startedAt) :
    w.rows.get? x.1 = some x.2 ∧ x.2.Due startedAt := by
  have hmem := List.mem_of_mem_take h
  rw [List.mem_insertionSort, List.mem_filter, Bool.and_eq_true, decide_eq_true_iff] at hmem
  exact ⟨Table.get?_eq_some_iff.mpr hmem.1, hmem.2.1⟩

theorem Outbox.nodup_batchOf : ((w.batchOf batch locked startedAt).map (·.1)).Nodup := by
  have hfilter := w.rows.nodup.sublist (List.Sublist.map Prod.fst
    (List.filter_sublist (p := fun x : OutboxId × EmailOutbox =>
      decide (x.2.Due startedAt) && !locked.contains x.1)))
  refine List.Nodup.sublist (List.Sublist.map _ (List.take_sublist _ _)) ?_
  exact ((List.perm_insertionSort _ _).map Prod.fst).nodup_iff.mpr hfilter

/-- A row of the batch is rewritten as it was, with the lease of the worker. -/
theorem Outbox.get?_claim (h : (w.claim worker batch locked startedAt).rows.get? id = some row') :
    ∃ row, w.rows.get? id = some row ∧ (row' = row ∨ (id, row) ∈ w.batchOf batch locked startedAt ∧
      row' = { row with leaseOwner := some worker, leaseExpiresAt := some (startedAt + lease) }) := by
  rw [Outbox.claim, Table.get?_map, Option.map_eq_some_iff] at h
  obtain ⟨row, hrow, rfl⟩ := h
  refine ⟨row, hrow, ?_⟩
  split
  · next htaken =>
    obtain ⟨x, hx, rfl⟩ := List.mem_map.mp (List.contains_iff_mem.mp htaken)
    have hsame := (Outbox.mem_batchOf hx).1
    rw [hrow] at hsame
    cases hsame
    exact .inr ⟨hx, rfl⟩
  · exact .inl rfl

theorem Outbox.get?_update {f : EmailOutbox → EmailOutbox} {c : OutboxId}
    (h : (w.update c worker f).rows.get? id = some row') :
    ∃ row, w.rows.get? id = some row ∧
      (row' = row ∧ ¬ (id = c ∧ row.leaseOwner = some worker) ∨
        id = c ∧ row.leaseOwner = some worker ∧ row' = f row) := by
  rw [Outbox.update, Table.get?_map, Option.map_eq_some_iff] at h
  obtain ⟨row, hrow, rfl⟩ := h
  refine ⟨row, hrow, ?_⟩
  split
  · next hholds => exact .inr ⟨hholds.1, hholds.2, rfl⟩
  · next hnot => exact .inl ⟨rfl, hnot⟩

/-! ## The invariant -/

/-- What holds after every history. -/
structure Outbox.Sound (w : Outbox) (h : List OutboxMark) : Prop where
  /-- Only a pending row is leased. -/
  free : ∀ id row, w.rows.get? id = some row → row.state ≠ .pending → row.leaseOwner = none
  succeeded : ∀ id row, w.rows.get? id = some row → row.state = .sent → .succeeded id ∈ h
  attempts : ∀ id row, w.rows.get? id = some row → row.attempts = h.count (.failed id) ∧
    row.attempts ≤ maxAttempts ∧ (row.state = .pending → row.attempts < maxAttempts)
  bounded : ∀ id row, w.rows.get? id = some row →
    (∀ t ∈ row.nextAttemptAt, t ≤ w.now + seconds 1800) ∧ ∀ t ∈ row.leaseExpiresAt, t ≤ w.now + lease
  /-- No failure is recorded for a row that is not there. -/
  absent : ∀ id, w.rows.get? id = none → h.count (.failed id) = 0
  /-- A worker knows the attempts of the rows whose lease it has. -/
  claimed : ∀ worker cycle, w.workers.get? worker = some cycle → (cycle.rows.map (·.id)).Nodup ∧
    ∀ c ∈ cycle.rows, ∀ row, w.rows.get? c.id = some row → row.leaseOwner = some worker →
      row.attempts = c.attempts
  /-- A worker has sent what it is about to record as sent. -/
  sending : ∀ worker c rest, w.workers.get? worker = some (.finished c true rest) → .succeeded c.id ∈ h

theorem Outbox.Sound.initial (h₀ : w.Initial) : w.Sound [] := by
  constructor <;> simp [h₀.rows, h₀.workers]

theorem Outbox.Sound.pending (hw : w.Sound h) (hrow : w.rows.get? id = some row)
    (hleased : row.leaseOwner = some worker) : row.state = .pending := by
  by_contra hstate
  rw [hw.free id row hrow hstate] at hleased
  cases hleased

theorem Outbox.Sound.rest (hw : w.Sound h) :
    ({ w with workers := w.workers.set worker .idle } : Outbox).Sound h := by
  refine ⟨hw.free, hw.succeeded, hw.attempts, hw.bounded, hw.absent, ?_, ?_⟩
  · intro worker' cycle hget
    rcases Table.get?_set_cases hget with hget | ⟨-, rfl⟩
    · exact hw.claimed worker' cycle hget
    · exact ⟨List.nodup_nil, by simp [Cycle.rows]⟩
  · intro worker' c rest hget
    rcases Table.get?_set_cases hget with hget | ⟨-, heq⟩
    · exact hw.sending worker' c rest hget
    · cases heq

theorem Outbox.Sound.enqueue (hw : w.Sound h) (id : OutboxId) (purpose payload : String) (createdAt : Time) :
    ({ w with rows := w.rows.insert id ⟨purpose, payload, .pending, none, none, 0, none, createdAt⟩ } :
      Outbox).Sound h := by
  cases hid : w.rows.get? id with
  | some row =>
    have hsame : w.rows.insert id ⟨purpose, payload, .pending, none, none, 0, none, createdAt⟩ = w.rows :=
      Table.insert_of_some hid _
    rw [hsame]
    exact hw
  | none =>
    refine ⟨?_, ?_, ?_, ?_, ?_, ?_, hw.sending⟩
    · intro id' row hget hstate
      rcases Table.get?_insert_cases hget with hget | ⟨rfl, rfl⟩
      · exact hw.free id' row hget hstate
      · rfl
    · intro id' row hget hstate
      rcases Table.get?_insert_cases hget with hget | ⟨rfl, rfl⟩
      · exact hw.succeeded id' row hget hstate
      · cases hstate
    · intro id' row hget
      rcases Table.get?_insert_cases hget with hget | ⟨rfl, rfl⟩
      · exact hw.attempts id' row hget
      · exact ⟨(hw.absent id' hid).symm, Nat.zero_le _, fun _ => Nat.succ_pos _⟩
    · intro id' row hget
      rcases Table.get?_insert_cases hget with hget | ⟨rfl, rfl⟩
      · exact hw.bounded id' row hget
      · exact ⟨by simp, by simp⟩
    · intro id' hnone
      rw [Table.get?_insert hid] at hnone
      split at hnone
      · cases hnone
      · exact hw.absent id' hnone
    · intro worker cycle hget
      obtain ⟨hnodup, hattempts⟩ := hw.claimed worker cycle hget
      refine ⟨hnodup, fun c hc row hrow hleased => ?_⟩
      rcases Table.get?_insert_cases hrow with hrow | ⟨-, rfl⟩
      · exact hattempts c hc row hrow hleased
      · cases hleased

theorem Outbox.Sound.claim (hw : w.Sound h) (hidle : w.workers.get? worker = some .idle)
    (hstart : startedAt ≤ w.now) : (w.claim worker batch locked startedAt).Sound h := by
  refine ⟨?_, ?_, ?_, ?_, ?_, ?_, ?_⟩
  · intro id row' hget hstate
    obtain ⟨row, hrow, rfl | ⟨htaken, rfl⟩⟩ := Outbox.get?_claim hget
    · exact hw.free id row' hrow hstate
    · exact absurd (Outbox.mem_batchOf htaken).2.1 hstate
  · intro id row' hget hstate
    obtain ⟨row, hrow, rfl | ⟨-, rfl⟩⟩ := Outbox.get?_claim hget
    · exact hw.succeeded id row' hrow hstate
    · exact hw.succeeded id row hrow hstate
  · intro id row' hget
    obtain ⟨row, hrow, rfl | ⟨-, rfl⟩⟩ := Outbox.get?_claim hget
    · exact hw.attempts id row' hrow
    · exact hw.attempts id row hrow
  · intro id row' hget
    obtain ⟨row, hrow, rfl | ⟨-, rfl⟩⟩ := Outbox.get?_claim hget
    · exact hw.bounded id row' hrow
    · refine ⟨(hw.bounded id row hrow).1, fun t ht => ?_⟩
      cases ht
      exact Nat.add_le_add_right hstart _
  · intro id hnone
    rw [Outbox.claim, Table.get?_map, Option.map_eq_none_iff] at hnone
    exact hw.absent id hnone
  · intro worker' cycle hget
    rcases Table.get?_set_cases hget with hget | ⟨rfl, rfl⟩
    · by_cases hsame : worker' = worker
      · rw [hsame, hidle] at hget
        cases hget
        exact ⟨List.nodup_nil, by simp [Cycle.rows]⟩
      · obtain ⟨hnodup, hattempts⟩ := hw.claimed worker' cycle hget
        refine ⟨hnodup, fun c hc row' hrow' hleased => ?_⟩
        obtain ⟨row, hrow, rfl | ⟨-, rfl⟩⟩ := Outbox.get?_claim hrow'
        · exact hattempts c hc row' hrow hleased
        · exact absurd (Option.some.inj hleased).symm hsame
    · constructor
      · simp only [Cycle.rows, List.map_map, Function.comp_def]
        exact Outbox.nodup_batchOf
      · intro c hc row' hrow' _
        obtain ⟨x, hx, rfl⟩ := List.mem_map.mp hc
        have hclaimed := (Outbox.mem_batchOf hx).1
        obtain ⟨row, hrow, rfl | ⟨-, rfl⟩⟩ := Outbox.get?_claim hrow'
        · rw [hclaimed] at hrow
          cases hrow
          rfl
        · rw [hclaimed] at hrow
          cases hrow
          rfl
  · intro worker' c rest hget
    rcases Table.get?_set_cases hget with hget | ⟨-, heq⟩
    · exact hw.sending worker' c rest hget
    · cases heq

theorem Outbox.Sound.record (hw : w.Sound h) {c : Claimed} {ok : Bool} {rest : List Claimed}
    {f : EmailOutbox → EmailOutbox} (hworker : w.workers.get? worker = some (.finished c ok rest))
    (hstart : startedAt ≤ w.now) (hf : ∀ row, Settles c startedAt row ok (f row)) :
    ({ w.update c.id worker f with workers := w.workers.set worker (.working rest) } : Outbox).Sound
      (h ++ if ok = false ∧ (w.rows.get? c.id).any (·.leaseOwner = some worker) then [.failed c.id] else []) := by
  have hfree : ∀ row, (f row).leaseOwner = none ∧ (f row).leaseExpiresAt = none := by
    intro row
    have hsettles := hf row
    generalize f row = row' at hsettles
    cases hsettles <;> exact ⟨rfl, rfl⟩
  refine ⟨?_, ?_, ?_, ?_, ?_, ?_, ?_⟩
  · intro id row' hget hstate
    obtain ⟨row, hrow, ⟨rfl, -⟩ | ⟨-, -, rfl⟩⟩ := Outbox.get?_update hget
    · exact hw.free id row' hrow hstate
    · exact (hfree row).1
  · intro id row' hget hstate
    obtain ⟨row, hrow, ⟨rfl, -⟩ | ⟨rfl, hleased, rfl⟩⟩ := Outbox.get?_update hget
    · exact List.mem_append_left _ (hw.succeeded id row' hrow hstate)
    · have hpending := hw.pending hrow hleased
      have hsettles := hf row
      generalize f row = row' at hsettles hstate
      cases hsettles with
      | sent => exact List.mem_append_left _ (hw.sending worker c rest hworker)
      | retry secs hsecs hmore =>
        rw [show row.state = .sent from hstate] at hpending
        cases hpending
      | dead hlast => cases hstate
  · intro id row' hget
    obtain ⟨row, hrow, ⟨rfl, hnot⟩ | ⟨rfl, hleased, rfl⟩⟩ := Outbox.get?_update hget
    · obtain ⟨hcount, hle⟩ := hw.attempts id row' hrow
      refine ⟨?_, hle⟩
      rw [List.count_append, hcount]
      -- A failure of another row, or of one that the worker does not hold.
      split
      · next hfailed =>
        have hother : c.id ≠ id := by
          rintro rfl
          rw [hrow] at hfailed
          exact hnot ⟨rfl, by simpa using hfailed.2⟩
        rw [List.count_singleton, if_neg (by simpa using hother)]
        rfl
      · rfl
    · obtain ⟨hcount, -, hless⟩ := hw.attempts c.id row hrow
      have hless := hless (hw.pending hrow hleased)
      have hknown := (hw.claimed worker _ hworker).2 c List.mem_cons_self row hrow hleased
      have hsettles := hf row
      have hheld : (w.rows.get? c.id).any (·.leaseOwner = some worker) := by simp [hrow, hleased]
      generalize f row = row' at hsettles
      cases hsettles with
      | sent =>
        refine ⟨?_, Nat.le_of_lt hless, fun hstate => by cases hstate⟩
        simpa using hcount
      | retry secs hsecs hmore =>
        refine ⟨?_, Nat.le_of_lt hmore, fun _ => hmore⟩
        rw [if_pos ⟨rfl, hheld⟩, List.count_append, List.count_singleton_self, ← hcount, hknown]
      | dead hlast =>
        refine ⟨?_, ?_, fun hstate => by cases hstate⟩
        · rw [if_pos ⟨rfl, hheld⟩, List.count_append, List.count_singleton_self, ← hcount, hknown]
        · rw [hknown] at hless
          exact hless
  · intro id row' hget
    obtain ⟨row, hrow, ⟨rfl, -⟩ | ⟨-, -, rfl⟩⟩ := Outbox.get?_update hget
    · exact hw.bounded id row' hrow
    · obtain ⟨hbackoff, -⟩ := hw.bounded id row hrow
      refine ⟨fun t ht => ?_, fun t ht => ?_⟩
      · have hsettles := hf row
        generalize f row = row' at hsettles ht
        cases hsettles with
        | sent => exact hbackoff t ht
        | retry secs hsecs hmore =>
          cases ht
          exact Nat.add_le_add hstart (Nat.mul_le_mul_right _ hsecs)
        | dead hlast => exact hbackoff t ht
      · rw [(hfree row).2] at ht
        cases ht
  · intro id hnone
    rw [Outbox.update, Table.get?_map, Option.map_eq_none_iff] at hnone
    rw [List.count_append, hw.absent id hnone]
    split
    · next hfailed =>
      have hother : c.id ≠ id := by
        rintro rfl
        rw [hnone] at hfailed
        simp at hfailed
      rw [List.count_singleton, if_neg (by simpa using hother)]
    · rfl
  · have hrows : ∀ worker' cycle, w.workers.get? worker' = some cycle → ∀ c' ∈ cycle.rows, ∀ row',
        (w.update c.id worker f).rows.get? c'.id = some row' → row'.leaseOwner = some worker' →
        row'.attempts = c'.attempts := by
      intro worker' cycle hget c' hc' row' hrow' hleased
      obtain ⟨row, hrow, ⟨rfl, -⟩ | ⟨-, -, rfl⟩⟩ := Outbox.get?_update hrow'
      · exact (hw.claimed worker' cycle hget).2 c' hc' row' hrow hleased
      · rw [(hfree row).1] at hleased
        cases hleased
    intro worker' cycle hget
    rcases Table.get?_set_cases hget with hget | ⟨rfl, rfl⟩
    · exact ⟨(hw.claimed worker' cycle hget).1, hrows worker' cycle hget⟩
    · have hnodup := (hw.claimed worker' _ hworker).1
      exact ⟨(List.nodup_cons.mp hnodup).2,
        fun c' hc' => hrows worker' _ hworker c' (List.mem_cons_of_mem _ hc')⟩
  · intro worker' c' rest' hget
    rcases Table.get?_set_cases hget with hget | ⟨-, heq⟩
    · exact List.mem_append_left _ (hw.sending worker' c' rest' hget)
    · cases heq

theorem Outbox.Sound.step (hw : w.Sound h) (hs : w.step a = .ok w') : w'.Sound (h ++ w.marks a) := by
  have hmove := Outbox.step_moves hs
  generalize w.marks a = marks at hmove
  cases hmove with
  | ticked micros =>
    rw [List.append_nil]
    refine ⟨hw.free, hw.succeeded, hw.attempts, fun id row hrow => ?_, hw.absent, hw.claimed, hw.sending⟩
    obtain ⟨hbackoff, hlease⟩ := hw.bounded id row hrow
    have hlater : w.now ≤ w.now + micros := Nat.le_add_right _ _
    exact ⟨fun t ht => (hbackoff t ht).trans (Nat.add_le_add_right hlater _),
      fun t ht => (hlease t ht).trans (Nat.add_le_add_right hlater _)⟩
  | enqueued id purpose payload createdAt =>
    rw [List.append_nil]
    exact hw.enqueue id purpose payload createdAt
  | booted worker =>
    rw [List.append_nil]
    refine ⟨hw.free, hw.succeeded, hw.attempts, hw.bounded, hw.absent, ?_, ?_⟩
    · intro worker' cycle hget
      rcases Table.get?_insert_cases hget with hget | ⟨-, rfl⟩
      · exact hw.claimed worker' cycle hget
      · exact ⟨List.nodup_nil, by simp [Cycle.rows]⟩
    · intro worker' c rest hget
      rcases Table.get?_insert_cases hget with hget | ⟨-, heq⟩
      · exact hw.sending worker' c rest hget
      · cases heq
  | claimed worker batch locked startedAt hidle hstart =>
    rw [List.append_nil]
    exact hw.claim hidle hstart
  | sent worker ok c rest hworker =>
    refine ⟨hw.free, fun id row hrow hstate => List.mem_append_left _ (hw.succeeded id row hrow hstate),
      fun id row hrow => ?_, hw.bounded, fun id hnone => ?_, ?_, ?_⟩
    · have hcount : (if ok then [OutboxMark.succeeded c.id] else []).count (.failed id) = 0 := by
        cases ok <;> rfl
      rw [List.count_append, hcount]
      exact hw.attempts id row hrow
    · have hcount : (if ok then [OutboxMark.succeeded c.id] else []).count (.failed id) = 0 := by
        cases ok <;> rfl
      rw [List.count_append, hcount]
      exact hw.absent id hnone
    · intro worker' cycle hget
      rcases Table.get?_set_cases hget with hget | ⟨rfl, rfl⟩
      · exact hw.claimed worker' cycle hget
      · exact hw.claimed worker' (.working (c :: rest)) hworker
    · intro worker' c' rest' hget
      rcases Table.get?_set_cases hget with hget | ⟨-, heq⟩
      · exact List.mem_append_left _ (hw.sending worker' c' rest' hget)
      · cases heq
        exact List.mem_append_right _ (by simp)
  | rested worker =>
    rw [List.append_nil]
    exact hw.rest
  | recorded worker startedAt c ok rest f hworker hstart hf => exact hw.record hworker hstart hf

/-! ## From here on -/

/-- A row stays, and only a claim or the holder of its lease changes it. -/
theorem Outbox.next_row (a : OutboxAction) (hrow : w.rows.get? id = some row) :
    ∃ row', (outbox.next w a).rows.get? id = some row' ∧
      (row' = row ∨ row.state = .pending ∧ row'.state = row.state ∧ row'.attempts = row.attempts ∨
        ∃ worker startedAt, a = .record worker startedAt ∧ row.leaseOwner = some worker) := by
  rcases System.next_cases (S := outbox) w a with hs | hsame
  · have hmove := Outbox.step_moves hs
    generalize w.marks a = marks at hmove
    generalize outbox.next w a = w' at hmove
    cases hmove with
    | enqueued id' purpose payload createdAt =>
      refine ⟨row, ?_, .inl rfl⟩
      change (w.rows.insert id' _).get? id = some row
      cases hid : w.rows.get? id' with
      | some row₀ => rw [Table.insert_of_some hid, hrow]
      | none =>
        rw [Table.get?_insert hid, if_neg, hrow]
        rintro rfl
        rw [hid] at hrow
        cases hrow
    | claimed worker batch locked startedAt hidle hstart =>
      have hget : ∃ row', (w.claim worker batch locked startedAt).rows.get? id = some row' := by
        rw [Outbox.claim, Table.get?_map, hrow]
        exact ⟨_, rfl⟩
      obtain ⟨row', hrow'⟩ := hget
      refine ⟨row', hrow', ?_⟩
      obtain ⟨row₀, hrow₀, rfl | ⟨htaken, rfl⟩⟩ := Outbox.get?_claim hrow'
      · rw [hrow] at hrow₀
        cases hrow₀
        exact .inl rfl
      · rw [hrow] at hrow₀
        cases hrow₀
        exact .inr (.inl ⟨(Outbox.mem_batchOf htaken).2.1, rfl, rfl⟩)
    | recorded worker startedAt c ok rest f hworker hstart hf =>
      have hget : ∃ row', (w.update c.id worker f).rows.get? id = some row' := by
        rw [Outbox.update, Table.get?_map, hrow]
        exact ⟨_, rfl⟩
      obtain ⟨row', hrow'⟩ := hget
      refine ⟨row', hrow', ?_⟩
      obtain ⟨row₀, hrow₀, ⟨rfl, -⟩ | ⟨-, hleased, -⟩⟩ := Outbox.get?_update hrow'
      · rw [hrow] at hrow₀
        cases hrow₀
        exact .inl rfl
      · rw [hrow] at hrow₀
        cases hrow₀
        exact .inr (.inr ⟨worker, startedAt, rfl, hleased⟩)
    | _ => exact ⟨row, hrow, .inl rfl⟩
  · rw [hsame]
    exact ⟨row, hrow, .inl rfl⟩

theorem Outbox.run_row (as : List OutboxAction) (hrow : w.rows.get? id = some row) :
    ∃ row', (outbox.run w as).rows.get? id = some row' := by
  induction as generalizing w row with
  | nil => exact ⟨row, hrow⟩
  | cons a as ih =>
    obtain ⟨row', hrow', -⟩ := Outbox.next_row a hrow
    exact ih hrow'

/-- A row that is neither pending nor leased stays as it is. -/
theorem Outbox.run_final (as : List OutboxAction) (hrow : w.rows.get? id = some row)
    (hstate : row.state ≠ .pending) (hfree : row.leaseOwner = none) :
    (outbox.run w as).rows.get? id = some row := by
  induction as generalizing w with
  | nil => exact hrow
  | cons a as ih =>
    obtain ⟨row', hrow', rfl | ⟨hpending, -⟩ | ⟨worker, -, -, hleased⟩⟩ := Outbox.next_row a hrow
    · exact ih hrow'
    · exact absurd hpending hstate
    · rw [hfree] at hleased
      cases hleased

/-- Of a sorted list, the first `n` elements hold every element that fewer than `n` others come before. -/
theorem mem_take_of_countP {α : Type*} [DecidableEq α] (key : α → ℕ) {l : List α} {x : α} {n : ℕ}
    (hsorted : l.Pairwise fun y z => key y ≤ key z) (hx : x ∈ l)
    (hn : (l.countP fun y => y ≠ x ∧ key y ≤ key x) < n) : x ∈ l.take n := by
  induction l generalizing n with
  | nil => cases hx
  | cons y l ih =>
    obtain ⟨n, rfl⟩ := Nat.exists_eq_succ_of_ne_zero (Nat.ne_of_gt (Nat.zero_lt_of_lt hn))
    rw [List.take_succ_cons]
    by_cases hyx : y = x
    · rw [hyx]
      exact List.mem_cons_self
    · obtain ⟨hfirst, hsorted⟩ := List.pairwise_cons.mp hsorted
      have hxl : x ∈ l := (List.mem_cons.mp hx).resolve_left (Ne.symm hyx)
      rw [List.countP_cons, if_pos (by simpa using ⟨hyx, hfirst x hxl⟩)] at hn
      exact List.mem_cons_of_mem _ (ih hsorted hxl (by omega))

theorem Outbox.mem_batchOf_of_due (hrow : w.rows.get? id = some row) (hdue : row.Due startedAt)
    (hlocked : id ∉ locked)
    (hroom : (w.rows.rows.countP fun x => x.1 ≠ id ∧ x.2.Due startedAt ∧ x.2.createdAt ≤ row.createdAt) <
      batch) : (id, row) ∈ w.batchOf batch locked startedAt := by
  refine mem_take_of_countP (fun x : OutboxId × EmailOutbox => x.2.createdAt) ?_ ?_ ?_
  · have hsorted := List.pairwise_insertionSort
      (fun x y : OutboxId × EmailOutbox => x.2.createdAt ≤ y.2.createdAt)
      (w.rows.rows.filter fun x => decide (x.2.Due startedAt) && !locked.contains x.1)
    exact hsorted
  · rw [List.mem_insertionSort, List.mem_filter]
    exact ⟨Table.get?_eq_some_iff.mp hrow, by simp [hdue, hlocked]⟩
  · rw [(List.perm_insertionSort _ _).countP_eq, List.countP_filter]
    refine Nat.lt_of_le_of_lt (List.countP_mono_left fun x hx hcounted => ?_) hroom
    simp only [Bool.and_eq_true, decide_eq_true_eq] at hcounted ⊢
    refine ⟨fun hid => hcounted.1.1 ?_, hcounted.2.1, hcounted.1.2⟩
    have hget : w.rows.get? x.1 = some x.2 := Table.get?_eq_some_iff.mpr hx
    rw [hid, hrow] at hget
    exact Prod.ext hid (Option.some.inj hget).symm

theorem Outbox.Sound.delivers (hw : w.Sound h) : w.Delivers h where
  absorbing id row as hrow hstate := Outbox.run_final as hrow hstate (hw.free id row hrow hstate)
  succeeded := hw.succeeded
  attempts id row hrow := ⟨(hw.attempts id row hrow).1, (hw.attempts id row hrow).2.1⟩
  holder := by
    intro id row row' a hrow hrow' hchanged
    obtain ⟨row₀, hrow₀, hcases⟩ := Outbox.next_row a hrow
    rw [hrow'] at hrow₀
    cases hrow₀
    rcases hcases with rfl | ⟨-, hstate, hattempts⟩ | hheld
    · rcases hchanged with hne | hne <;> exact absurd rfl hne
    · rcases hchanged with hne | hne
      · exact absurd hstate hne
      · exact absurd hattempts hne
    · exact hheld
  kept id row as hrow := Outbox.run_row as hrow
  bounded := hw.bounded
  claimable := by
    intro id row worker batch locked startedAt hrow hdue hstart hidle hlocked hroom
    have hbatch : ¬ batch < 1 := by omega
    have hstep : outbox.step w (.claim worker batch locked startedAt) =
        .ok (w.claim worker batch locked startedAt) := by
      change (if batch < 1 then _ else _) = _
      rw [if_neg hbatch, if_pos ⟨hidle, hstart⟩]
    rw [System.next_eq_of_step hstep, Outbox.claim, Table.get?_map, hrow, Option.map_some, if_pos]
    rw [List.contains_iff_mem]
    exact List.mem_map_of_mem (f := (·.1)) (Outbox.mem_batchOf_of_due hrow hdue hlocked hroom)

end Steps

variable {w₀ : Outbox}

/-- The outbox delivers, in every run of its workers. -/
theorem Outbox.delivers_of_run (h₀ : w₀.Initial) (as : List OutboxAction) :
    (outbox.run w₀ as).Delivers (outbox.trace Outbox.marks w₀ as) :=
  (System.trace_invariant (S := outbox) (I := Outbox.Sound) (fun _ _ _ _ hw hs => hw.step hs) (.initial h₀)
    as).delivers

/-- Worker `a` is still sending when its lease runs out and `b` claims the row; the send of `a` succeeds and
that of `b` does not. -/
def takeover : List OutboxAction :=
  [.enqueue 1 "email_verify" "…" 0, .boot "a", .boot "b", .claim "a" 10 [] 0, .tick (lease + 1),
    .claim "b" 10 [] (lease + 1), .send "a" true, .record "a" (lease + 1), .send "b" false,
    .record "b" (lease + 1), .send "b" true]

/-- The result of `a` is dropped, the failure of `b` is recorded, and after the backoff `b` delivers. -/
theorem Outbox.delivers_of_run_takeover :
    (outbox.run ⟨.empty, .empty, 0⟩ takeover).Delivers (outbox.trace Outbox.marks ⟨.empty, .empty, 0⟩ takeover) ∧
      ((outbox.run ⟨.empty, .empty, 0⟩ takeover).rows.get? 1).map (fun row => (row.state, row.attempts)) =
        some (.pending, 1) ∧
      ((outbox.run ⟨.empty, .empty, 0⟩ (takeover ++ [.tick (seconds 60), .claim "b" 10 [] (lease + 1 + seconds 60),
        .send "b" true, .record "b" (lease + 1 + seconds 60)])).rows.get? 1).map
          (fun row => (row.state, row.attempts)) = some (.sent, 1) :=
  ⟨Outbox.delivers_of_run ⟨rfl, rfl⟩ takeover, by decide +kernel, by decide +kernel⟩

end AgentCraft.Mail
