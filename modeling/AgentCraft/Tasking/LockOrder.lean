import AgentCraft.Tasking.Schema
import AgentCraft.Transition.Locks

/-!
# The order of the row locks

The transactions that write the rows of tasks and rounds, as the rows that their statements lock: the
row of an `UPDATE`, a `DELETE` or a `SELECT … FOR UPDATE`, in the order of the statements. The system
that runs a round locks the round and then its task; the requests of the user and the terminators lock
the task and then its rounds. The two orders meet in a deadlock. Where no two transactions are
opposed, no cycle of any length is left: the transactions that wait can be ranked by the row they wait
for and the rows they hold.
-/

namespace AgentCraft.Tasking

open AgentCraft.Transition AgentCraft.Relational

/-- The rows that are locked. A round is named with its task, and a slot by the task it is leased to:
a claim skips the slots that are locked, and a release finds its slot by the task. -/
inductive LockRow
  | user (u : UserId)
  | round (k : TaskId) (r : RoundId)
  | task (k : TaskId)
  | slot (k : TaskId)
  | quota (u : UserId)
  | storage
  deriving DecidableEq

/-- What the release of a task gives back: the reservation of the running round, that of the active
task, and storage. -/
structure Releases where
  running : Bool
  active : Bool
  refund : Bool
  deriving DecidableEq

/-- The rows that the release of a task locks. -/
def Releases.rows (f : Releases) (k : TaskId) (u : UserId) : List LockRow :=
  (if f.running then [.slot k, .quota u] else []) ++
    ((if f.active then [.quota u] else []) ++ if f.refund then [.quota u, .storage] else [])

/-- The rounds of a task. -/
def roundsOf (k : TaskId) (rounds : List RoundId) : List LockRow := rounds.map fun r => .round k r

variable {owner : TaskId → UserId}

/-- The rows that the hook of an account deletion finds: the tasks of the user that it deletes, among
them those that it marks before and those that it releases, the rounds that it cancels, and the rounds
that go with the tasks. -/
structure AccountTasks (owner : TaskId → UserId) where
  user : UserId
  rounds : List (TaskId × RoundId)
  marked : List TaskId
  released : List (TaskId × Releases)
  deleted : List TaskId
  cascaded : List (TaskId × RoundId)
  owned : ∀ k ∈ deleted, owner k = user
  rounds_deleted : ∀ p ∈ rounds, p.1 ∈ deleted
  marked_deleted : ∀ k ∈ marked, k ∈ deleted
  released_marked : ∀ p ∈ released, p.1 ∈ marked
  cascaded_deleted : ∀ p ∈ cascaded, p.1 ∈ deleted

/-- The rows of the deletion of an account, in order. -/
def AccountTasks.rows (scan : AccountTasks owner) : List LockRow :=
  .user scan.user :: ((scan.rounds.map fun p => .round p.1 p.2) ++ (scan.marked.map .task ++
    ((scan.released.flatMap fun p => p.2.rows p.1 scan.user) ++
      (scan.deleted.map .task ++ scan.cascaded.map fun p => .round p.1 p.2))))

/-- The transactions, with the branches that they take and the rounds that their statements find. -/
inductive TaskTx (owner : TaskId → UserId)
  | claimRound (k : TaskId) (r : RoundId)
  | persistFact (k : TaskId) (r : RoundId)
  | settle (k : TaskId) (r : RoundId) (pendingAssistant : Bool) (f : Releases)
  | enforceRoundDeadline (k : TaskId) (r : RoundId) (f : Releases)
  | reclaimExpiredRound (k : TaskId) (r : RoundId) (f : Releases)
  | cancelCancellingRound (k : TaskId) (r : RoundId) (f : Releases)
  | requestTerminalWhileRunning (k : TaskId) (rounds : List RoundId)
  | terminalizeQueued (k : TaskId) (rounds : List RoundId) (f : Releases)
  | finalizeTerminal (k : TaskId) (f : Releases)
  | deleteTask (k : TaskId) (running : Bool) (rounds : List RoundId) (f : Releases)
  | sendMessage (k : TaskId)
  | commitInput (k : TaskId)
  | registerOutput (k : TaskId) (r : RoundId) (refunded : Bool)
  | terminateOne (k : TaskId) (rounds : List RoundId) (f : Releases)
  | reconcilePendingTerminal (k : TaskId) (f : Releases)
  | terminateTasksHook (scan : AccountTasks owner)

/-- The rows that a transaction locks, in the order of its statements. -/
def TaskTx.rows : TaskTx owner → List LockRow
  | .claimRound k r => [.round k r, .task k, .quota (owner k), .slot k, .task k]
  | .persistFact k r => [.round k r, .task k]
  | .settle k r pendingAssistant f =>
    .round k r :: ((if pendingAssistant then [.task k] else []) ++
      (.task k :: .task k :: .task k :: f.rows k (owner k)))
  | .enforceRoundDeadline k r f => .round k r :: .task k :: .task k :: f.rows k (owner k)
  | .reclaimExpiredRound k r f =>
    .round k r :: .round k r :: .task k :: .task k :: f.rows k (owner k)
  | .cancelCancellingRound k r f => .round k r :: .task k :: f.rows k (owner k)
  -- `abort_task` and `complete_task` lock the task and go on by its status
  | .requestTerminalWhileRunning k rounds => .task k :: (roundsOf k rounds ++ [.task k])
  | .terminalizeQueued k rounds f =>
    .task k :: (roundsOf k rounds ++ (.task k :: .task k :: f.rows k (owner k)))
  | .finalizeTerminal k f => .task k :: .task k :: .task k :: f.rows k (owner k)
  | .deleteTask k running rounds f =>
    .task k :: (roundsOf k rounds ++ ((if running then [.task k] else []) ++
      (.task k :: .task k :: f.rows k (owner k))))
  | .sendMessage k => [.task k, .task k, .task k, .task k]
  | .commitInput k => [.task k, .task k, .quota (owner k), .storage, .task k, .task k]
  -- the refund of the file that is replaced comes before the charge
  | .registerOutput k r refunded =>
    .task k :: .round k r :: ((if refunded then [.quota (owner k), .storage] else []) ++
      [.quota (owner k), .storage])
  | .terminateOne k rounds f =>
    .task k :: (roundsOf k rounds ++ (.task k :: .task k :: f.rows k (owner k)))
  | .reconcilePendingTerminal k f => .task k :: .task k :: f.rows k (owner k)
  | .terminateTasksHook scan => scan.rows

/-- The transactions in progress, by a number that no other one has. -/
abbrev TaskLocks := LockTable ℕ LockRow

/-- The system of the transactions. -/
def taskLockSystem (owner : TaskId → UserId) :
    System TaskLocks (LockAction ℕ (TaskTx owner)) LockFailure :=
  LockTable.system TaskTx.rows

/-! ## The discipline of one transaction -/

/-- The row is one of the user: of the account or its tasks, or shared by all. -/
def LockRow.OwnedBy (owner : TaskId → UserId) (u : UserId) : LockRow → Prop
  | .user v => v = u
  | .round k _ => owner k = u
  | .task k => owner k = u
  | .slot k => owner k = u
  | .quota v => v = u
  | .storage => True

/-- The rows that a transaction of the user holds when it locks a new row. -/
def LockRow.Admissible (u : UserId) (held : List LockRow) : LockRow → Prop
  | .user _ => held = []
  | .round k _ => held = [] ∨ .task k ∈ held ∨
      .user u ∈ held ∧ ∀ x ∈ held, x = .user u ∨ ∃ k r, x = .round k r
  | .task k => held = [] ∨ (∀ x ∈ held, ∃ r, x = .round k r) ∨ .user u ∈ held
  | .slot k => .task k ∈ held
  | .quota _ => True
  | .storage => .quota u ∈ held

/-- Every row that is still to be locked is held or admissible when its turn comes. -/
@[grind] def Obeys (u : UserId) : List LockRow → List LockRow → Prop
  | _, [] => True
  | held, x :: rest => (x ∈ held ∨ x.Admissible u held) ∧ Obeys u (x :: held) rest

/-- What holds of every transaction of the user `u` at each of its statements. -/
structure Disciplined (owner : TaskId → UserId) (u : UserId) (h : LockTx LockRow) : Prop where
  owned : ∀ x, x ∈ h.held ∨ x ∈ h.rest → x.OwnedBy owner u
  obeys : Obeys u h.held h.rest
  paired : ∀ k r, LockRow.round k r ∈ h.held ∨ LockRow.round k r ∈ h.rest →
    LockRow.task k ∈ h.held ∨ LockRow.task k ∈ h.rest
  slot_held : ∀ k, LockRow.slot k ∈ h.held → LockRow.task k ∈ h.held
  storage_held : LockRow.storage ∈ h.held → LockRow.quota u ∈ h.held

section Obeys

variable {u : UserId} {k : TaskId} {held xs ys : List LockRow}

@[simp]
theorem obeys_nil : Obeys u held [] := trivial

@[simp]
theorem obeys_cons {x : LockRow} :
    Obeys u held (x :: xs) ↔ (x ∈ held ∨ x.Admissible u held) ∧ Obeys u (x :: held) xs := Iff.rfl

theorem obeys_append : Obeys u held (xs ++ ys) ↔ Obeys u held xs ∧ Obeys u (xs.reverse ++ held) ys := by
  induction xs generalizing held with
  | nil => simp
  | cons x xs ih => simp [ih, and_assoc]

theorem obeys_rounds (hk : LockRow.task k ∈ held) (rounds : List RoundId) :
    Obeys u held (roundsOf k rounds) := by
  unfold roundsOf
  induction rounds generalizing held with
  | nil => trivial
  | cons r rounds ih =>
    exact ⟨.inr (.inr (.inl hk)), ih (List.mem_cons_of_mem _ hk)⟩

theorem obeys_releases (hk : LockRow.task k ∈ held) (f : Releases) :
    Obeys u held (f.rows k u) := by
  obtain ⟨running, active, refund⟩ := f
  cases running <;> cases active <;> cases refund <;> simp [Releases.rows, LockRow.Admissible, hk]

end Obeys

namespace Disciplined

variable {u : UserId} {held rest : List LockRow} {x : LockRow}

theorem lock (hd : Disciplined owner u { held := held, rest := x :: rest }) :
    Disciplined owner u { held := x :: held, rest := rest } := by
  obtain ⟨hx, hrest⟩ := hd.obeys
  refine ⟨fun y hy => hd.owned y ?_, hrest, fun k r hr => ?_, fun k hk => ?_, fun hst => ?_⟩
  · simpa [or_assoc, or_left_comm] using hy
  · have hr' := hd.paired k r (by simpa [or_assoc, or_left_comm] using hr)
    simpa [or_assoc, or_left_comm] using hr'
  · rcases List.mem_cons.mp hk with rfl | hk
    · exact List.mem_cons_of_mem _ (hx.elim (hd.slot_held k) id)
    · exact List.mem_cons_of_mem _ (hd.slot_held k hk)
  · rcases List.mem_cons.mp hst with rfl | hst
    · exact List.mem_cons_of_mem _ (hx.elim hd.storage_held id)
    · exact List.mem_cons_of_mem _ (hd.storage_held hst)

/-- A transaction that starts is disciplined when its rows are. -/
theorem of_rows {xs : List LockRow} (howned : ∀ x ∈ xs, x.OwnedBy owner u) (hobeys : Obeys u [] xs)
    (hpaired : ∀ k r, LockRow.round k r ∈ xs → LockRow.task k ∈ xs) :
    Disciplined owner u { held := [], rest := xs } where
  owned x hx := howned x (hx.resolve_left (List.not_mem_nil))
  obeys := hobeys
  paired k r hr := .inr (hpaired k r (hr.resolve_left (List.not_mem_nil)))
  slot_held _ hk := absurd hk (List.not_mem_nil)
  storage_held hst := absurd hst (List.not_mem_nil)

end Disciplined

/-! ## The transactions -/

section Programs

variable {u : UserId} {k : TaskId} {x : LockRow} {xs : List LockRow} {f : Releases}
  {rounds : List RoundId} {scan : AccountTasks owner}

/-- A row that a transaction of the task locks. -/
def LockRow.IsOf (k : TaskId) (u : UserId) : LockRow → Prop
  | .user _ => False
  | .round k' _ => k' = k
  | .task k' => k' = k
  | .slot k' => k' = k
  | .quota v => v = u
  | .storage => True

/-- All rows are rows of the task. -/
def AllOf (k : TaskId) (u : UserId) (xs : List LockRow) : Prop := ∀ x ∈ xs, x.IsOf k u

@[simp]
theorem allOf_nil : AllOf k u [] := by simp [AllOf]

@[simp]
theorem allOf_cons : AllOf k u (x :: xs) ↔ x.IsOf k u ∧ AllOf k u xs := List.forall_mem_cons

@[simp]
theorem allOf_append {ys : List LockRow} : AllOf k u (xs ++ ys) ↔ AllOf k u xs ∧ AllOf k u ys :=
  List.forall_mem_append

@[simp]
theorem allOf_rounds : AllOf k u (roundsOf k rounds) := by
  intro x hx
  obtain ⟨r, -, rfl⟩ := List.mem_map.mp hx
  rfl

@[simp]
theorem allOf_releases : AllOf k u (f.rows k u) := by
  intro x hx
  simp only [Releases.rows, List.mem_append, List.mem_ite_nil_right, List.mem_cons,
    List.not_mem_nil, or_false] at hx
  obtain ⟨-, rfl | rfl⟩ | ⟨-, rfl⟩ | ⟨-, rfl | rfl⟩ := hx
  exacts [rfl, rfl, rfl, rfl, trivial]

/-- The rows are those of a transaction of one task, in an order that obeys the discipline. -/
structure OfTask (k : TaskId) (u : UserId) (xs : List LockRow) : Prop where
  allOf : AllOf k u xs
  obeys : Obeys u [] xs
  mem : LockRow.task k ∈ xs

theorem LockRow.IsOf.ownedBy (hk : owner k = u) (hx : x.IsOf k u) : x.OwnedBy owner u := by
  cases x with
  | user v => exact hx.elim
  | round k' r => exact (congrArg owner hx).trans hk
  | task k' => exact (congrArg owner hx).trans hk
  | slot k' => exact (congrArg owner hx).trans hk
  | quota v => exact hx
  | storage => trivial

theorem OfTask.disciplined (h : OfTask k (owner k) xs) :
    Disciplined owner (owner k) { held := [], rest := xs } := by
  refine .of_rows (fun x hx => (h.allOf x hx).ownedBy rfl) h.obeys fun k' r hr => ?_
  obtain rfl : k' = k := h.allOf _ hr
  exact h.mem

/-- Once the task is locked, its rounds and the rows of a release may be locked. -/
theorem obeys_terminal {held : List LockRow} (hk : LockRow.task k ∈ held) :
    Obeys u held (roundsOf k rounds ++ (.task k :: .task k :: f.rows k u)) := by
  rw [obeys_append]
  have hk' : LockRow.task k ∈ (roundsOf k rounds).reverse ++ held := List.mem_append_right _ hk
  exact ⟨obeys_rounds hk rounds, .inl hk', .inl (List.mem_cons_self ..),
    obeys_releases (List.mem_cons_self ..) f⟩

theorem TaskTx.ofTask (tx : TaskTx owner) :
    (∃ k, OfTask k (owner k) tx.rows) ∨ ∃ scan, tx = .terminateTasksHook scan := by
  cases tx with
  | claimRound k r =>
    refine .inl ⟨k, ?_, ?_, ?_⟩ <;> simp [TaskTx.rows, LockRow.IsOf, LockRow.Admissible]
  | persistFact k r =>
    refine .inl ⟨k, ?_, ?_, ?_⟩ <;> simp [TaskTx.rows, LockRow.IsOf, LockRow.Admissible]
  | settle k r pendingAssistant f =>
    refine .inl ⟨k, ?_, ?_, ?_⟩ <;> cases pendingAssistant <;>
      simp [TaskTx.rows, LockRow.IsOf, LockRow.Admissible, obeys_releases]
  | enforceRoundDeadline k r f =>
    refine .inl ⟨k, ?_, ?_, ?_⟩ <;>
      simp [TaskTx.rows, LockRow.IsOf, LockRow.Admissible, obeys_releases]
  | reclaimExpiredRound k r f =>
    refine .inl ⟨k, ?_, ?_, ?_⟩ <;>
      simp [TaskTx.rows, LockRow.IsOf, LockRow.Admissible, obeys_releases]
  | cancelCancellingRound k r f =>
    refine .inl ⟨k, ?_, ?_, ?_⟩ <;>
      simp [TaskTx.rows, LockRow.IsOf, LockRow.Admissible, obeys_releases]
  | requestTerminalWhileRunning k rounds =>
    refine .inl ⟨k, ?_, ?_, ?_⟩ <;>
      simp [TaskTx.rows, LockRow.IsOf, LockRow.Admissible, obeys_append, obeys_rounds]
  | terminalizeQueued k rounds f =>
    refine .inl ⟨k, ?_, ?_, ?_⟩ <;>
      simp [TaskTx.rows, LockRow.IsOf, LockRow.Admissible, obeys_terminal]
  | finalizeTerminal k f =>
    refine .inl ⟨k, ?_, ?_, ?_⟩ <;>
      simp [TaskTx.rows, LockRow.IsOf, LockRow.Admissible, obeys_releases]
  | deleteTask k running rounds f =>
    refine .inl ⟨k, ?_, ?_, ?_⟩ <;> cases running <;>
      simp [TaskTx.rows, LockRow.IsOf, LockRow.Admissible, obeys_append, obeys_rounds, obeys_releases]
  | sendMessage k =>
    refine .inl ⟨k, ?_, ?_, ?_⟩ <;> simp [TaskTx.rows, LockRow.IsOf, LockRow.Admissible]
  | commitInput k =>
    refine .inl ⟨k, ?_, ?_, ?_⟩ <;> simp [TaskTx.rows, LockRow.IsOf, LockRow.Admissible]
  | registerOutput k r refunded =>
    refine .inl ⟨k, ?_, ?_, ?_⟩ <;> cases refunded <;>
      simp [TaskTx.rows, LockRow.IsOf, LockRow.Admissible]
  | terminateOne k rounds f =>
    refine .inl ⟨k, ?_, ?_, ?_⟩ <;>
      simp [TaskTx.rows, LockRow.IsOf, LockRow.Admissible, obeys_terminal]
  | reconcilePendingTerminal k f =>
    refine .inl ⟨k, ?_, ?_, ?_⟩ <;>
      simp [TaskTx.rows, LockRow.IsOf, LockRow.Admissible, obeys_releases]
  | terminateTasksHook scan => exact .inr ⟨scan, rfl⟩

/-! ### The deletion of an account -/

/-- With the account locked and only rounds besides, more rounds may be locked. -/
theorem obeys_accountRounds {held : List LockRow} (hu : LockRow.user u ∈ held)
    (hheld : ∀ x ∈ held, x = .user u ∨ ∃ k r, x = .round k r) (ps : List (TaskId × RoundId)) :
    Obeys u held (ps.map fun p => .round p.1 p.2) := by
  induction ps generalizing held with
  | nil => trivial
  | cons p ps ih =>
    refine ⟨.inr (.inr (.inr ⟨hu, hheld⟩)), ih (List.mem_cons_of_mem _ hu) fun x hx => ?_⟩
    rcases List.mem_cons.mp hx with rfl | hx
    · exact .inr ⟨p.1, p.2, rfl⟩
    · exact hheld x hx

/-- With the account locked, tasks may be locked. -/
theorem obeys_accountTasks {held : List LockRow} (hu : LockRow.user u ∈ held) (ks : List TaskId) :
    Obeys u held (ks.map .task) := by
  induction ks generalizing held with
  | nil => trivial
  | cons k ks ih => exact ⟨.inr (.inr (.inr hu)), ih (List.mem_cons_of_mem _ hu)⟩

/-- With their tasks locked, the rows of the releases may be locked. -/
theorem obeys_accountReleases {held : List LockRow} {ps : List (TaskId × Releases)}
    (hps : ∀ p ∈ ps, LockRow.task p.1 ∈ held) : Obeys u held (ps.flatMap fun p => p.2.rows p.1 u) := by
  induction ps generalizing held with
  | nil => trivial
  | cons p ps ih =>
    rw [List.flatMap_cons, obeys_append]
    refine ⟨obeys_releases (hps p (List.mem_cons_self ..)) p.2, ih fun q hq => ?_⟩
    exact List.mem_append_right _ (hps q (List.mem_cons_of_mem _ hq))

/-- With their tasks locked, rounds may be locked. -/
theorem obeys_cascade {held : List LockRow} {ps : List (TaskId × RoundId)}
    (hps : ∀ p ∈ ps, LockRow.task p.1 ∈ held) : Obeys u held (ps.map fun p => .round p.1 p.2) := by
  induction ps generalizing held with
  | nil => trivial
  | cons p ps ih =>
    refine ⟨.inr (.inr (.inl (hps p (List.mem_cons_self ..)))), ih fun q hq => ?_⟩
    exact List.mem_cons_of_mem _ (hps q (List.mem_cons_of_mem _ hq))

theorem AccountTasks.obeys (scan : AccountTasks owner) : Obeys scan.user [] scan.rows := by
  refine ⟨.inr rfl, ?_⟩
  simp only [obeys_append]
  refine ⟨obeys_accountRounds (List.mem_singleton_self _) (fun x hx => ?_) _,
    obeys_accountTasks (by simp) _, obeys_accountReleases fun p hp => ?_,
    obeys_accountTasks (by simp) _, obeys_cascade fun p hp => ?_⟩
  · exact .inl (List.mem_singleton.mp hx)
  · simp [scan.released_marked p hp]
  · simp [scan.cascaded_deleted p hp]

theorem AccountTasks.owned_rows (scan : AccountTasks owner) :
    ∀ x ∈ scan.rows, x.OwnedBy owner scan.user := by
  intro x hx
  simp only [AccountTasks.rows, List.mem_cons, List.mem_append, List.mem_map, List.mem_flatMap] at hx
  obtain rfl | ⟨p, hp, rfl⟩ | ⟨k, hk, rfl⟩ | ⟨p, hp, hx⟩ | ⟨k, hk, rfl⟩ | ⟨p, hp, rfl⟩ := hx
  · rfl
  · exact scan.owned _ (scan.rounds_deleted p hp)
  · exact scan.owned _ (scan.marked_deleted k hk)
  · have howned := scan.owned _ (scan.marked_deleted _ (scan.released_marked p hp))
    exact LockRow.IsOf.ownedBy howned (allOf_releases x hx)
  · exact scan.owned k hk
  · exact scan.owned _ (scan.cascaded_deleted p hp)

theorem AccountTasks.paired (scan : AccountTasks owner) {r : RoundId}
    (hr : LockRow.round k r ∈ scan.rows) : LockRow.task k ∈ scan.rows := by
  suffices hk : k ∈ scan.deleted by simp [AccountTasks.rows, hk]
  simp only [AccountTasks.rows, List.mem_cons, List.mem_append, List.mem_map, List.mem_flatMap,
    reduceCtorEq, false_or, and_false, exists_false, LockRow.round.injEq] at hr
  obtain ⟨p, hp, rfl, -⟩ | ⟨p, -, hr⟩ | ⟨p, hp, rfl, -⟩ := hr
  · exact scan.rounds_deleted p hp
  · simp [Releases.rows] at hr
  · exact scan.cascaded_deleted p hp

/-- Every transaction obeys the discipline when it starts. -/
theorem TaskTx.disciplined (tx : TaskTx owner) :
    ∃ u, Disciplined owner u { held := [], rest := tx.rows } := by
  obtain ⟨k, hk⟩ | ⟨scan, rfl⟩ := tx.ofTask
  · exact ⟨owner k, hk.disciplined⟩
  · exact ⟨scan.user, .of_rows scan.owned_rows scan.obeys fun _ _ => scan.paired⟩

end Programs

/-! ## The ranks of waiting transactions -/

/-- The rank of a transaction by the rows that it holds and the row that it waits for. Nobody waits for
a slot. -/
def waitRank (owner : TaskId → UserId) (held : List LockRow) : LockRow → ℕ
  | .user _ => 0
  | .round k _ => if .task k ∈ held then 8 else if held = [] then 0 else 1
  | .task k =>
    if held = [] then 0 else if .quota (owner k) ∈ held then 7 else if .user (owner k) ∈ held then 3 else 2
  | .slot _ => 4
  | .quota _ => 5
  | .storage => 6

section Ranks

variable {u u' : UserId} {k : TaskId} {h h' : LockTx LockRow} {w w' : LockRow}

theorem Disciplined.admissible (hd : Disciplined owner u h) (hw : h.rest.head? = some w)
    (hnot : w ∉ h.held) : w.Admissible u h.held := by
  obtain ⟨rest, hrest⟩ := List.head?_eq_some_iff.mp hw
  have hobeys := hd.obeys
  rw [hrest] at hobeys
  exact hobeys.1.resolve_left hnot

theorem Disciplined.ownedBy (hd : Disciplined owner u h) (hw : h.rest.head? = some w) :
    w.OwnedBy owner u := hd.owned w (.inr (List.mem_of_head? hw))

/-- A transaction that waits and holds anything ranks above 0. -/
theorem waitRank_pos {held : List LockRow} (hadm : w.Admissible u held) (hheld : held ≠ []) :
    0 < waitRank owner held w := by
  cases w with
  | user v => exact absurd hadm hheld
  | round k r =>
    simp only [waitRank, if_neg hheld]
    split <;> omega
  | task k =>
    simp only [waitRank, if_neg hheld]
    split_ifs <;> omega
  | slot k => simp [waitRank]
  | quota v => simp [waitRank]
  | storage => simp [waitRank]

/-- Without the account, a transaction that holds anything waits for a round only when it holds the
task. -/
theorem one_lt_waitRank {held : List LockRow} (hadm : w.Admissible u held) (hheld : held ≠ [])
    (hu : LockRow.user u ∉ held) : 1 < waitRank owner held w := by
  cases w with
  | user v => exact absurd hadm hheld
  | round k r =>
    obtain hnil | hk | ⟨hu', -⟩ := hadm
    · exact absurd hnil hheld
    · simp [waitRank, hk]
    · exact absurd hu' hu
  | task k =>
    rw [waitRank, if_neg hheld]
    split_ifs <;> omega
  | slot k => simp [waitRank]
  | quota v => simp [waitRank]
  | storage => simp [waitRank]

/-- A transaction that holds a task waits for a round as the highest of all; for a task it waits only
when it deletes an account. -/
theorem waitRank_of_task {held : List LockRow} (hadm : w.Admissible u held)
    (hk : LockRow.task k ∈ held) :
    (∃ k' r, w = .round k' r ∧ waitRank owner held w = 8) ∨ (∃ k', w = .task k' ∧ .user u ∈ held) ∨
      (∃ k', w = .slot k') ∨ (∃ v, w = .quota v) ∨ w = .storage := by
  have hheld : held ≠ [] := List.ne_nil_of_mem hk
  cases w with
  | user v => exact absurd hadm hheld
  | round k' r =>
    obtain hnil | hk' | ⟨-, honly⟩ := hadm
    · exact absurd hnil hheld
    · exact .inl ⟨k', r, rfl, if_pos hk'⟩
    · obtain h | ⟨_, _, h⟩ := honly _ hk <;> cases h
  | task k' =>
    obtain hnil | honly | hu := hadm
    · exact absurd hnil hheld
    · obtain ⟨_, h⟩ := honly _ hk
      cases h
    · exact .inr (.inl ⟨k', rfl, hu⟩)
  | slot k' => exact .inr (.inr (.inl ⟨k', rfl⟩))
  | quota v => exact .inr (.inr (.inr (.inl ⟨v, rfl⟩)))
  | storage => exact .inr (.inr (.inr (.inr rfl)))

/-- A transaction that holds the quota of its user waits for a round or a task, which ranks high, or
for storage. -/
theorem waitRank_of_quota {held : List LockRow} (hadm : w.Admissible u held)
    (howned : w.OwnedBy owner u) (hnot : w ∉ held) (hq : LockRow.quota u ∈ held)
    (hslot : ∀ k, w ≠ .slot k) : 7 ≤ waitRank owner held w ∨ w = .storage := by
  have hheld : held ≠ [] := List.ne_nil_of_mem hq
  cases w with
  | user v => exact absurd hadm hheld
  | round k r =>
    obtain hnil | hk | ⟨-, honly⟩ := hadm
    · exact absurd hnil hheld
    · exact .inl (by simp [waitRank, hk])
    · obtain h | ⟨_, _, h⟩ := honly _ hq <;> cases h
  | task k =>
    rw [← show owner k = u from howned] at hq
    exact .inl (by simp [waitRank, hheld, hq])
  | slot k => exact absurd rfl (hslot k)
  | quota v =>
    rw [show v = u from howned] at hnot
    exact absurd hq hnot
  | storage => exact .inr rfl

/-- The rank grows from a transaction that waits for a task to a waiting one that holds it. -/
theorem waitRank_lt_of_task (hd : Disciplined owner u h) (hd' : Disciplined owner u' h')
    (hw : h.rest.head? = some (.task k)) (hw' : h'.rest.head? = some w')
    (hheld : LockRow.task k ∈ h'.held) (hnot' : w' ∉ h'.held) (hslot : ∀ k, w' ≠ .slot k)
    (hexcl : ∀ x ∈ h.held, x ∉ h'.held) (hopp : ∀ x ∈ h.held, x ∉ h'.rest) :
    waitRank owner h.held (.task k) < waitRank owner h'.held w' := by
  have hadm : LockRow.Admissible u h.held (.task k) :=
    hd.admissible hw fun hmem => hexcl _ hmem hheld
  have hadm' := hd'.admissible hw' hnot'
  have hne : h'.held ≠ [] := List.ne_nil_of_mem hheld
  have howned' := hd'.ownedBy hw'
  have hu : owner k = u := hd.ownedBy hw
  obtain rfl : owner k = u' := hd'.owned _ (.inl hheld)
  have hwho := @waitRank_of_task owner _ _ _ _ hadm' hheld
  by_cases hnil : h.held = []
  · have hpos : 0 < waitRank owner h'.held w' := waitRank_pos hadm' hne
    simpa [waitRank, hnil] using hpos
  by_cases hq : LockRow.quota (owner k) ∈ h.held
  · have hacc : LockRow.user (owner k) ∈ h.held := by
      obtain hnil' | honly | hacc := hadm
      · exact absurd hnil' hnil
      · obtain ⟨_, h⟩ := honly _ hq
        cases h
      · exact hu ▸ hacc
    have hrank : waitRank owner h.held (.task k) = 7 := by simp [waitRank, hnil, hq]
    rw [hrank]
    obtain ⟨k', r, -, h8⟩ | ⟨k', -, hacc'⟩ | ⟨k', rfl⟩ | ⟨v, rfl⟩ | rfl := hwho
    · omega
    · exact absurd hacc' (hexcl _ hacc)
    · exact absurd rfl (hslot k')
    · -- the holder of the task has yet to lock the quota that the waiting transaction holds
      obtain rfl : v = owner k := howned'
      exact absurd (List.mem_of_head? hw') (hopp _ hq)
    · exact absurd hadm' (hexcl _ hq)
  · by_cases hacc : LockRow.user (owner k) ∈ h.held
    · have hrank : waitRank owner h.held (.task k) = 3 := by simp [waitRank, hnil, hq, hacc]
      rw [hrank]
      obtain ⟨k', r, -, h8⟩ | ⟨k', -, hacc'⟩ | ⟨k', rfl⟩ | ⟨v, rfl⟩ | rfl := hwho
      · omega
      · exact absurd hacc' (hexcl _ hacc)
      · exact absurd rfl (hslot k')
      · simp [waitRank]
      · simp [waitRank]
    · have hrank : waitRank owner h.held (.task k) = 2 := by simp [waitRank, hnil, hq, hacc]
      rw [hrank]
      obtain ⟨k', r, -, h8⟩ | ⟨k', rfl, hacc'⟩ | ⟨k', rfl⟩ | ⟨v, rfl⟩ | rfl := hwho
      · omega
      · rw [← show owner k' = owner k from howned'] at hacc'
        rw [waitRank, if_neg hne, if_pos hacc']
        split <;> simp
      · exact absurd rfl (hslot k')
      · simp [waitRank]
      · simp [waitRank]

/-- The rank grows from a transaction that waits to a waiting one that holds the row. -/
theorem waitRank_lt (hd : Disciplined owner u h) (hd' : Disciplined owner u' h')
    (hw : h.rest.head? = some w) (hw' : h'.rest.head? = some w') (hheld : w ∈ h'.held)
    (hnot' : w' ∉ h'.held) (hslot : ∀ k, w' ≠ .slot k) (hexcl : ∀ x ∈ h.held, x ∉ h'.held)
    (hopp : ∀ x ∈ h.held, x ∉ h'.rest) : waitRank owner h.held w < waitRank owner h'.held w' := by
  have hadm := hd.admissible hw fun hmem => hexcl w hmem hheld
  have hadm' := hd'.admissible hw' hnot'
  have howned := hd.ownedBy hw
  have howned' := hd'.ownedBy hw'
  have hne : h'.held ≠ [] := List.ne_nil_of_mem hheld
  have hpos : 0 < waitRank owner h'.held w' := waitRank_pos hadm' hne
  have hshared : w.OwnedBy owner u' := hd'.owned w (.inl hheld)
  cases w with
  | user v => exact hpos
  | round k r =>
    by_cases hk : LockRow.task k ∈ h.held
    · -- the holder of the round has yet to lock the task that the waiting transaction holds
      rcases hd'.paired k r (.inl hheld) with hk' | hk'
      · exact absurd hk' (hexcl _ hk)
      · exact absurd hk' (hopp _ hk)
    · obtain hnil | hk' | ⟨hu, -⟩ := hadm
      · simpa [waitRank, hnil] using hpos
      · exact absurd hk' hk
      · -- only one transaction has locked the account of the user
        obtain rfl : u = u' := howned.symm.trans hshared
        have hlt : 1 < waitRank owner h'.held w' := one_lt_waitRank hadm' hne (hexcl _ hu)
        rwa [waitRank, if_neg hk, if_neg (List.ne_nil_of_mem hu)]
  | task k => exact waitRank_lt_of_task hd hd' hw hw' hheld hnot' hslot hexcl hopp
  | slot k => exact absurd (hd'.slot_held k hheld) (hexcl _ hadm)
  | quota v =>
    obtain rfl : v = u' := hshared
    rcases waitRank_of_quota hadm' howned' hnot' hheld hslot with h | rfl
    · exact lt_of_lt_of_le (by simp [waitRank]) h
    · simp [waitRank]
  | storage =>
    rcases waitRank_of_quota hadm' howned' hnot' (hd'.storage_held hheld) hslot with h | rfl
    · exact h
    · exact absurd hheld hnot'

end Ranks

/-! ## Runs -/

section Runs

variable {s s' : TaskLocks} {a : LockAction ℕ (TaskTx owner)} {t t' t'' : ℕ}

/-- What holds in every state of a run whose steps cross no other transaction. -/
structure SoundLocks (owner : TaskId → UserId) (s : TaskLocks) : Prop where
  exclusive : s.Exclusive
  disciplined : ∀ t h, s.get? t = some h → ∃ u, Disciplined owner u h
  unopposed : ∀ t t', ¬ s.Opposed t t'

theorem soundLocks_empty : SoundLocks owner Table.empty where
  exclusive t t' h h' x hget := by cases hget
  disciplined t h hget := by cases hget
  unopposed t t' := by
    rintro ⟨-, h, h', hget, -⟩
    cases hget

theorem SoundLocks.step (hs : SoundLocks owner s) (ha : s.Uncrossed a)
    (hstep : (taskLockSystem owner).step s a = .ok s') : SoundLocks owner s' where
  exclusive := hs.exclusive.step hstep
  disciplined := LockTable.forall_of_step TaskTx.disciplined
    (fun _ _ _ ⟨u, hd⟩ => ⟨u, hd.lock⟩) hs.disciplined hstep
  unopposed := LockTable.unopposed_step hs.unopposed ha hstep

/-- A slot is locked under the lock of its task. -/
theorem SoundLocks.not_waits_slot (hs : SoundLocks owner s) {h h' : LockTx LockRow} {k : TaskId}
    (hne : t ≠ t') (hget : s.get? t = some h) (hget' : s.get? t' = some h')
    (hw : h.rest.head? = some (.slot k)) : LockRow.slot k ∉ h'.held := by
  intro hheld
  obtain ⟨u, hd⟩ := hs.disciplined t h hget
  obtain ⟨u', hd'⟩ := hs.disciplined t' h' hget'
  have hk : LockRow.task k ∈ h.held :=
    hd.admissible hw fun hmem => hne (hs.exclusive t t' h h' _ hget hget' hmem hheld)
  exact hne (hs.exclusive t t' h h' _ hget hget' hk (hd'.slot_held k hheld))

/-- The rank of a transaction. -/
def txRank (owner : TaskId → UserId) (s : TaskLocks) (t : ℕ) : ℕ :=
  match s.get? t with
  | some h => h.rest.head?.elim 0 (waitRank owner h.held)
  | none => 0

theorem txRank_eq {h : LockTx LockRow} {w : LockRow} (hget : s.get? t = some h)
    (hw : h.rest.head? = some w) : txRank owner s t = waitRank owner h.held w := by
  simp [txRank, hget, hw]

theorem SoundLocks.rank_lt (hs : SoundLocks owner s) (hwaits : s.Waits t t')
    (hwaits' : s.Waits t' t'') : txRank owner s t < txRank owner s t' := by
  obtain ⟨hne, h, h', w, hget, hget', hw, hheld⟩ := hwaits
  obtain ⟨hne', h₁, h'', w', hget₁, hget'', hw', hheld'⟩ := hwaits'
  obtain rfl : h' = h₁ := Option.some.inj (hget'.symm.trans hget₁)
  obtain ⟨u, hd⟩ := hs.disciplined t h hget
  obtain ⟨u', hd'⟩ := hs.disciplined t' h' hget'
  rw [txRank_eq hget hw, txRank_eq hget' hw']
  refine waitRank_lt hd hd' hw hw' hheld (fun hmem => ?_) (fun k hk => ?_) (fun x hx hx' => ?_)
    fun x hx hx' => ?_
  · exact hne' (hs.exclusive t' t'' h' h'' w' hget' hget'' hmem hheld')
  · subst hk
    exact hs.not_waits_slot hne' hget' hget'' hw' hheld'
  · exact hne (hs.exclusive t t' h h' x hget hget' hx hx')
  · exact hs.unopposed t t' ⟨hne, h, h', hget, hget', ⟨x, hx, hx'⟩, w, hheld, List.mem_of_head? hw⟩

theorem SoundLocks.not_deadlocked (hs : SoundLocks owner s) : ¬ s.Deadlocked :=
  LockTable.not_deadlocked_of_rank (txRank owner s) fun _ _ _ => hs.rank_lt

/-- In every run of the transactions in which no step locks a row that an overlapping transaction
needs, while that one holds a row needed later, no state is deadlocked. -/
theorem deadlockFree_of_run (owner : TaskId → UserId) (as : List (LockAction ℕ (TaskTx owner)))
    (hG : (taskLockSystem owner).Guarded LockTable.Uncrossed Table.empty as) :
    ¬ LockTable.Deadlocked ((taskLockSystem owner).run Table.empty as) :=
  (System.invariant_run_of_guarded (I := SoundLocks owner) (fun _ _ _ hs ha => hs.step ha)
    soundLocks_empty hG).not_deadlocked

/-- A round settles; the task is aborted meanwhile, and the abort waits for the settlement. -/
def settleFirst : List (LockAction ℕ (TaskTx fun _ => 7)) :=
  [.start 0 (.settle 1 2 false ⟨true, false, false⟩), .start 1 (.requestTerminalWhileRunning 1 [2]),
    .lock 0, .lock 0, .lock 1]

theorem deadlockFree_of_run_settleFirst :
    ¬ LockTable.Deadlocked ((taskLockSystem fun _ => 7).run Table.empty settleFirst) :=
  deadlockFree_of_run _ settleFirst (by decide +kernel)

/-- The abort locks the task between the two statements of the settlement. -/
def settleCrossed : List (LockAction ℕ (TaskTx fun _ => 7)) :=
  [.start 0 (.settle 1 2 false ⟨true, false, false⟩), .start 1 (.requestTerminalWhileRunning 1 [2]),
    .lock 0, .lock 1]

/-- The settlement of a round and an abort of its task lock the round and the task in opposite
orders. -/
theorem deadlocked_of_settleCrossed :
    LockTable.Deadlocked ((taskLockSystem fun _ => 7).run Table.empty settleCrossed) := by
  have hsettle : LockTable.Waits ((taskLockSystem fun _ => 7).run Table.empty settleCrossed) 0 1 :=
    ⟨by decide, _, _, .task 1, rfl, rfl, rfl, by decide +kernel⟩
  have habort : LockTable.Waits ((taskLockSystem fun _ => 7).run Table.empty settleCrossed) 1 0 :=
    ⟨by decide, _, _, .round 1 2, rfl, rfl, rfl, by decide +kernel⟩
  exact ⟨0, .tail (.single hsettle) habort⟩

end Runs

end AgentCraft.Tasking
