import AgentCraft.Tasking.Files
import AgentCraft.Transition.System
import Mathlib.Data.List.Sort

/-!
# What administrators read

The messages, the file list and the artifacts of a task, for an administrator who gives a reason:
`admin_audit_service.py` with its routes. Each request is a transaction that writes an audit row before it
reads, and it commits before it answers. The statements of the transaction see what has been committed by
then, so anything can change in between them; and an artifact is opened only when the transaction is over.
-/

namespace AgentCraft.Requests

open AgentCraft.Relational AgentCraft.Tasking AgentCraft.Transition

abbrev ReadId := ℕ

/-- What is asked for, as it stands in the path and in the query. -/
inductive ReadKind
  | messages (after limit : ℕ)
  | files (direction : Option String)
  /-- The segment of the path, if it is a UUID. -/
  | artifact (fileId : Option FileId)
deriving DecidableEq, Repr

/-- A request that has passed the gate of the administrators. -/
structure ReadRequest where
  admin : UserId
  /-- The segment of the path, if it is a UUID. -/
  task : Option TaskId
  reason : Option String
  kind : ReadKind
deriving DecidableEq, Repr

/-- `audit_logs`, as the content reads write it. -/
structure AuditLog where
  /-- The request that has written the row. -/
  id : ReadId
  actorId : UserId
  action : String
  targetType : String
  targetId : TaskId
  reason : String
  /-- `file_id` and `sha256` of `detail`; its `task_id` is the target. -/
  file : Option (FileId × String)
deriving DecidableEq, Repr

/-! ## The gates before the transaction's first statement -/

/-- The status, the code and the text of an error answer. -/
structure ReadError where
  status : ℕ
  code : String
  message : String
deriving DecidableEq, Repr

def readValidation (message : String) : ReadError := ⟨400, "VALIDATION_ERROR", message⟩

def readTaskNotFound : ReadError := ⟨404, "TASK_NOT_FOUND", "任务不存在"⟩

def readFileNotFound : ReadError := ⟨404, "FILE_NOT_FOUND", "文件不存在"⟩

/-- `_REASON_MAX_LENGTH`. -/
def reasonMaxLength : ℕ := 2000

/-- `require_admin_reason`; `isSpace` is `str.isspace` of a character. -/
def requireAdminReason (isSpace : Char → Bool) : Option String → Except ReadError String
  | none => .error ⟨400, "ADMIN_REASON_REQUIRED", "缺少 admin 操作理由（reason）"⟩
  | some reason =>
    if reason.toList.all isSpace then
      .error ⟨400, "ADMIN_REASON_REQUIRED", "缺少 admin 操作理由（reason）"⟩
    else if reasonMaxLength < reason.length then
      .error (readValidation ("reason 过长（最多 " ++ toString reasonMaxLength ++ " 字符）"))
    else .ok reason

/-- `_parse_id`. -/
def parsedId (field : String) : Option Uuid → Except ReadError Uuid
  | none => .error (readValidation (field ++ " 不是合法 UUID"))
  | some id => .ok id

/-- What is read, once the request has been found well formed. -/
inductive ReadTarget
  | messages (after limit : ℕ)
  | files (direction : FileDirection)
  | artifact (fileId : FileId)
deriving DecidableEq, Repr

/-- A well-formed request. -/
structure ReadPlan where
  admin : UserId
  task : TaskId
  reason : String
  target : ReadTarget
deriving DecidableEq, Repr

/-- The checks that read nothing: the reason, the direction, the segments of the path. -/
def ReadRequest.plan (isSpace : Char → Bool) (r : ReadRequest) : Except ReadError ReadPlan := do
  let reason ← requireAdminReason isSpace r.reason
  match r.kind with
  | .messages after limit =>
    let task ← parsedId "task_id" r.task
    return ⟨r.admin, task, reason, .messages after limit⟩
  | .files direction =>
    if direction = some "input" then
      let task ← parsedId "task_id" r.task
      return ⟨r.admin, task, reason, .files .input⟩
    else if direction = some "output" then
      let task ← parsedId "task_id" r.task
      return ⟨r.admin, task, reason, .files .output⟩
    else .error (readValidation "direction 必须为 input 或 output")
  | .artifact fileId =>
    let task ← parsedId "task_id" r.task
    let file ← parsedId "file_id" fileId
    return ⟨r.admin, task, reason, .artifact file⟩

/-! ## The statements -/

/-- `_require_live_task`, for a session that sees every task. -/
def isLiveTask (db : Db) (tid : TaskId) : Bool :=
  (db.tasks.get? tid).any fun t => t.status ≠ .deleted

/-- The rows of `list_task_messages`. -/
def messageRows (db : Db) (tid : TaskId) (after limit : ℕ) : List TaskMessage :=
  match db.tasks.get? tid with
  | none => []
  | some t =>
    ((t.messages.filter fun m => after < m.eventSequence).insertionSort
      fun m m' => m.eventSequence ≤ m'.eventSequence).take limit

/-- `_task_file_meta_rows`; the files of a task stand in the order of their creation. -/
def taskFileMetaRows (db : Db) (tid : TaskId) (direction : FileDirection) : List TaskFile :=
  match db.tasks.get? tid with
  | none => []
  | some t => t.files.filter fun f => f.direction = direction && f.state ≠ .deleted

/-- The row of a registered output. -/
def registeredOutput (db : Db) (tid : TaskId) (fid : FileId) : Option TaskFile :=
  (db.tasks.get? tid).bind fun t =>
    t.files.find? fun f => f.id = fid && f.direction = .output && f.state = .registered

/-- The copies under `artifacts/`. -/
abbrev Artifacts := Table (TaskId × FileId) FileContent

/-- What the transaction has read for the answer. Of a list it is noted whether its task was still live. -/
inductive Reading
  | messages (rows : List TaskMessage) (live : Bool)
  | files (rows : List TaskFile) (live : Bool)
  | artifact (file : TaskFile)
deriving DecidableEq, Repr

/-- What an administrator gets to see. -/
inductive ReadContent
  | messages (rows : List TaskMessage)
  | files (rows : List TaskFile)
  | artifact (file : TaskFile) (bytes : FileContent)
deriving DecidableEq, Repr

/-- How a request ends. -/
inductive ReadReply
  | content (content : ReadContent)
  | refused (error : ReadError)
  /-- `FileResponse` finds no file at the path. -/
  | copyMissing
  /-- Anything else that can go wrong. -/
  | failed
deriving DecidableEq, Repr

/-- How far a request has come. -/
inductive ReadStage
  | received
  /-- The prefetch has found a live task, or it has looked for the `sha256` of an artifact. -/
  | located (sha256 : Option String)
  /-- The audit row has been flushed, if one is written at all. -/
  | flushed (sha256 : Option String)
  /-- The frozen read has found the task live once more. -/
  | rechecked (sha256 : Option String)
  /-- `resolve_download` has found the row. -/
  | found (file : TaskFile)
  /-- The transaction is about to commit. -/
  | read (reading : Reading)
  | committed (reading : Reading)
  | answered (reading : Option Reading) (reply : ReadReply)
deriving DecidableEq, Repr

/-- A request in progress, with the audit row of its open transaction. -/
structure AdminRead where
  request : ReadRequest
  stage : ReadStage
  staged : Option AuditLog
deriving DecidableEq, Repr

/-- The tables of the tasks, the stored copies, the audit rows that have been committed, the requests. -/
structure ReadWorld where
  db : Db
  artifacts : Artifacts
  audit : List AuditLog
  reads : Table ReadId AdminRead

namespace ReadPlan

variable (p : ReadPlan)

def action : ReadTarget → String
  | .messages .. => "task.message.read"
  | .files _ => "task.file_list.read"
  | .artifact _ => "task.artifact.download"

/-- The row that is written before the read: of an artifact, only if the prefetch has found one. -/
def auditRow (id : ReadId) (sha256 : Option String) : Option AuditLog :=
  match p.target with
  | .artifact fid =>
    sha256.map fun sha => ⟨id, p.admin, action p.target, "task", p.task, p.reason, some (fid, sha)⟩
  | .messages .. | .files _ => some ⟨id, p.admin, action p.target, "task", p.task, p.reason, none⟩

/-- The first statement. -/
def prefetch (db : Db) : ReadStage :=
  match p.target with
  | .artifact fid => .located ((registeredOutput db p.task fid).map (·.sha256))
  | .messages .. | .files _ =>
    if isLiveTask db p.task then .located none else .answered none (.refused readTaskNotFound)

/-- The next statement, on the rows and the files as they are when it runs. -/
def next (db : Db) (artifacts : Artifacts) : ReadStage → ReadStage
  | .received => p.prefetch db
  | .located sha256 => .flushed sha256
  | .flushed sha256 =>
    match p.target with
    | .files direction =>
      .read (.files (taskFileMetaRows db p.task direction) (isLiveTask db p.task))
    | .messages .. | .artifact _ =>
      if isLiveTask db p.task then .rechecked sha256 else .answered none (.refused readTaskNotFound)
  | .rechecked _ =>
    match p.target with
    | .messages after limit =>
      .read (.messages (messageRows db p.task after limit) (isLiveTask db p.task))
    | .artifact fid =>
      match registeredOutput db p.task fid with
      | some file => .found file
      | none => .answered none (.refused readFileNotFound)
    | .files _ => .answered none .failed
  | .found file =>
    if (artifacts.get? (p.task, file.id)).isSome then .read (.artifact file)
    else .answered none (.refused readFileNotFound)
  | .read reading => .committed reading
  | .committed (.messages rows live) =>
    .answered (some (.messages rows live)) (.content (.messages rows))
  | .committed (.files rows live) => .answered (some (.files rows live)) (.content (.files rows))
  | .committed (.artifact file) =>
    match artifacts.get? (p.task, file.id) with
    | some bytes => .answered (some (.artifact file)) (.content (.artifact file bytes))
    | none => .answered (some (.artifact file)) .copyMissing
  | .answered reading reply => .answered reading reply

end ReadPlan

/-! ## The system -/

/-- The labels of the system. -/
inductive ReadAction
  | receive (id : ReadId) (request : ReadRequest)
  /-- The request executes its next statement, or commits, or answers. -/
  | advance (id : ReadId)
  /-- The step fails, whichever it is; an open transaction is rolled back. -/
  | fail (id : ReadId)
  /-- Whatever others commit, and whatever happens on disk. -/
  | others (db : Db) (artifacts : Artifacts)

/-- A label that does not fit the state. -/
inductive ReadStuck
  | stuck
deriving DecidableEq, Repr

namespace ReadWorld

variable (isSpace : Char → Bool) (w : ReadWorld)

def setRead (id : ReadId) (q : AdminRead) : ReadWorld := { w with reads := w.reads.set id q }

/-- The request that has not been answered yet. -/
def openRead (id : ReadId) : Except ReadStuck AdminRead :=
  match w.reads.get? id with
  | none => .error .stuck
  | some q =>
    match q.stage with
    | .answered .. => .error .stuck
    | _ => .ok q

def advance (id : ReadId) (q : AdminRead) : ReadWorld :=
  match q.request.plan isSpace with
  | .error e => w.setRead id { q with stage := .answered none (.refused e) }
  | .ok p =>
    let stage := p.next w.db w.artifacts q.stage
    match q.stage with
    | .located sha256 => w.setRead id { q with stage, staged := p.auditRow id sha256 }
    | .read _ =>
      { w.setRead id { q with stage, staged := none } with audit := w.audit ++ q.staged.toList }
    | _ => w.setRead id { q with stage }

def step : ReadAction → Except ReadStuck ReadWorld
  | .receive id request =>
    if (w.reads.get? id).isSome then .error .stuck
    else .ok { w with reads := w.reads.insert id ⟨request, .received, none⟩ }
  | .advance id => do
    let q ← w.openRead id
    return w.advance isSpace id q
  | .fail id => do
    let q ← w.openRead id
    return w.setRead id { q with stage := .answered none .failed, staged := none }
  | .others db artifacts => .ok { w with db, artifacts }

end ReadWorld

/-- The requests and everything around them. -/
def adminReads (isSpace : Char → Bool) : System ReadWorld ReadAction ReadStuck :=
  ⟨ReadWorld.step isSpace⟩

/-- Nobody has asked for anything yet. -/
def unread (db : Db) (artifacts : Artifacts) : ReadWorld := ⟨db, artifacts, [], Table.empty⟩

/-! ## What is promised -/

/-- The row names the administrator, the task and the reason of the request. -/
def AuditLog.Names (row : AuditLog) (id : ReadId) (r : ReadRequest) : Prop :=
  row.id = id ∧ row.actorId = r.admin ∧ r.task = some row.targetId ∧ r.reason = some row.reason

/-- An empty list of a task that was gone when it was read. -/
def Reading.Vain : Reading → Prop
  | .messages rows live => rows = [] ∧ live = false
  | .files rows live => rows = [] ∧ live = false
  | .artifact _ => False

/-- There is no content because the task, the file or its stored copy is missing or deleted. -/
def ReadReply.Missing (reading : Option Reading) : ReadReply → Prop
  | .content _ => ∃ r, reading = some r ∧ r.Vain
  | .refused e => e = readTaskNotFound ∨ e = readFileNotFound
  | .copyMissing => True
  | .failed => False

/-- An audit row of the request has been committed. -/
def Logged (audit : List AuditLog) (id : ReadId) (r : ReadRequest) : Prop :=
  ∃ row ∈ audit, row.Names id r

/-- The request has left no audit row. -/
def Unlogged (audit : List AuditLog) (id : ReadId) : Prop := ∀ row ∈ audit, row.id ≠ id

/-- Content is returned only under a committed audit row, and nothing is logged of what is missing. -/
def ReadWorld.Audited (w : ReadWorld) : Prop :=
  ∀ id q reading reply, w.reads.get? id = some q → q.stage = .answered reading reply →
    ((∃ content, reply = .content content) → Logged w.audit id q.request) ∧
      (reply.Missing reading → Unlogged w.audit id)

/-- Nothing comes between two statements that belong together: an artifact that the prefetch has missed is
not registered before the row is read, the task of an empty list is still live, and a stored copy that has
been seen is still there when it is opened. -/
def ReadPlan.Undisturbed (p : ReadPlan) (db : Db) (artifacts : Artifacts) : ReadStage → Prop
  | .flushed _ =>
    match p.target with
    | .files direction => taskFileMetaRows db p.task direction = [] → isLiveTask db p.task = true
    | .messages .. | .artifact _ => True
  | .rechecked sha256 =>
    match p.target with
    | .messages after limit => messageRows db p.task after limit = [] → isLiveTask db p.task = true
    | .artifact fid => sha256 = none → registeredOutput db p.task fid = none
    | .files _ => True
  | .committed (.artifact file) => (artifacts.get? (p.task, file.id)).isSome = true
  | _ => True

/-- The condition on what happens around the requests. -/
def ReadsUndisturbed (isSpace : Char → Bool) (w : ReadWorld) : ReadAction → Prop
  | .advance id => ∀ q ∈ w.reads.get? id, ∀ p ∈ (q.request.plan isSpace).toOption,
    p.Undisturbed w.db w.artifacts q.stage
  | .receive .. | .fail _ | .others .. => True

instance (p : ReadPlan) (db : Db) (artifacts : Artifacts) (stage : ReadStage) :
    Decidable (p.Undisturbed db artifacts stage) := by
  unfold ReadPlan.Undisturbed
  split
  · split <;> infer_instance
  · split <;> infer_instance
  · infer_instance
  · infer_instance

instance (isSpace : Char → Bool) (w : ReadWorld) (a : ReadAction) :
    Decidable (ReadsUndisturbed isSpace w a) := by
  unfold ReadsUndisturbed
  split <;> infer_instance

/-! ## Why it holds -/

section Sound

variable {isSpace : Char → Bool} {w w' : ReadWorld} {a : ReadAction} {id : ReadId} {q : AdminRead}
  {p : ReadPlan} {r : ReadRequest} {audit rows : List AuditLog}

/-- A well-formed request keeps what it names. -/
theorem ReadRequest.plan_spec (h : r.plan isSpace = .ok p) :
    p.admin = r.admin ∧ r.task = some p.task ∧ r.reason = some p.reason := by
  have hreason {reason : String} (hr : requireAdminReason isSpace r.reason = .ok reason) :
      r.reason = some reason := by
    cases hraw : r.reason with
    | none =>
      rw [hraw] at hr
      cases hr
    | some raw =>
      rw [hraw] at hr
      obtain ⟨-, hr⟩ := ite_error_eq_ok.mp hr
      obtain ⟨-, hr⟩ := ite_error_eq_ok.mp hr
      cases hr
      rfl
  have hparsed {field : String} {raw : Option Uuid} {x : Uuid} (hx : parsedId field raw = .ok x) :
      raw = some x := by
    cases raw with
    | none => cases hx
    | some y =>
      cases hx
      rfl
  obtain ⟨reason, hr, h⟩ := bind_eq_ok.mp h
  split at h
  · obtain ⟨task, ht, h⟩ := bind_eq_ok.mp h
    cases h
    exact ⟨rfl, hparsed ht, hreason hr⟩
  · split at h
    · obtain ⟨task, ht, h⟩ := bind_eq_ok.mp h
      cases h
      exact ⟨rfl, hparsed ht, hreason hr⟩
    · split at h
      · obtain ⟨task, ht, h⟩ := bind_eq_ok.mp h
        cases h
        exact ⟨rfl, hparsed ht, hreason hr⟩
      · cases h
  · obtain ⟨task, ht, h⟩ := bind_eq_ok.mp h
    obtain ⟨file, -, h⟩ := bind_eq_ok.mp h
    cases h
    exact ⟨rfl, hparsed ht, hreason hr⟩

/-- The row that is written names the request. -/
theorem ReadPlan.auditRow_names {sha256 : Option String} {row : AuditLog}
    (hp : r.plan isSpace = .ok p) (h : p.auditRow id sha256 = some row) : row.Names id r := by
  obtain ⟨hadmin, htask, hreason⟩ := r.plan_spec hp
  unfold auditRow at h
  split at h
  · obtain ⟨sha, -, rfl⟩ := Option.map_eq_some_iff.mp h
    exact ⟨rfl, hadmin, htask, hreason⟩
  · cases h
    exact ⟨rfl, hadmin, htask, hreason⟩
  · cases h
    exact ⟨rfl, hadmin, htask, hreason⟩

/-- What is known of a request, by how far it has come. -/
def AdminRead.Sound (isSpace : Char → Bool) (audit : List AuditLog) (id : ReadId) (q : AdminRead) :
    Prop :=
  match q.stage with
  | .received | .located _ => Unlogged audit id
  | .flushed sha256 | .rechecked sha256 =>
    Unlogged audit id ∧ ∃ p, q.request.plan isSpace = .ok p ∧ q.staged = p.auditRow id sha256
  | .found _ => Unlogged audit id ∧ ∃ row, q.staged = some row ∧ row.Names id q.request
  | .read reading =>
    Unlogged audit id ∧ (∃ row, q.staged = some row ∧ row.Names id q.request) ∧ ¬reading.Vain
  | .committed reading => Logged audit id q.request ∧ ¬reading.Vain
  | .answered reading reply =>
    ((∃ content, reply = .content content) → Logged audit id q.request) ∧
      (reply.Missing reading → Unlogged audit id)

theorem Logged.append (h : Logged audit id r) (rows : List AuditLog) : Logged (audit ++ rows) id r := by
  obtain ⟨row, hrow, hnames⟩ := h
  exact ⟨row, List.mem_append_left _ hrow, hnames⟩

theorem Unlogged.append (h : Unlogged audit id) (hrows : Unlogged rows id) :
    Unlogged (audit ++ rows) id := by
  intro row hrow
  rcases List.mem_append.mp hrow with hold | hnew
  · exact h row hold
  · exact hrows row hnew

/-- The rows of other requests change nothing. -/
theorem AdminRead.Sound.append (h : q.Sound isSpace audit id) (hrows : Unlogged rows id) :
    q.Sound isSpace (audit ++ rows) id := by
  unfold Sound at h ⊢
  split at h
  · exact h.append hrows
  · exact h.append hrows
  · exact ⟨h.1.append hrows, h.2⟩
  · exact ⟨h.1.append hrows, h.2⟩
  · exact ⟨h.1.append hrows, h.2⟩
  · exact ⟨h.1.append hrows, h.2⟩
  · exact ⟨h.1.append rows, h.2⟩
  · exact ⟨fun hc => (h.1 hc).append rows, fun hm => (h.2 hm).append hrows⟩

theorem parsedId_bind_error {α : Type} {field : String} {raw : Option Uuid} {e : ReadError}
    {f : Uuid → Except ReadError α} (h : (parsedId field raw >>= f) = .error e)
    (hf : ∀ x, f x = .error e → e.status = 400) : e.status = 400 := by
  cases raw with
  | none =>
    cases h
    rfl
  | some x => exact hf x h

/-- A malformed request is answered with 400. -/
theorem ReadRequest.plan_error {e : ReadError} (h : r.plan isSpace = .error e) : e.status = 400 := by
  cases hr : requireAdminReason isSpace r.reason with
  | error e' =>
    have he : e' = e := by
      rw [plan, hr] at h
      exact Except.error.inj h
    subst he
    unfold requireAdminReason at hr
    split at hr
    · cases hr
      rfl
    · split at hr
      · cases hr
        rfl
      · split at hr <;> cases hr
        rfl
  | ok reason =>
    rw [plan, hr] at h
    change (match r.kind with
      | .messages after limit => _
      | .files direction => _
      | .artifact fileId => _ : Except ReadError ReadPlan) = _ at h
    split at h
    · exact parsedId_bind_error h fun _ hx => by cases hx
    · split at h
      · exact parsedId_bind_error h fun _ hx => by cases hx
      · split at h
        · exact parsedId_bind_error h fun _ hx => by cases hx
        · cases h
          rfl
    · exact parsedId_bind_error h fun _ hx => parsedId_bind_error hx fun _ hy => by cases hy

theorem sound_refused {e : ReadError} (h : (ReadReply.refused e).Missing none → Unlogged audit id)
    (st : Option AuditLog) :
    AdminRead.Sound isSpace audit id ⟨r, .answered none (.refused e), st⟩ := by
  refine ⟨?_, h⟩
  rintro ⟨content, hc⟩
  cases hc

theorem sound_failed (st : Option AuditLog) :
    AdminRead.Sound isSpace audit id ⟨r, .answered none .failed, st⟩ := by
  refine ⟨?_, fun hm => hm.elim⟩
  rintro ⟨content, hc⟩
  cases hc

theorem sound_content {reading : Reading} {content : ReadContent} (hl : Logged audit id r)
    (hv : ¬reading.Vain) (st : Option AuditLog) :
    AdminRead.Sound isSpace audit id ⟨r, .answered (some reading) (.content content), st⟩ := by
  refine ⟨fun _ => hl, ?_⟩
  rintro ⟨reading', heq, hvain⟩
  cases heq
  exact absurd hvain hv

/-- A list that is empty only if its task is live is not read in vain. -/
theorem not_vain {α : Type} {rows : List α} {live : Bool} (h : rows = [] → live = true) :
    ¬(rows = [] ∧ live = false) := by
  rintro ⟨hrows, hlive⟩
  rw [h hrows] at hlive
  cases hlive

section Statements

variable {db : Db} {artifacts : Artifacts} {st : Option AuditLog} {sha256 : Option String}

theorem prefetch_sound (hu : Unlogged audit id) :
    AdminRead.Sound isSpace audit id ⟨r, p.prefetch db, st⟩ := by
  unfold ReadPlan.prefetch
  cases p.target with
  | artifact fid => exact hu
  | messages after limit =>
    cases isLiveTask db p.task with
    | true => exact hu
    | false => exact sound_refused (fun _ => hu) st
  | files direction =>
    cases isLiveTask db p.task with
    | true => exact hu
    | false => exact sound_refused (fun _ => hu) st

/-- After the flush: the file list is read, the other reads look for the task once more. -/
theorem next_flushed_sound (hp : r.plan isSpace = .ok p) (hu : Unlogged audit id)
    (hst : st = p.auditRow id sha256) (hun : p.Undisturbed db artifacts (.flushed sha256)) :
    AdminRead.Sound isSpace audit id ⟨r, p.next db artifacts (.flushed sha256), st⟩ := by
  have hlive : AdminRead.Sound isSpace audit id
      ⟨r, if isLiveTask db p.task then .rechecked sha256 else .answered none (.refused readTaskNotFound), st⟩ := by
    cases isLiveTask db p.task with
    | true => exact ⟨hu, p, hp, hst⟩
    | false => exact sound_refused (fun _ => hu) st
  unfold ReadPlan.next
  unfold ReadPlan.Undisturbed at hun
  cases ht : p.target with
  | messages after limit => exact hlive
  | artifact fid => exact hlive
  | files direction =>
    rw [ht] at hun
    have hrow : p.auditRow id sha256 =
        some ⟨id, p.admin, ReadPlan.action p.target, "task", p.task, p.reason, none⟩ := by
      simp only [ReadPlan.auditRow, ht]
    exact ⟨hu, ⟨_, hst.trans hrow, ReadPlan.auditRow_names hp hrow⟩, not_vain hun⟩

/-- After the second look at the task: the messages are read, or the row of the artifact. -/
theorem next_rechecked_sound (hp : r.plan isSpace = .ok p) (hu : Unlogged audit id)
    (hst : st = p.auditRow id sha256) (hun : p.Undisturbed db artifacts (.rechecked sha256)) :
    AdminRead.Sound isSpace audit id ⟨r, p.next db artifacts (.rechecked sha256), st⟩ := by
  unfold ReadPlan.next
  unfold ReadPlan.Undisturbed at hun
  cases ht : p.target with
  | messages after limit =>
    rw [ht] at hun
    have hrow : p.auditRow id sha256 =
        some ⟨id, p.admin, ReadPlan.action p.target, "task", p.task, p.reason, none⟩ := by
      simp only [ReadPlan.auditRow, ht]
    exact ⟨hu, ⟨_, hst.trans hrow, ReadPlan.auditRow_names hp hrow⟩, not_vain hun⟩
  | artifact fid =>
    rw [ht] at hun
    cases hfound : registeredOutput db p.task fid with
    | none =>
      simp only [hfound]
      exact sound_refused (fun _ => hu) st
    | some file =>
      simp only [hfound]
      cases sha256 with
      | none =>
        rw [hun rfl] at hfound
        cases hfound
      | some sha =>
        have hrow : p.auditRow id (some sha) =
            some ⟨id, p.admin, ReadPlan.action p.target, "task", p.task, p.reason, some (fid, sha)⟩ := by
          simp only [ReadPlan.auditRow, ht, Option.map_some]
        exact ⟨hu, _, hst.trans hrow, ReadPlan.auditRow_names hp hrow⟩
  | files direction => exact sound_failed st

/-- The stored copy is looked for before the commit. -/
theorem next_found_sound {file : TaskFile} (hu : Unlogged audit id)
    (hst : ∃ row, st = some row ∧ row.Names id r) :
    AdminRead.Sound isSpace audit id ⟨r, p.next db artifacts (.found file), st⟩ := by
  have hcopy : AdminRead.Sound isSpace audit id ⟨r, if (artifacts.get? (p.task, file.id)).isSome then
      .read (.artifact file) else .answered none (.refused readFileNotFound), st⟩ := by
    cases (artifacts.get? (p.task, file.id)).isSome with
    | true => exact ⟨hu, hst, fun hv => hv⟩
    | false => exact sound_refused (fun _ => hu) st
  exact hcopy

/-- The answer after the commit. -/
theorem next_committed_sound {reading : Reading} (hl : Logged audit id r) (hv : ¬reading.Vain)
    (hun : p.Undisturbed db artifacts (.committed reading)) :
    AdminRead.Sound isSpace audit id ⟨r, p.next db artifacts (.committed reading), st⟩ := by
  cases reading with
  | messages rows live => exact sound_content hl hv st
  | files rows live => exact sound_content hl hv st
  | artifact file =>
    obtain ⟨bytes, hbytes⟩ := Option.isSome_iff_exists.mp hun
    simp only [ReadPlan.next, hbytes]
    exact sound_content hl hv st

end Statements

/-- The steps that write nothing. -/
theorem ReadWorld.advance_eq {stage : ReadStage} {st : Option AuditLog} (hplan : r.plan isSpace = .ok p)
    (hlocated : ∀ sha256, stage ≠ .located sha256) (hread : ∀ reading, stage ≠ .read reading) :
    w.advance isSpace id ⟨r, stage, st⟩ = w.setRead id ⟨r, p.next w.db w.artifacts stage, st⟩ := by
  simp only [advance, hplan]

/-- The next step of a request, with the rows that it commits. -/
theorem ReadWorld.advance_spec (hs : q.Sound isSpace w.audit id)
    (hopen : ∀ reading reply, q.stage ≠ .answered reading reply)
    (hun : ∀ p, q.request.plan isSpace = .ok p → p.Undisturbed w.db w.artifacts q.stage) :
    ∃ q' rows, w.advance isSpace id q = { w with reads := w.reads.set id q', audit := w.audit ++ rows } ∧
      q'.Sound isSpace (w.audit ++ rows) id ∧ ∀ row ∈ rows, row.id = id := by
  obtain ⟨r, stage, st⟩ := q
  cases hplan : r.plan isSpace with
  | error e =>
    refine ⟨⟨r, .answered none (.refused e), st⟩, [], ?_, ?_, fun row hrow => by cases hrow⟩
    · simp only [advance, hplan, setRead, List.append_nil]
    · refine sound_refused (fun hm => ?_) st
      rcases hm with rfl | rfl <;> cases ReadRequest.plan_error hplan
  | ok p =>
    have hquiet {stage' : ReadStage} {st' : Option AuditLog}
        (heq : w.advance isSpace id ⟨r, stage, st⟩ = w.setRead id ⟨r, stage', st'⟩)
        (hsound : AdminRead.Sound isSpace w.audit id ⟨r, stage', st'⟩) :
        ∃ q' rows, w.advance isSpace id ⟨r, stage, st⟩ =
            { w with reads := w.reads.set id q', audit := w.audit ++ rows } ∧
          q'.Sound isSpace (w.audit ++ rows) id ∧ ∀ row ∈ rows, row.id = id :=
      ⟨⟨r, stage', st'⟩, [], by rw [heq, setRead, List.append_nil], by rw [List.append_nil]; exact hsound,
        fun row hrow => by cases hrow⟩
    cases stage with
    | received =>
      exact hquiet (advance_eq hplan (fun _ h => by cases h) fun _ h => by cases h) (prefetch_sound hs)
    | located sha256 =>
      have heq : w.advance isSpace id ⟨r, .located sha256, st⟩ =
          w.setRead id ⟨r, .flushed sha256, p.auditRow id sha256⟩ := by
        simp only [advance, hplan, ReadPlan.next]
      exact hquiet heq ⟨hs, p, hplan, rfl⟩
    | flushed sha256 =>
      obtain ⟨hu, p', hp', hst⟩ := hs
      obtain rfl : p' = p := Except.ok.inj (hp'.symm.trans hplan)
      exact hquiet (advance_eq hplan (fun _ h => by cases h) fun _ h => by cases h)
        (next_flushed_sound hplan hu hst (hun _ hplan))
    | rechecked sha256 =>
      obtain ⟨hu, p', hp', hst⟩ := hs
      obtain rfl : p' = p := Except.ok.inj (hp'.symm.trans hplan)
      exact hquiet (advance_eq hplan (fun _ h => by cases h) fun _ h => by cases h)
        (next_rechecked_sound hplan hu hst (hun _ hplan))
    | found file =>
      exact hquiet (advance_eq hplan (fun _ h => by cases h) fun _ h => by cases h)
        (next_found_sound hs.1 hs.2)
    | read reading =>
      obtain ⟨-, ⟨row, hst, hnames⟩, hv⟩ := hs
      refine ⟨⟨r, .committed reading, none⟩, st.toList, ?_, ?_, ?_⟩
      · simp only [advance, hplan, ReadPlan.next, setRead]
      · refine ⟨⟨row, List.mem_append_right _ ?_, hnames⟩, hv⟩
        rw [show st = some row from hst]
        exact List.mem_singleton_self row
      · intro row' hrow'
        rw [show st = some row from hst] at hrow'
        rw [List.mem_singleton.mp hrow']
        exact hnames.1
    | committed reading =>
      exact hquiet (advance_eq hplan (fun _ h => by cases h) fun _ h => by cases h)
        (next_committed_sound hs.1 hs.2 (hun _ hplan))
    | answered reading reply => exact absurd rfl (hopen reading reply)

/-- Every request is as far as its stage says, and every audit row is of a request. -/
structure ReadWorld.Sound (isSpace : Char → Bool) (w : ReadWorld) : Prop where
  reads : ∀ id q, w.reads.get? id = some q → q.Sound isSpace w.audit id
  known : ∀ row ∈ w.audit, (w.reads.get? row.id).isSome = true

theorem ReadWorld.openRead_eq_ok (h : w.openRead id = .ok q) :
    w.reads.get? id = some q ∧ ∀ reading reply, q.stage ≠ .answered reading reply := by
  unfold openRead at h
  split at h
  · cases h
  · next q' hq =>
    split at h
    · cases h
    · next hopen =>
      cases h
      exact ⟨hq, fun reading reply heq => hopen reading reply heq⟩

/-- A request takes its place, and perhaps some rows of its own are committed. -/
theorem ReadWorld.Sound.set {q' : AdminRead} (hw : w.Sound isSpace) (hq : w.reads.get? id = some q)
    (hs : q'.Sound isSpace (w.audit ++ rows) id) (hrows : ∀ row ∈ rows, row.id = id) :
    ReadWorld.Sound isSpace { w with reads := w.reads.set id q', audit := w.audit ++ rows } := by
  refine ⟨fun id' x hx => ?_, fun row hrow => ?_⟩
  · by_cases hid : id' = id
    · subst hid
      rw [Table.get?_set_self hq] at hx
      cases hx
      exact hs
    · rw [Table.get?_set_ne _ hid] at hx
      exact (hw.reads id' x hx).append fun row hrow heq => hid (heq.symm.trans (hrows row hrow))
  · by_cases hid : row.id = id
    · simp only [hid, Table.get?_set_self hq, Option.isSome_some]
    · simp only [Table.get?_set_ne _ hid]
      rcases List.mem_append.mp hrow with hold | hnew
      · exact hw.known row hold
      · exact absurd (hrows row hnew) hid

/-- Every step that is not disturbed keeps the requests sound. -/
theorem ReadWorld.Sound.step (hw : w.Sound isSpace) (hun : ReadsUndisturbed isSpace w a)
    (h : w.step isSpace a = .ok w') : w'.Sound isSpace := by
  cases a with
  | receive id request =>
    obtain ⟨hfree, h⟩ := ite_error_eq_ok.mp h
    cases h
    refine ⟨fun id' q hq => ?_, fun row hrow => ?_⟩
    · rcases Table.get?_insert_cases hq with hold | ⟨rfl, rfl⟩
      · exact hw.reads id' q hold
      · intro row hrow heq
        rw [← heq] at hfree
        exact hfree (hw.known row hrow)
    · have hne : row.id ≠ id := fun heq => hfree (heq ▸ hw.known row hrow)
      have hnone : w.reads.get? id = none := by simpa using hfree
      simp only [Table.get?_insert hnone, if_neg hne]
      exact hw.known row hrow
  | advance id =>
    obtain ⟨q, hq, h⟩ := bind_eq_ok.mp h
    cases h
    obtain ⟨hget, hopen⟩ := openRead_eq_ok hq
    obtain ⟨q', rows, heq, hs, hrows⟩ :=
      advance_spec (hw.reads id q hget) hopen fun p hp => hun q hget p (by rw [hp]; rfl)
    rw [heq]
    exact hw.set hget hs hrows
  | fail id =>
    obtain ⟨q, hq, h⟩ := bind_eq_ok.mp h
    cases h
    obtain ⟨hget, -⟩ := openRead_eq_ok hq
    have hfailed : AdminRead.Sound isSpace (w.audit ++ []) id
        ⟨q.request, .answered none .failed, none⟩ := sound_failed none
    have hset := hw.set hget hfailed fun row hrow => by cases hrow
    rw [List.append_nil] at hset
    exact hset
  | others db artifacts =>
    cases h
    exact ⟨hw.reads, hw.known⟩

/-- What is known of an answered request is what is promised. -/
theorem ReadWorld.Sound.audited (hw : w.Sound isSpace) : w.Audited := by
  intro id q reading reply hq hstage
  have hs := hw.reads id q hq
  unfold AdminRead.Sound at hs
  rw [hstage] at hs
  exact hs

end Sound

/-- In every run whose requests are not disturbed: whoever has been given content has left an audit row
that names the administrator, the task and the reason, and whoever has found nothing has left none. -/
theorem audited_of_run (isSpace : Char → Bool) (db : Db) (artifacts : Artifacts) (as : List ReadAction)
    (h : (adminReads isSpace).Guarded (ReadsUndisturbed isSpace) (unread db artifacts) as) :
    ((adminReads isSpace).run (unread db artifacts) as).Audited := by
  have hinit : (unread db artifacts).Sound isSpace :=
    ⟨fun id q hq => (by cases hq), fun row hrow => (by cases hrow)⟩
  exact (System.invariant_run_of_guarded (S := adminReads isSpace) (I := ReadWorld.Sound isSpace)
    (fun w a w' hw hG hstep => hw.step hG hstep) hinit h).audited

/-- A completed task with one registered output. -/
def finishedTask : Task :=
  { ownerId := 1, expertRevisionId := 0, providerId := 0, providerModelId := "", providerKeyVersion := 1
    mcpServers := [], initialMessageId := none, status := .completed, inputManifestSha256 := none
    inputCommittedAt := none, eventSequence := 0, abortReason := none, pendingTerminal := none
    createdAt := 0, files := [⟨5, .output, "report.md", "f00d", 4, .registered, none⟩], reservations := []
    messages := [], rounds := [], events := [] }

/-- A database with this task only. -/
def finishedDb : Db :=
  { tasks := Table.empty.insert 7 finishedTask, usage := Table.empty, quotas := Table.empty
    usageDaily := Table.empty, slots := Table.empty, storage := ⟨0, 0⟩, providers := Table.empty
    catalog := ⟨Table.empty, Table.empty, Table.empty⟩, now := 0, nextId := 10 }

/-- Its owner deletes the task. -/
def deletedDb : Db := (deleteTask finishedDb 1 7).toOption.elim finishedDb Prod.fst

/-- The world before the download. -/
def downloadWorld : ReadWorld := unread finishedDb (Table.empty.insert (7, 5) ⟨4, "f00d"⟩)

/-- An administrator downloads the output. -/
def download : List ReadAction :=
  .receive 0 ⟨3, some 7, some "abuse report", .artifact (some 5)⟩ :: List.replicate 7 (.advance 0)

theorem audited_of_run_download :
    (adminReads (· == ' ')).Guarded (ReadsUndisturbed (· == ' ')) downloadWorld download ∧
      ((adminReads (· == ' ')).run downloadWorld download).Audited :=
  have h : (adminReads (· == ' ')).Guarded (ReadsUndisturbed (· == ' ')) downloadWorld download := by
    decide +kernel
  ⟨h, audited_of_run (· == ' ') finishedDb (Table.empty.insert (7, 5) ⟨4, "f00d"⟩) download h⟩

/-- An administrator downloads the output; the transaction has committed when the task is deleted, with its
files, and the response is opened after that. -/
def interruptedDownload : List ReadAction := [
  .receive 0 ⟨3, some 7, some "abuse report", .artifact (some 5)⟩,
  .advance 0, .advance 0, .advance 0, .advance 0, .advance 0, .advance 0,
  .others deletedDb Table.empty, .advance 0]

/-- The download that has returned nothing is in the audit log. -/
theorem not_audited_of_deletion :
    ¬∀ (isSpace : Char → Bool) (db : Db) (artifacts : Artifacts) (as : List ReadAction),
      ((adminReads isSpace).run (unread db artifacts) as).Audited := by
  intro h
  have hrun := h (· == ' ') finishedDb (Table.empty.insert (7, 5) ⟨4, "f00d"⟩) interruptedDownload 0
    ⟨⟨3, some 7, some "abuse report", .artifact (some 5)⟩,
      .answered (some (.artifact ⟨5, .output, "report.md", "f00d", 4, .registered, none⟩)) .copyMissing,
      none⟩
    (some (.artifact ⟨5, .output, "report.md", "f00d", 4, .registered, none⟩)) .copyMissing
    (by decide +kernel) rfl
  have hlogged : ((adminReads (· == ' ')).run
      (unread finishedDb (Table.empty.insert (7, 5) ⟨4, "f00d"⟩)) interruptedDownload).audit =
        [⟨0, 3, "task.artifact.download", "task", 7, "abuse report", some (5, "f00d")⟩] := by
    decide +kernel
  have hnone := hrun.2 trivial
  rw [hlogged] at hnone
  exact hnone _ (List.mem_singleton_self _) rfl

end AgentCraft.Requests
