import AgentCraft.Tasking.Service

/-!
# Input files and outputs

`task_file_service.py` and `task_artifacts.py`, as far as the tables are concerned: staged uploads and
their deletion while the input is open, and the registration of an output by a sandbox callback. The
upload itself moves no account; an output charges the storage accounts by its size and refunds the
output of the same name that it replaces. Unicode normalisation is the parameter `nfc`.
-/

namespace AgentCraft.Tasking

open AgentCraft.Relational

/-- `_MAX_FILES_PER_TASK`. -/
def maxFilesPerTask : ℕ := 10

/-- `_MAX_SINGLE_FILE_BYTES`. -/
def maxSingleFileBytes : ℕ := 5 * 1024 * 1024

/-- `_MAX_TASK_INPUT_BYTES`: inputs and outputs of a task together. -/
def maxTaskInputBytes : ℕ := 10 * 1024 * 1024

/-- `_FILE_NAME_MAX_CHARS`. -/
def fileNameMaxChars : ℕ := 255

/-- The bytes of a file, as the tables see them. -/
structure FileContent where
  size : ℕ
  sha256 : String
deriving DecidableEq, Repr

def fileNotFound : Failure := agentCraftError .fileNotFound "文件不存在" 404

def fileLimit (message : String) : Failure := agentCraftError .fileLimitExceeded message 400

def toolCallRejected (message : String) : Failure := agentCraftError .toolCallRejected message 400

/-- `_validate_file_name`: a single path segment without control characters. -/
def validateFileName (name : String) : Except Failure Unit :=
  if name.toList = [] then .error (validationError "文件名不能为空")
  else if fileNameMaxChars < name.toList.length then
    .error (validationError ("文件名超出 " ++ toString fileNameMaxChars ++ " 字符"))
  else if name.toList.any fun c => c.val < 0x20 || (0x7F ≤ c.val && c.val ≤ 0x9F) then
    .error (validationError "文件名含控制字符")
  else if '/' ∈ name.toList ∨ '\\' ∈ name.toList then
    .error (validationError "文件名含路径分隔符")
  else if name = "." ∨ name = ".." then .error (validationError "文件名不能为 . 或 ..")
  else .ok ()

/-- `_lock_uploading_task`: the task must still be open for input. -/
def lockUploadingTask (db : Db) (owner : UserId) (tid : TaskId) : Except Failure Task := do
  let t ← lockTask db owner tid
  t.assertUploading
  if t.inputCommittedAt.isSome then .error inputCommitted else .ok t

/-- The file rows that are not tombstones. -/
def Task.liveFiles (t : Task) : List TaskFile := t.files.filter (·.state ≠ .deleted)

/-! ## Uploads -/

/-- `_assert_upload_shape`. -/
def assertUploadShape (uploads : List (String × FileContent)) : Except Failure Unit :=
  if uploads = [] then .error (validationError "uploads 不能为空")
  else uploads.forM fun u => validateFileName u.1

/-- `_assert_name_uniqueness`: no two inputs of one normalised name. -/
def assertNameUniqueness (nfc : String → String) (live : List TaskFile)
    (uploads : List (String × FileContent)) : Except Failure Unit :=
  let batchNfc := uploads.map fun u => nfc u.1
  if ¬ batchNfc.Nodup then .error (validationError "上传批内存在重复文件名（规范化后）")
  else if live.any fun f => f.direction = .input && nfc f.fileName ∈ batchNfc then
    .error (validationError "文件名与既有输入文件重复（规范化后）")
  else .ok ()

/-- `_assert_upload_limits`. -/
def assertUploadLimits (live : List TaskFile) (uploads : List (String × FileContent)) :
    Except Failure Unit :=
  if maxFilesPerTask < live.countP (·.direction = .input) + uploads.length then
    .error (fileLimit ("单任务输入文件数超上限（" ++ toString maxFilesPerTask ++ " 个）"))
  else if uploads.any (maxSingleFileBytes < ·.2.size) then
    .error (fileLimit ("单个文件超出 " ++ toString maxSingleFileBytes ++ " 字节（5 MiB）上限"))
  else if maxTaskInputBytes < (live.map (·.sizeBytes)).sum + (uploads.map (·.2.size)).sum then
    .error (fileLimit ("输入与产物总量超出 " ++ toString maxTaskInputBytes ++ " 字节（10 MiB）上限"))
  else .ok ()

/-- The staged rows of an upload, numbered from `fid`. -/
def stagedRows (fid : FileId) (uploads : List (String × FileContent)) : List TaskFile :=
  uploads.mapIdx fun i u => ⟨fid + i, .input, u.1, u.2.sha256, u.2.size, .staged, none⟩

/-- `upload_files`. -/
def uploadFiles (nfc : String → String) (db : Db) (owner : UserId) (tid : TaskId)
    (uploads : List (String × FileContent)) : Except Failure (Db × List TaskFile) := do
  let t ← lockUploadingTask db owner tid
  assertUploadShape uploads
  assertNameUniqueness nfc t.liveFiles uploads
  assertUploadLimits t.liveFiles uploads
  let rows := stagedRows db.nextId uploads
  return ({ db.setTask tid { t with files := t.files ++ rows } with
    nextId := db.nextId + uploads.length }, rows)

/-- `delete_file`: a staged input becomes a tombstone. -/
def deleteFile (db : Db) (owner : UserId) (tid : TaskId) (fid : FileId) :
    Except Failure (Db × FileId) := do
  let t ← lockUploadingTask db owner tid
  let staged (f : TaskFile) : Bool := f.id = fid && f.direction = .input && f.state = .staged
  if t.files.countP staged = 0 then .error fileNotFound
  else
    .ok (db.setTask tid
      { t with files := updateWhere staged (fun f => { f with state := .deleted }) t.files }, fid)

/-! ## Outputs -/

/-- The predicate of `_fence_round` in `task_artifacts.py`: the round runs at this epoch. -/
def TaskRound.runsAt (rid : RoundId) (epoch : ℕ) (r : TaskRound) : Bool :=
  r.id = rid && r.leaseEpoch = epoch && r.state = .running

/-- `_assert_size_limits`. -/
def assertSizeLimits (size totalBytes : ℕ) : Except Failure Unit :=
  if maxSingleFileBytes < size then
    .error (fileLimit ("单个文件超出 " ++ toString maxSingleFileBytes ++ " 字节（5 MiB）上限"))
  else if maxTaskInputBytes < totalBytes + size then
    .error (fileLimit ("输入与产物总量超出 " ++ toString maxTaskInputBytes ++ " 字节（10 MiB）上限"))
  else .ok ()

/-- `_find_old_output_row`: the live output of the same normalised name. -/
def Task.findOldOutputRow (nfc : String → String) (t : Task) (fileName : String) :
    Option TaskFile :=
  t.liveFiles.find? fun f => f.direction = .output && nfc f.fileName = nfc fileName

/-- The held `artifact_copy` reservation of a file. -/
def TaskReservation.copies (fid : FileId) (r : TaskReservation) : Bool :=
  r.fileId = some fid && r.kind = .artifactCopy && r.state = .held

/-- `_retire_old_row`: the file becomes a tombstone, its reservation is released; the released bytes
are returned. -/
def Task.retireOldRow (t : Task) (old : TaskFile) : Except Failure (Task × ℕ) :=
  let registered (f : TaskFile) : Bool := f.id = old.id && f.state = .registered
  if t.files.countP registered = 0 then .error fileNotFound
  else
    .ok ({ t with
        files := updateWhere registered (fun f => { f with state := .deleted }) t.files
        reservations := updateWhere (·.copies old.id) (fun r => { r with state := .released })
          t.reservations },
      ((t.reservations.filter (·.copies old.id)).map (·.bytes)).sum)

/-- `_insert_registered_row`: the output row and its reservation. -/
def Task.insertRegisteredRow (t : Task) (fid : FileId) (fileName : String) (content : FileContent)
    (rid : RoundId) : Except Failure Task :=
  ({ t with files := t.files ++
      [⟨fid, .output, fileName, content.sha256, content.size, .registered, some rid⟩] } :
    Task).insertReservation ⟨t.ownerId, .artifactCopy, some fid, content.size, .held⟩

/-- `_fence_round`. -/
def Task.fenceRound (t : Task) (rid : RoundId) (epoch : ℕ) : Except Failure Unit :=
  if t.rounds.countP (·.runsAt rid epoch) = 0 then
    .error (toolCallRejected "产物写入窗口已关闭（轮已收口或 lease 已变更）")
  else .ok ()

/-- The task part of `register_output`, with the bytes to refund. -/
def Task.registerOutput (nfc : String → String) (t : Task) (fid : FileId) (fileName : String)
    (content : FileContent) (rid : RoundId) (epoch : ℕ) : Except Failure (Task × ℕ) := do
  t.fenceRound rid epoch
  validateFileName fileName
  let live := (t.liveFiles.map (·.sizeBytes)).sum
  match t.findOldOutputRow nfc fileName with
  | none =>
    assertSizeLimits content.size live
    let t ← t.insertRegisteredRow fid fileName content rid
    return (t, 0)
  | some old =>
    assertSizeLimits content.size (live - old.sizeBytes)
    let (t, refunded) ← t.retireOldRow old
    let t ← t.insertRegisteredRow fid fileName content rid
    return (t, refunded)

/-- `_quota_storage_exceeded`. -/
def quotaStorageExceeded : Failure := agentCraftError .quotaStorageExceeded "保留存储配额不足" 429

/-- `register_output`. -/
def registerOutput (nfc : String → String) (db : Db) (owner : UserId) (tid : TaskId)
    (fileName : String) (content : FileContent) (rid : RoundId) (epoch : ℕ) :
    Except Failure (Db × FileId) := do
  let t ← lockTask db owner tid
  let (t', refunded) ← t.registerOutput nfc db.nextId fileName content rid epoch
  let refundedDb := if refunded = 0 then db else db.refundStorage owner refunded
  let charged ← refundedDb.chargeStorage owner content.size quotaStorageExceeded quotaStorageExceeded
  return ({ charged.setTask tid t' with nextId := db.nextId + 1 }, db.nextId)

end AgentCraft.Tasking
