import AgentCraft.Tasking.InputFreeze
import AgentCraft.Tasking.TaskStorage
import AgentCraft.Transition.Disk

/-!
# File rows and files

Uploads, deletions and outputs write rows in a transaction and bytes on a disk that knows of no transaction.
A `FileRequest` is one of them: the transaction is that of the task domain, the `Program` is what the code
does to the disk meanwhile. It runs to its commit, or it is halted anywhere (a step raises, a later statement
or the commit fails, the process dies): then the rows are rolled back, and the disk keeps what has been done to
it. The lock on the task row keeps two programs of one task apart, so a request is one step; the tree of a
task goes after the task has ended, perhaps not wholly.

Whatever is halted where, a row never names the bytes of another file (`served_run`): identifiers are used
once, so no file is ever written over.
-/

namespace AgentCraft.Tasking

open AgentCraft.Python AgentCraft.Relational AgentCraft.Transition

/-- The operations that write both rows and files. -/
inductive FileRequest
  | upload (owner : UserId) (task : TaskId) (uploads : List (String × List UInt8)) (batch : Uuid)
  | delete (owner : UserId) (task : TaskId) (file : FileId)
  | output (c : RoundContext) (fileName : String) (content : List UInt8)

/-- What the tables record of the bytes; `hashlib.sha256` is the parameter `sha256`. -/
def fileContent (sha256 : List UInt8 → String) (bytes : List UInt8) : FileContent :=
  ⟨bytes.length, sha256 bytes⟩

namespace FileRequest

def task : FileRequest → TaskId
  | .upload _ tid _ _ => tid
  | .delete _ tid _ => tid
  | .output c _ _ => c.task

/-- The transaction of the request. -/
def action (sha256 : List UInt8 → String) : FileRequest → Action
  | .upload owner tid uploads _ =>
    .request (.uploadFiles owner tid (uploads.map fun u => (u.1, fileContent sha256 u.2)))
  | .delete owner tid fid => .request (.deleteFile owner tid fid)
  | .output c fileName content => .write (.output c fileName (fileContent sha256 content))

/-- The number of identifiers that the request draws for files. -/
def issues : FileRequest → ℕ
  | .upload _ _ uploads _ => uploads.length
  | .delete _ _ _ => 0
  | .output _ _ _ => 1

end FileRequest

/-! ## What the operations do to the disk -/

/-- An entry of `prepared` in `upload_files`. -/
structure PreparedFile where
  tmpPath : StoragePath
  target : StoragePath
  payload : List UInt8

/-- `prepared`, with the identifiers drawn from `fid` on. -/
def preparedFiles (s : TaskStorage) (tid fid batch : Uuid) (uploads : List (String × List UInt8)) :
    List PreparedFile :=
  uploads.mapIdx fun i u =>
    ⟨joinPath (s.stagingDir (formatUuid batch)) (formatUuid (fid + i)),
      s.inputPath (formatUuid tid) (formatUuid (fid + i)), u.2⟩

/-- The files of `upload_files`: all are staged, then each is renamed into place, and the batch goes. -/
def uploadProgram (s : TaskStorage) (tid fid batch : Uuid) (uploads : List (String × List UInt8)) :
    Program StoragePath (List UInt8) :=
  let prepared := preparedFiles s tid fid batch uploads
  let clear := DiskStep.prune (s.stagingDir (formatUuid batch)).isPrefixOf
  { steps := prepared.map (fun x => .write x.tmpPath x.payload) ++
      prepared.map (fun x => .rename x.tmpPath x.target) ++ [clear]
    -- `except` covers the two loops: what has been renamed is unlinked, and the batch goes
    handler := fun k =>
      if k < 2 * prepared.length then
        (prepared.take (k - prepared.length)).map (fun x => .unlink x.target) ++ [clear]
      else [] }

/-- The file of `delete_file`, after the tombstone. -/
def deleteProgram (path : Option StoragePath) : Program StoragePath (List UInt8) :=
  { steps := path.toList.map .unlink, handler := fun _ => [] }

/-- `_write_physical`: both copies are written, then those of the replaced output are unlinked. -/
def outputProgram (s : TaskStorage) (tid fid : Uuid) (content : List UInt8)
    (old : Option (StoragePath × StoragePath)) : Program StoragePath (List UInt8) :=
  let copies := [s.outputPath (formatUuid tid) (formatUuid fid),
    s.artifactPath (formatUuid tid) (formatUuid fid)]
  let retired := old.elim [] fun paths => [paths.1, paths.2]
  { steps := copies.map (fun p => .write p content) ++ retired.map .unlink
    handler := fun k => if k < 2 + retired.length then (copies.take k).map .unlink else [] }

section Model

variable (ud : UnicodeData) (s : TaskStorage) (nfc : String → String) (sha256 : List UInt8 → String)
  (cfg : Settings)

/-- The paths of the output that a request replaces, from the key of its row. -/
def replacedPaths (db : Db) (tid : TaskId) (fileName : String) : Option (StoragePath × StoragePath) :=
  (db.tasks.get? tid).bind fun t => (t.findOldOutputRow nfc fileName).bind fun old =>
    outputPathsFromKey ud s (storageKey tid old.id)

/-- The program of a request that draws its identifiers from `fid` on. -/
def FileRequest.program (db : Db) (fid : Uuid) : FileRequest → Program StoragePath (List UInt8)
  | .upload _ tid uploads batch => uploadProgram s tid fid batch uploads
  | .delete _ tid file => deleteProgram (inputPathFromKey ud s (storageKey tid file))
  | .output c fileName content =>
    outputProgram s c.task fid content (replacedPaths ud s nfc db c.task fileName)

/-- The database with what is in flight, and the disk. -/
structure DiskWorld where
  world : World
  disk : Disk StoragePath (List UInt8)

/-- The action writes files besides its rows. -/
def Action.writesFiles : Action → Bool
  | .request (.uploadFiles _ _ _) | .request (.deleteFile _ _ _) | .write (.output _ _ _) => true
  | _ => false

/-- The labels of the system with a disk. -/
inductive DiskAction
  | plain (a : Action)
  | commit (r : FileRequest)
  /-- The request is halted; it had drawn its identifiers from `fid` on. -/
  | halt (r : FileRequest) (fid : Uuid) (stop : Stop (List UInt8))
  /-- `delete_task_storage` after a commit; errors are ignored, so that some files may be spared. -/
  | remove (task : TaskId) (spared : StoragePath → Bool)

/-- The task has ended, or its row is gone. -/
def Db.Ended (db : Db) (tid : TaskId) : Bool :=
  (db.tasks.get? tid).all fun t => t.status.isTerminal

def diskStep (w : DiskWorld) : DiskAction → Except Failure DiskWorld
  | .plain a =>
    if a.writesFiles then .error .notEnabled
    else do
      let world ← step cfg nfc w.world a
      return { w with world := world }
  | .commit r => do
    let world ← step cfg nfc w.world (r.action sha256)
    match (r.program ud s nfc w.world.db w.world.db.nextId).finish w.disk with
    | some disk => return ⟨world, disk⟩
    | none => .error .notEnabled
  | .halt r fid stop =>
    if w.world.db.nextId ≤ fid ∧ fid + r.issues ≤ 2 ^ 128 then do
      let _ ← step cfg nfc w.world (r.action sha256)
      match (r.program ud s nfc w.world.db fid).stop w.disk stop with
      | some disk => return { w with disk := disk }
      | none => .error .notEnabled
    else .error .notEnabled
  | .remove tid spared =>
    if tid < w.world.db.nextId ∧ w.world.db.Ended tid then
      .ok { w with disk := w.disk.prune fun p => s.inTaskTrees (formatUuid tid) p && !spared p }
    else .error .notEnabled

/-- The task domain with its files. -/
def diskSystem : System DiskWorld DiskAction Failure := ⟨diskStep ud s nfc sha256 cfg⟩

/-! ## What is read -/

/-- `read_input_bytes`, of a name that is not empty. -/
def DiskWorld.readInputBytes (w : DiskWorld) (owner : UserId) (tid : TaskId) (fileName : String) :
    Except Failure (List UInt8) :=
  match (w.world.db.visibleTask owner tid).elim [] (·.inputsNamed fileName) with
  | [] => .error fileNotFound
  | [f] =>
    match (inputPathFromKey ud s (storageKey tid f.id)).bind fun path => w.disk path with
    | some bytes => .ok bytes
    | none => .error fileNotFound
  | _ => .error (.integrity "MultipleResultsFound")

/-- `resolve_download`: the bytes under the path that it returns, and the metadata. -/
def DiskWorld.resolveDownload (w : DiskWorld) (owner : UserId) (tid : TaskId) (fid : FileId) :
    Except Failure (List UInt8 × String × String × ℕ) :=
  match w.world.db.visibleTask owner tid with
  | none => .error taskNotFound
  | some t =>
    if t.status = .deleted then .error taskNotFound
    else
      match t.files.find? fun f => f.id = fid && f.direction = .output && f.state = .registered with
      | none => .error fileNotFound
      | some f =>
        match (outputPathsFromKey ud s (storageKey tid f.id)).bind fun paths => w.disk paths.2 with
        | some bytes => .ok (bytes, f.fileName, f.sha256, f.sizeBytes)
        | none => .error fileNotFound

end Model

/-! ## The paths of rows -/

/-- The paths under which the bytes of a row lie. -/
def filePaths (s : TaskStorage) (tid : TaskId) (f : TaskFile) : List StoragePath :=
  match f.direction with
  | .input => [s.inputPath (formatUuid tid) (formatUuid f.id)]
  | .output => [s.outputPath (formatUuid tid) (formatUuid f.id),
      s.artifactPath (formatUuid tid) (formatUuid f.id)]

/-- The path is below the staging directory. -/
def InStaging (s : TaskStorage) (p : StoragePath) : Prop := s.root ++ ["staging"] <+: p

section Paths

variable {s : TaskStorage} {tid tid' : TaskId} {f f' : TaskFile} {p : StoragePath}

theorem mem_filePaths : p ∈ filePaths s tid f ↔
    (f.direction = .input ∧ p = s.root ++ ["tasks", formatUuid tid, "inputs", formatUuid f.id]) ∨
    (f.direction = .output ∧ (p = s.root ++ ["tasks", formatUuid tid, "outputs", formatUuid f.id] ∨
      p = s.root ++ ["artifacts", formatUuid tid, formatUuid f.id])) := by
  have hseg := isSegment_formatUuid
  cases hd : f.direction <;>
    simp [filePaths, hd, inputPath_segments s (hseg _) (hseg _), outputPath_segments s (hseg _) (hseg _),
      artifactPath_segments s (hseg _) (hseg _)]

/-- A path belongs to one identifier. -/
theorem id_of_mem_filePaths (hid : f.id < 2 ^ 128) (hid' : f'.id < 2 ^ 128) (hp : p ∈ filePaths s tid f)
    (hp' : p ∈ filePaths s tid' f') : f.id = f'.id := by
  have hfile := formatUuid_inj hid hid'
  rcases mem_filePaths.mp hp with ⟨-, rfl⟩ | ⟨-, rfl | rfl⟩ <;>
    rcases mem_filePaths.mp hp' with ⟨-, h⟩ | ⟨-, h | h⟩ <;>
    simp only [List.append_cancel_left_eq, List.cons.injEq, and_true, true_and, reduceCtorEq, and_false,
      String.reduceEq, false_and] at h
  · exact hfile h.2
  · exact hfile h.2
  · exact hfile h.2

theorem not_inStaging_of_mem_filePaths (hp : p ∈ filePaths s tid f) : ¬ InStaging s p := by
  intro hstaging
  rcases mem_filePaths.mp hp with ⟨-, rfl⟩ | ⟨-, rfl | rfl⟩ <;>
    simp [InStaging, List.prefix_append_right_inj] at hstaging

/-- A file of a task lies in the trees of that task only. -/
theorem inTaskTrees_of_mem_filePaths (hp : p ∈ filePaths s tid f) :
    s.inTaskTrees (formatUuid tid) p = true := by
  rw [inTaskTrees_iff s (isSegment_formatUuid tid)]
  rcases mem_filePaths.mp hp with ⟨-, rfl⟩ | ⟨-, rfl | rfl⟩ <;> simp [List.prefix_append_right_inj]

theorem task_of_inTaskTrees (htid : tid < 2 ^ 128) (htid' : tid' < 2 ^ 128) (hp : p ∈ filePaths s tid f)
    (htree : s.inTaskTrees (formatUuid tid') p = true) : tid = tid' := by
  rw [inTaskTrees_iff s (isSegment_formatUuid tid')] at htree
  rcases mem_filePaths.mp hp with ⟨-, rfl⟩ | ⟨-, rfl | rfl⟩ <;>
    simp [List.prefix_append_right_inj] at htree <;>
    exact formatUuid_inj htid htid' htree.symm

/-- The trees of two tasks are apart. -/
theorem task_of_trees (htid : tid < 2 ^ 128) (htid' : tid' < 2 ^ 128)
    (h : s.inTaskTrees (formatUuid tid) p = true) (h' : s.inTaskTrees (formatUuid tid') p = true) :
    tid = tid' := by
  rw [inTaskTrees_iff s (isSegment_formatUuid tid)] at h
  rw [inTaskTrees_iff s (isSegment_formatUuid tid')] at h'
  have hsame {sub sub' : String} (hpre : s.root ++ [sub, formatUuid tid] <+: p)
      (hpre' : s.root ++ [sub', formatUuid tid'] <+: p) : tid = tid' := by
    have heq := (List.prefix_of_prefix_length_le hpre hpre' (by simp)).eq_of_length (by simp)
    simp only [List.append_cancel_left_eq, List.cons.injEq, and_true] at heq
    exact formatUuid_inj htid htid' heq.2
  rcases h with h | h <;> rcases h' with h' | h' <;> exact hsame h h'

end Paths

end AgentCraft.Tasking
