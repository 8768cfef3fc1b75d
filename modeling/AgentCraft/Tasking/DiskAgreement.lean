import AgentCraft.Tasking.DiskPrograms

/-!
# Rows and files over runs

Two results about the task domain with its disk. In every run, whatever is halted where, what is read under a
row are the bytes that the row records, or nothing (`served_run`). And as long as every halted request of a
task stops before it unlinks a file, with its handler run to the end, the files in the trees of the task are
those of its live rows, neither more nor fewer (`agrees_run`).
-/

namespace AgentCraft.Tasking

open AgentCraft.Python AgentCraft.Relational AgentCraft.Transition

/-- The two rows name the same file, and are tombstones together. -/
structure TaskFile.SameFile (f f' : TaskFile) : Prop where
  id : f'.id = f.id
  direction : f'.direction = f.direction
  size : f'.sizeBytes = f.sizeBytes
  digest : f'.sha256 = f.sha256
  live : f'.state = .deleted ↔ f.state = .deleted

section Plain

variable {nfc : String → String} {sha256 : List UInt8 → String} {s : TaskStorage} {a : Action} {tid : TaskId}
  {t : Task} {files : List TaskFile} {next next' : Uuid} {f f' : TaskFile}

theorem TaskFile.SameFile.filePaths (h : f.SameFile f') : filePaths s tid f' = filePaths s tid f := by
  unfold Tasking.filePaths
  rw [h.id, h.direction]

/-- What is no file request only marks rows. -/
theorem FileChange.sameFiles (hc : FileChange nfc next next' a tid t files) (ha : a.writesFiles = false) :
    ∃ g : TaskFile → TaskFile, files = t.files.map g ∧ ∀ f : TaskFile, f.SameFile (g f) := by
  cases hc with
  | keep => exact ⟨fun f => f, (List.map_id' _).symm, fun f => ⟨rfl, rfl, rfl, rfl, Iff.rfl⟩⟩
  | upload => cases ha
  | delete => cases ha
  | commit owner _ manifest =>
    refine ⟨fun f => if f.state = .staged then { f with state := .committed } else f, ?_, fun f => ?_⟩
    · simp [Task.commitFiles, updateWhere]
    · by_cases hs : f.state = .staged
      · exact ⟨by simp [hs], by simp [hs], by simp [hs], by simp [hs], by simp [hs]⟩
      · exact ⟨by simp [hs], by simp [hs], by simp [hs], by simp [hs], by simp [hs]⟩
  | output => cases ha
  | cleanup c locked => exact ⟨_, rfl, fun f => ⟨rfl, rfl, rfl, rfl, Iff.rfl⟩⟩

end Plain

/-! ## Steps of the system -/

section Steps

variable {ud : UnicodeData} {s : TaskStorage} {nfc : String → String} {sha256 : List UInt8 → String}
  {cfg : Settings} {w w' : DiskWorld}

/-- What a step does. -/
inductive DiskChange (ud : UnicodeData) (s : TaskStorage) (nfc : String → String)
    (sha256 : List UInt8 → String) (cfg : Settings) (w : DiskWorld) : DiskAction → DiskWorld → Prop
  | plain (a : Action) (world : World) (ha : a.writesFiles = false)
      (hstep : step cfg nfc w.world a = .ok world) :
      DiskChange ud s nfc sha256 cfg w (.plain a) ⟨world, w.disk⟩
  | commit (r : FileRequest) (world : World) (disk : Disk StoragePath (List UInt8))
      (hstep : step cfg nfc w.world (r.action sha256) = .ok world)
      (hdisk : (r.program ud s nfc w.world.db w.world.db.nextId).finish w.disk = some disk) :
      DiskChange ud s nfc sha256 cfg w (.commit r) ⟨world, disk⟩
  | halt (r : FileRequest) (fid : Uuid) (stop : Stop (List UInt8)) (world : World)
      (disk : Disk StoragePath (List UInt8)) (hfresh : w.world.db.nextId ≤ fid)
      (hrange : fid + r.issues ≤ 2 ^ 128) (hstep : step cfg nfc w.world (r.action sha256) = .ok world)
      (hdisk : (r.program ud s nfc w.world.db fid).stop w.disk stop = some disk) :
      DiskChange ud s nfc sha256 cfg w (.halt r fid stop) ⟨w.world, disk⟩
  | remove (tid : TaskId) (spared tree : StoragePath → Bool) (hissued : tid < w.world.db.nextId)
      (htree : ∀ p, tree p = true → s.inTaskTrees (formatUuid tid) p = true) :
      DiskChange ud s nfc sha256 cfg w (.remove tid spared) ⟨w.world, w.disk.prune tree⟩

theorem diskStep_change {a : DiskAction} (h : diskStep ud s nfc sha256 cfg w a = .ok w') :
    DiskChange ud s nfc sha256 cfg w a w' := by
  cases a with
  | plain a =>
    obtain ⟨ha, h⟩ := ite_error_eq_ok.mp h
    obtain ⟨world, hstep, h⟩ := bind_eq_ok.mp h
    cases h
    exact .plain a world (Bool.eq_false_iff.mpr ha) hstep
  | commit r =>
    obtain ⟨world, hstep, h⟩ := bind_eq_ok.mp h
    split at h
    · next disk hdisk =>
      cases h
      exact .commit r world disk hstep hdisk
    · cases h
  | halt r fid stop =>
    obtain ⟨⟨hfresh, hrange⟩, h⟩ := ite_ok_else_error.mp h
    obtain ⟨world, hstep, h⟩ := bind_eq_ok.mp h
    split at h
    · next disk hdisk =>
      cases h
      exact .halt r fid stop world disk hfresh hrange hstep hdisk
    · cases h
  | remove tid spared =>
    obtain ⟨⟨hissued, -⟩, h⟩ := ite_ok_else_error.mp h
    cases h
    exact .remove tid spared _ hissued fun p hp => (Bool.and_eq_true_iff.mp hp).1

/-- The rows are those of the task domain. -/
theorem DiskChange.known {a : DiskAction} (h : DiskChange ud s nfc sha256 cfg w a w')
    (hw : w.world.FilesKnown nfc) :
    w'.world.FilesKnown nfc ∧ w.world.db.nextId ≤ w'.world.db.nextId := by
  cases h with
  | plain a world ha hstep => exact ⟨hw.step hstep, step_nextId_le hw.coherent hstep⟩
  | commit r world disk hstep hdisk => exact ⟨hw.step hstep, step_nextId_le hw.coherent hstep⟩
  | halt r fid stop world disk hfresh hrange hstep hdisk => exact ⟨hw, le_rfl⟩
  | remove tid spared tree hlt htree => exact ⟨hw, le_rfl⟩

/-! ## No row names other bytes -/

/-- What lies at the paths of a row are the bytes that it records. -/
def DiskWorld.Faithful (s : TaskStorage) (sha256 : List UInt8 → String) (w : DiskWorld) : Prop :=
  ∀ tid t, w.world.db.tasks.get? tid = some t → ∀ f ∈ t.files, ∀ p ∈ filePaths s tid f, ∀ b,
    w.disk p = some b → Holds sha256 f b

/-- A file that appears under an identifier already in use has been there before. -/
theorem old_of_makes {r : FileRequest} {fid next : Uuid} {f : TaskFile} {tid : TaskId} {p : StoragePath}
    (hfresh : next ≤ fid) (hrange : fid + r.issues ≤ 2 ^ 128) (hf : f.id < next)
    (hp : p ∈ filePaths s tid f)
    (h : (∃ g ∈ r.newRows sha256 fid, p ∈ filePaths s r.task g) ∨ InStaging s p) : False := by
  rcases h with ⟨g, hg, hp'⟩ | hstaging
  · obtain ⟨hge, hlt⟩ := newRows_id hg
    have hlt' : g.id < 2 ^ 128 := hlt.trans_le hrange
    have hf' : f.id < g.id := (hf.trans_le hfresh).trans_le hge
    exact hf'.ne (id_of_mem_filePaths (hf'.trans hlt') hlt' hp hp')
  · exact not_inStaging_of_mem_filePaths hp hstaging

theorem DiskChange.faithful {a : DiskAction} (h : DiskChange ud s nfc sha256 cfg w a w')
    (hw : w.world.FilesKnown nfc) (hids : w'.world.db.nextId ≤ 2 ^ 128) (hf : w.Faithful s sha256) :
    w'.Faithful s sha256 := by
  cases h with
  | plain a world ha hstep =>
    intro tid t' ht' f' hf' p hp b hb
    rcases step_files_row hstep ht' with ⟨t, ht, hchange⟩ | ⟨-, hnil⟩
    · obtain ⟨g, hfiles, hsame⟩ := hchange.sameFiles ha
      rw [hfiles] at hf'
      obtain ⟨f, hmem, rfl⟩ := List.mem_map.mp hf'
      have hholds := hf tid t ht f hmem p ((hsame f).filePaths ▸ hp) b hb
      exact ⟨hholds.size.trans (hsame f).size.symm, hholds.digest.trans (hsame f).digest.symm⟩
    · rw [hnil] at hf'
      cases hf'
  | commit r world disk hstep hdisk =>
    obtain ⟨t, t₁, ht, htasks, hnext, hfiles⟩ := FileRequest.rows hstep
    have hknown := hw.ids r.task t ht
    have hsound := hw.sound r.task t ht
    have hrange : w.world.db.nextId + r.issues ≤ 2 ^ 128 := hnext ▸ hids
    -- a file at the path of an old row is the file that lay there
    have hold {tid : TaskId} {f : TaskFile} {p : StoragePath} {b : List UInt8}
        (hid : f.id < w.world.db.nextId) (hp : p ∈ filePaths s tid f) (hb : disk p = some b) :
        w.disk p = some b := by
      refine (DiskStep.runAll_makes hdisk hb).resolve_right ?_
      rintro ⟨x, hx, hmakes⟩
      exact old_of_makes le_rfl hrange hid hp (program_makes hstep ht hsound hx hmakes)
    intro tid t' ht' f' hf' p hp b hb
    change world.db.tasks.get? tid = some t' at ht'
    rw [htasks] at ht'
    rcases Table.get?_set_cases ht' with ht' | ⟨rfl, rfl⟩
    · exact hf tid t' ht' f' hf' p hp b (hold ((hw.ids tid t' ht').issued f' hf') hp hb)
    · rw [hfiles] at hf'
      rcases List.mem_append.mp hf' with hf' | hf'
      · obtain ⟨f, hmem, heq⟩ := mem_updateWhere.mp hf'
        have hsame : f'.id = f.id ∧ f'.direction = f.direction ∧ f'.sizeBytes = f.sizeBytes ∧
            f'.sha256 = f.sha256 := by
          rw [← heq]
          split <;> exact ⟨rfl, rfl, rfl, rfl⟩
        have hp' : p ∈ filePaths s r.task f := by
          rw [mem_filePaths, hsame.1, hsame.2.1] at hp
          exact mem_filePaths.mpr hp
        have hholds := hf r.task t ht f hmem p hp' b (hold (hknown.issued f hmem) hp' hb)
        exact ⟨hholds.size.trans hsame.2.2.1.symm, hholds.digest.trans hsame.2.2.2.symm⟩
      · obtain ⟨b', hb', hholds⟩ := program_finish_new ht hsound hknown.issued hrange hdisk hf' hp
        obtain rfl : b' = b := Option.some.inj (hb'.symm.trans hb)
        exact hholds
  | halt r fid stop world disk hfresh hrange hstep hdisk =>
    obtain ⟨t, -, ht, -⟩ := FileRequest.rows hstep
    intro tid t' ht' f hmem p hp b hb
    refine hf tid t' ht' f hmem p hp b ?_
    refine (Program.stop_makes hdisk (fun x hx => (program_handler sha256 hx).1) hb).resolve_right ?_
    rintro ⟨x, hx, hmakes⟩
    exact old_of_makes hfresh hrange ((hw.ids tid t' ht').issued f hmem) hp
      (program_makes hstep ht (hw.sound r.task t ht) hx hmakes)
  | remove tid spared tree hlt htree =>
    intro tid' t' ht' f hmem p hp b hb
    exact hf tid' t' ht' f hmem p hp b (Disk.eq_some_of_prune hb)

/-- What the two readers return are bytes under a path of a live row. -/
theorem readInputBytes_eq_ok {owner : UserId} {tid : TaskId} {fileName : String} {bytes : List UInt8}
    (h : w.readInputBytes ud s owner tid fileName = .ok bytes) : ∃ t f, w.world.db.tasks.get? tid = some t ∧
      t.ownerId = owner ∧ f ∈ t.files ∧ f.direction = .input ∧ f.fileName = fileName ∧ f.state ≠ .deleted ∧
      ∃ p ∈ filePaths s tid f, w.disk p = some bytes := by
  unfold DiskWorld.readInputBytes at h
  split at h
  · cases h
  · next f hrows =>
    split at h
    · next b hbytes =>
      cases h
      cases hvis : w.world.db.visibleTask owner tid with
      | none =>
        rw [hvis] at hrows
        cases hrows
      | some t =>
        obtain ⟨ht, howner⟩ := Db.visibleTask_eq_some.mp hvis
        rw [hvis] at hrows
        have hrows' : t.inputsNamed fileName = [f] := hrows
        have hmem : f ∈ t.inputsNamed fileName := hrows' ▸ List.mem_singleton_self f
        obtain ⟨hf, hrow⟩ := List.mem_filter.mp hmem
        simp only [Bool.and_eq_true, decide_eq_true_eq] at hrow
        obtain ⟨⟨hdir, hname⟩, hlive⟩ := hrow
        rw [inputPathFromKey_storageKey, Option.bind_some] at hbytes
        refine ⟨t, f, ht, howner, hf, hdir, hname, hlive, _, ?_, hbytes⟩
        rw [filePaths, hdir]
        exact List.mem_singleton_self _
    · cases h
  · cases h

theorem resolveDownload_eq_ok {owner : UserId} {tid : TaskId} {fid : FileId} {bytes : List UInt8}
    {fileName sha : String} {size : ℕ}
    (h : w.resolveDownload ud s owner tid fid = .ok (bytes, fileName, sha, size)) :
    ∃ t f, w.world.db.tasks.get? tid = some t ∧ t.ownerId = owner ∧ f ∈ t.files ∧ f.id = fid ∧
      f.state = .registered ∧ (f.fileName = fileName ∧ f.sha256 = sha ∧ f.sizeBytes = size) ∧
      ∃ p ∈ filePaths s tid f, w.disk p = some bytes := by
  unfold DiskWorld.resolveDownload at h
  split at h
  · cases h
  · next t hvis =>
    obtain ⟨ht, howner⟩ := Db.visibleTask_eq_some.mp hvis
    split at h
    · cases h
    · split at h
      · cases h
      · next f hrow =>
        have hspec := List.find?_some hrow
        simp only [Bool.and_eq_true, decide_eq_true_eq] at hspec
        obtain ⟨⟨hid, hdir⟩, hstate⟩ := hspec
        split at h
        · next b hbytes =>
          cases h
          rw [outputPathsFromKey_storageKey, Option.bind_some] at hbytes
          refine ⟨t, f, ht, howner, List.mem_of_find?_eq_some hrow, hid, hstate, ⟨rfl, rfl, rfl⟩, _, ?_, hbytes⟩
          rw [filePaths, hdir]
          exact List.mem_cons_of_mem _ (List.mem_singleton_self _)
        · cases h

variable (ud s nfc sha256 cfg) in
/-- Whatever steps raise, are torn or come too late for the commit, and wherever a process dies: what is
read as an input are the bytes whose size and digest its live row records, and what is downloaded are those
that the answer announces. Short of 2^128 identifiers, that is. -/
theorem served_run {w₀ : DiskWorld} (h₀ : w₀.world.Initial) (as : List DiskAction)
    (hids : ((diskSystem ud s nfc sha256 cfg).run w₀ as).world.db.nextId ≤ 2 ^ 128) :
    let w := (diskSystem ud s nfc sha256 cfg).run w₀ as
    (∀ owner tid fileName bytes, w.readInputBytes ud s owner tid fileName = .ok bytes →
      ∃ t f, w.world.db.tasks.get? tid = some t ∧ t.ownerId = owner ∧ f ∈ t.files ∧ f.direction = .input ∧
        f.fileName = fileName ∧ f.state ≠ .deleted ∧ Holds sha256 f bytes) ∧
    ∀ owner tid fid bytes fileName sha size,
      w.resolveDownload ud s owner tid fid = .ok (bytes, fileName, sha, size) →
        bytes.length = size ∧ sha256 bytes = sha := by
  intro w
  have hrun : w.world.FilesKnown nfc ∧ (w.world.db.nextId ≤ 2 ^ 128 → w.Faithful s sha256) := by
    refine System.invariant_run (S := diskSystem ud s nfc sha256 cfg)
      (I := fun w => w.world.FilesKnown nfc ∧ (w.world.db.nextId ≤ 2 ^ 128 → w.Faithful s sha256))
      (fun v a v' hv hstep => ?_) as ⟨h₀.filesKnown, fun _ tid t ht => ?_⟩
    · have hchange := diskStep_change hstep
      obtain ⟨hknown, hle⟩ := hchange.known hv.1
      exact ⟨hknown, fun hids' => hchange.faithful hv.1 hids' (hv.2 (hle.trans hids'))⟩
    · rw [h₀.db.tasks] at ht
      cases ht
  have hfaithful := hrun.2 hids
  refine ⟨fun owner tid fileName bytes h => ?_, fun owner tid fid bytes fileName sha size h => ?_⟩
  · obtain ⟨t, f, ht, howner, hf, hdir, hname, hlive, p, hp, hbytes⟩ := readInputBytes_eq_ok h
    exact ⟨t, f, ht, howner, hf, hdir, hname, hlive, hfaithful tid t ht f hf p hp bytes hbytes⟩
  · obtain ⟨t, f, ht, -, hf, -, -, ⟨-, rfl, rfl⟩, p, hp, hbytes⟩ := resolveDownload_eq_ok h
    have hholds := hfaithful tid t ht f hf p hp bytes hbytes
    exact ⟨hholds.size, hholds.digest⟩

/-! ## The files of a task are those of its live rows -/

/-- The halted request has left nothing of what it did: it had unlinked nothing, no write was torn where it counts,
and the handler ran to its end. An upload that is still staging needs no handler. -/
def FileRequest.Undone (P : Program StoragePath (List UInt8)) (stop : Stop (List UInt8)) : FileRequest → Prop
  | .upload _ _ uploads _ =>
    stop.done ≤ uploads.length ∨
      stop.done < 2 * uploads.length ∧ (P.handler stop.done).length ≤ stop.handled
  | .delete _ _ _ => stop.done = 0
  | .output _ _ _ => stop.done ≤ 2 ∧ stop.done < P.steps.length ∧ stop.torn = none ∧
      (P.handler stop.done).length ≤ stop.handled

variable (ud s nfc) in
/-- The step does not remove the files of the task, and a request of the task that it halts is undone. -/
def Tidy (tid : TaskId) (w : DiskWorld) : DiskAction → Prop
  | .halt r fid stop => r.task = tid → r.Undone (r.program ud s nfc w.world.db fid) stop
  | .remove tid' _ => tid' ≠ tid
  | _ => True

/-- The files in the trees of a task are those of its live rows, and identifiers to come have no files. -/
structure DiskWorld.Agrees (s : TaskStorage) (tid : TaskId) (w : DiskWorld) : Prop where
  unissued : ∀ tid', w.world.db.nextId ≤ tid' → tid' < 2 ^ 128 → ∀ p,
    s.inTaskTrees (formatUuid tid') p = true → w.disk p = none
  files : ∀ t, w.world.db.tasks.get? tid = some t → ∀ p, s.inTaskTrees (formatUuid tid) p = true →
    ((w.disk p).isSome ↔ ∃ f ∈ t.files, f.state ≠ .deleted ∧ p ∈ filePaths s tid f)

theorem not_inStaging_of_inTaskTrees {n : Uuid} {p : StoragePath}
    (h : s.inTaskTrees (formatUuid n) p = true) : ¬ InStaging s p := by
  intro hstaging
  rw [inTaskTrees_iff s (isSegment_formatUuid n)] at h
  obtain ⟨q, rfl⟩ := hstaging
  rcases h with h | h <;> simp [List.prefix_append_right_inj] at h

section Requests

variable {r : FileRequest} {fid : Uuid} {stop : Stop (List UInt8)} {world : World} {t : Task}
  {disk : Disk StoragePath (List UInt8)} {p : StoragePath} {tid : TaskId}

/-- A request stays out of the trees of other tasks. -/
theorem not_touches_of_other (fid : Uuid) (hstep : step cfg nfc w.world (r.action sha256) = .ok world)
    (ht : w.world.db.tasks.get? r.task = some t) (hs : FilesSound nfc t.files) (htask : r.task < 2 ^ 128)
    (htid : tid < 2 ^ 128) (hne : r.task ≠ tid) (hp : s.inTaskTrees (formatUuid tid) p = true) :
    (∀ x ∈ (r.program ud s nfc w.world.db fid).steps, ¬ x.Touches p) ∧
      ∀ k, ∀ x ∈ (r.program ud s nfc w.world.db fid).handler k, ¬ x.Touches p := by
  have hout (h : (∃ f ∈ r.newRows sha256 fid, p ∈ filePaths s r.task f) ∨ InStaging s p) : False := by
    rcases h with ⟨f, -, hf⟩ | hstaging
    · exact hne (task_of_inTaskTrees htask htid hf hp)
    · exact not_inStaging_of_inTaskTrees hp hstaging
  refine ⟨fun x hx htouch => ?_, fun k x hx htouch => hout ((program_handler sha256 hx).2 htouch)⟩
  rcases program_touches hstep ht hs hx htouch with h | ⟨⟨g, -, -, hg⟩, -⟩
  · exact hout h
  · exact hne (task_of_inTaskTrees htask htid hg hp)

/-- An undone request leaves the trees of its task as they were, if no file lay where it writes. -/
theorem eq_of_undone (hstep : step cfg nfc w.world (r.action sha256) = .ok world)
    (ht : w.world.db.tasks.get? r.task = some t)
    (hfree : ∀ f ∈ r.newRows sha256 fid, ∀ q ∈ filePaths s r.task f, w.disk q = none)
    (hundone : r.Undone (r.program ud s nfc w.world.db fid) stop)
    (hdisk : (r.program ud s nfc w.world.db fid).stop w.disk stop = some disk)
    (hp : s.inTaskTrees (formatUuid r.task) p = true) : disk p = w.disk p := by
  have hstaging := not_inStaging_of_inTaskTrees hp
  cases r with
  | upload owner tid uploads batch =>
    rcases hundone with hdone | ⟨hdone, hhandled⟩
    · exact uploadProgram_staging hdisk hdone hstaging
    · refine uploadProgram_undone hdisk hdone hhandled (fun x hx => ?_) hstaging
      obtain ⟨f, hf, hpath⟩ := target_mem_filePaths sha256 hx
      exact hfree f hf _ hpath
  | delete owner tid file =>
    have hdone : stop.done = 0 := hundone
    refine Program.stop_of_not_touches hdisk ?_ ?_ ?_
    · simp [hdone]
    · intro c hc
      simp only [FileRequest.program, deleteProgram] at hc
      obtain ⟨q, -, hq⟩ := List.mem_map.mp (List.mem_of_getElem? hc)
      cases hq
    · intro x hx
      cases hx
  | output c fileName content =>
    obtain ⟨hdone, hraised, htorn, hhandled⟩ := hundone
    refine outputProgram_undone hdisk hdone hraised htorn hhandled fun hcopy => ?_
    exact hfree _ (List.mem_singleton_self _) p ((@mem_filePaths_output s c.task p
      ⟨fid, .output, fileName, sha256 content, content.length, .registered, some c.round⟩ rfl).mpr hcopy)

end Requests

theorem DiskChange.agrees {a : DiskAction} {tid : TaskId} (h : DiskChange ud s nfc sha256 cfg w a w')
    (hw : w.world.FilesKnown nfc) (hids : w'.world.db.nextId ≤ 2 ^ 128) (hG : Tidy ud s nfc tid w a)
    (hag : w.Agrees s tid) : w'.Agrees s tid := by
  have hle := (h.known hw).2
  have hissued {tid : TaskId} {t : Task} (ht : w.world.db.tasks.get? tid = some t) : tid < 2 ^ 128 :=
    (hw.coherent.db.issued tid t ht).trans_le (hle.trans hids)
  cases h with
  | plain a world ha hstep =>
    refine ⟨fun tid' hge => hag.unissued tid' (hle.trans hge), fun t' ht' p hp => ?_⟩
    rcases step_files_row hstep ht' with ⟨t, ht, hchange⟩ | ⟨hnew, hnil⟩
    · obtain ⟨g, hfiles, hsame⟩ := hchange.sameFiles ha
      rw [hag.files t ht p hp, hfiles]
      constructor
      · rintro ⟨f, hf, hlive, hpath⟩
        exact ⟨g f, List.mem_map_of_mem hf, fun hd => hlive ((hsame f).live.mp hd),
          (hsame f).filePaths.symm ▸ hpath⟩
      · rintro ⟨f', hf', hlive, hpath⟩
        obtain ⟨f, hf, rfl⟩ := List.mem_map.mp hf'
        exact ⟨f, hf, fun hd => hlive ((hsame f).live.mpr hd), (hsame f).filePaths ▸ hpath⟩
    · have hlt := (hw.step hstep).coherent.db.issued tid t' ht'
      rw [hag.unissued tid hnew (hlt.trans_le hids) p hp, hnil]
      simp
  | commit r world disk hstep hdisk =>
    obtain ⟨t, t₁, ht, htasks, hnext, hfiles⟩ := FileRequest.rows hstep
    have hknown := hw.ids r.task t ht
    have hsound := hw.sound r.task t ht
    have hrange : w.world.db.nextId + r.issues ≤ 2 ^ 128 := hnext ▸ hids
    have hother {tid' : TaskId} (htid' : tid' < 2 ^ 128) (hne : r.task ≠ tid') {p : StoragePath}
        (hp : s.inTaskTrees (formatUuid tid') p = true) : disk p = w.disk p :=
      DiskStep.runAll_of_not_touches hdisk
        (not_touches_of_other _ hstep ht hsound (hissued ht) htid' hne hp).1
    constructor
    · intro tid' hge htid' p hp
      have hlt : r.task < tid' := (hw.coherent.db.issued r.task t ht).trans_le (hle.trans hge)
      exact (hother htid' hlt.ne hp).trans (hag.unissued tid' (hle.trans hge) htid' p hp)
    · intro t' ht' p hp
      change world.db.tasks.get? tid = some t' at ht'
      rw [htasks] at ht'
      by_cases htask : r.task = tid
      · subst htask
        obtain rfl : t' = t₁ := by
          rw [Table.get?_set_self ht] at ht'
          exact (Option.some.inj ht').symm
        constructor
        · intro hb
          obtain ⟨b, hb⟩ := Option.isSome_iff_exists.mp hb
          change disk p = some b at hb
          rcases DiskStep.runAll_makes hdisk hb with hb₀ | ⟨x, hx, hmakes⟩
          · obtain ⟨f, hf, hlive, hpath⟩ := (hag.files t ht p hp).mp (Option.isSome_iff_exists.mpr ⟨b, hb₀⟩)
            have hkept : ¬ r.retires nfc t f = true := by
              intro hretired
              rw [program_finish_retired ht hsound hknown.issued hrange hdisk hf hretired hpath] at hb
              cases hb
            refine ⟨f, ?_, hlive, hpath⟩
            rw [hfiles]
            exact List.mem_append_left _ (mem_updateWhere.mpr ⟨f, hf, if_neg hkept⟩)
          · rcases program_makes hstep ht hsound hx hmakes with ⟨f, hf, hpath⟩ | hstaging
            · refine ⟨f, ?_, newRows_live hf, hpath⟩
              rw [hfiles]
              exact List.mem_append_right _ hf
            · exact absurd hstaging (not_inStaging_of_inTaskTrees hp)
        · rintro ⟨f', hf', hlive, hpath⟩
          rw [hfiles] at hf'
          rcases List.mem_append.mp hf' with hf' | hf'
          · obtain ⟨f, hf, heq⟩ := mem_updateWhere.mp hf'
            have hkept : ¬ r.retires nfc t f = true := by
              intro hretired
              rw [if_pos hretired] at heq
              exact hlive (heq ▸ rfl)
            rw [if_neg hkept] at heq
            subst heq
            -- the program keeps off the path of a row that it does not retire
            have hoff : disk p = w.disk p := by
              refine DiskStep.runAll_of_not_touches hdisk fun x hx htouch => ?_
              rcases program_touches hstep ht hsound hx htouch with hnew | ⟨⟨g, hg, hretired, hpath'⟩, -⟩
              · exact old_of_makes le_rfl hrange (hknown.issued f hf) hpath hnew
              · have hlt {g : TaskFile} (hg : g ∈ t.files) : g.id < 2 ^ 128 :=
                  (hknown.issued g hg).trans_le (hle.trans hids)
                have hid := id_of_mem_filePaths (hlt hg) (hlt hf) hpath' hpath
                exact hkept (List.inj_on_of_nodup_map hknown.nodup hg hf hid ▸ hretired)
            change (disk p).isSome
            rw [hoff]
            exact (hag.files t ht p hp).mpr ⟨f, hf, hlive, hpath⟩
          · obtain ⟨b, hb, -⟩ := program_finish_new ht hsound hknown.issued hrange hdisk hf' hpath
            exact Option.isSome_iff_exists.mpr ⟨b, hb⟩
      · rw [Table.get?_set_ne _ (Ne.symm htask)] at ht'
        change (disk p).isSome ↔ _
        rw [hother (hissued ht') htask hp]
        exact hag.files t' ht' p hp
  | halt r fid stop world disk hfresh hrange hstep hdisk =>
    obtain ⟨t, -, ht, -⟩ := FileRequest.rows hstep
    have hsound := hw.sound r.task t ht
    have hother {tid' : TaskId} (htid' : tid' < 2 ^ 128) (hne : r.task ≠ tid') {p : StoragePath}
        (hp : s.inTaskTrees (formatUuid tid') p = true) : disk p = w.disk p := by
      obtain ⟨hsteps, hhandler⟩ := not_touches_of_other fid hstep ht hsound (hissued ht) htid' hne hp
      refine Program.stop_of_not_touches hdisk (fun x hx => hsteps x (List.mem_of_mem_take hx)) (fun c hc => ?_)
        (hhandler stop.done)
      exact absurd rfl (hsteps _ (List.mem_of_getElem? hc))
    constructor
    · intro tid' hge htid' p hp
      have hlt : r.task < tid' := (hw.coherent.db.issued r.task t ht).trans_le hge
      exact (hother htid' hlt.ne hp).trans (hag.unissued tid' hge htid' p hp)
    · intro t' ht' p hp
      change (disk p).isSome ↔ _
      by_cases htask : r.task = tid
      · subst htask
        obtain rfl : t = t' := Option.some.inj (ht.symm.trans ht')
        rw [eq_of_undone hstep ht (fun f hf q hq => ?_) (hG rfl) hdisk hp]
        · exact hag.files t ht p hp
        · -- no file lies under an identifier that has just been drawn
          cases hb : w.disk q with
          | none => rfl
          | some b =>
            obtain ⟨g, hg, -, hpath⟩ := (hag.files t ht q (inTaskTrees_of_mem_filePaths hq)).mp
              (Option.isSome_iff_exists.mpr ⟨b, hb⟩)
            exact (old_of_makes hfresh hrange ((hw.ids r.task t ht).issued g hg) hpath (.inl ⟨f, hf, hq⟩)).elim
      · rw [hother (hissued ht') htask hp]
        exact hag.files t' ht' p hp
  | remove tid' spared tree hlt htree =>
    have hoff {p : StoragePath} (hp : tree p = false) : w.disk.prune tree p = w.disk p :=
      Disk.prune_of_not_mem _ (by simp [hp])
    constructor
    · intro tid'' hge htid'' p hp
      have hnone := hag.unissued tid'' hge htid'' p hp
      change w.disk.prune tree p = none
      cases hb : w.disk.prune tree p with
      | none => rfl
      | some b =>
        rw [Disk.eq_some_of_prune hb] at hnone
        cases hnone
    · intro t' ht' p hp
      change (w.disk.prune tree p).isSome ↔ _
      cases htp : tree p with
      | false =>
        rw [hoff htp]
        exact hag.files t' ht' p hp
      | true => exact absurd (task_of_trees (hlt.trans_le hids) (hissued ht') (htree p htp) hp) hG

variable (ud s nfc sha256 cfg) in
/-- From an empty disk, over every run whose steps do not remove the files of the task and undo what they halt
of it: the files found in the trees of the task are those of its live rows. -/
theorem agrees_run {w₀ : DiskWorld} (h₀ : w₀.world.Initial) (hempty : ∀ p, w₀.disk p = none) {tid : TaskId}
    (as : List DiskAction) (hG : (diskSystem ud s nfc sha256 cfg).Guarded (Tidy ud s nfc tid) w₀ as)
    (hids : ((diskSystem ud s nfc sha256 cfg).run w₀ as).world.db.nextId ≤ 2 ^ 128) :
    let w := (diskSystem ud s nfc sha256 cfg).run w₀ as
    ∀ t, w.world.db.tasks.get? tid = some t → ∀ p, s.inTaskTrees (formatUuid tid) p = true →
      ((w.disk p).isSome ↔ ∃ f ∈ t.files, f.state ≠ .deleted ∧ p ∈ filePaths s tid f) := by
  intro w
  have hrun : w.world.FilesKnown nfc ∧ (w.world.db.nextId ≤ 2 ^ 128 → w.Agrees s tid) := by
    refine System.invariant_run_of_guarded (S := diskSystem ud s nfc sha256 cfg)
      (I := fun w => w.world.FilesKnown nfc ∧ (w.world.db.nextId ≤ 2 ^ 128 → w.Agrees s tid))
      (fun v a v' hv hG hstep => ?_) ⟨h₀.filesKnown, fun _ => ⟨fun _ _ _ p _ => hempty p, fun t ht => ?_⟩⟩ hG
    · have hchange := diskStep_change hstep
      obtain ⟨hknown, hle⟩ := hchange.known hv.1
      exact ⟨hknown, fun hids' => hchange.agrees hv.1 hids' hG (hv.2 (hle.trans hids'))⟩
    · rw [h₀.db.tasks] at ht
      cases ht
  exact (hrun.2 hids).files

end Steps

/-! ## A run -/

/-- User 1 creates task 10; an upload dies when it has staged its file, and the next one commits. -/
def uploadsRun : List DiskAction :=
  [.plain (.request (.createTask 1 5 none "hi" [])), .halt (.upload 1 10 [("a", [1])] 90) 12 ⟨1, none, 0⟩,
    .commit (.upload 1 10 [("a", [1, 2, 3])] 92)]

/-- The small installation with an empty disk. -/
def DiskWorld.small : DiskWorld := ⟨World.small, fun _ => none⟩

/-- The interpreter, for identifiers of ASCII. -/
def noUnicode : UnicodeData := ⟨fun _ => false, fun _ => none⟩

/-- The state after the run. -/
def uploadsWorld : DiskWorld :=
  (diskSystem noUnicode ⟨[]⟩ id (fun _ => "h") {}).run DiskWorld.small uploadsRun

theorem uploadsWorld_facts : uploadsWorld.world.db.nextId ≤ 2 ^ 128 ∧
    (uploadsWorld.world.db.tasks.get? 10).map (fun t => t.liveFiles.map (·.fileName)) = some ["a"] ∧
    (uploadsWorld.readInputBytes noUnicode ⟨[]⟩ 1 10 "a").toOption = some [1, 2, 3] := by
  decide +kernel

/-- The file is read as it was uploaded, and its row says so. -/
theorem served_run_uploads : uploadsWorld.readInputBytes noUnicode ⟨[]⟩ 1 10 "a" = .ok [1, 2, 3] ∧
    ∃ t f, uploadsWorld.world.db.tasks.get? 10 = some t ∧ t.ownerId = 1 ∧ f ∈ t.files ∧
      f.direction = .input ∧ f.fileName = "a" ∧ f.state ≠ .deleted ∧ Holds (fun _ => "h") f [1, 2, 3] := by
  obtain ⟨hids, -, hbytes⟩ := uploadsWorld_facts
  have hread : uploadsWorld.readInputBytes noUnicode ⟨[]⟩ 1 10 "a" = .ok [1, 2, 3] := by
    cases h : uploadsWorld.readInputBytes noUnicode ⟨[]⟩ 1 10 "a" with
    | error e =>
      rw [h] at hbytes
      cases hbytes
    | ok bytes =>
      rw [h] at hbytes
      exact congrArg Except.ok (Option.some.inj hbytes)
  exact ⟨hread, (served_run noUnicode ⟨[]⟩ id (fun _ => "h") {} World.small_initial uploadsRun hids).1 1 10 "a"
    [1, 2, 3] hread⟩

/-- One file is left of the run, and it is that of the row `a`. -/
theorem agrees_run_uploads : ∃ t, uploadsWorld.world.db.tasks.get? 10 = some t ∧
    t.liveFiles.map (·.fileName) = ["a"] ∧
    ∀ p, TaskStorage.inTaskTrees ⟨[]⟩ (formatUuid 10) p = true →
      ((uploadsWorld.disk p).isSome ↔ ∃ f ∈ t.files, f.state ≠ .deleted ∧ p ∈ filePaths ⟨[]⟩ 10 f) := by
  obtain ⟨hids, hnames, -⟩ := uploadsWorld_facts
  obtain ⟨t, ht, hfiles⟩ := Option.map_eq_some_iff.mp hnames
  refine ⟨t, ht, hfiles, ?_⟩
  exact agrees_run noUnicode ⟨[]⟩ id (fun _ => "h") {} World.small_initial (fun _ => rfl) uploadsRun
    ⟨trivial, fun _ => .inl le_rfl, trivial, trivial⟩ hids t ht

end AgentCraft.Tasking
