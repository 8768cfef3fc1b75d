import AgentCraft.Tasking.DiskFiles

/-!
# What a file request does

Each request adds rows, turns rows into tombstones, and leaves the others (`FileRequest.rows`); its program
makes files at the paths of the new rows and in its staging directory, and clears at the paths of the retired
ones. Everything about runs follows from this description, which the three requests share.
-/

namespace AgentCraft.Tasking

open AgentCraft.Python AgentCraft.Relational AgentCraft.Transition

/-- The bytes are those that the row records. -/
structure Holds (sha256 : List UInt8 → String) (f : TaskFile) (bytes : List UInt8) : Prop where
  size : bytes.length = f.sizeBytes
  digest : sha256 bytes = f.sha256

namespace FileRequest

/-- The rows that the request inserts. -/
def newRows (sha256 : List UInt8 → String) (fid : Uuid) : FileRequest → List TaskFile
  | .upload _ _ uploads _ => stagedRows fid (uploads.map fun u => (u.1, fileContent sha256 u.2))
  | .delete _ _ _ => []
  | .output c fileName content =>
    [⟨fid, .output, fileName, sha256 content, content.length, .registered, some c.round⟩]

/-- The rows of the task that the request turns into tombstones. -/
def retires (nfc : String → String) (t : Task) : FileRequest → TaskFile → Bool
  | .upload _ _ _ _, _ => false
  | .delete _ _ fid, f => f.isStaged fid
  | .output _ fileName _, f => (t.findOldOutputRow nfc fileName).any (·.id = f.id) && f.state = .registered

end FileRequest

section Rows

variable {cfg : Settings} {nfc : String → String} {sha256 : List UInt8 → String} {w w' : World}
  {r : FileRequest}

/-- What the transaction of a request does to rows. -/
theorem FileRequest.rows (h : step cfg nfc w (r.action sha256) = .ok w') : ∃ t t',
    w.db.tasks.get? r.task = some t ∧ w'.db.tasks = w.db.tasks.set r.task t' ∧
      w'.db.nextId = w.db.nextId + r.issues ∧
      t'.files = updateWhere (r.retires nfc t) (fun f => { f with state := .deleted }) t.files ++
        r.newRows sha256 w.db.nextId := by
  cases r with
  | upload owner tid uploads batch =>
    obtain ⟨db, hdb, h⟩ := bind_eq_ok.mp h
    cases h
    obtain ⟨⟨db₁, rows⟩, hrun, rfl⟩ := map_eq_ok.mp hdb
    obtain ⟨t, ht, hrun⟩ := bind_eq_ok.mp hrun
    obtain ⟨⟨⟩, -, hrun⟩ := bind_eq_ok.mp hrun
    obtain ⟨⟨⟩, -, hrun⟩ := bind_eq_ok.mp hrun
    obtain ⟨⟨⟩, -, hrun⟩ := bind_eq_ok.mp hrun
    obtain ⟨rfl, -⟩ := Prod.mk.inj (Except.ok.inj hrun)
    have hfound := (Db.visibleTask_eq_some.mp (lockUploadingTask_uploading ht).1).1
    refine ⟨t, _, hfound, rfl, ?_, ?_⟩
    · simp [FileRequest.issues]
    · have hkeep : updateWhere (fun _ => false) (fun f : TaskFile => { f with state := .deleted })
          t.files = t.files := updateWhere_of_countP_eq_zero (by simp)
      exact congrArg (· ++ _) hkeep.symm
  | delete owner tid fid =>
    obtain ⟨db, hdb, h⟩ := bind_eq_ok.mp h
    cases h
    obtain ⟨⟨db₁, fid'⟩, hrun, rfl⟩ := map_eq_ok.mp hdb
    obtain ⟨t, ht, hrun⟩ := bind_eq_ok.mp hrun
    obtain ⟨-, hrun⟩ := ite_error_eq_ok.mp hrun
    obtain ⟨rfl, -⟩ := Prod.mk.inj (Except.ok.inj hrun)
    have hfound := (Db.visibleTask_eq_some.mp (lockUploadingTask_uploading ht).1).1
    exact ⟨t, _, hfound, rfl, rfl, (List.append_nil _).symm⟩
  | output c fileName content =>
    obtain ⟨db, hdb, h⟩ := bind_eq_ok.mp h
    cases h
    obtain ⟨⟨db₁, fid⟩, hrun, rfl⟩ := map_eq_ok.mp hdb
    obtain ⟨t, ht, hrun⟩ := bind_eq_ok.mp hrun
    obtain ⟨⟨t', refunded⟩, ht', hrun⟩ := bind_eq_ok.mp hrun
    obtain ⟨charged, hcharged, hrun⟩ := bind_eq_ok.mp hrun
    obtain ⟨rfl, -⟩ := Prod.mk.inj (Except.ok.inj hrun)
    have hfound := (Db.visibleTask_eq_some.mp (lockTask_eq_ok ht).1).1
    obtain ⟨old, hold, -, hfiles⟩ := Task.registerOutput_files ht'
    refine ⟨t, t', hfound, ?_, rfl, ?_⟩
    · change charged.tasks.set c.task t' = w.db.tasks.set c.task t'
      rw [(Db.chargeStorage_frame hcharged).1]
      split
      · rfl
      · simp [Db.refundStorage]
    · rw [hfiles, ← hold]
      rfl

/-- A deletion has found a staged row. -/
theorem FileRequest.delete_found {owner : UserId} {tid : TaskId} {fid : FileId} {t : Task}
    (h : step cfg nfc w ((FileRequest.delete owner tid fid).action sha256) = .ok w')
    (ht : w.db.tasks.get? tid = some t) : ∃ f ∈ t.files, f.isStaged fid = true := by
  obtain ⟨db, hdb, -⟩ := bind_eq_ok.mp h
  obtain ⟨⟨db₁, fid'⟩, hrun, -⟩ := map_eq_ok.mp hdb
  obtain ⟨t₁, ht₁, hrun⟩ := bind_eq_ok.mp hrun
  obtain ⟨hcount, -⟩ := ite_error_eq_ok.mp hrun
  have hfound := (Db.visibleTask_eq_some.mp (lockUploadingTask_uploading ht₁).1).1
  obtain rfl : t₁ = t := Option.some.inj (hfound.symm.trans ht)
  exact List.countP_pos_iff.mp (Nat.pos_of_ne_zero hcount)

end Rows

/-! ## The upload program -/

section Upload

variable {s : TaskStorage} {tid fid batch : Uuid} {uploads : List (String × List UInt8)}
  {p : StoragePath} {step : DiskStep StoragePath (List UInt8)} {x : PreparedFile}

theorem stagingDir_segments (s : TaskStorage) (batch : Uuid) :
    s.stagingDir (formatUuid batch) = s.root ++ ["staging", formatUuid batch] := by
  have hstaging : IsSegment "staging" := ⟨by decide, by decide, by decide, by decide⟩
  rw [TaskStorage.stagingDir, joinPath_segment _ hstaging, joinPath_segment _ (isSegment_formatUuid batch)]
  simp

theorem mem_preparedFiles : x ∈ preparedFiles s tid fid batch uploads ↔
    ∃ (i : ℕ) (h : i < uploads.length),
      x = ⟨s.root ++ ["staging", formatUuid batch, formatUuid (fid + i)],
        s.inputPath (formatUuid tid) (formatUuid (fid + i)), (uploads[i]).2⟩ := by
  unfold preparedFiles
  rw [List.mem_mapIdx]
  simp only [stagingDir_segments, joinPath_segment _ (isSegment_formatUuid _), List.append_assoc,
    List.cons_append, List.nil_append]
  exact exists_congr fun i => exists_congr fun h => eq_comm

theorem inStaging_tmpPath (hx : x ∈ preparedFiles s tid fid batch uploads) : InStaging s x.tmpPath := by
  obtain ⟨i, hi, rfl⟩ := mem_preparedFiles.mp hx
  simp [InStaging, List.prefix_append_right_inj]

theorem inStaging_of_batch (hp : (s.stagingDir (formatUuid batch)).isPrefixOf p = true) : InStaging s p := by
  have hpre := List.isPrefixOf_iff_prefix.mp hp
  rw [stagingDir_segments] at hpre
  refine List.IsPrefix.trans ?_ hpre
  simp [List.prefix_append_right_inj]

/-- The targets are the paths of the staged rows. -/
theorem target_mem_filePaths (sha256 : List UInt8 → String)
    (hx : x ∈ preparedFiles s tid fid batch uploads) :
    ∃ f ∈ stagedRows fid (uploads.map fun u => (u.1, fileContent sha256 u.2)),
      x.target ∈ filePaths s tid f := by
  obtain ⟨i, hi, rfl⟩ := mem_preparedFiles.mp hx
  have hi' : i < (uploads.map fun u => (u.1, fileContent sha256 u.2)).length := by simpa using hi
  refine ⟨_, List.mem_mapIdx.mpr ⟨i, hi', rfl⟩, ?_⟩
  simp [filePaths]

theorem exists_prepared {sha256 : List UInt8 → String} {f : TaskFile}
    (hf : f ∈ stagedRows fid (uploads.map fun u => (u.1, fileContent sha256 u.2)))
    (hp : p ∈ filePaths s tid f) :
    ∃ x ∈ preparedFiles s tid fid batch uploads, p = x.target ∧ Holds sha256 f x.payload := by
  obtain ⟨i, hi, rfl⟩ := List.mem_mapIdx.mp hf
  have hi' : i < uploads.length := by simpa using hi
  refine ⟨_, mem_preparedFiles.mpr ⟨i, hi', rfl⟩, ?_, ?_, ?_⟩
  · simpa [filePaths] using hp
  · simp [fileContent]
  · simp [fileContent]

/-- An upload touches its staging directory and the paths of its rows. -/
theorem uploadProgram_touches (hstep : step ∈ (uploadProgram s tid fid batch uploads).steps)
    (hp : step.Touches p) :
    (∃ x ∈ preparedFiles s tid fid batch uploads, p = x.target) ∨ InStaging s p := by
  simp only [uploadProgram, List.mem_append, List.mem_map, List.mem_singleton] at hstep
  rcases hstep with (⟨x, hx, rfl⟩ | ⟨x, hx, rfl⟩) | rfl
  · obtain rfl : p = x.tmpPath := hp
    exact .inr (inStaging_tmpPath hx)
  · rcases hp with rfl | rfl
    · exact .inr (inStaging_tmpPath hx)
    · exact .inl ⟨x, hx, rfl⟩
  · exact .inr (inStaging_of_batch hp)

theorem uploadProgram_handler {k : ℕ} (hstep : step ∈ (uploadProgram s tid fid batch uploads).handler k) :
    ¬ step.Makes p ∧ (step.Touches p →
      (∃ x ∈ preparedFiles s tid fid batch uploads, p = x.target) ∨ InStaging s p) := by
  simp only [uploadProgram] at hstep
  split at hstep
  · rcases List.mem_append.mp hstep with hstep | hstep
    · obtain ⟨x, hx, rfl⟩ := List.mem_map.mp hstep
      exact ⟨id, fun hp => .inl ⟨x, List.mem_of_mem_take hx, hp⟩⟩
    · obtain rfl := List.mem_singleton.mp hstep
      exact ⟨id, fun hp => .inr (inStaging_of_batch hp)⟩
  · cases hstep

/-- Staged files have names of their own, and so have the targets. -/
theorem preparedFiles_nodup (s : TaskStorage) (tid batch : Uuid) (hfid : fid + uploads.length ≤ 2 ^ 128) :
    ((preparedFiles s tid fid batch uploads).map (·.tmpPath)).Nodup ∧
      ((preparedFiles s tid fid batch uploads).map (·.target)).Nodup := by
  have hmap {α : Type} (g : PreparedFile → α) (path : Uuid → α)
      (hg : ∀ i u, g ⟨joinPath (s.stagingDir (formatUuid batch)) (formatUuid (fid + i)),
        s.inputPath (formatUuid tid) (formatUuid (fid + i)), u⟩ = path (fid + i)) :
      (preparedFiles s tid fid batch uploads).map g =
        (List.range' fid uploads.length).map path := by
    apply List.ext_getElem
    · simp [preparedFiles]
    · intro i hi hi'
      simp [preparedFiles, hg]
  have hinj {i j : Uuid} (hi : i ∈ List.range' fid uploads.length)
      (hj : j ∈ List.range' fid uploads.length) (h : formatUuid i = formatUuid j) : i = j := by
    have hi := (List.mem_range'_1.mp hi).2
    have hj := (List.mem_range'_1.mp hj).2
    exact formatUuid_inj (hi.trans_le hfid) (hj.trans_le hfid) h
  constructor
  · rw [hmap PreparedFile.tmpPath (fun n => joinPath (s.stagingDir (formatUuid batch)) (formatUuid n))
      fun i u => rfl]
    refine List.Nodup.map_on (fun i hi j hj h => hinj hi hj ?_) List.nodup_range'
    rw [joinPath_segment _ (isSegment_formatUuid i), joinPath_segment _ (isSegment_formatUuid j)] at h
    simpa using h
  · rw [hmap PreparedFile.target (fun n => s.inputPath (formatUuid tid) (formatUuid n)) fun i u => rfl]
    refine List.Nodup.map_on (fun i hi j hj h => hinj hi hj ?_) List.nodup_range'
    rw [inputPath_segments s (isSegment_formatUuid tid) (isSegment_formatUuid i),
      inputPath_segments s (isSegment_formatUuid tid) (isSegment_formatUuid j)] at h
    simpa using h

/-- After an upload its bytes are in place. -/
theorem uploadProgram_finish {d d' : Disk StoragePath (List UInt8)} (hfid : fid + uploads.length ≤ 2 ^ 128)
    (h : (uploadProgram s tid fid batch uploads).finish d = some d')
    (hx : x ∈ preparedFiles s tid fid batch uploads) : d' x.target = some x.payload := by
  obtain ⟨hsources, htargets⟩ := preparedFiles_nodup s tid batch hfid
  have hfinal {y : PreparedFile} (hy : y ∈ preparedFiles s tid fid batch uploads) :
      ¬ InStaging s y.target := by
    obtain ⟨f, -, hf⟩ := target_mem_filePaths (fun _ => "") hy
    exact not_inStaging_of_mem_filePaths hf
  simp only [Program.finish, uploadProgram, DiskStep.runAll_append] at h
  obtain ⟨d₂, h, hclear⟩ := Option.bind_eq_some_iff.mp h
  obtain ⟨d₁, hwrites, hrenames⟩ := Option.bind_eq_some_iff.mp h
  have hwritten : d₁ x.tmpPath = some x.payload := by
    refine DiskStep.runAll_writes (d := d)
      ((preparedFiles s tid fid batch uploads).map fun y => (y.tmpPath, y.payload)) ?_ ?_ ?_
    · rw [List.map_map]
      exact hsources
    · rw [List.map_map]
      exact hwrites
    · exact List.mem_map.mpr ⟨x, hx, rfl⟩
  have hmoved : d₂ x.target = d₁ x.tmpPath := by
    refine DiskStep.runAll_renames (d := d₁)
      ((preparedFiles s tid fid batch uploads).map fun y => (y.tmpPath, y.target))
      (m := (x.tmpPath, x.target)) ?_ ?_ ?_ ?_ ?_
    · rw [List.map_map]
      exact hsources
    · rw [List.map_map]
      exact htargets
    · intro m hm m' hm' heq
      obtain ⟨y, hy, rfl⟩ := List.mem_map.mp hm
      obtain ⟨z, hz, rfl⟩ := List.mem_map.mp hm'
      have hstaging := inStaging_tmpPath hy
      rw [show y.tmpPath = z.target from heq] at hstaging
      exact hfinal hz hstaging
    · rw [List.map_map]
      exact hrenames
    · exact List.mem_map.mpr ⟨x, hx, rfl⟩
  rw [DiskStep.runAll_of_not_touches hclear fun t ht htouch => ?_, hmoved, hwritten]
  obtain rfl := List.mem_singleton.mp ht
  exact hfinal hx (inStaging_of_batch htouch)

/-- What is written, and so may be torn, is in the staging directory. -/
theorem uploadProgram_tear {stop : Stop (List UInt8)} (hp : ¬ InStaging s p) (c : List UInt8)
    (hc : (uploadProgram s tid fid batch uploads).steps[stop.done]? = some (.write p c)) :
    stop.torn = none := by
  have hmem := List.mem_of_getElem? hc
  simp only [uploadProgram, List.mem_append, List.mem_map, List.mem_singleton] at hmem
  rcases hmem with (⟨x, hx, heq⟩ | ⟨x, hx, heq⟩) | heq
  · obtain ⟨rfl, -⟩ := DiskStep.write.inj heq
    exact absurd (inStaging_tmpPath hx) hp
  · cases heq
  · cases heq

/-- An upload that is halted while it stages leaves no trace outside of its staging directory, even when its
handler does not run. -/
theorem uploadProgram_staging {d d' : Disk StoragePath (List UInt8)} {stop : Stop (List UInt8)}
    (h : (uploadProgram s tid fid batch uploads).stop d stop = some d') (hdone : stop.done ≤ uploads.length)
    (hp : ¬ InStaging s p) : d' p = d p := by
  have hlen : (preparedFiles s tid fid batch uploads).length = uploads.length := by simp [preparedFiles]
  refine Program.stop_of_not_touches h (fun t ht htouch => ?_) (uploadProgram_tear hp) fun t ht htouch => ?_
  · simp only [uploadProgram, List.append_assoc] at ht
    rw [List.take_append_of_le_length (by simpa [hlen] using hdone), ← List.map_take] at ht
    obtain ⟨x, hx, rfl⟩ := List.mem_map.mp ht
    obtain rfl : p = x.tmpPath := htouch
    exact hp (inStaging_tmpPath (List.mem_of_mem_take hx))
  · simp only [uploadProgram, hlen, Nat.sub_eq_zero_of_le hdone, List.take_zero, List.map_nil,
      List.nil_append] at ht
    split at ht
    · obtain rfl := List.mem_singleton.mp ht
      exact hp (inStaging_of_batch htouch)
    · cases ht

/-- A halted upload whose handler has run leaves no trace outside of its staging directory. -/
theorem uploadProgram_undone {d d' : Disk StoragePath (List UInt8)} {stop : Stop (List UInt8)}
    (h : (uploadProgram s tid fid batch uploads).stop d stop = some d')
    (hdone : stop.done < 2 * uploads.length)
    (hhandled : ((uploadProgram s tid fid batch uploads).handler stop.done).length ≤ stop.handled)
    (hfree : ∀ x ∈ preparedFiles s tid fid batch uploads, d x.target = none) (hp : ¬ InStaging s p) :
    d' p = d p := by
  have hlen : (preparedFiles s tid fid batch uploads).length = uploads.length := by simp [preparedFiles]
  by_cases hex : ∃ x ∈ preparedFiles s tid fid batch uploads, p = x.target
  · obtain ⟨x, hx, rfl⟩ := hex
    rw [hfree x hx]
    cases hb : d' x.target with
    | none => rfl
    | some b =>
      have hbefore := Program.stop_undone h hhandled (fun t ht => (uploadProgram_handler ht).1) ?_
        (uploadProgram_tear hp) hb
      · rw [hfree x hx] at hbefore
        cases hbefore
      · intro t ht hmakes
        -- of what has been done, only the renames make files outside of the staging directory
        simp only [uploadProgram, List.take_append, List.mem_append, ← List.map_take, List.mem_map,
          List.length_map] at ht
        rcases ht with (⟨y, hy, rfl⟩ | ⟨y, hy, rfl⟩) | ht
        · have hstaging := inStaging_tmpPath (List.mem_of_mem_take hy)
          rw [show y.tmpPath = x.target from hmakes.symm] at hstaging
          exact absurd hstaging hp
        · refine ⟨.unlink y.target, ?_, hmakes⟩
          simp only [uploadProgram]
          rw [if_pos (hlen ▸ hdone)]
          exact List.mem_append_left _ (List.mem_map.mpr ⟨y, hy, rfl⟩)
        · obtain rfl := List.mem_singleton.mp (List.mem_of_mem_take ht)
          cases hmakes
  · refine Program.stop_of_not_touches h (fun t ht htouch => ?_) (uploadProgram_tear hp)
      fun t ht htouch => ?_
    · exact (uploadProgram_touches (List.mem_of_mem_take ht) htouch).elim hex hp
    · exact ((uploadProgram_handler ht).2 htouch).elim hex hp

end Upload

/-! ## The output program -/

section Output

variable {s : TaskStorage} {tid fid : Uuid} {content : List UInt8} {old : Option (StoragePath × StoragePath)}
  {p : StoragePath} {step : DiskStep StoragePath (List UInt8)}

/-- The two copies of an output. -/
def IsCopy (s : TaskStorage) (tid fid : Uuid) (p : StoragePath) : Prop :=
  p = s.outputPath (formatUuid tid) (formatUuid fid) ∨ p = s.artifactPath (formatUuid tid) (formatUuid fid)

theorem mem_filePaths_output {f : TaskFile} (hd : f.direction = .output) :
    p ∈ filePaths s tid f ↔ IsCopy s tid f.id p := by
  simp [filePaths, hd, IsCopy]

theorem outputProgram_touches (hstep : step ∈ (outputProgram s tid fid content old).steps)
    (hp : step.Touches p) :
    IsCopy s tid fid p ∨ (∃ paths ∈ old, p = paths.1 ∨ p = paths.2) ∧ ¬ step.Makes p := by
  simp only [outputProgram, List.mem_append, List.mem_map] at hstep
  rcases hstep with ⟨q, hq, rfl⟩ | ⟨q, hq, rfl⟩
  · obtain rfl : p = q := hp
    exact .inl (by simpa [IsCopy] using hq)
  · obtain rfl : p = q := hp
    cases old with
    | none => cases hq
    | some paths => exact .inr ⟨⟨paths, rfl, by simpa using hq⟩, id⟩

theorem outputProgram_handler {k : ℕ} (hstep : step ∈ (outputProgram s tid fid content old).handler k) :
    ¬ step.Makes p ∧ (step.Touches p → IsCopy s tid fid p) := by
  simp only [outputProgram] at hstep
  split at hstep
  · obtain ⟨q, hq, rfl⟩ := List.mem_map.mp hstep
    refine ⟨id, fun hp => ?_⟩
    obtain rfl : p = q := hp
    simpa [IsCopy] using List.mem_of_mem_take hq
  · cases hstep

/-- After an output both copies hold the bytes, unless one of them is what it replaces. -/
theorem outputProgram_finish {d d' : Disk StoragePath (List UInt8)}
    (h : (outputProgram s tid fid content old).finish d = some d') (hp : IsCopy s tid fid p)
    (hold : ∀ paths ∈ old, p ≠ paths.1 ∧ p ≠ paths.2) : d' p = some content := by
  simp only [Program.finish, outputProgram, DiskStep.runAll_append] at h
  obtain ⟨d₁, hwrites, hunlinks⟩ := Option.bind_eq_some_iff.mp h
  have hoff : d' p = d₁ p := by
    refine DiskStep.runAll_of_not_touches hunlinks fun t ht htouch => ?_
    obtain ⟨q, hq, rfl⟩ := List.mem_map.mp ht
    obtain rfl : p = q := htouch
    cases old with
    | none => cases hq
    | some paths =>
      obtain ⟨h₁, h₂⟩ := hold paths rfl
      rcases List.mem_pair.mp hq with heq | heq
      · exact h₁ heq
      · exact h₂ heq
  rw [hoff]
  refine DiskStep.runAll_writes (d := d) [(s.outputPath (formatUuid tid) (formatUuid fid), content),
    (s.artifactPath (formatUuid tid) (formatUuid fid), content)] ?_ hwrites ?_
  · rw [outputPath_segments s (isSegment_formatUuid tid) (isSegment_formatUuid fid),
      artifactPath_segments s (isSegment_formatUuid tid) (isSegment_formatUuid fid)]
    simp
  · rcases hp with hp | hp <;> rw [hp]
    · exact List.mem_cons_self
    · exact List.mem_cons_of_mem _ List.mem_cons_self

/-- What an output replaces is gone afterwards. -/
theorem outputProgram_cleared {d d' : Disk StoragePath (List UInt8)}
    (h : (outputProgram s tid fid content old).finish d = some d') (hp : ¬ IsCopy s tid fid p)
    {paths : StoragePath × StoragePath} (hold : paths ∈ old) (hpaths : p = paths.1 ∨ p = paths.2) :
    d' p = none := by
  cases hold
  have hno : ∀ t ∈ (outputProgram s tid fid content (some paths)).steps, ¬ t.Makes p := by
    intro t ht hmakes
    have htouch : t.Touches p := by
      cases t with
      | write q b => exact hmakes
      | rename source target => exact .inr hmakes
      | unlink q => cases hmakes
      | prune tree => cases hmakes
    exact (outputProgram_touches ht htouch).elim hp fun hq => hq.2 hmakes
  refine DiskStep.runAll_cleared (s := .unlink p) h hno ?_ rfl
  rcases hpaths with rfl | rfl <;> simp [outputProgram]

/-- A halted output that has unlinked nothing, and whose handler has run, leaves no trace. -/
theorem outputProgram_undone {d d' : Disk StoragePath (List UInt8)} {stop : Stop (List UInt8)}
    (h : (outputProgram s tid fid content old).stop d stop = some d') (hdone : stop.done ≤ 2)
    (hraised : stop.done < (outputProgram s tid fid content old).steps.length) (htorn : stop.torn = none)
    (hhandled : ((outputProgram s tid fid content old).handler stop.done).length ≤ stop.handled)
    (hfree : IsCopy s tid fid p → d p = none) : d' p = d p := by
  have hsteps {t : DiskStep StoragePath (List UInt8)}
      (ht : t ∈ (outputProgram s tid fid content old).steps.take stop.done) :
      ∃ q ∈ [s.outputPath (formatUuid tid) (formatUuid fid), s.artifactPath (formatUuid tid) (formatUuid fid)].take
        stop.done, .write q content = t := by
    simp only [outputProgram] at ht
    rw [List.take_append_of_le_length (by simpa using hdone), ← List.map_take] at ht
    exact List.mem_map.mp ht
  by_cases hcopy : IsCopy s tid fid p
  · rw [hfree hcopy]
    cases hb : d' p with
    | none => rfl
    | some b =>
      have hbefore := Program.stop_undone h hhandled (fun t ht => (outputProgram_handler ht).1) ?_
        (fun _ _ => htorn) hb
      · rw [hfree hcopy] at hbefore
        cases hbefore
      · intro t ht hmakes
        obtain ⟨q, hq, rfl⟩ := hsteps ht
        refine ⟨.unlink q, ?_, hmakes⟩
        simp only [outputProgram, List.length_append, List.length_map, List.length_cons,
          List.length_nil] at hraised
        simp only [outputProgram]
        rw [if_pos hraised]
        exact List.mem_map.mpr ⟨q, hq, rfl⟩
  · refine Program.stop_of_not_touches h (fun t ht htouch => ?_) (fun _ _ => htorn) fun t ht htouch => ?_
    · obtain ⟨q, hq, rfl⟩ := hsteps ht
      obtain rfl : p = q := htouch
      exact hcopy (by simpa [IsCopy] using List.mem_of_mem_take hq)
    · exact hcopy ((outputProgram_handler ht).2 htouch)

end Output

/-! ## Every program -/

section Programs

variable {ud : UnicodeData} {s : TaskStorage} {cfg : Settings} {nfc : String → String}
  {sha256 : List UInt8 → String} {w w' : World} {r : FileRequest} {t : Task} {fid : Uuid}
  {content : List UInt8} {p : StoragePath} {step : DiskStep StoragePath (List UInt8)}

/-- The row that an output replaces, and its paths. -/
theorem replacedPaths_eq (tid : TaskId) (ht : w.db.tasks.get? tid = some t) {fileName : String} :
    replacedPaths ud s nfc w.db tid fileName = (t.findOldOutputRow nfc fileName).map fun old =>
      (s.outputPath (formatUuid tid) (formatUuid old.id), s.artifactPath (formatUuid tid) (formatUuid old.id)) := by
  rw [replacedPaths, ht, Option.bind_some]
  cases t.findOldOutputRow nfc fileName with
  | none => rw [Option.bind_none, Option.map_none]
  | some old => rw [Option.bind_some, Option.map_some, outputPathsFromKey_storageKey]

/-- The replaced output is a registered row of the task. -/
theorem findOldOutputRow_spec (hs : FilesSound nfc t.files) {fileName : String} {old : TaskFile}
    (hold : t.findOldOutputRow nfc fileName = some old) :
    old ∈ t.files ∧ old.direction = .output ∧ old.state = .registered := by
  obtain ⟨hmem, hlive⟩ := mem_live.mp (List.mem_of_find?_eq_some hold)
  have hnamed := List.find?_some hold
  simp only [Bool.and_eq_true, decide_eq_true_eq] at hnamed
  exact ⟨hmem, hnamed.1, (hs.outputs old hmem hnamed.1).resolve_right hlive⟩

/-- A retired row of an output is the replaced output, as far as its paths go. -/
theorem retires_output (hs : FilesSound nfc t.files) {c : RoundContext} {fileName : String}
    {g : TaskFile} (hg : g ∈ t.files) (h : (FileRequest.output c fileName content).retires nfc t g = true) :
    ∃ old, t.findOldOutputRow nfc fileName = some old ∧ g.id = old.id ∧ g.direction = .output := by
  simp only [FileRequest.retires, Bool.and_eq_true, decide_eq_true_eq, Option.any_eq_true] at h
  obtain ⟨⟨old, hold, hid⟩, hstate⟩ := h
  refine ⟨old, hold, hid.symm, ?_⟩
  cases hd : g.direction with
  | output => rfl
  | input => exact absurd hstate (hs.inputs g hg hd).1

/-- A program touches the paths of the new rows and of the retired ones, and its staging directory; it makes
nothing at those of the retired ones. -/
theorem program_touches (hrun : Tasking.step cfg nfc w (r.action sha256) = .ok w')
    (ht : w.db.tasks.get? r.task = some t) (hs : FilesSound nfc t.files)
    (hstep : step ∈ (r.program ud s nfc w.db fid).steps) (hp : step.Touches p) :
    ((∃ f ∈ r.newRows sha256 fid, p ∈ filePaths s r.task f) ∨ InStaging s p) ∨
      (∃ g ∈ t.files, r.retires nfc t g = true ∧ p ∈ filePaths s r.task g) ∧ ¬ step.Makes p := by
  cases r with
  | upload owner tid uploads batch =>
    rcases uploadProgram_touches hstep hp with ⟨x, hx, rfl⟩ | hstaging
    · exact .inl (.inl (target_mem_filePaths sha256 hx))
    · exact .inl (.inr hstaging)
  | delete owner tid file =>
    obtain ⟨g, hg, hstaged⟩ := FileRequest.delete_found hrun ht
    simp only [FileRequest.program, deleteProgram, inputPathFromKey_storageKey, Option.toList_some,
      List.map_singleton, List.mem_singleton] at hstep
    rw [hstep] at hp ⊢
    refine .inr ⟨⟨g, hg, hstaged, ?_⟩, id⟩
    simp only [TaskFile.isStaged, Bool.and_eq_true, decide_eq_true_eq] at hstaged
    have hpaths : filePaths s tid g = [s.inputPath (formatUuid tid) (formatUuid file)] := by
      rw [filePaths, hstaged.1.2, hstaged.1.1]
    exact hpaths ▸ List.mem_singleton.mpr hp
  | output c fileName content =>
    simp only [FileRequest.program, replacedPaths_eq c.task ht] at hstep
    rcases outputProgram_touches hstep hp with hcopy | ⟨⟨paths, hpaths, hp⟩, hno⟩
    · exact .inl (.inl ⟨_, List.mem_singleton_self _, (mem_filePaths_output rfl).mpr hcopy⟩)
    · obtain ⟨old, hold, rfl⟩ := Option.map_eq_some_iff.mp hpaths
      obtain ⟨hmem, hd, hstate⟩ := findOldOutputRow_spec hs hold
      exact .inr ⟨⟨old, hmem, by simp [FileRequest.retires, hold, hstate],
        (mem_filePaths_output hd).mpr hp⟩, hno⟩

theorem program_makes (hrun : Tasking.step cfg nfc w (r.action sha256) = .ok w')
    (ht : w.db.tasks.get? r.task = some t) (hs : FilesSound nfc t.files)
    (hstep : step ∈ (r.program ud s nfc w.db fid).steps) (hp : step.Makes p) :
    (∃ f ∈ r.newRows sha256 fid, p ∈ filePaths s r.task f) ∨ InStaging s p := by
  have htouch : step.Touches p := by
    cases step with
    | write q b => exact hp
    | rename source target => exact .inr hp
    | unlink q => cases hp
    | prune tree => cases hp
  exact (program_touches hrun ht hs hstep htouch).resolve_right fun h => h.2 hp

theorem program_handler (sha256 : List UInt8 → String) {k : ℕ} (hstep : step ∈ (r.program ud s nfc w.db fid).handler k) :
    ¬ step.Makes p ∧ (step.Touches p →
      (∃ f ∈ r.newRows sha256 fid, p ∈ filePaths s r.task f) ∨ InStaging s p) := by
  cases r with
  | upload owner tid uploads batch =>
    obtain ⟨hno, htouch⟩ := uploadProgram_handler (p := p) hstep
    refine ⟨hno, fun hp => (htouch hp).imp_left ?_⟩
    rintro ⟨x, hx, rfl⟩
    exact target_mem_filePaths sha256 hx
  | delete owner tid file => cases hstep
  | output c fileName content =>
    obtain ⟨hno, htouch⟩ := outputProgram_handler (p := p) hstep
    exact ⟨hno, fun hp => .inl ⟨_, List.mem_singleton_self _, (mem_filePaths_output rfl).mpr (htouch hp)⟩⟩

/-- The identifiers of the new rows. -/
theorem newRows_id {f : TaskFile} (hf : f ∈ r.newRows sha256 fid) : fid ≤ f.id ∧ f.id < fid + r.issues := by
  cases r with
  | upload owner tid uploads batch =>
    obtain ⟨i, hi, rfl⟩ := List.mem_mapIdx.mp hf
    simp only [List.length_map] at hi
    exact ⟨Nat.le_add_right fid i, Nat.add_lt_add_left hi fid⟩
  | delete owner tid file => cases hf
  | output c fileName content =>
    obtain rfl := List.mem_singleton.mp hf
    exact ⟨le_rfl, Nat.lt_succ_self fid⟩

theorem newRows_live {f : TaskFile} (hf : f ∈ r.newRows sha256 fid) : f.state ≠ .deleted := by
  cases r with
  | upload owner tid uploads batch =>
    obtain ⟨i, hi, rfl⟩ := List.mem_mapIdx.mp hf
    exact fun h => by cases h
  | delete owner tid file => cases hf
  | output c fileName content =>
    obtain rfl := List.mem_singleton.mp hf
    exact fun h => by cases h

/-- After a program has finished, the new rows name their bytes. -/
theorem program_finish_new {d d' : Disk StoragePath (List UInt8)} (ht : w.db.tasks.get? r.task = some t)
    (hs : FilesSound nfc t.files) (hids : ∀ g ∈ t.files, g.id < fid) (hfid : fid + r.issues ≤ 2 ^ 128)
    (h : (r.program ud s nfc w.db fid).finish d = some d') {f : TaskFile} (hf : f ∈ r.newRows sha256 fid)
    (hp : p ∈ filePaths s r.task f) : ∃ b, d' p = some b ∧ Holds sha256 f b := by
  cases r with
  | upload owner tid uploads batch =>
    obtain ⟨x, hx, rfl, hholds⟩ := exists_prepared hf hp
    exact ⟨x.payload, uploadProgram_finish hfid h hx, hholds⟩
  | delete owner tid file => cases hf
  | output c fileName content =>
    obtain rfl := List.mem_singleton.mp hf
    simp only [FileRequest.program, replacedPaths_eq c.task ht] at h
    have hcopy : IsCopy s c.task fid p := (@mem_filePaths_output s c.task p
      ⟨fid, .output, fileName, sha256 content, content.length, .registered, some c.round⟩ rfl).mp hp
    refine ⟨content, outputProgram_finish h hcopy fun paths hpaths => ?_, ⟨rfl, rfl⟩⟩
    obtain ⟨old, hold, rfl⟩ := Option.map_eq_some_iff.mp hpaths
    obtain ⟨hmem, hd, -⟩ := findOldOutputRow_spec hs hold
    have hlt := hids old hmem
    have hrange : fid < 2 ^ 128 := hfid
    have hne {q : StoragePath} (hq : IsCopy s c.task old.id q) : p ≠ q := by
      rintro rfl
      have hsame := id_of_mem_filePaths hrange (hlt.trans hrange) hp ((mem_filePaths_output hd).mpr hq)
      exact hlt.ne' hsame
    exact ⟨hne (.inl rfl), hne (.inr rfl)⟩

/-- After a program has finished, nothing is left of the retired rows. -/
theorem program_finish_retired {d d' : Disk StoragePath (List UInt8)}
    (ht : w.db.tasks.get? r.task = some t) (hs : FilesSound nfc t.files) (hids : ∀ g ∈ t.files, g.id < fid)
    (hfid : fid + r.issues ≤ 2 ^ 128) (h : (r.program ud s nfc w.db fid).finish d = some d') {g : TaskFile}
    (hg : g ∈ t.files) (hretired : r.retires nfc t g = true) (hp : p ∈ filePaths s r.task g) :
    d' p = none := by
  cases r with
  | upload owner tid uploads batch => cases hretired
  | delete owner tid file =>
    simp only [FileRequest.retires, TaskFile.isStaged, Bool.and_eq_true, decide_eq_true_eq] at hretired
    have hpaths : filePaths s tid g = [s.inputPath (formatUuid tid) (formatUuid file)] := by
      rw [filePaths, hretired.1.2, hretired.1.1]
    have hpath : p = s.inputPath (formatUuid tid) (formatUuid file) := List.mem_singleton.mp (hpaths ▸ hp)
    simp only [FileRequest.program, deleteProgram, inputPathFromKey_storageKey, Option.toList_some,
      List.map_singleton] at h
    cases h
    rw [hpath, Disk.set_self]
  | output c fileName content =>
    obtain ⟨old, hold, hid, hd⟩ := retires_output hs hg hretired
    simp only [FileRequest.program, replacedPaths_eq c.task ht, hold, Option.map_some] at h
    have hcopy : IsCopy s c.task old.id p := hid ▸ (mem_filePaths_output hd).mp hp
    refine outputProgram_cleared h (fun hnew => ?_) rfl hcopy
    have hrange : fid < 2 ^ 128 := hfid
    have hlt := hids g hg
    have hnew' := (@mem_filePaths_output s c.task p
      ⟨fid, .output, fileName, "", content.length, .registered, some c.round⟩ rfl).mpr hnew
    exact hlt.ne (id_of_mem_filePaths (hlt.trans hrange) hrange hp hnew')

end Programs

end AgentCraft.Tasking
