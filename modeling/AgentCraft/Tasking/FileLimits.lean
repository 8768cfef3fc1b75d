import AgentCraft.Tasking.FileChanges

/-!
# File limits

Uploads and outputs recompute their limits from the live rows of the locked task, so the limits hold
jointly in every reachable state: the number of inputs, the size of a file, the bytes of inputs and
outputs together, and one live file for each direction and normalised name.
-/

namespace AgentCraft.Tasking

open AgentCraft.Relational AgentCraft.Transition

/-- The rows that are not tombstones. -/
def live (files : List TaskFile) : List TaskFile := files.filter (·.state ≠ .deleted)

/-- A file of the direction under the normalised name. -/
def TaskFile.named (nfc : String → String) (d : FileDirection) (name : String) (f : TaskFile) : Bool :=
  f.direction = d && nfc f.fileName = name

/-- The limits on the live files of a task. -/
structure WithinFileLimits (nfc : String → String) (files : List TaskFile) : Prop where
  inputs : files.countP (·.direction = .input) ≤ maxFilesPerTask
  single : ∀ f ∈ files, f.sizeBytes ≤ maxSingleFileBytes
  total : (files.map (·.sizeBytes)).sum ≤ maxTaskInputBytes
  names : ∀ d name, files.countP (·.named nfc d name) ≤ 1

/-- The rows that `read_input_bytes` asks for; more than one would be `MultipleResultsFound`. -/
def Task.inputsNamed (t : Task) (fileName : String) : List TaskFile :=
  t.files.filter fun f => f.direction = .input && f.fileName = fileName && f.state ≠ .deleted

/-- The files of a task within the limits, each in a state that its direction allows. -/
structure FilesSound (nfc : String → String) (files : List TaskFile) : Prop where
  limits : WithinFileLimits nfc (live files)
  inputs : ∀ f ∈ files, f.direction = .input → f.state ≠ .registered ∧ f.producedInRoundId = none
  outputs : ∀ f ∈ files, f.direction = .output → f.state = .registered ∨ f.state = .deleted

section Live

variable {nfc : String → String} {files : List TaskFile} {p : TaskFile → Bool}

theorem mem_live {f : TaskFile} : f ∈ live files ↔ f ∈ files ∧ f.state ≠ .deleted := by
  simp [live]

theorem live_cons (f : TaskFile) (files : List TaskFile) :
    live (f :: files) = if f.state = .deleted then live files else f :: live files := by
  by_cases hd : f.state = .deleted <;> simp [live, hd]

theorem live_append (fs gs : List TaskFile) : live (fs ++ gs) = live fs ++ live gs :=
  List.filter_append _ _

/-- Tombstones leave the live rows. -/
theorem live_tombstone (p : TaskFile → Bool) (files : List TaskFile) :
    live (updateWhere p (fun f => { f with state := .deleted }) files) =
      (live files).filter fun f => !p f := by
  induction files with
  | nil => rfl
  | cons f files ih =>
    by_cases hp : p f = true
    · by_cases hd : f.state = .deleted <;> simp [live_cons, hp, hd, ih]
    · by_cases hd : f.state = .deleted <;> simp [live_cons, hp, hd, ih]

/-- A rewriting that neither buries nor revives a row. -/
theorem live_map {g : TaskFile → TaskFile}
    (hg : ∀ f, (g f).state = .deleted ↔ f.state = .deleted) (files : List TaskFile) :
    live (files.map g) = (live files).map g := by
  unfold live
  rw [List.filter_map]
  congr 1
  apply List.filter_congr
  intro f _
  simp [hg f]

/-- Fewer files stay within the limits. -/
theorem WithinFileLimits.sublist {fs : List TaskFile} (h : WithinFileLimits nfc files)
    (hsub : fs.Sublist files) : WithinFileLimits nfc fs where
  inputs := hsub.countP_le.trans h.inputs
  single f hf := h.single f (hsub.subset hf)
  total := (List.Sublist.sum_le_sum (hsub.map _) fun _ _ => Nat.zero_le _).trans h.total
  names d name := hsub.countP_le.trans (h.names d name)

/-- Limits look at direction, name and size only. -/
theorem WithinFileLimits.map {g : TaskFile → TaskFile} (h : WithinFileLimits nfc files)
    (hdir : ∀ f, (g f).direction = f.direction) (hname : ∀ f, (g f).fileName = f.fileName)
    (hsize : ∀ f, (g f).sizeBytes = f.sizeBytes) : WithinFileLimits nfc (files.map g) where
  inputs := by
    simpa [List.countP_map, Function.comp_def, hdir] using h.inputs
  single := by
    intro f hf
    obtain ⟨f₀, hf₀, rfl⟩ := List.mem_map.mp hf
    rw [hsize]
    exact h.single f₀ hf₀
  total := by
    simpa [List.map_map, Function.comp_def, hsize] using h.total
  names d name := by
    simpa [List.countP_map, Function.comp_def, TaskFile.named, hdir, hname] using h.names d name

end Live

/-! ## One change -/

section Changes

variable {nfc : String → String} {t t' : Task} {uploads : List (String × FileContent)}

theorem live_stagedRows (fid : FileId) (uploads : List (String × FileContent)) :
    live (stagedRows fid uploads) = stagedRows fid uploads := by
  refine List.filter_eq_self.mpr fun f hf => ?_
  obtain ⟨i, hi, rfl⟩ := List.mem_mapIdx.mp hf
  rfl

/-- Names, sizes and directions of staged rows are those of the batch. -/
theorem stagedRows_map {β : Type*} (g : FileDirection → String → ℕ → β) (fid : FileId)
    (uploads : List (String × FileContent)) :
    (stagedRows fid uploads).map (fun f => g f.direction f.fileName f.sizeBytes) =
      uploads.map fun u => g .input u.1 u.2.size := by
  apply List.ext_getElem
  · simp [stagedRows]
  · intro i hi hi'
    simp [stagedRows]

theorem mem_stagedRows {fid : FileId} {f : TaskFile} (h : f ∈ stagedRows fid uploads) :
    f.direction = .input ∧ f.state = .staged ∧ f.producedInRoundId = none ∧
      ∃ u ∈ uploads, f.fileName = u.1 ∧ f.sha256 = u.2.sha256 ∧ f.sizeBytes = u.2.size := by
  obtain ⟨i, hi, rfl⟩ := List.mem_mapIdx.mp h
  exact ⟨rfl, rfl, rfl, uploads[i], List.getElem_mem hi, rfl, rfl, rfl⟩

/-- What `_assert_name_uniqueness` passes. -/
theorem assertNameUniqueness_eq_ok {files : List TaskFile} :
    assertNameUniqueness nfc files uploads = .ok () ↔
      (uploads.map fun u => nfc u.1).Nodup ∧
        ∀ f ∈ files, f.direction = .input → nfc f.fileName ∉ uploads.map fun u => nfc u.1 := by
  unfold assertNameUniqueness
  simp only
  split_ifs with hnd hany
  · simp only [List.any_eq_true, Bool.and_eq_true, decide_eq_true_eq] at hany
    obtain ⟨f, hf, hd, hn⟩ := hany
    simp only [false_iff, not_and]
    exact fun _ h => h f hf hd hn
  · simp only [List.any_eq_true, Bool.and_eq_true, decide_eq_true_eq] at hany
    simp only [true_iff]
    exact ⟨hnd, fun f hf hd hn => hany ⟨f, hf, hd, hn⟩⟩
  · simp [hnd]

/-- What `_assert_upload_limits` passes. -/
theorem assertUploadLimits_eq_ok {files : List TaskFile} :
    assertUploadLimits files uploads = .ok () ↔
      files.countP (·.direction = .input) + uploads.length ≤ maxFilesPerTask ∧
        (∀ u ∈ uploads, u.2.size ≤ maxSingleFileBytes) ∧
        (files.map (·.sizeBytes)).sum + (uploads.map (·.2.size)).sum ≤ maxTaskInputBytes := by
  unfold assertUploadLimits
  split_ifs with hcount hany htotal
  · simp [Nat.not_le.mpr hcount]
  · simp only [List.any_eq_true, decide_eq_true_eq] at hany
    obtain ⟨u, hu, hsize⟩ := hany
    simp only [false_iff, not_and]
    exact fun _ h => absurd (h u hu) (Nat.not_le.mpr hsize)
  · simp [Nat.not_le.mpr htotal]
  · simp only [List.any_eq_true, decide_eq_true_eq, not_exists, not_and, not_lt] at hany
    simp only [true_iff]
    exact ⟨Nat.not_lt.mp hcount, hany, Nat.not_lt.mp htotal⟩

/-- A batch that passes both checks fits beside the live files. -/
theorem WithinFileLimits.upload {files : List TaskFile} (h : WithinFileLimits nfc files)
    (hnames : assertNameUniqueness nfc files uploads = .ok ())
    (hlimits : assertUploadLimits files uploads = .ok ()) (fid : FileId) :
    WithinFileLimits nfc (files ++ stagedRows fid uploads) := by
  obtain ⟨hnodup, hfresh⟩ := assertNameUniqueness_eq_ok.mp hnames
  obtain ⟨hcount, hsize, htotal⟩ := assertUploadLimits_eq_ok.mp hlimits
  refine ⟨?_, ?_, ?_, fun d name => ?_⟩
  · have hle : (stagedRows fid uploads).countP (·.direction = .input) ≤ uploads.length := by
      simpa [stagedRows] using
        List.countP_le_length (p := fun f => f.direction = .input) (l := stagedRows fid uploads)
    rw [List.countP_append]
    omega
  · intro f hf
    rcases List.mem_append.mp hf with hf | hf
    · exact h.single f hf
    · obtain ⟨-, -, -, u, hu, -, -, hsz⟩ := mem_stagedRows hf
      rw [hsz]
      exact hsize u hu
  · rw [List.map_append, List.sum_append, stagedRows_map (fun _ _ n => n)]
    exact htotal
  · rw [List.countP_append]
    cases d with
    | output =>
      have hnone : (stagedRows fid uploads).countP (·.named nfc .output name) = 0 := by
        refine List.countP_eq_zero.mpr fun f hf => ?_
        simp [TaskFile.named, (mem_stagedRows hf).1]
      rw [hnone]
      exact h.names .output name
    | input =>
      have hbatch : (stagedRows fid uploads).countP (·.named nfc .input name) =
          (uploads.map fun u => nfc u.1).count name := by
        have hmap := stagedRows_map (fun d n _ => decide (d = .input && nfc n = name)) fid uploads
        have hcount := congrArg (List.countP (· = true)) hmap
        simpa [List.count, List.countP_map, Function.comp_def, TaskFile.named, beq_eq_decide]
          using hcount
      rw [hbatch]
      by_cases hmem : name ∈ uploads.map fun u => nfc u.1
      · have hnone : files.countP (·.named nfc .input name) = 0 := by
          refine List.countP_eq_zero.mpr fun f hf hnamed => ?_
          simp only [TaskFile.named, Bool.and_eq_true, decide_eq_true_eq] at hnamed
          exact hfresh f hf hnamed.1 (hnamed.2 ▸ hmem)
        rw [hnone, Nat.zero_add]
        exact List.nodup_iff_count_le_one.mp hnodup name
      · rw [List.count_eq_zero.mpr hmem]
        exact h.names .input name

/-- What `_assert_size_limits` passes. -/
theorem assertSizeLimits_eq_ok {size total : ℕ} :
    assertSizeLimits size total = .ok () ↔ size ≤ maxSingleFileBytes ∧
      total + size ≤ maxTaskInputBytes := by
  unfold assertSizeLimits
  split_ifs with hsingle htotal
  · simp [Nat.not_le.mpr hsingle]
  · simp [Nat.not_le.mpr htotal]
  · simp only [true_iff]
    exact ⟨Nat.not_lt.mp hsingle, Nat.not_lt.mp htotal⟩

/-- An output that passes the size check fits beside live files without its name. -/
theorem WithinFileLimits.append_output {files : List TaskFile} (h : WithinFileLimits nfc files)
    {f : TaskFile} (hd : f.direction = .output) (hsize : f.sizeBytes ≤ maxSingleFileBytes)
    (htotal : (files.map (·.sizeBytes)).sum + f.sizeBytes ≤ maxTaskInputBytes)
    (hname : files.countP (·.named nfc .output (nfc f.fileName)) = 0) :
    WithinFileLimits nfc (files ++ [f]) := by
  refine ⟨?_, ?_, ?_, fun d name => ?_⟩
  · simpa [List.countP_append, hd] using h.inputs
  · intro g hg
    rcases List.mem_append.mp hg with hg | hg
    · exact h.single g hg
    · rw [List.mem_singleton.mp hg]
      exact hsize
  · simpa using htotal
  · rw [List.countP_append, List.countP_singleton]
    by_cases hnamed : f.named nfc d name = true
    · simp only [TaskFile.named, Bool.and_eq_true, decide_eq_true_eq] at hnamed
      obtain ⟨rfl, rfl⟩ := hnamed
      rw [hd, hname]
      split <;> simp
    · rw [if_neg hnamed]
      exact h.names d name

/-- The files after an output is registered: the output it replaces, if any, becomes a tombstone, and
the sizes were checked without it. -/
theorem Task.registerOutput_files {fid : FileId} {fileName : String} {content : FileContent}
    {rid : RoundId} {epoch refunded : ℕ}
    (h : t.registerOutput nfc fid fileName content rid epoch = .ok (t', refunded)) :
    ∃ old : Option TaskFile, t.findOldOutputRow nfc fileName = old ∧
      assertSizeLimits content.size ((t.liveFiles.map (·.sizeBytes)).sum -
        (old.map (·.sizeBytes)).getD 0) = .ok () ∧
      t'.files = updateWhere (fun f => old.any (·.id = f.id) && f.state = .registered)
          (fun f => { f with state := .deleted }) t.files ++
        [⟨fid, .output, fileName, content.sha256, content.size, .registered, some rid⟩] := by
  have hinsert {t₁ t₂ : Task} (h : t₁.insertRegisteredRow fid fileName content rid = .ok t₂) :
      t₂.files = t₁.files ++
        [⟨fid, .output, fileName, content.sha256, content.size, .registered, some rid⟩] := by
    obtain rfl := eq_of_insertReservation h
    rfl
  unfold Task.registerOutput at h
  obtain ⟨⟨⟩, -, h⟩ := bind_eq_ok.mp h
  obtain ⟨⟨⟩, -, h⟩ := bind_eq_ok.mp h
  simp only at h
  split at h
  · next hold =>
    obtain ⟨⟨⟩, hsize, h⟩ := bind_eq_ok.mp h
    obtain ⟨t₁, ht₁, h⟩ := bind_eq_ok.mp h
    obtain ⟨rfl, -⟩ := Prod.mk.inj (Except.ok.inj h)
    refine ⟨none, hold, hsize, ?_⟩
    rw [hinsert ht₁]
    simp [updateWhere]
  · next old hold =>
    obtain ⟨⟨⟩, hsize, h⟩ := bind_eq_ok.mp h
    obtain ⟨⟨t₁, n⟩, ht₁, h⟩ := bind_eq_ok.mp h
    obtain ⟨t₂, ht₂, h⟩ := bind_eq_ok.mp h
    obtain ⟨rfl, -⟩ := Prod.mk.inj (Except.ok.inj h)
    obtain ⟨-, ht₁⟩ := ite_error_eq_ok.mp ht₁
    obtain ⟨rfl, -⟩ := Prod.mk.inj (Except.ok.inj ht₁)
    refine ⟨some old, hold, hsize, ?_⟩
    rw [hinsert ht₂]
    simp [eq_comm]

/-- Once the output of a name is retired, no live output has the name, and its bytes are free. -/
theorem FilesSound.retire {fileName : String} (h : FilesSound nfc t.files) {old : Option TaskFile}
    (hold : t.findOldOutputRow nfc fileName = old) :
    let kept := (live t.files).filter fun f => !(old.any (·.id = f.id) && f.state = .registered)
    kept.countP (·.named nfc .output (nfc fileName)) = 0 ∧
      (kept.map (·.sizeBytes)).sum + (old.map (·.sizeBytes)).getD 0 ≤
        ((live t.files).map (·.sizeBytes)).sum := by
  intro kept
  cases old with
  | none =>
    have hkept : kept = live t.files := by simp [kept]
    rw [hkept]
    refine ⟨List.countP_eq_zero.mpr fun f hf hnamed => ?_, by simp⟩
    exact List.find?_eq_none.mp hold f hf hnamed
  | some old =>
    have hmem : old ∈ live t.files := List.mem_of_find?_eq_some hold
    have hnamed : old.named nfc .output (nfc fileName) = true := List.find?_some hold
    have hdir : old.direction = .output := by
      simp only [TaskFile.named, Bool.and_eq_true, decide_eq_true_eq] at hnamed
      exact hnamed.1
    obtain ⟨hfiles, hlive⟩ := mem_live.mp hmem
    have hreg : old.state = .registered := (h.outputs old hfiles hdir).resolve_right hlive
    -- the old row is among those that the statement hits
    have hsplit : (kept ++ [old]).Subperm (live t.files) := by
      have hfilter := List.filter_append_perm
        (fun f : TaskFile => !((some old).any (·.id = f.id) && f.state = .registered)) (live t.files)
      refine ((List.subperm_append_left kept).mpr ?_).trans hfilter.subperm
      rw [List.singleton_subperm_iff, List.mem_filter]
      exact ⟨hmem, by simp [hreg]⟩
    refine ⟨?_, ?_⟩
    · have hle := (hsplit.countP_le (·.named nfc .output (nfc fileName))).trans
        (h.limits.names .output (nfc fileName))
      rw [List.countP_append, List.countP_singleton, if_pos hnamed] at hle
      omega
    · obtain ⟨l, hperm, hsub⟩ := hsplit
      have hle : (l.map (·.sizeBytes)).sum ≤ ((live t.files).map (·.sizeBytes)).sum :=
        List.Sublist.sum_le_sum (hsub.map _) fun _ _ => Nat.zero_le _
      have heq : (l.map (·.sizeBytes)).sum = ((kept ++ [old]).map (·.sizeBytes)).sum :=
        (hperm.map _).sum_eq
      rw [heq] at hle
      simpa using hle

end Changes

/-! ## Runs -/

section Runs

variable {cfg : Settings} {nfc : String → String} {w w' : World} {a : Action} {tid : TaskId} {t : Task}

theorem FilesSound.nil : FilesSound nfc [] := by
  refine ⟨⟨?_, ?_, ?_, ?_⟩, ?_, ?_⟩ <;> simp [live]

/-- Every change of files keeps them sound. -/
theorem FilesSound.change {next next' : Uuid} {files : List TaskFile} (h : FilesSound nfc t.files)
    (hc : FileChange nfc next next' a tid t files) : FilesSound nfc files := by
  cases hc with
  | keep => exact h
  | upload owner _ uploads _ hst hnames hlimits =>
    refine ⟨?_, fun f hf hd => ?_, fun f hf hd => ?_⟩
    · rw [live_append, live_stagedRows]
      exact h.limits.upload hnames hlimits next
    · rcases List.mem_append.mp hf with hf | hf
      · exact h.inputs f hf hd
      · obtain ⟨-, hstaged, hnone, -⟩ := mem_stagedRows hf
        simp [hstaged, hnone]
    · rcases List.mem_append.mp hf with hf | hf
      · exact h.outputs f hf hd
      · rw [(mem_stagedRows hf).1] at hd
        cases hd
  | delete owner _ fid =>
    refine ⟨?_, ?_, ?_⟩
    · rw [live_tombstone]
      exact h.limits.sublist List.filter_sublist
    · exact forall_updateWhere h.inputs fun _ _ _ hf hd => ⟨by simp, (hf hd).2⟩
    · exact forall_updateWhere h.outputs fun f _ _ _ _ => .inr rfl
  | commit owner _ manifest =>
    have hstate (f : TaskFile) : (if f.state = .staged then { f with state := .committed } else f :
        TaskFile).state = .deleted ↔ f.state = .deleted := by
      by_cases hs : f.state = .staged <;> simp [hs]
    refine ⟨?_, ?_, ?_⟩
    · have hlive := live_map hstate t.files
      simp only [Task.commitFiles, updateWhere, decide_eq_true_eq]
      rw [hlive]
      refine h.limits.map ?_ ?_ ?_
      all_goals
        intro f
        split <;> rfl
    · exact forall_updateWhere h.inputs fun _ _ _ hf hd => ⟨by simp, (hf hd).2⟩
    · refine forall_updateWhere h.outputs fun f hf hp ho hd => ?_
      -- an output is never staged
      rcases ho hd with hs | hs <;> simp [hs] at hp
  | output c fileName content _ t' refunded hrun =>
    obtain ⟨old, hold, hsize, hfiles⟩ := Task.registerOutput_files hrun
    obtain ⟨hsingle, htotal⟩ := assertSizeLimits_eq_ok.mp hsize
    obtain ⟨hname, hfreed⟩ := h.retire hold
    rw [hfiles]
    refine ⟨?_, fun f hf hd => ?_, fun f hf hd => ?_⟩
    · rw [live_append, live_tombstone]
      refine (h.limits.sublist List.filter_sublist).append_output rfl hsingle ?_ hname
      change (_ : ℕ) + content.size ≤ _
      change ((live t.files).map (·.sizeBytes)).sum - _ + _ ≤ _ at htotal
      omega
    · rcases List.mem_append.mp hf with hf | hf
      · exact forall_updateWhere (f := fun f => { f with state := .deleted }) h.inputs
          (fun _ _ _ hf hd => ⟨by simp, (hf hd).2⟩) f hf hd
      · rw [List.mem_singleton.mp hf] at hd
        cases hd
    · rcases List.mem_append.mp hf with hf | hf
      · exact forall_updateWhere h.outputs (fun f _ _ _ _ => .inr rfl) f hf hd
      · rw [List.mem_singleton.mp hf]
        exact .inl rfl
  | cleanup c locked =>
    refine ⟨?_, ?_, ?_⟩
    · rw [live_map (g := fun f => { f with producedInRoundId := none }) fun _ => Iff.rfl]
      exact h.limits.map (fun _ => rfl) (fun _ => rfl) fun _ => rfl
    · intro f hf hd
      obtain ⟨f₀, hf₀, rfl⟩ := List.mem_map.mp hf
      exact ⟨(h.inputs f₀ hf₀ hd).1, rfl⟩
    · intro f hf hd
      obtain ⟨f₀, hf₀, rfl⟩ := List.mem_map.mp hf
      exact h.outputs f₀ hf₀ hd

/-- Every task has sound files. -/
def World.FilesSound (nfc : String → String) (w : World) : Prop :=
  ∀ tid t, w.db.tasks.get? tid = some t → Tasking.FilesSound nfc t.files

theorem World.Initial.filesSound (h : w.Initial) : w.FilesSound nfc := by
  intro tid t ht
  rw [h.db.tasks] at ht
  cases ht

/-- A step keeps the files of every task sound. -/
theorem World.FilesSound.step (h : w.FilesSound nfc) (hs : Tasking.step cfg nfc w a = .ok w') :
    w'.FilesSound nfc := by
  intro tid t' ht'
  rcases step_files_row hs ht' with ⟨t, ht, hchange⟩ | ⟨-, hnil⟩
  · exact (h tid t ht).change hchange
  · rw [hnil]
    exact FilesSound.nil

theorem filesSound_of_reachable (h : (system cfg nfc).Reachable World.Initial w) :
    w.FilesSound nfc :=
  h.invariant (fun _ h₀ => h₀.filesSound) fun _ _ _ hw hs => hw.step hs

/-- Under any interleaving of uploads, deletions, outputs and everything else, the live files of every
task are within the limits, and a name finds at most one input. -/
theorem withinFileLimits_of_reachable (h : (system cfg nfc).Reachable World.Initial w)
    (tid : TaskId) (t : Task) (ht : w.db.tasks.get? tid = some t) :
    WithinFileLimits nfc t.liveFiles ∧ ∀ fileName, (t.inputsNamed fileName).length ≤ 1 := by
  have hlimits : WithinFileLimits nfc t.liveFiles := (filesSound_of_reachable h tid t ht).limits
  refine ⟨hlimits, fun fileName => ?_⟩
  refine le_trans ?_ (hlimits.names .input (nfc fileName))
  rw [Task.inputsNamed, ← List.countP_eq_length_filter, Task.liveFiles, List.countP_filter]
  apply List.countP_mono_left
  intro f _ hf
  simp only [Bool.and_eq_true, decide_eq_true_eq] at hf
  simp [TaskFile.named, hf]

/-- Task 10 gets an input, starts, and registers the output `report` twice, the second time under a
larger size. -/
def outputsRun : List Action :=
  [.request (.createTask 1 5 none "hi" []), .request (.uploadFiles 1 10 [("a", ⟨3, "h"⟩)]),
    .request (.commitInput 1 10 "manifest"), .scan (.dispatch 7), .perform (.dispatch 7 ⟨13, 10, 1⟩) [],
    .write (.output ⟨13, 10, 1, 7, 1⟩ "report" ⟨5, "h"⟩),
    .write (.output ⟨13, 10, 1, 7, 1⟩ "report" ⟨8, "h"⟩)]

theorem withinFileLimits_of_reachable_outputs :
    ∃ t, ((system {} id).run World.small outputsRun).db.tasks.get? 10 = some t ∧
      t.liveFiles.map (·.sizeBytes) = [3, 8] ∧
      WithinFileLimits id t.liveFiles ∧ ∀ fileName, (t.inputsNamed fileName).length ≤ 1 := by
  have hsizes : (((system {} id).run World.small outputsRun).db.tasks.get? 10).map
      (·.liveFiles.map (·.sizeBytes)) = some [3, 8] := by decide +kernel
  obtain ⟨t, ht, hlive⟩ := Option.map_eq_some_iff.mp hsizes
  exact ⟨t, ht, hlive,
    withinFileLimits_of_reachable ⟨World.small, outputsRun, World.small_initial, rfl⟩ 10 t ht⟩

end Runs

end AgentCraft.Tasking
