import AgentCraft.Tasking.FileLimits

/-!
# The input freeze

Every upload and deletion locks its task and checks that the input is still open, in the transaction that
writes. So the commit of the input draws a line through every run: what was uploaded before it and not
deleted is committed, what comes after it fails, and the committed rows stay as they are for as long as
the task has rows.
-/

namespace AgentCraft.Tasking

open AgentCraft.Relational AgentCraft.Transition

/-- The input files that are committed. -/
def committedInputs (files : List TaskFile) : List TaskFile :=
  files.filter fun f => f.direction = .input && f.state = .committed

/-- A staged file once it is committed. -/
def TaskFile.commit (f : TaskFile) : TaskFile := { f with state := .committed }

/-- Each file of a task has an identifier of its own, one already issued. -/
structure FileIds (next : Uuid) (files : List TaskFile) : Prop where
  nodup : (files.map (·.id)).Nodup
  issued : ∀ f ∈ files, f.id < next

/-- What is known of the files of every task in every reachable state. -/
structure World.FilesKnown (nfc : String → String) (w : World) : Prop where
  coherent : w.Coherent
  sound : w.FilesSound nfc
  ids : ∀ tid t, w.db.tasks.get? tid = some t → FileIds w.db.nextId t.files

/-- The row of the task, if it still exists, satisfies `P`; its identifier has been issued. -/
def World.Keeps (tid : TaskId) (P : Task → Prop) (w : World) : Prop :=
  tid < w.db.nextId ∧ ∀ t, w.db.tasks.get? tid = some t → P t

/-- The input is closed, with the given files: nothing is staged any more. -/
structure InputClosed (inputs files : List TaskFile) : Prop where
  unstaged : ∀ f ∈ files, f.state ≠ .staged
  inputs : committedInputs files = inputs

/-- A staged file, or what its commit has made of it, is still there. -/
def HoldsInput (f : TaskFile) (files : List TaskFile) : Prop := f ∈ files ∨ f.commit ∈ files

/-- The file, if it is still there, is a tombstone. -/
def Buried (fid : FileId) (files : List TaskFile) : Prop := ∀ f ∈ files, f.id = fid → f.state = .deleted

/-- The action does not delete the file, or its transaction fails. -/
def SparesFile (cfg : Settings) (nfc : String → String) (tid : TaskId) (fid : FileId) (w : World)
    (a : Action) : Prop :=
  (system cfg nfc).Commits w a → ∀ owner, a ≠ .request (.deleteFile owner tid fid)

section Steps

variable {cfg : Settings} {nfc : String → String} {w w' : World} {a : Action} {tid : TaskId}
  {t t' : Task} {next next' : Uuid}

/-! ## Identifiers -/

theorem stagedRows_ids (uploads : List (String × FileContent)) :
    (stagedRows next uploads).map (·.id) = List.range' next uploads.length := by
  apply List.ext_getElem
  · simp [stagedRows]
  · intro i hi hi'
    simp [stagedRows]

theorem FileIds.of_map {files files' : List TaskFile} (h : FileIds next files) (hle : next ≤ next')
    (hids : files'.map (·.id) = files.map (·.id)) : FileIds next' files' := by
  refine ⟨hids ▸ h.nodup, fun f hf => ?_⟩
  have hmem : f.id ∈ files.map (·.id) := hids ▸ List.mem_map_of_mem hf
  obtain ⟨f₀, hf₀, heq⟩ := List.mem_map.mp hmem
  exact heq ▸ (h.issued f₀ hf₀).trans_le hle

/-- Rows under fresh identifiers may be added. -/
theorem FileIds.append {files new : List TaskFile} (h : FileIds next files) (n : ℕ)
    (hids : new.map (·.id) = List.range' next n) : FileIds (next + n) (files ++ new) := by
  have hnew : ∀ f ∈ new, next ≤ f.id ∧ f.id < next + n := by
    intro f hf
    have hmem : f.id ∈ new.map (·.id) := List.mem_map_of_mem hf
    rw [hids] at hmem
    simpa using List.mem_range'_1.mp hmem
  refine ⟨?_, fun f hf => ?_⟩
  · rw [List.map_append]
    refine List.Nodup.append h.nodup (hids ▸ List.nodup_range') ?_
    intro fid hfid hfid'
    obtain ⟨f, hf, rfl⟩ := List.mem_map.mp hfid
    obtain ⟨g, hg, heq⟩ := List.mem_map.mp hfid'
    have hlt : f.id < next := h.issued f hf
    have hge : next ≤ g.id := (hnew g hg).1
    exact absurd (heq ▸ hge) (Nat.not_le.mpr hlt)
  · rcases List.mem_append.mp hf with hf | hf
    · exact (h.issued f hf).trans_le (Nat.le_add_right _ _)
    · exact (hnew f hf).2

theorem FileIds.change {files : List TaskFile} (h : FileIds next t.files) (hle : next ≤ next')
    (hc : FileChange nfc next next' a tid t files) : FileIds next' files := by
  cases hc with
  | keep => exact h.of_map hle rfl
  | upload owner _ uploads _ hst hnames hlimits hissued =>
    rw [hissued]
    exact h.append uploads.length (stagedRows_ids uploads)
  | delete owner _ fid => exact h.of_map hle (map_updateWhere _ _ fun _ _ => rfl)
  | commit owner _ manifest => exact h.of_map hle (map_updateWhere _ _ fun _ _ => rfl)
  | output c fileName content _ t' refunded hrun hissued =>
    obtain ⟨old, -, -, hfiles⟩ := Task.registerOutput_files hrun
    rw [hfiles, hissued]
    have hretired := h.of_map le_rfl (map_updateWhere (·.id) (p := fun f =>
      old.any (·.id = f.id) && f.state = .registered)
      (f := fun f => { f with state := .deleted }) t.files fun _ _ => rfl)
    refine hretired.append 1 ?_
    rfl
  | cleanup c locked =>
    refine h.of_map hle ?_
    rw [List.map_map]
    rfl

/-! ## What is known of every reachable state -/

theorem Changes.nextId_le {expects : Expects} {db db' : Db} (hc : Changes expects db db') :
    db.nextId ≤ db'.nextId := by
  induction hc with
  | refl => exact le_rfl
  | tail _ hc ih => exact ih.trans hc.nextId_le

theorem step_nextId_le (hco : w.Coherent) (h : step cfg nfc w a = .ok w') :
    w.db.nextId ≤ w'.db.nextId := by
  rcases step_changes hco.db hco.jobs h with hc | ⟨u, ids, locked, -, -, hdb⟩
  · exact hc.nextId_le
  · rw [hdb, (terminateTasksHook_frame _ _ _).2]

theorem World.Initial.filesKnown (h : w.Initial) : w.FilesKnown nfc := by
  refine ⟨h.coherent, h.filesSound, fun tid t ht => ?_⟩
  rw [h.db.tasks] at ht
  cases ht

theorem World.FilesKnown.step (h : w.FilesKnown nfc) (hs : Tasking.step cfg nfc w a = .ok w') :
    w'.FilesKnown nfc := by
  have hle := step_nextId_le h.coherent hs
  refine ⟨h.coherent.step hs, h.sound.step hs, fun tid t' ht' => ?_⟩
  rcases step_files_row hs ht' with ⟨t, ht, hchange⟩ | ⟨-, hnil⟩
  · exact (h.ids tid t ht).change hle hchange
  · rw [hnil]
    exact ⟨List.nodup_nil, by simp⟩

theorem World.FilesKnown.run (h : w.FilesKnown nfc) (as : List Action) :
    ((system cfg nfc).run w as).FilesKnown nfc :=
  System.invariant_run (I := World.FilesKnown nfc) (fun _ _ _ h hs => h.step hs) as h

/-- What a step keeps of the row of a task, it keeps for good: identifiers are not issued twice. -/
theorem World.Keeps.step {P : Task → Prop} (hk : w.Keeps tid P) (hf : w.FilesKnown nfc)
    (hs : Tasking.step cfg nfc w a = .ok w')
    (hP : ∀ t t', w.db.tasks.get? tid = some t → w'.db.tasks.get? tid = some t' →
      FileChange nfc w.db.nextId w'.db.nextId a tid t t'.files → P t → P t') : w'.Keeps tid P := by
  refine ⟨hk.1.trans_le (step_nextId_le hf.coherent hs), fun t' ht' => ?_⟩
  rcases step_files_row hs ht' with ⟨t, ht, hchange⟩ | ⟨hnew, -⟩
  · exact hP t t' ht ht' hchange (hk.2 t ht)
  · exact absurd hk.1 (Nat.not_lt.mpr hnew)

theorem Lifts.ne_uploading {s s' : TaskStatus} (h : Lifts a tid s s') : s' ≠ .uploading := by
  cases h <;> exact nofun

/-- The input of a task is never opened again. -/
theorem step_not_uploading (h : step cfg nfc w a = .ok w') (ht : w.db.tasks.get? tid = some t)
    (ht' : w'.db.tasks.get? tid = some t') (hst : t.status ≠ .uploading) :
    t'.status ≠ .uploading := by
  have hrows (hrow : w.db.RowsFollow (Lifts a) w'.db) : t'.status ≠ .uploading := by
    obtain ⟨t₀, ht₀, hf⟩ := hrow tid t' ht'
    rw [ht] at ht₀
    cases ht₀
    rcases hf.status with heq | hterm | hlift
    · rwa [heq]
    · intro hup
      rw [hup] at hterm
      cases hterm
    · exact hlift.ne_uploading
  rcases step_follows h with hf | ⟨r, -, ⟨-, tid₀, t₀, hnew⟩ | ⟨-, hrow⟩⟩
  · exact hrows hf.rows
  · rcases hnew.row ht' with hold | ⟨rfl, -⟩
    · rw [ht] at hold
      cases hold
      exact hst
    · rw [hnew.fresh] at ht
      cases ht
  · exact hrows hrow

end Steps

/-! ## One change -/

section Changes

variable {nfc : String → String} {a : Action} {tid : TaskId} {t : Task} {next next' : Uuid}
  {files : List TaskFile}

theorem mem_updateWhere_of_not {α : Type*} {p : α → Bool} {g : α → α} {rows : List α} {x : α}
    (hx : x ∈ rows) (hp : p x = false) : x ∈ updateWhere p g rows :=
  mem_updateWhere.mpr ⟨x, hx, by rw [hp]; rfl⟩

theorem committedInputs_retire {p : TaskFile → Bool} (hp : ∀ f, p f = true → f.state = .registered)
    (files : List TaskFile) :
    committedInputs (updateWhere p (fun f => { f with state := .deleted }) files) =
      committedInputs files := by
  unfold committedInputs
  rw [filter_updateWhere _ fun f hf => by simp [hp f hf]]
  apply updateWhere_of_countP_eq_zero
  refine List.countP_eq_zero.mpr fun f hf hpf => ?_
  have hstate := hp f hpf
  simp [hstate] at hf

/-- Once the input is closed, no change of files reaches a committed input. -/
theorem InputClosed.change {inputs : List TaskFile} (h : InputClosed inputs t.files)
    (hsound : FilesSound nfc t.files) (hst : t.status ≠ .uploading)
    (hc : FileChange nfc next next' a tid t files) : InputClosed inputs files := by
  cases hc with
  | keep => exact h
  | upload _ _ _ _ hup => exact absurd hup hst
  | delete _ _ _ _ hup => exact absurd hup hst
  | commit _ _ _ _ hup => exact absurd hup hst
  | output c fileName content _ t' refunded hrun =>
    obtain ⟨old, -, -, hfiles⟩ := Task.registerOutput_files hrun
    rw [hfiles]
    refine ⟨fun f hf => ?_, ?_⟩
    · rcases List.mem_append.mp hf with hf | hf
      · exact forall_updateWhere (f := fun f => { f with state := .deleted }) h.unstaged
          (fun _ _ _ _ => nofun) f hf
      · rw [List.mem_singleton.mp hf]
        exact nofun
    · have hout : committedInputs [⟨next, .output, fileName, content.sha256, content.size,
          .registered, some c.round⟩] = [] := rfl
      unfold committedInputs at hout ⊢
      rw [List.filter_append, hout, List.append_nil]
      refine (committedInputs_retire (fun f hf => ?_) _).trans h.inputs
      simp only [Bool.and_eq_true, decide_eq_true_eq] at hf
      exact hf.2
  | cleanup c locked =>
    refine ⟨fun f hf => ?_, ?_⟩
    · obtain ⟨f₀, hf₀, rfl⟩ := List.mem_map.mp hf
      exact h.unstaged f₀ hf₀
    · unfold committedInputs
      rw [List.filter_map]
      refine Eq.trans ?_ h.inputs
      -- the reference that is cleared was never set on an input
      refine (List.map_congr_left fun f hf => ?_).trans (List.map_id _)
      obtain ⟨hmem, hin⟩ := List.mem_filter.mp hf
      simp only [Function.comp_apply, Bool.and_eq_true, decide_eq_true_eq] at hin
      have hnone := (hsound.inputs f hmem hin.1).2
      cases f
      cases hnone
      rfl

/-- A staged file stays until it is deleted, or is committed. -/
theorem HoldsInput.change {f : TaskFile} (h : HoldsInput f t.files) (hstaged : f.state = .staged)
    (hnone : f.producedInRoundId = none) (hspares : ∀ owner, a ≠ .request (.deleteFile owner tid f.id))
    (hc : FileChange nfc next next' a tid t files) : HoldsInput f files := by
  cases hc with
  | keep => exact h
  | upload _ _ uploads =>
    exact h.imp (List.mem_append_left _) (List.mem_append_left _)
  | delete owner _ fid =>
    have hne : f.id ≠ fid := fun heq => hspares owner (by rw [heq])
    refine h.imp (mem_updateWhere_of_not · ?_) (mem_updateWhere_of_not · ?_)
    · simp [TaskFile.isStaged, hne]
    · simp [TaskFile.isStaged, TaskFile.commit, hne]
  | commit _ _ manifest =>
    refine .inr ?_
    rcases h with h | h
    · exact mem_updateWhere.mpr ⟨f, h, if_pos (by simpa using hstaged)⟩
    · exact mem_updateWhere_of_not h rfl
  | output c fileName content _ t' refunded hrun =>
    obtain ⟨old, -, -, hfiles⟩ := Task.registerOutput_files hrun
    rw [hfiles]
    refine h.imp (fun h => List.mem_append_left _ (mem_updateWhere_of_not h ?_))
      fun h => List.mem_append_left _ (mem_updateWhere_of_not h ?_)
    · simp [hstaged]
    · simp [TaskFile.commit]
  | cleanup c locked =>
    refine h.imp (fun h => List.mem_map.mpr ⟨f, h, ?_⟩) fun h => List.mem_map.mpr ⟨f.commit, h, ?_⟩
    · cases f
      cases hnone
      rfl
    · cases f
      cases hnone
      rfl

/-- A tombstone stays one, and its identifier is not issued again. -/
theorem Buried.change {fid : FileId} (h : Buried fid t.files) (hissued : fid < next)
    (hc : FileChange nfc next next' a tid t files) : Buried fid files := by
  have hnew {f : TaskFile} {n : ℕ} (hf : f.id ∈ List.range' next n) : f.id ≠ fid := by
    exact Nat.ne_of_gt (hissued.trans_le (List.mem_range'_1.mp hf).1)
  cases hc with
  | keep => exact h
  | upload _ _ uploads =>
    intro f hf hid
    rcases List.mem_append.mp hf with hf | hf
    · exact h f hf hid
    · have hmem : f.id ∈ (stagedRows next uploads).map (·.id) := List.mem_map_of_mem hf
      rw [stagedRows_ids] at hmem
      exact absurd hid (hnew hmem)
  | delete => exact forall_updateWhere h fun _ _ _ _ _ => rfl
  | commit _ _ manifest =>
    refine forall_updateWhere h fun f _ hp hf hid => ?_
    -- what is staged is no tombstone
    have hdeleted := hf hid
    simp [hdeleted] at hp
  | output c fileName content _ t' refunded hrun =>
    obtain ⟨old, -, -, hfiles⟩ := Task.registerOutput_files hrun
    rw [hfiles]
    intro f hf hid
    rcases List.mem_append.mp hf with hf | hf
    · exact forall_updateWhere (f := fun f => { f with state := .deleted }) h
        (fun _ _ _ _ _ => rfl) f hf hid
    · rw [List.mem_singleton.mp hf] at hid
      exact absurd hid (Nat.ne_of_gt hissued)
  | cleanup c locked =>
    intro f hf hid
    obtain ⟨f₀, hf₀, rfl⟩ := List.mem_map.mp hf
    exact h f₀ hf₀ hid

end Changes

/-! ## Runs -/

section Runs

variable {cfg : Settings} {nfc : String → String} {w w' : World} {tid : TaskId}

/-- The commit of the input, seen at the row. -/
theorem commitInput_row {owner : UserId} {manifest : String}
    (h : step cfg nfc w (.request (.commitInput owner tid manifest)) = .ok w') :
    ∃ t t', w.db.tasks.get? tid = some t ∧ w'.db.tasks.get? tid = some t' ∧
      t'.status = .queued ∧ t'.files = t.commitFiles.files := by
  obtain ⟨db', hdb, h⟩ := bind_eq_ok.mp h
  cases h
  obtain ⟨⟨db₁, reply⟩, hrun, rfl⟩ := map_eq_ok.mp hdb
  obtain ⟨t, ht, hrun⟩ := bind_eq_ok.mp hrun
  obtain ⟨⟨⟩, -, hrun⟩ := bind_eq_ok.mp hrun
  obtain ⟨t', ht', hrun⟩ := bind_eq_ok.mp hrun
  obtain ⟨charged, hcharged, hrun⟩ := bind_eq_ok.mp hrun
  obtain ⟨rfl, -⟩ := Prod.mk.inj (Except.ok.inj hrun)
  have hfound := (Db.visibleTask_eq_some.mp (lockTask_eq_ok ht).1).1
  obtain ⟨-, -, -, -, ⟨mid, hc⟩, -⟩ := Task.eq_of_commitInput ht'
  refine ⟨t, t', hfound, ?_, congrArg Control.status hc, Task.commitInput_files ht'⟩
  change (charged.tasks.set tid t').get? tid = some t'
  rw [(Db.chargeStorage_frame hcharged).1]
  exact Table.get?_set_self hfound t'

/-- The commit closes the input. -/
theorem inputClosed_commitFiles (t : Task) :
    InputClosed (committedInputs t.commitFiles.files) t.commitFiles.files := by
  refine ⟨fun f hf => ?_, rfl⟩
  obtain ⟨f₀, -, rfl⟩ := mem_updateWhere.mp hf
  by_cases hs : f₀.state = .staged <;> simp [hs]

/-- A closed input stays as it is. -/
theorem inputClosed_run {inputs : List TaskFile} (hf : w.FilesKnown nfc)
    (hk : w.Keeps tid fun t => t.status ≠ .uploading ∧ InputClosed inputs t.files)
    (as : List Action) :
    ((system cfg nfc).run w as).Keeps tid
      fun t => t.status ≠ .uploading ∧ InputClosed inputs t.files := by
  have hrun := System.invariant_run (S := system cfg nfc) (s := w)
    (I := fun w => w.FilesKnown nfc ∧
      w.Keeps tid fun t => t.status ≠ .uploading ∧ InputClosed inputs t.files)
    (fun w a w' hw hs => ⟨hw.1.step hs, hw.2.step hw.1 hs fun t t' ht ht' hchange hP =>
      ⟨step_not_uploading hs ht ht' hP.1, hP.2.change (hw.1.sound tid t ht) hP.1 hchange⟩⟩)
    as ⟨hf, hk⟩
  exact hrun.2

/-- A file that is not deleted is still there. -/
theorem holdsInput_run {f : TaskFile} (hf : w.FilesKnown nfc)
    (hk : w.Keeps tid fun t => HoldsInput f t.files) (hstaged : f.state = .staged)
    (hnone : f.producedInRoundId = none) {as : List Action}
    (hG : (system cfg nfc).Guarded (SparesFile cfg nfc tid f.id) w as) :
    ((system cfg nfc).run w as).Keeps tid fun t => HoldsInput f t.files := by
  have hrun := System.invariant_run_of_guarded (S := system cfg nfc) (s := w)
    (I := fun w => w.FilesKnown nfc ∧ w.Keeps tid fun t => HoldsInput f t.files)
    (fun w a w' hw hG hs => ⟨hw.1.step hs, hw.2.step hw.1 hs fun t t' ht ht' hchange hP =>
      hP.change hstaged hnone (hG ⟨w', hs⟩) hchange⟩)
    ⟨hf, hk⟩ hG
  exact hrun.2

/-- A deleted file stays deleted. -/
theorem buried_run {fid : FileId} (hf : w.FilesKnown nfc)
    (hk : w.Keeps tid fun t => Buried fid t.files) (hfid : fid < w.db.nextId) (as : List Action) :
    ((system cfg nfc).run w as).Keeps tid fun t => Buried fid t.files := by
  have hrun := System.invariant_run (S := system cfg nfc) (s := w)
    (I := fun w => w.FilesKnown nfc ∧ fid < w.db.nextId ∧ w.Keeps tid fun t => Buried fid t.files)
    (fun w a w' hw hs => ⟨hw.1.step hs, hw.2.1.trans_le (step_nextId_le hw.1.coherent hs),
      hw.2.2.step hw.1 hs fun t t' ht ht' hchange hP => hP.change hw.2.1 hchange⟩)
    as ⟨hf, hfid, hk⟩
  exact hrun.2.2

/-- The task row has been issued, wherever it is found. -/
theorem World.FilesKnown.keeps {P : Task → Prop} {t : Task} (hf : w.FilesKnown nfc)
    (ht : w.db.tasks.get? tid = some t) (hP : P t) : w.Keeps tid P := by
  refine ⟨hf.coherent.db.issued tid t ht, fun t' ht' => ?_⟩
  rw [ht] at ht'
  cases ht'
  exact hP

theorem request_next {r : Request} {db : Db} (h : r.exec cfg nfc w.db = .ok db) :
    step cfg nfc w (.request r) = .ok { w with db := db } ∧
      (system cfg nfc).next w (.request r) = { w with db := db } := by
  have hstep : step cfg nfc w (.request r) = .ok { w with db := db } :=
    bind_eq_ok.mpr ⟨db, h, rfl⟩
  refine ⟨hstep, System.next_eq_of_step ?_⟩
  exact hstep

/-- After an upload its rows are there. -/
theorem uploadFiles_holds {owner : UserId} {uploads : List (String × FileContent)} {db : Db}
    {rows : List TaskFile} (hf : w.FilesKnown nfc)
    (h : uploadFiles nfc w.db owner tid uploads = .ok (db, rows)) {f : TaskFile} (hmem : f ∈ rows) :
    (f.direction = .input ∧ f.state = .staged ∧ f.producedInRoundId = none) ∧
      ((system cfg nfc).next w (.request (.uploadFiles owner tid uploads))).Keeps tid
        fun t => HoldsInput f t.files := by
  have hexec : (Request.uploadFiles owner tid uploads).exec cfg nfc w.db = .ok db :=
    map_eq_ok.mpr ⟨(db, rows), h, rfl⟩
  obtain ⟨hstep, hnext⟩ := request_next hexec
  have hf' : World.FilesKnown nfc { w with db := db } := hf.step hstep
  rw [hnext]
  obtain ⟨t, ht, h⟩ := bind_eq_ok.mp h
  obtain ⟨⟨⟩, -, h⟩ := bind_eq_ok.mp h
  obtain ⟨⟨⟩, -, h⟩ := bind_eq_ok.mp h
  obtain ⟨⟨⟩, -, h⟩ := bind_eq_ok.mp h
  obtain ⟨rfl, rfl⟩ := Prod.mk.inj (Except.ok.inj h)
  have hfound := (Db.visibleTask_eq_some.mp (lockUploadingTask_uploading ht).1).1
  obtain ⟨hd, hs, hn, -⟩ := mem_stagedRows hmem
  refine ⟨⟨hd, hs, hn⟩, hf'.keeps (Table.get?_set_self hfound _) (.inl ?_)⟩
  exact List.mem_append_right _ hmem

/-- After a deletion the file is a tombstone. -/
theorem deleteFile_buried {owner : UserId} {fid fid' : FileId} {db : Db} (hf : w.FilesKnown nfc)
    (h : deleteFile w.db owner tid fid = .ok (db, fid')) :
    fid < ((system cfg nfc).next w (.request (.deleteFile owner tid fid))).db.nextId ∧
      ((system cfg nfc).next w (.request (.deleteFile owner tid fid))).Keeps tid
        fun t => Buried fid t.files := by
  have hexec : (Request.deleteFile owner tid fid).exec cfg nfc w.db = .ok db :=
    map_eq_ok.mpr ⟨(db, fid'), h, rfl⟩
  obtain ⟨hstep, hnext⟩ := request_next hexec
  have hf' : World.FilesKnown nfc { w with db := db } := hf.step hstep
  rw [hnext]
  obtain ⟨t, ht, h⟩ := bind_eq_ok.mp h
  obtain ⟨hcount, h⟩ := ite_error_eq_ok.mp h
  obtain ⟨rfl, -⟩ := Prod.mk.inj (Except.ok.inj h)
  have hfound := (Db.visibleTask_eq_some.mp (lockUploadingTask_uploading ht).1).1
  have hids := hf.ids tid t hfound
  obtain ⟨f₀, hf₀, hstaged⟩ := List.countP_pos_iff.mp (Nat.pos_of_ne_zero hcount)
  simp only [Bool.and_eq_true, decide_eq_true_eq] at hstaged
  refine ⟨hstaged.1.1 ▸ hids.issued f₀ hf₀, hf'.keeps (Table.get?_set_self hfound _) ?_⟩
  intro f hmem hid
  obtain ⟨f₁, hf₁, rfl⟩ := mem_updateWhere.mp hmem
  have hid₁ : f₁.id = fid := by
    split at hid <;> exact hid
  -- identifiers are unique, so this is the row that was found
  have heq : f₁ = f₀ := List.inj_on_of_nodup_map hids.nodup hf₁ hf₀ (hid₁.trans hstaged.1.1.symm)
  rw [heq, if_pos (by simp [hstaged])]

/-- A closed input takes no upload. -/
theorem uploadFiles_error {db : Db} (h : ∀ t, db.tasks.get? tid = some t → t.status ≠ .uploading)
    (owner : UserId) (uploads : List (String × FileContent)) :
    ∃ e, uploadFiles nfc db owner tid uploads = .error e := by
  cases hrun : uploadFiles nfc db owner tid uploads with
  | error e => exact ⟨e, rfl⟩
  | ok r =>
    obtain ⟨t, ht, -⟩ := bind_eq_ok.mp hrun
    obtain ⟨hvis, hup⟩ := lockUploadingTask_uploading ht
    exact absurd hup (h t (Db.visibleTask_eq_some.mp hvis).1)

/-- A closed input takes no deletion. -/
theorem deleteFile_error {db : Db} (h : ∀ t, db.tasks.get? tid = some t → t.status ≠ .uploading)
    (owner : UserId) (fid : FileId) : ∃ e, deleteFile db owner tid fid = .error e := by
  cases hrun : deleteFile db owner tid fid with
  | error e => exact ⟨e, rfl⟩
  | ok r =>
    obtain ⟨t, ht, -⟩ := bind_eq_ok.mp hrun
    obtain ⟨hvis, hup⟩ := lockUploadingTask_uploading ht
    exact absurd hup (h t (Db.visibleTask_eq_some.mp hvis).1)

/-- The commit of an input, in any run. What was uploaded before and not deleted is committed, what was
deleted before is not; afterwards the committed files stay as they are in every state of every run, no
other input is alive, and every upload and deletion fails. -/
theorem committedInputs_frozen {w₀ w₁ : World} {pre : List Action} {owner : UserId}
    {manifest : String} (h₀ : w₀.Initial)
    (hcommit : step cfg nfc ((system cfg nfc).run w₀ pre)
      (.request (.commitInput owner tid manifest)) = .ok w₁) :
    ∃ t₁, w₁.db.tasks.get? tid = some t₁ ∧
      (∀ as bs u uploads db rows, pre = as ++ .request (.uploadFiles u tid uploads) :: bs →
        uploadFiles nfc ((system cfg nfc).run w₀ as).db u tid uploads = .ok (db, rows) →
        ∀ f ∈ rows, (system cfg nfc).Guarded (SparesFile cfg nfc tid f.id)
            ((system cfg nfc).run w₀ (as ++ [.request (.uploadFiles u tid uploads)])) bs →
          f.commit ∈ committedInputs t₁.files) ∧
      (∀ as bs u fid db fid', pre = as ++ .request (.deleteFile u tid fid) :: bs →
        deleteFile ((system cfg nfc).run w₀ as).db u tid fid = .ok (db, fid') →
        ∀ f ∈ committedInputs t₁.files, f.id ≠ fid) ∧
      ∀ post,
        (∀ t₂, ((system cfg nfc).run w₁ post).db.tasks.get? tid = some t₂ →
          committedInputs t₂.files = committedInputs t₁.files ∧
            ∀ f ∈ t₂.files, f.direction = .input → f.state = .committed ∨ f.state = .deleted) ∧
        (∀ u uploads, ∃ e,
          uploadFiles nfc ((system cfg nfc).run w₁ post).db u tid uploads = .error e) ∧
        ∀ u fid, ∃ e, deleteFile ((system cfg nfc).run w₁ post).db u tid fid = .error e := by
  have hknown (as : List Action) : ((system cfg nfc).run w₀ as).FilesKnown nfc :=
    h₀.filesKnown.run as
  have hf₁ : w₁.FilesKnown nfc := (hknown pre).step hcommit
  obtain ⟨t, t₁, ht, ht₁, hqueued, hfiles⟩ := commitInput_row hcommit
  refine ⟨t₁, ht₁, ?_, ?_, fun post => ?_⟩
  · intro as bs u uploads db rows hpre hrun f hmem hG
    subst hpre
    obtain ⟨⟨hd, hs, hn⟩, hkeeps⟩ := uploadFiles_holds (hknown as) hrun hmem
    have hsplit : (system cfg nfc).run w₀ (as ++ .request (.uploadFiles u tid uploads) :: bs) =
        (system cfg nfc).run ((system cfg nfc).run w₀
          (as ++ [.request (.uploadFiles u tid uploads)])) bs := by
      rw [← System.run_append, List.append_assoc]
      rfl
    rw [hsplit] at ht
    have hafter := holdsInput_run (hknown (as ++ [.request (.uploadFiles u tid uploads)]))
      (by rw [System.run_append]; exact hkeeps) hs hn hG
    rw [hfiles]
    refine List.mem_filter.mpr ⟨?_, by simp [TaskFile.commit, hd]⟩
    rcases hafter.2 t ht with hstaged | hcommitted
    · exact mem_updateWhere.mpr ⟨f, hstaged, if_pos (by simpa using hs)⟩
    · exact mem_updateWhere_of_not hcommitted rfl
  · intro as bs u fid db fid' hpre hrun f hmem hid
    subst hpre
    obtain ⟨hfid, hkeeps⟩ := deleteFile_buried (hknown as) hrun
    have hnext : ((system cfg nfc).next ((system cfg nfc).run w₀ as)
        (.request (.deleteFile u tid fid))).FilesKnown nfc := by
      have hk := hknown (as ++ [.request (.deleteFile u tid fid)])
      rwa [System.run_append] at hk
    rw [System.run_append] at ht
    have hafter : World.Keeps tid (fun t => Buried fid t.files) ((system cfg nfc).run _ bs) :=
      buried_run hnext hkeeps hfid bs
    have hburied := hafter.2 t ht
    rw [hfiles] at hmem
    obtain ⟨hf, hin⟩ := List.mem_filter.mp hmem
    obtain ⟨f₀, hf₀, rfl⟩ := mem_updateWhere.mp hf
    have hid₀ : f₀.id = fid := by
      split at hid <;> exact hid
    simp [hburied f₀ hf₀ hid₀] at hin
  · have hclosed : w₁.Keeps tid fun t => t.status ≠ .uploading ∧
        InputClosed (committedInputs t₁.files) t.files := by
      refine hf₁.keeps ht₁ ⟨by rw [hqueued]; exact nofun, ?_⟩
      rw [hfiles]
      exact inputClosed_commitFiles t
    have hafter : ((system cfg nfc).run w₁ post).Keeps tid fun t => t.status ≠ .uploading ∧
        InputClosed (committedInputs t₁.files) t.files := inputClosed_run hf₁ hclosed post
    have hsound : ((system cfg nfc).run w₁ post).FilesSound nfc := (hf₁.run post).sound
    have hopen : ∀ t, ((system cfg nfc).run w₁ post).db.tasks.get? tid = some t →
        t.status ≠ .uploading := fun t ht => (hafter.2 t ht).1
    refine ⟨fun t₂ ht₂ => ⟨(hafter.2 t₂ ht₂).2.inputs, fun f hf hd => ?_⟩, uploadFiles_error hopen,
      deleteFile_error hopen⟩
    have hunstaged := (hafter.2 t₂ ht₂).2.unstaged f hf
    have hunregistered := ((hsound tid t₂ ht₂).inputs f hf hd).1
    cases hstate : f.state <;> simp_all

/-- Task 10 gets the inputs `a` (12) and `b` (13), and `a` is deleted again. -/
def inputsRun : List Action :=
  [.request (.createTask 1 5 none "hi" []),
    .request (.uploadFiles 1 10 [("a", ⟨3, "h"⟩), ("b", ⟨4, "h"⟩)]), .request (.deleteFile 1 10 12)]

theorem committedInputs_frozen_inputsRun :
    ∃ w₁ t₁, step {} id ((system {} id).run World.small inputsRun)
        (.request (.commitInput 1 10 "manifest")) = .ok w₁ ∧
      w₁.db.tasks.get? 10 = some t₁ ∧
      (∀ f ∈ [(⟨13, .input, "b", "h", 4, .staged, none⟩ : TaskFile)],
        f.commit ∈ committedInputs t₁.files) ∧
      (∀ f ∈ committedInputs t₁.files, f.id ≠ 12) ∧
      ∀ post t₂, ((system {} id).run w₁ post).db.tasks.get? 10 = some t₂ →
        committedInputs t₂.files = committedInputs t₁.files := by
  have hok : (step {} id ((system {} id).run World.small inputsRun)
      (.request (.commitInput 1 10 "manifest"))).isOk = true := by decide +kernel
  cases hstep : step {} id ((system {} id).run World.small inputsRun)
      (.request (.commitInput 1 10 "manifest")) with
  | error e =>
    rw [hstep] at hok
    cases hok
  | ok w₁ =>
    obtain ⟨t₁, ht₁, huploaded, hdeleted, hfrozen⟩ :=
      committedInputs_frozen World.small_initial hstep
    refine ⟨w₁, t₁, rfl, ht₁, fun f hf => ?_, ?_, fun post t₂ ht₂ => ((hfrozen post).1 t₂ ht₂).1⟩
    · rw [List.mem_singleton.mp hf]
      refine huploaded [.request (.createTask 1 5 none "hi" [])] [.request (.deleteFile 1 10 12)] 1
        [("a", ⟨3, "h"⟩), ("b", ⟨4, "h"⟩)] _ _ rfl rfl _ (by decide +kernel) ⟨?_, trivial⟩
      intro _ owner heq
      cases heq
    · exact hdeleted [.request (.createTask 1 5 none "hi" []),
        .request (.uploadFiles 1 10 [("a", ⟨3, "h"⟩), ("b", ⟨4, "h"⟩)])] [] 1 12 _ _ rfl rfl

end Runs

end AgentCraft.Tasking
