import AgentCraft.Python.Uuid
import Mathlib.Data.List.Infix

/-!
# Where the files of a task lie

`task_storage.py`, and the two readers of stored keys in `task_file_service.py` and `task_artifacts.py`.
A key is a string of the database; whatever it says, what is read from it lies in the tree of a task
(`pathsFromKey_confined`), different keys mean different files, and the key that is written for a file is
read as the path under which its bytes were written.
-/

namespace AgentCraft.Tasking

open AgentCraft.Python

/-- A `pathlib.Path`, as its components. -/
abbrev StoragePath := List String

/-- `path / name`: empty components and dots are left out, and an absolute name starts over. -/
def joinPath (path : StoragePath) (name : String) : StoragePath :=
  (if name.toList.head? = some '/' then ["/"] else path) ++
    ((name.toList.splitOn '/').map String.ofList).filter fun part => part ≠ "" ∧ part ≠ "."

/-- `TaskStorage`. -/
structure TaskStorage where
  root : StoragePath

namespace TaskStorage

variable (s : TaskStorage)

def stagingDir (batch : String) : StoragePath := joinPath (joinPath s.root "staging") batch

/-- `_task_file`. -/
def taskFile (taskId sub fileId : String) : StoragePath :=
  joinPath (joinPath (joinPath (joinPath s.root "tasks") taskId) sub) fileId

def inputPath (taskId fileId : String) : StoragePath := s.taskFile taskId "inputs" fileId

def outputPath (taskId fileId : String) : StoragePath := s.taskFile taskId "outputs" fileId

def artifactPath (taskId fileId : String) : StoragePath :=
  joinPath (joinPath (joinPath s.root "artifacts") taskId) fileId

/-- The trees that `delete_task_storage` removes. -/
def inTaskTrees (taskId : String) (p : StoragePath) : Bool :=
  ["tasks", "artifacts"].any fun sub => (joinPath (joinPath s.root sub) taskId).isPrefixOf p

end TaskStorage

/-- The `storage_key` of a file. -/
def storageKey (tid fid : ℕ) : String := "tasks/" ++ formatUuid tid ++ "/" ++ formatUuid fid

/-- The check of the two readers of keys: `tasks/<uuid>/<uuid>`. -/
def keyParts (ud : UnicodeData) (key : String) : Option (String × String) :=
  match key.toList.splitOn '/' with
  | [head, task, file] =>
    if String.ofList head = "tasks" ∧ (parseUuid ud (String.ofList task)).isSome ∧
        (parseUuid ud (String.ofList file)).isSome then
      some (String.ofList task, String.ofList file)
    else none
  | _ => none

/-- `_input_path_from_key`. -/
def inputPathFromKey (ud : UnicodeData) (s : TaskStorage) (key : String) : Option StoragePath :=
  (keyParts ud key).map fun parts => s.inputPath parts.1 parts.2

/-- `_output_paths_from_key`. -/
def outputPathsFromKey (ud : UnicodeData) (s : TaskStorage) (key : String) :
    Option (StoragePath × StoragePath) :=
  (keyParts ud key).map fun parts => (s.outputPath parts.1 parts.2, s.artifactPath parts.1 parts.2)

/-! ## Plain components -/

/-- A name that stands for one component, and not for a parent directory. -/
structure IsSegment (name : String) : Prop where
  slash : '/' ∉ name.toList
  empty : name ≠ ""
  dot : name ≠ "."
  dots : name ≠ ".."

theorem joinPath_segment (path : StoragePath) {name : String} (h : IsSegment name) :
    joinPath path name = path ++ [name] := by
  have hhead : ¬ name.toList.head? = some '/' := fun heq => h.slash (List.mem_of_head? heq)
  have hkeep : [name].filter (fun part => decide (part ≠ "" ∧ part ≠ ".")) = [name] := by
    simp [h.empty, h.dot]
  rw [joinPath, if_neg hhead, List.splitOn_eq_singleton h.slash, List.map_singleton, String.ofList_toList,
    hkeep]

/-- The pieces between separators have none. -/
theorem not_sep_of_mem_splitOnP {α : Type*} {sep : α → Bool} {xs piece : List α}
    (h : piece ∈ xs.splitOnP sep) : ∀ x ∈ piece, sep x = false := by
  induction xs generalizing piece with
  | nil =>
    rw [List.splitOnP_nil, List.mem_singleton] at h
    simp [h]
  | cons x xs ih =>
    rw [List.splitOnP_cons_eq_if_modifyHead] at h
    split at h
    · rcases List.mem_cons.mp h with rfl | h
      · simp
      · exact ih h
    · next hx =>
      obtain ⟨y, ys, hys⟩ := List.exists_cons_of_ne_nil (List.splitOnP_ne_nil sep xs)
      rw [hys] at h ih
      rcases List.mem_cons.mp h with rfl | h
      · intro z hz
        rcases List.mem_cons.mp hz with rfl | hz
        · simpa using hx
        · exact ih List.mem_cons_self z hz
      · exact ih (List.mem_cons_of_mem y h)

theorem length_removeAll_le (pattern : List Char) (skip : ℕ) (s : List Char) :
    (removeAll pattern skip s).length ≤ s.length := by
  induction s generalizing skip with
  | nil => cases skip <;> simp [removeAll]
  | cons c s ih =>
    cases skip with
    | succ skip => exact (ih skip).trans (Nat.le_succ _)
    | zero =>
      rw [removeAll]
      split
      · exact (ih _).trans (Nat.le_succ _)
      · exact Nat.succ_le_succ (ih 0)

theorem length_stripBraces_le (s : List Char) : (stripBraces s).length ≤ s.length :=
  (List.rdropWhile_prefix _ _).length_le.trans (List.dropWhile_suffix _).length_le

/-- What reads as a UUID has 32 characters at least. -/
theorem length_of_parseUuid {ud : UnicodeData} {s : String} (h : (parseUuid ud s).isSome) :
    32 ≤ s.toList.length := by
  have hdigits : (uuidDigits s.toList).length = 32 := by
    by_contra hne
    rw [parseUuid, if_pos hne] at h
    cases h
  calc 32 = (uuidDigits s.toList).length := hdigits.symm
    _ ≤ (stripBraces (removeAll "uuid:".toList 0 (removeAll "urn:".toList 0 s.toList))).length :=
      List.length_filter_le _ _
    _ ≤ (removeAll "uuid:".toList 0 (removeAll "urn:".toList 0 s.toList)).length :=
      length_stripBraces_le _
    _ ≤ (removeAll "urn:".toList 0 s.toList).length := length_removeAll_le _ _ _
    _ ≤ s.toList.length := length_removeAll_le _ _ _

theorem isSegment_of_parseUuid {ud : UnicodeData} {name : String} (hslash : '/' ∉ name.toList)
    (h : (parseUuid ud name).isSome) : IsSegment name := by
  have hlen := length_of_parseUuid h
  have hshort {t : String} (ht : t.toList.length < 32) : name ≠ t := by
    rintro rfl
    exact Nat.not_le.mpr ht hlen
  exact ⟨hslash, hshort (by decide), hshort (by decide), hshort (by decide)⟩

theorem isSegment_formatUuid (n : ℕ) : IsSegment (formatUuid n) := by
  refine @isSegment_of_parseUuid ⟨fun _ => false, fun _ => none⟩ _ ?_ ?_
  · rw [formatUuid, String.toList_ofList]
    intro h
    rcases mem_of_mem_hyphenate h with h | h
    · obtain ⟨d, hd, heq⟩ := isCanonicalDigit_of_mem_hexDigits h
      have hno : ∀ d < 16, '/' ≠ Nat.digitChar d := by decide
      exact hno d hd heq
    · exact absurd h (by decide)
  · rw [parseUuid_formatUuid]
    rfl

/-- Identifiers in range have spellings of their own. -/
theorem formatUuid_inj {n m : ℕ} (hn : n < 2 ^ 128) (hm : m < 2 ^ 128) (h : formatUuid n = formatUuid m) :
    n = m := by
  have hread := parseUuid_formatUuid ⟨fun _ => false, fun _ => none⟩ n
  rw [h, parseUuid_formatUuid, Nat.mod_eq_of_lt hn, Nat.mod_eq_of_lt hm] at hread
  exact (Option.some.inj hread).symm

/-! ## What keys stand for -/

theorem isSegment_tasks : IsSegment "tasks" := ⟨by decide, by decide, by decide, by decide⟩

theorem isSegment_artifacts : IsSegment "artifacts" := ⟨by decide, by decide, by decide, by decide⟩

section Paths

variable (s : TaskStorage) {task file : String}

theorem inputPath_segments (ht : IsSegment task) (hf : IsSegment file) :
    s.inputPath task file = s.root ++ ["tasks", task, "inputs", file] := by
  have hsub : IsSegment "inputs" := ⟨by decide, by decide, by decide, by decide⟩
  rw [TaskStorage.inputPath, TaskStorage.taskFile, joinPath_segment _ isSegment_tasks, joinPath_segment _ ht,
    joinPath_segment _ hsub, joinPath_segment _ hf]
  simp

theorem outputPath_segments (ht : IsSegment task) (hf : IsSegment file) :
    s.outputPath task file = s.root ++ ["tasks", task, "outputs", file] := by
  have hsub : IsSegment "outputs" := ⟨by decide, by decide, by decide, by decide⟩
  rw [TaskStorage.outputPath, TaskStorage.taskFile, joinPath_segment _ isSegment_tasks, joinPath_segment _ ht,
    joinPath_segment _ hsub, joinPath_segment _ hf]
  simp

theorem artifactPath_segments (ht : IsSegment task) (hf : IsSegment file) :
    s.artifactPath task file = s.root ++ ["artifacts", task, file] := by
  rw [TaskStorage.artifactPath, joinPath_segment _ isSegment_artifacts, joinPath_segment _ ht,
    joinPath_segment _ hf]
  simp

theorem inTaskTrees_iff (ht : IsSegment task) {p : StoragePath} : s.inTaskTrees task p = true ↔
    s.root ++ ["tasks", task] <+: p ∨ s.root ++ ["artifacts", task] <+: p := by
  simp [TaskStorage.inTaskTrees, joinPath_segment _ isSegment_tasks, joinPath_segment _ isSegment_artifacts,
    joinPath_segment _ ht]

end Paths

/-- The parts of a key are segments, and the key is made of them. -/
theorem keyParts_eq_some {ud : UnicodeData} {key : String} {parts : String × String}
    (h : keyParts ud key = some parts) :
    IsSegment parts.1 ∧ IsSegment parts.2 ∧ key = "tasks/" ++ parts.1 ++ "/" ++ parts.2 := by
  unfold keyParts at h
  split at h
  · next head task file hsplit =>
    split at h
    · next hc =>
      cases h
      obtain ⟨hhead, htask, hfile⟩ := hc
      have hslash {piece : List Char} (hmem : piece ∈ key.toList.splitOn '/') :
          '/' ∉ (String.ofList piece).toList := by
        intro hin
        rw [String.toList_ofList] at hin
        rw [List.splitOn_eq_splitOnP] at hmem
        exact absurd (not_sep_of_mem_splitOnP hmem '/' hin) (by decide)
      refine ⟨isSegment_of_parseUuid (hslash (by simp [hsplit])) htask,
        isSegment_of_parseUuid (hslash (by simp [hsplit])) hfile, ?_⟩
      have hjoin : key.toList = head ++ '/' :: (task ++ '/' :: file) := by
        have hkeyed : ['/'].intercalate (key.toList.splitOn '/') = key.toList := List.intercalate_splitOn '/'
        rw [← hkeyed, hsplit]
        simp
      have hkey : key = String.ofList head ++ "/" ++ String.ofList task ++ "/" ++ String.ofList file := by
        rw [← String.toList_inj, hjoin]
        simp
      rw [hkey, hhead]
      rfl
    · cases h
  · cases h

/-- The key that is written for a file is read as its two identifiers. -/
theorem keyParts_storageKey (ud : UnicodeData) (tid fid : ℕ) :
    keyParts ud (storageKey tid fid) = some (formatUuid tid, formatUuid fid) := by
  have hsome (n : ℕ) : (parseUuid ud (formatUuid n)).isSome := by
    rw [parseUuid_formatUuid]
    rfl
  have htext : (storageKey tid fid).toList =
      "tasks".toList ++ '/' :: ((formatUuid tid).toList ++ '/' :: (formatUuid fid).toList) := by
    simp [storageKey]
  have hsplit : (storageKey tid fid).toList.splitOn '/' =
      ["tasks".toList, (formatUuid tid).toList, (formatUuid fid).toList] := by
    rw [htext, List.splitOn_append_cons_self_of_not_mem isSegment_tasks.slash,
      List.splitOn_append_cons_self_of_not_mem (isSegment_formatUuid tid).slash,
      List.splitOn_eq_singleton (isSegment_formatUuid fid).slash]
  simp only [keyParts, hsplit, String.ofList_toList, hsome, and_self, if_true]

theorem inputPathFromKey_storageKey (ud : UnicodeData) (s : TaskStorage) (tid fid : ℕ) :
    inputPathFromKey ud s (storageKey tid fid) = some (s.inputPath (formatUuid tid) (formatUuid fid)) := by
  rw [inputPathFromKey, keyParts_storageKey]
  rfl

theorem outputPathsFromKey_storageKey (ud : UnicodeData) (s : TaskStorage) (tid fid : ℕ) :
    outputPathsFromKey ud s (storageKey tid fid) = some (s.outputPath (formatUuid tid) (formatUuid fid),
      s.artifactPath (formatUuid tid) (formatUuid fid)) := by
  rw [outputPathsFromKey, keyParts_storageKey]
  rfl

/-- Whatever a stored key says, it names no file, or an input, and an output with its copy, in the tree of a
task; different keys name different files; and the key of a file names the paths it was written to. -/
theorem pathsFromKey_confined (ud : UnicodeData) (s : TaskStorage) :
    (∀ key p, inputPathFromKey ud s key = some p → ∃ task file, IsSegment task ∧ IsSegment file ∧
      p = s.root ++ ["tasks", task, "inputs", file]) ∧
    (∀ key p q, outputPathsFromKey ud s key = some (p, q) → ∃ task file, IsSegment task ∧ IsSegment file ∧
      p = s.root ++ ["tasks", task, "outputs", file] ∧ q = s.root ++ ["artifacts", task, file]) ∧
    (∀ key key' p, inputPathFromKey ud s key = some p → inputPathFromKey ud s key' = some p → key = key') ∧
    (∀ key key' p q p' q', outputPathsFromKey ud s key = some (p, q) →
      outputPathsFromKey ud s key' = some (p', q') → p = p' ∨ q = q' → key = key') ∧
    ∀ tid fid, inputPathFromKey ud s (storageKey tid fid) =
        some (s.inputPath (formatUuid tid) (formatUuid fid)) ∧
      outputPathsFromKey ud s (storageKey tid fid) = some (s.outputPath (formatUuid tid) (formatUuid fid),
        s.artifactPath (formatUuid tid) (formatUuid fid)) := by
  refine ⟨?_, ?_, ?_, ?_, ?_⟩
  · intro key p h
    obtain ⟨parts, hparts, rfl⟩ := Option.map_eq_some_iff.mp h
    obtain ⟨ht, hf, -⟩ := keyParts_eq_some hparts
    exact ⟨_, _, ht, hf, inputPath_segments s ht hf⟩
  · intro key p q h
    obtain ⟨parts, hparts, heq⟩ := Option.map_eq_some_iff.mp h
    cases heq
    obtain ⟨ht, hf, -⟩ := keyParts_eq_some hparts
    exact ⟨_, _, ht, hf, outputPath_segments s ht hf, artifactPath_segments s ht hf⟩
  · intro key key' p h h'
    obtain ⟨parts, hparts, rfl⟩ := Option.map_eq_some_iff.mp h
    obtain ⟨parts', hparts', heq⟩ := Option.map_eq_some_iff.mp h'
    obtain ⟨ht, hf, hkey⟩ := keyParts_eq_some hparts
    obtain ⟨ht', hf', hkey'⟩ := keyParts_eq_some hparts'
    rw [inputPath_segments s ht hf, inputPath_segments s ht' hf'] at heq
    simp only [List.append_cancel_left_eq, List.cons.injEq, and_true, true_and] at heq
    rw [hkey, hkey', heq.1, heq.2]
  · intro key key' p q p' q' h h' hsame
    obtain ⟨parts, hparts, heq⟩ := Option.map_eq_some_iff.mp h
    obtain ⟨parts', hparts', heq'⟩ := Option.map_eq_some_iff.mp h'
    cases heq
    cases heq'
    obtain ⟨ht, hf, hkey⟩ := keyParts_eq_some hparts
    obtain ⟨ht', hf', hkey'⟩ := keyParts_eq_some hparts'
    rw [outputPath_segments s ht hf, outputPath_segments s ht' hf', artifactPath_segments s ht hf,
      artifactPath_segments s ht' hf'] at hsame
    simp only [List.append_cancel_left_eq, List.cons.injEq, and_true, true_and, or_self] at hsame
    rw [hkey, hkey', hsame.1, hsame.2]
  · intro tid fid
    exact ⟨inputPathFromKey_storageKey ud s tid fid, outputPathsFromKey_storageKey ud s tid fid⟩

end AgentCraft.Tasking
