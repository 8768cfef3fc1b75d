import AgentCraft.Streams.CommandLine
import Mathlib.Data.List.Lex
import Mathlib.Data.List.Sort
import Mathlib.Data.Nat.Notation

/-!
# The two forms of a container

A `ContainerSpec` is handed to docker either as a command line (`to_cli_config`) or as the body of an API
call (`to_api_kwargs`). Docker reads the two by different grammars: a mount of the command line is cut at
commas, one of the API at colons. `formsAgree_iff_of_regular` says which images and mount sources both can
hold.
-/

namespace AgentCraft.Engine.Containers

open AgentCraft.Streams

abbrev Text := List Char

/-- A mount: the path on the host, the path in the container, and the mode. -/
structure Mount where
  source : Text
  target : Text
  mode : Text
deriving DecidableEq

/-- `ContainerSpec`. The items of a dictionary stand in its order. -/
structure ContainerSpec where
  containerName : Text
  image : Text
  argv : List Text
  env : List (Text × Text)
  mounts : List Mount
  networkName : Text
  labels : List (Text × Text)
  workdir : Text := "/workspace".toList
  user : Text := "piworker".toList
  memoryBytes : ℕ := 512 * 1024 * 1024
  nanoCpus : ℕ := 1000000000
  tmpfs : List (Text × Text) := [
    ("/tmp".toList, "rw,size=64m,nosuid,nodev,noexec".toList),
    ("/home/piworker/.pi".toList, "rw,size=16m,nosuid,nodev,noexec".toList)]
deriving DecidableEq

/-! ## The command line -/

/-- `str` of an integer. -/
def intText (n : ℕ) : Text := Nat.toDigits 10 n

/-- `str(nano_cpus / 1_000_000_000)`, of less than a million CPUs and not less than a ten-thousandth. -/
def cpusText (nanoCpus : ℕ) : Text :=
  let fraction := ((Nat.toDigits 10 (1000000000 + nanoCpus % 1000000000)).tail.reverse.dropWhile (· = '0')).reverse
  intText (nanoCpus / 1000000000) ++ '.' :: (if fraction = [] then ['0'] else fraction)

/-- The order of `sorted(tmpfs.items())`; the targets are distinct. -/
def ItemLe (p q : Text × Text) : Prop := p.1.map Char.toNat ≤ q.1.map Char.toNat

instance : DecidableRel ItemLe := fun p q => inferInstanceAs (Decidable (p.1.map Char.toNat ≤ q.1.map Char.toNat))

/-- `f"{key}={value}"`. -/
def assignment (p : Text × Text) : Text := p.1 ++ '=' :: p.2

/-- The value of `--mount`. -/
def mountText (m : Mount) : Text :=
  "type=bind,src=".toList ++ m.source ++ ",target=".toList ++ m.target ++
    (if m.mode = "ro".toList then ",readonly".toList else [])

/-- What `to_cli_config` returns. -/
structure CliConfig where
  preArgs : List Text
  image : Text
  argv : List Text
deriving DecidableEq

namespace ContainerSpec

/-- `to_cli_config`. -/
def toCliConfig (s : ContainerSpec) : CliConfig where
  preArgs := [
      "run".toList, "--name".toList, s.containerName, "--rm".toList, "-i".toList, "--detach-keys".toList, [],
      "--user".toList, s.user, "--workdir".toList, s.workdir, "--network".toList, s.networkName,
      "--memory".toList, intText s.memoryBytes, "--cpus".toList, cpusText s.nanoCpus, "--read-only".toList,
      "--cap-drop".toList, "ALL".toList, "--security-opt".toList, "no-new-privileges".toList] ++
    (s.tmpfs.insertionSort ItemLe).map (fun p => "--tmpfs=".toList ++ p.1 ++ ':' :: p.2) ++
    s.labels.flatMap (fun p => ["--label".toList, assignment p]) ++
    s.env.flatMap (fun p => ["-e".toList, assignment p]) ++
    s.mounts.map (fun m => "--mount=".toList ++ mountText m)
  image := s.image
  argv := s.argv

/-- What `DockerCliTransport.start` passes to docker. -/
def commandLine (s : ContainerSpec) : List Text :=
  s.toCliConfig.preArgs ++ s.toCliConfig.image :: s.toCliConfig.argv

end ContainerSpec

/-! ## The API call -/

/-- `HostConfig`. -/
structure HostConfig where
  binds : List Text
  networkMode : Text
  memory : ℕ
  nanoCpus : ℕ
  readonlyRootfs : Bool
  capDrop : List Text
  securityOpt : List Text
  tmpfs : List (Text × Text)
  autoRemove : Bool
deriving DecidableEq

/-- What `to_api_kwargs` returns. -/
structure ApiKwargs where
  name : Text
  image : Text
  cmd : List Text
  env : List Text
  workingDir : Text
  user : Text
  labels : List (Text × Text)
  attachStdin : Bool
  attachStdout : Bool
  attachStderr : Bool
  openStdin : Bool
  stdinOnce : Bool
  tty : Bool
  hostConfig : HostConfig
deriving DecidableEq

/-- An entry of `Binds`. -/
def bindText (m : Mount) : Text := m.source ++ ':' :: m.target ++ ':' :: m.mode

/-- `to_api_kwargs`. -/
def ContainerSpec.toApiKwargs (s : ContainerSpec) : ApiKwargs where
  name := s.containerName
  image := s.image
  cmd := s.argv
  env := s.env.map assignment
  workingDir := s.workdir
  user := s.user
  labels := s.labels
  attachStdin := true
  attachStdout := true
  attachStderr := false
  openStdin := true
  stdinOnce := false
  tty := false
  hostConfig := {
    binds := s.mounts.map bindText
    networkMode := s.networkName
    memory := s.memoryBytes
    nanoCpus := s.nanoCpus
    readonlyRootfs := true
    capDrop := ["ALL".toList]
    securityOpt := ["no-new-privileges".toList]
    tmpfs := s.tmpfs
    autoRemove := false }

/-! ## What docker reads -/

/-- The options of `docker run` that are written. -/
inductive RunOption
  | name
  | rm
  | interactive
  | detachKeys
  | user
  | workdir
  | network
  | memory
  | cpus
  | readOnly
  | capDrop
  | securityOpt
  | tmpfs
  | label
  | env
  | mount
deriving DecidableEq

def RunOption.all : List RunOption := [
  .name, .rm, .interactive, .detachKeys, .user, .workdir, .network, .memory, .cpus, .readOnly, .capDrop,
  .securityOpt, .tmpfs, .label, .env, .mount]

def RunOption.text : RunOption → Text
  | .name => "--name".toList
  | .rm => "--rm".toList
  | .interactive => "-i".toList
  | .detachKeys => "--detach-keys".toList
  | .user => "--user".toList
  | .workdir => "--workdir".toList
  | .network => "--network".toList
  | .memory => "--memory".toList
  | .cpus => "--cpus".toList
  | .readOnly => "--read-only".toList
  | .capDrop => "--cap-drop".toList
  | .securityOpt => "--security-opt".toList
  | .tmpfs => "--tmpfs".toList
  | .label => "--label".toList
  | .env => "-e".toList
  | .mount => "--mount".toList

def RunOption.takesValue : RunOption → Bool
  | .rm | .interactive | .readOnly => false
  | _ => true

theorem RunOption.mem_all (o : RunOption) : o ∈ RunOption.all := by
  cases o <;> decide

theorem RunOption.text_injective : Function.Injective RunOption.text := by
  have hnodup : (RunOption.all.map RunOption.text).Nodup := by decide
  exact fun o o' h => List.inj_on_of_nodup_map hnodup o.mem_all o'.mem_all h

def runOptions : OptionTable RunOption where
  all := RunOption.all
  name := RunOption.text
  takesValue := RunOption.takesValue
  mem_all := RunOption.mem_all
  name_injective := RunOption.text_injective
  head_name o := by cases o <;> rfl
  one_lt_length_name o := by cases o <;> decide
  name_ne_terminator o := by cases o <;> decide
  not_mem_name o := by cases o <;> decide

/-- A bind mount. -/
structure Bind where
  source : Text
  target : Text
  readOnly : Bool
deriving DecidableEq

/-- A container as docker creates it. -/
structure Container where
  image : Text
  argv : List Text
  env : List (Text × Text)
  user : Text
  workdir : Text
  binds : List Bind
  network : Text
  memory : ℕ
  nanoCpus : ℕ
  readonlyRootfs : Bool
  capDrop : List Text
  securityOpt : List Text
  tmpfs : Text → Option Text
  labels : Text → Option Text

/-- The two sides of the first separator. -/
def cut (sep : Char) (s : Text) : Option (Text × Text) :=
  (s.dropWhile (· ≠ sep)).tail?.map fun v => (s.takeWhile (· ≠ sep), v)

/-- What a dictionary that is written in this order has at a key. -/
def lastItem (items : List (Text × Text)) (k : Text) : Option Text :=
  (items.reverse.find? (·.1 = k)).map Prod.snd

/-- A decimal number. -/
def readNumber (s : Text) : Option ℕ :=
  if s = [] ∨ ¬ s.all Char.isDigit then none else some (Nat.ofDigitChars 10 s 0)

/-- `--cpus`: a decimal fraction with at most nine digits behind the point. -/
def readCpus (s : Text) : Option ℕ :=
  let fraction := (s.dropWhile (· ≠ '.')).tail
  if 9 < fraction.length then none
  else readNumber (s.takeWhile (· ≠ '.') ++ fraction ++ List.replicate (9 - fraction.length) '0')

/-- The fields of `--mount` that have been read. -/
structure MountFields where
  type : Text := []
  source : Text := []
  target : Text := []
  readOnly : Bool := false
deriving DecidableEq

/-- One field of `--mount`. -/
def MountFields.read (m : MountFields) (field : Text) : Option MountFields :=
  match cut '=' field with
  | none => if field = "readonly".toList ∨ field = "ro".toList then some { m with readOnly := true } else none
  | some (k, v) =>
    if k = "type".toList then some { m with type := v }
    else if k = "source".toList ∨ k = "src".toList then some { m with source := v }
    else if k = "target".toList ∨ k = "destination".toList ∨ k = "dst".toList then some { m with target := v }
    else if k = "readonly".toList ∨ k = "ro".toList then
      if v = "true".toList ∨ v = "1".toList then some { m with readOnly := true }
      else if v = "false".toList ∨ v = "0".toList then some { m with readOnly := false }
      else none
    else none

/-- The value of `--mount`: one record of fields with commas between them. -/
def readMount (s : Text) : Option Bind :=
  ((s.splitOn ',').foldlM MountFields.read {}).bind fun m =>
    if m.type = "bind".toList then some ⟨m.source, m.target, m.readOnly⟩ else none

/-- An entry of `Binds`: a source, a target and a mode with colons between them. -/
def readBind (s : Text) : Option Bind :=
  match s.splitOn ':' with
  | [source, target] => some ⟨source, target, false⟩
  | [source, target, mode] =>
    if mode = "ro".toList then some ⟨source, target, true⟩
    else if mode = "rw".toList then some ⟨source, target, false⟩
    else none
  | _ => none

/-- The values of an option. -/
def valuesOf (o : RunOption) (options : List (RunOption × Text)) : List Text :=
  (options.filter (·.1 = o)).map Prod.snd

/-- The last value of an option that is given at most once. -/
def valueOf (o : RunOption) (options : List (RunOption × Text)) : Option Text := (valuesOf o options).getLast?

/-- The container of a command line. -/
def readCli : List Text → Option Container
  | [] => none
  | command :: args =>
    if command ≠ "run".toList then none
    else (runOptions.readArguments args).bind fun r =>
      r.2.head?.bind fun image =>
      ((valuesOf .env r.1).mapM (cut '=')).bind fun env =>
      ((valuesOf .label r.1).mapM (cut '=')).bind fun labels =>
      ((valuesOf .tmpfs r.1).mapM (cut ':')).bind fun tmpfs =>
      ((valuesOf .mount r.1).mapM readMount).bind fun binds =>
      (((valueOf .memory r.1).getD ['0']) |> readNumber).bind fun memory =>
      (((valueOf .cpus r.1).getD ['0']) |> readCpus).map fun nanoCpus =>
      { image := image
        argv := r.2.tail
        env := env
        user := (valueOf .user r.1).getD []
        workdir := (valueOf .workdir r.1).getD []
        binds := binds
        network := (valueOf .network r.1).getD "default".toList
        memory := memory
        nanoCpus := nanoCpus
        readonlyRootfs := r.1.any (·.1 = .readOnly)
        capDrop := valuesOf .capDrop r.1
        securityOpt := valuesOf .securityOpt r.1
        tmpfs := lastItem tmpfs
        labels := lastItem labels }

/-- The container of an API call. -/
def readApi (k : ApiKwargs) : Option Container :=
  (k.env.mapM (cut '=')).bind fun env =>
  (k.hostConfig.binds.mapM readBind).map fun binds =>
  { image := k.image
    argv := k.cmd
    env := env
    user := k.user
    workdir := k.workingDir
    binds := binds
    network := k.hostConfig.networkMode
    memory := k.hostConfig.memory
    nanoCpus := k.hostConfig.nanoCpus
    readonlyRootfs := k.hostConfig.readonlyRootfs
    capDrop := k.hostConfig.capDrop
    securityOpt := k.hostConfig.securityOpt
    tmpfs := lastItem k.hostConfig.tmpfs
    labels := lastItem k.labels }

/-- Both forms denote one container. -/
def FormsAgree (s : ContainerSpec) : Prop :=
  ∃ c, readCli s.commandLine = some c ∧ readApi s.toApiKwargs = some c

/-! ## Reading the command line -/

namespace ContainerSpec

/-- The options that are written once. -/
def singleOptions (s : ContainerSpec) : List (Written RunOption) := [
  .spaced .name s.containerName, .flag .rm, .flag .interactive, .spaced .detachKeys [], .spaced .user s.user,
  .spaced .workdir s.workdir, .spaced .network s.networkName, .spaced .memory (intText s.memoryBytes),
  .spaced .cpus (cpusText s.nanoCpus), .flag .readOnly, .spaced .capDrop "ALL".toList,
  .spaced .securityOpt "no-new-privileges".toList]

/-- The text of a writable directory. -/
def tmpfsTexts (s : ContainerSpec) : List Text := (s.tmpfs.insertionSort ItemLe).map fun p => p.1 ++ ':' :: p.2

/-- The options as they are written. -/
def written (s : ContainerSpec) : List (Written RunOption) :=
  s.singleOptions ++ s.tmpfsTexts.map (.joined .tmpfs) ++ (s.labels.map assignment).map (.spaced .label) ++
    (s.env.map assignment).map (.spaced .env) ++ (s.mounts.map mountText).map (.joined .mount)

theorem commandLine_eq (s : ContainerSpec) :
    s.commandLine = "run".toList :: (s.written.flatMap runOptions.arguments ++ s.image :: s.argv) := by
  rw [commandLine, toCliConfig, written, tmpfsTexts]
  simp only [List.flatMap_append, List.flatMap_map, List.map_map]
  simp only [List.map_eq_flatMap, List.append_assoc]
  rfl

theorem fits_written (s : ContainerSpec) : ∀ w ∈ s.written, runOptions.Fits w := by
  have hsingle : ∀ w ∈ s.singleOptions, runOptions.Fits w := by
    simp [singleOptions, OptionTable.Fits, runOptions, RunOption.takesValue]
  intro w hw
  simp only [written, List.mem_append, List.mem_map] at hw
  rcases hw with (((hw | ⟨v, -, rfl⟩) | ⟨v, -, rfl⟩) | ⟨v, -, rfl⟩) | ⟨v, -, rfl⟩
  · exact hsingle w hw
  · trivial
  · rfl
  · rfl
  · trivial

/-- The options as they are read. -/
def entries (s : ContainerSpec) : List (RunOption × Text) := s.written.map Written.entry

theorem readArguments_commandLine (s : ContainerSpec) (rest : List Text) :
    runOptions.readArguments (s.written.flatMap runOptions.arguments ++ rest) =
      (runOptions.readArguments rest).map fun r => (s.entries ++ r.1, r.2) :=
  runOptions.readArguments_written s.fits_written rest

end ContainerSpec

theorem valuesOf_append (o : RunOption) (l l' : List (RunOption × Text)) :
    valuesOf o (l ++ l') = valuesOf o l ++ valuesOf o l' := by
  rw [valuesOf, List.filter_append, List.map_append]
  rfl

theorem valuesOf_family (o o' : RunOption) (f : Text → Written RunOption) (hf : ∀ v, (f v).entry = (o', v))
    (l : List Text) : valuesOf o ((l.map f).map Written.entry) = if o' = o then l else [] := by
  induction l with
  | nil => split <;> rfl
  | cons v l ih =>
    rw [List.map_cons, List.map_cons, hf, valuesOf, List.filter_cons]
    by_cases ho : o' = o
    · rw [if_pos (decide_eq_true ho), List.map_cons, if_pos ho]
      rw [if_pos ho] at ih
      exact congrArg (v :: ·) ih
    · rw [if_neg (by simpa using ho), if_neg ho]
      rw [if_neg ho] at ih
      exact ih

/-- The values of an option. -/
theorem ContainerSpec.valuesOf_entries (s : ContainerSpec) (o : RunOption) :
    valuesOf o s.entries = valuesOf o (s.singleOptions.map Written.entry) ++
      (if RunOption.tmpfs = o then s.tmpfsTexts else []) ++
      (if RunOption.label = o then s.labels.map assignment else []) ++
      (if RunOption.env = o then s.env.map assignment else []) ++
      (if RunOption.mount = o then s.mounts.map mountText else []) := by
  simp only [entries, written, List.map_append, valuesOf_append]
  rw [valuesOf_family o .tmpfs _ fun _ => rfl, valuesOf_family o .label _ fun _ => rfl,
    valuesOf_family o .env _ fun _ => rfl, valuesOf_family o .mount _ fun _ => rfl]

theorem cut_append {sep : Char} {a : Text} (h : sep ∉ a) (b : Text) : cut sep (a ++ sep :: b) = some (a, b) := by
  have ha : ∀ c ∈ a, decide (c ≠ sep) = true := fun c hc => decide_eq_true fun heq => h (heq ▸ hc)
  rw [cut, List.dropWhile_append_of_pos ha, List.takeWhile_append_of_pos ha, List.dropWhile_cons_of_neg (by simp),
    List.takeWhile_cons_of_neg (by simp), List.append_nil]
  rfl

/-- Items whose keys lack the separator are read back. -/
theorem mapM_cut {sep : Char} {l : List (Text × Text)} (h : ∀ p ∈ l, sep ∉ p.1) :
    (l.map fun p => p.1 ++ sep :: p.2).mapM (cut sep) = some l := by
  induction l with
  | nil => rfl
  | cons p l ih =>
    rw [List.map_cons, List.mapM_cons, cut_append (h p List.mem_cons_self),
      ih fun q hq => h q (List.mem_cons_of_mem _ hq)]
    rfl

theorem exists_cut {sep : Char} {s : Text} (h : sep ∈ s) : ∃ p, cut sep s = some p := by
  obtain ⟨a, b, rfl, ha⟩ := List.eq_append_cons_of_mem h
  exact ⟨(a, b), cut_append ha b⟩

theorem lastItem_eq_some_iff {l : List (Text × Text)} (h : (l.map Prod.fst).Nodup) {k v : Text} :
    lastItem l k = some v ↔ (k, v) ∈ l := by
  rw [lastItem, Option.map_eq_some_iff]
  constructor
  · rintro ⟨⟨k', v'⟩, hfind, rfl⟩
    obtain rfl : k' = k := of_decide_eq_true (List.find?_some (p := fun p : Text × Text => p.1 = k) hfind)
    exact List.mem_reverse.mp (List.mem_of_find?_eq_some hfind)
  · intro hmem
    cases hfind : l.reverse.find? (·.1 = k) with
    | none => exact absurd (decide_eq_true rfl) (List.find?_eq_none.mp hfind _ (List.mem_reverse.mpr hmem))
    | some p =>
      have hkey : p.1 = k := of_decide_eq_true (List.find?_some (p := fun p : Text × Text => p.1 = k) hfind)
      have hp := List.mem_reverse.mp (List.mem_of_find?_eq_some hfind)
      exact ⟨p, rfl, congrArg Prod.snd (List.inj_on_of_nodup_map h hp hmem hkey)⟩

/-- The order of distinct keys does not matter. -/
theorem lastItem_perm {l l' : List (Text × Text)} (h : (l.map Prod.fst).Nodup) (hperm : l.Perm l') :
    lastItem l = lastItem l' := by
  funext k
  have h' : (l'.map Prod.fst).Nodup := (hperm.map Prod.fst).nodup_iff.mp h
  exact Option.ext fun v => by
    rw [lastItem_eq_some_iff h, lastItem_eq_some_iff h', hperm.mem_iff]

theorem readNumber_intText (n : ℕ) : readNumber (intText n) = some n := by
  have hdigits : (intText n).all Char.isDigit = true :=
    List.all_eq_true.mpr fun _ hc => Nat.isDigit_of_mem_toDigits (by decide) (by decide) hc
  rw [readNumber, if_neg, intText, Nat.ofDigitChars_ten_toDigits]
  rintro (hnil | hnot)
  · exact Nat.toDigits_ne_nil hnil
  · exact hnot hdigits

/-! ## Specifications both forms can hold -/

/-- A target and a mode that both grammars can hold. -/
structure Mount.Regular (m : Mount) : Prop where
  comma : ',' ∉ m.target
  colon : ':' ∉ m.target
  mode : m.mode = "ro".toList ∨ m.mode = "rw".toList

/-- What is fixed by the code lets itself be written in both forms. -/
structure ContainerSpec.Regular (s : ContainerSpec) : Prop where
  labels : ∀ p ∈ s.labels, '=' ∉ p.1
  tmpfs : ∀ p ∈ s.tmpfs, ':' ∉ p.1
  tmpfs_nodup : (s.tmpfs.map Prod.fst).Nodup
  nanoCpus : readCpus (cpusText s.nanoCpus) = some s.nanoCpus
  mounts : ∀ m ∈ s.mounts, m.Regular

/-- The container that is meant, with this environment and these mounts. -/
def ContainerSpec.container (s : ContainerSpec) (env : List (Text × Text)) (binds : List Bind) : Container where
  image := s.image
  argv := s.argv
  env := env
  user := s.user
  workdir := s.workdir
  binds := binds
  network := s.networkName
  memory := s.memoryBytes
  nanoCpus := s.nanoCpus
  readonlyRootfs := true
  capDrop := ["ALL".toList]
  securityOpt := ["no-new-privileges".toList]
  tmpfs := lastItem s.tmpfs
  labels := lastItem s.labels

variable {s : ContainerSpec}

theorem readApi_toApiKwargs (s : ContainerSpec) :
    readApi s.toApiKwargs = ((s.env.map assignment).mapM (cut '=')).bind fun env =>
      ((s.mounts.map bindText).mapM readBind).map fun binds => s.container env binds := rfl

theorem readCli_commandLine (h : s.Regular) (himage : isPositional s.image = true) :
    readCli s.commandLine = ((s.env.map assignment).mapM (cut '=')).bind fun env =>
      ((s.mounts.map mountText).mapM readMount).map fun binds => s.container env binds := by
  have henv : valuesOf .env s.entries = s.env.map assignment := by
    rw [s.valuesOf_entries]
    simp [valuesOf, ContainerSpec.singleOptions, Written.entry]
  have hlabels : (valuesOf .label s.entries).mapM (cut '=') = some s.labels := by
    have hvalues : valuesOf .label s.entries = s.labels.map assignment := by
      rw [s.valuesOf_entries]
      simp [valuesOf, ContainerSpec.singleOptions, Written.entry]
    rw [hvalues]
    exact mapM_cut h.labels
  have htmpfs : (valuesOf .tmpfs s.entries).mapM (cut ':') = some (s.tmpfs.insertionSort ItemLe) := by
    have hvalues : valuesOf .tmpfs s.entries = s.tmpfsTexts := by
      rw [s.valuesOf_entries]
      simp [valuesOf, ContainerSpec.singleOptions, Written.entry]
    rw [hvalues]
    exact mapM_cut fun p hp => h.tmpfs p ((List.mem_insertionSort ItemLe).mp hp)
  have hmounts : valuesOf .mount s.entries = s.mounts.map mountText := by
    rw [s.valuesOf_entries]
    simp [valuesOf, ContainerSpec.singleOptions, Written.entry]
  have hsingle : valueOf .user s.entries = some s.user ∧ valueOf .workdir s.entries = some s.workdir ∧
      valueOf .network s.entries = some s.networkName ∧
      valueOf .memory s.entries = some (intText s.memoryBytes) ∧
      valueOf .cpus s.entries = some (cpusText s.nanoCpus) ∧
      valuesOf .capDrop s.entries = ["ALL".toList] ∧
      valuesOf .securityOpt s.entries = ["no-new-privileges".toList] := by
    simp only [valueOf, s.valuesOf_entries]
    simp [valuesOf, ContainerSpec.singleOptions, Written.entry]
  obtain ⟨huser, hworkdir, hnetwork, hmemory, hcpus, hcapDrop, hsecurityOpt⟩ := hsingle
  have hreadOnly : s.entries.any (·.1 = .readOnly) = true := by
    rw [ContainerSpec.entries, ContainerSpec.written]
    simp [ContainerSpec.singleOptions, Written.entry]
  have hkeep : lastItem (s.tmpfs.insertionSort ItemLe) = lastItem s.tmpfs :=
    (lastItem_perm h.tmpfs_nodup (List.perm_insertionSort ItemLe s.tmpfs).symm).symm
  rw [s.commandLine_eq, readCli, if_neg (by simp), s.readArguments_commandLine,
    runOptions.readArguments_positional himage, Option.map_some, Option.bind_some]
  simp only [List.append_nil, List.head?_cons, List.tail_cons, Option.bind_some, henv, hlabels, htmpfs, hmounts,
    huser, hworkdir, hnetwork, hmemory, hcpus, hcapDrop, hsecurityOpt, hreadOnly, Option.getD_some,
    readNumber_intText, h.nanoCpus, Option.map_some, hkeep]
  simp only [Option.map_eq_bind]
  rfl

/-! ## Mounts -/

section Mounts

variable {m : Mount}

/-- No piece has the separator. -/
theorem not_mem_of_mem_splitOn {sep : Char} {s x : Text} (h : x ∈ s.splitOn sep) : sep ∉ x := by
  induction s generalizing x with
  | nil =>
    rw [List.splitOn_nil, List.mem_singleton] at h
    rw [h]
    exact List.not_mem_nil
  | cons c s ih =>
    rw [List.splitOn_cons_eq_if_modifyHead] at h
    split at h
    · rcases List.mem_cons.mp h with rfl | h
      · exact List.not_mem_nil
      · exact ih h
    · next hc =>
      obtain ⟨y, ys, hys⟩ := List.exists_cons_of_ne_nil (List.splitOn_ne_nil sep s)
      rw [hys] at h ih
      rcases List.mem_cons.mp h with rfl | h
      · intro hmem
        rcases List.mem_cons.mp hmem with rfl | hmem
        · exact hc (beq_self_eq_true _)
        · exact ih List.mem_cons_self hmem
      · exact ih (List.mem_cons_of_mem y h)

theorem snd_subset_of_cut {sep : Char} {s : Text} {p : Text × Text} (h : cut sep s = some p) : p.2 ⊆ s := by
  obtain ⟨v, hv, rfl⟩ := Option.map_eq_some_iff.mp h
  have hsuffix := List.dropWhile_suffix (l := s) fun c => decide (c ≠ sep)
  cases hdrop : s.dropWhile (fun c => decide (c ≠ sep)) with
  | nil =>
    rw [hdrop] at hv
    cases hv
  | cons c t =>
    rw [hdrop] at hv hsuffix
    obtain rfl := Option.some.inj hv
    exact fun d hd => hsuffix.subset (List.mem_cons_of_mem c hd)

/-- A field without comma sets no source with one. -/
theorem source_of_read {f f' : MountFields} {field : Text} (hf : ',' ∉ f.source) (hfield : ',' ∉ field)
    (h : f.read field = some f') : ',' ∉ f'.source := by
  rw [MountFields.read] at h
  split at h
  · split at h
    · cases h
      exact hf
    · cases h
  · next k v hcut =>
    have hv : ',' ∉ v := fun hmem => hfield (snd_subset_of_cut hcut hmem)
    split at h
    · cases h
      exact hf
    · split at h
      · cases h
        exact hv
      · split at h
        · cases h
          exact hf
        · split at h
          · split at h
            · cases h
              exact hf
            · split at h
              · cases h
                exact hf
              · cases h
          · cases h

theorem source_of_foldlM {f f' : MountFields} {fields : List Text} (hf : ',' ∉ f.source)
    (hfields : ∀ field ∈ fields, ',' ∉ field) (h : fields.foldlM MountFields.read f = some f') :
    ',' ∉ f'.source := by
  induction fields generalizing f with
  | nil =>
    cases h
    exact hf
  | cons field fields ih =>
    rw [List.foldlM_cons] at h
    obtain ⟨g, hg, h⟩ := Option.bind_eq_some_iff.mp h
    exact ih (source_of_read hf (hfields field List.mem_cons_self) hg)
      (fun x hx => hfields x (List.mem_cons_of_mem _ hx)) h

/-- A source that is read from the command line has no comma. -/
theorem source_of_readMount {s : Text} {b : Bind} (h : readMount s = some b) : ',' ∉ b.source := by
  obtain ⟨f, hf, h⟩ := Option.bind_eq_some_iff.mp h
  split at h
  · cases h
    exact source_of_foldlM List.not_mem_nil (fun _ => not_mem_of_mem_splitOn) hf
  · cases h

/-- The bind mount that is meant. -/
def Mount.bind (m : Mount) : Bind := ⟨m.source, m.target, m.mode = "ro".toList⟩

theorem readMount_mountText (h : m.Regular) (hsource : ',' ∉ m.source) : readMount (mountText m) = some m.bind := by
  have htext : mountText m = "type=bind".toList ++ ',' :: (("src=".toList ++ m.source) ++ ',' ::
      ("target=".toList ++ m.target ++ if m.mode = "ro".toList then ",readonly".toList else [])) := by
    have hright (a x b y z : Text) : a ++ x ++ b ++ y ++ z = a ++ (x ++ (b ++ (y ++ z))) := by
      simp only [List.append_assoc]
    have hfields (a b x c y z : Text) : a ++ ',' :: (b ++ (x ++ ',' :: (c ++ (y ++ z)))) =
        a ++ ',' :: ((b ++ x) ++ ',' :: (c ++ y ++ z)) := by
      simp only [List.append_assoc]
    exact (hright _ _ _ _ _).trans (hfields "type=bind".toList "src=".toList _ "target=".toList _ _)
  have hsrc : ',' ∉ "src=".toList ++ m.source := List.not_mem_append (by decide) hsource
  have htarget : ',' ∉ "target=".toList ++ m.target := List.not_mem_append (by decide) h.comma
  have hread (f : MountFields) : f.read ("src=".toList ++ m.source) = some { f with source := m.source } := by
    have hcut : cut '=' ("src=".toList ++ m.source) = some ("src".toList, m.source) :=
      cut_append (a := "src".toList) (by decide) m.source
    rw [MountFields.read, hcut]
    rfl
  have hread' (f : MountFields) : f.read ("target=".toList ++ m.target) = some { f with target := m.target } := by
    have hcut : cut '=' ("target=".toList ++ m.target) = some ("target".toList, m.target) :=
      cut_append (a := "target".toList) (by decide) m.target
    rw [MountFields.read, hcut]
    rfl
  have htype : MountFields.read {} "type=bind".toList = some { type := "bind".toList } := by
    have hcut : cut '=' "type=bind".toList = some ("type".toList, "bind".toList) :=
      cut_append (a := "type".toList) (by decide) "bind".toList
    rw [MountFields.read, hcut]
    rfl
  rw [readMount, htext, List.splitOn_append_cons_self_of_not_mem (by decide),
    List.splitOn_append_cons_self_of_not_mem hsrc]
  by_cases hmode : m.mode = "ro".toList
  · have hlast : ("target=".toList ++ m.target ++ ",readonly".toList).splitOn ',' =
        ["target=".toList ++ m.target, "readonly".toList] :=
      List.splitOn_append_cons_self_of_not_mem htarget _
    rw [if_pos hmode, hlast]
    simp only [List.foldlM_cons, htype, Option.bind_eq_bind, Option.bind_some, hread, hread']
    rw [Mount.bind, decide_eq_true hmode]
    rfl
  · rw [if_neg hmode, List.append_nil, List.splitOn_eq_singleton htarget]
    simp only [List.foldlM_cons, List.foldlM_nil, htype, Option.bind_eq_bind, Option.bind_some, hread, hread']
    rw [Mount.bind, decide_eq_false hmode]
    rfl

theorem readBind_bindText (h : m.Regular) (hsource : ':' ∉ m.source) : readBind (bindText m) = some m.bind := by
  have hmode : ':' ∉ m.mode := by
    rcases h.mode with hmode | hmode <;> rw [hmode] <;> decide
  rw [readBind, bindText, List.append_assoc, List.cons_append, List.splitOn_append_cons_self_of_not_mem hsource,
    List.splitOn_append_cons_self_of_not_mem h.colon, List.splitOn_eq_singleton hmode]
  rcases h.mode with hmode | hmode
  · simp [Mount.bind, hmode]
  · simp [Mount.bind, hmode]

/-- An entry whose source has a colon has too many parts. -/
theorem source_of_readBind (h : m.Regular) {b : Bind} (hread : readBind (bindText m) = some b) : ':' ∉ m.source := by
  intro hmem
  have hmode : ':' ∉ m.mode := by
    rcases h.mode with hmode | hmode <;> rw [hmode] <;> decide
  obtain ⟨x, y, hxy, hx⟩ := List.eq_append_cons_of_mem hmem
  obtain ⟨z, zs, hzs⟩ := List.exists_cons_of_ne_nil (List.splitOn_ne_nil ':' y)
  have hparts : (bindText m).splitOn ':' = x :: z :: (zs ++ [m.target, m.mode]) := by
    rw [bindText, List.append_assoc, List.cons_append, List.splitOn_append_cons_self,
      List.splitOn_append_cons_self_of_not_mem h.colon, List.splitOn_eq_singleton hmode, hxy,
      List.splitOn_append_cons_self_of_not_mem hx, hzs]
    rfl
  rw [readBind, hparts] at hread
  cases zs with
  | nil => cases hread
  | cons w ws =>
    cases ws with
    | nil => cases hread
    | cons => cases hread

/-- Both forms of a mount are read as the same bind mount just if its source has neither separator. -/
theorem mount_agrees_iff (h : m.Regular) :
    (∃ b, readMount (mountText m) = some b ∧ readBind (bindText m) = some b) ↔ ',' ∉ m.source ∧ ':' ∉ m.source := by
  constructor
  · rintro ⟨b, hcli, hapi⟩
    have hcolon := source_of_readBind h hapi
    obtain rfl := Option.some.inj ((readBind_bindText h hcolon).symm.trans hapi)
    exact ⟨source_of_readMount hcli, hcolon⟩
  · rintro ⟨hcomma, hcolon⟩
    exact ⟨m.bind, readMount_mountText h hcomma, readBind_bindText h hcolon⟩

theorem mounts_agree_iff {l : List Mount} (h : ∀ m ∈ l, m.Regular) :
    (∃ bs, (l.map mountText).mapM readMount = some bs ∧ (l.map bindText).mapM readBind = some bs) ↔
      ∀ m ∈ l, ',' ∉ m.source ∧ ':' ∉ m.source := by
  induction l with
  | nil => exact ⟨(fun _ m hm => by cases hm), fun _ => ⟨[], rfl, rfl⟩⟩
  | cons m l ih =>
    rw [List.forall_mem_cons, ← mount_agrees_iff (h m List.mem_cons_self),
      ← ih fun m' hm' => h m' (List.mem_cons_of_mem _ hm')]
    simp only [List.map_cons, List.mapM_cons]
    constructor
    · rintro ⟨bs, hcli, hapi⟩
      obtain ⟨b, hb, hcli⟩ := Option.bind_eq_some_iff.mp hcli
      obtain ⟨cs, hcs, hcli⟩ := Option.bind_eq_some_iff.mp hcli
      obtain ⟨b', hb', hapi⟩ := Option.bind_eq_some_iff.mp hapi
      obtain ⟨cs', hcs', hapi⟩ := Option.bind_eq_some_iff.mp hapi
      cases hcli
      cases hapi
      exact ⟨⟨b, hb, hb'⟩, cs, hcs, hcs'⟩
    · rintro ⟨⟨b, hb, hb'⟩, bs, hbs, hbs'⟩
      refine ⟨b :: bs, ?_, ?_⟩
      · rw [hb, hbs]
        rfl
      · rw [hb', hbs']
        rfl

end Mounts

/-! ## Agreement -/

theorem exists_environment (env : List (Text × Text)) : ∃ e, (env.map assignment).mapM (cut '=') = some e := by
  induction env with
  | nil => exact ⟨[], rfl⟩
  | cons p env ih =>
    obtain ⟨e, he⟩ := ih
    obtain ⟨q, hq⟩ : ∃ q, cut '=' (assignment p) = some q :=
      exists_cut (List.mem_append_right _ List.mem_cons_self)
    refine ⟨q :: e, ?_⟩
    rw [List.map_cons, List.mapM_cons, hq, he]
    rfl

/-- The image and the argv of a command line are its positional arguments. -/
theorem positional_of_readCli {command : Text} {args : List Text} {c : Container}
    (h : readCli (command :: args) = some c) :
    ∃ options, runOptions.readArguments args = some (options, c.image :: c.argv) := by
  rw [readCli] at h
  split at h
  · cases h
  · obtain ⟨⟨options, positional⟩, hread, h⟩ := Option.bind_eq_some_iff.mp h
    obtain ⟨image, himage, h⟩ := Option.bind_eq_some_iff.mp h
    obtain ⟨env, -, h⟩ := Option.bind_eq_some_iff.mp h
    obtain ⟨labels, -, h⟩ := Option.bind_eq_some_iff.mp h
    obtain ⟨tmpfs, -, h⟩ := Option.bind_eq_some_iff.mp h
    obtain ⟨binds, -, h⟩ := Option.bind_eq_some_iff.mp h
    obtain ⟨memory, -, h⟩ := Option.bind_eq_some_iff.mp h
    obtain ⟨nanoCpus, -, rfl⟩ := Option.map_eq_some_iff.mp h
    obtain ⟨rest, rfl⟩ := List.head?_eq_some_iff.mp himage
    exact ⟨options, hread⟩

/-- An image that begins with a dash is read as an option. -/
theorem not_formsAgree_of_dash (himage : isPositional s.image = false) : ¬ FormsAgree s := by
  rintro ⟨c, hcli, hapi⟩
  rw [s.commandLine_eq] at hcli
  obtain ⟨options, hread⟩ := positional_of_readCli hcli
  rw [s.readArguments_commandLine] at hread
  obtain ⟨r, hr, hpair⟩ := Option.map_eq_some_iff.mp hread
  have hshort := runOptions.length_le_of_option himage hr
  rw [congrArg Prod.snd hpair] at hshort
  rw [readApi_toApiKwargs] at hapi
  obtain ⟨env, -, hapi⟩ := Option.bind_eq_some_iff.mp hapi
  obtain ⟨binds, -, rfl⟩ := Option.map_eq_some_iff.mp hapi
  exact absurd hshort (Nat.not_succ_le_self _)

theorem formsAgree_iff_of_regular (h : s.Regular) :
    FormsAgree s ↔ isPositional s.image = true ∧ ∀ m ∈ s.mounts, ',' ∉ m.source ∧ ':' ∉ m.source := by
  cases himage : isPositional s.image with
  | false => exact iff_of_false (not_formsAgree_of_dash himage) fun hboth => Bool.false_ne_true hboth.1
  | true =>
    obtain ⟨env, henv⟩ := exists_environment s.env
    rw [FormsAgree, readCli_commandLine h himage, readApi_toApiKwargs, henv, Option.bind_some, Option.bind_some,
      ← mounts_agree_iff h.mounts]
    constructor
    · rintro ⟨c, hcli, hapi⟩
      obtain ⟨bs, hbs, rfl⟩ := Option.map_eq_some_iff.mp hcli
      obtain ⟨bs', hbs', hc⟩ := Option.map_eq_some_iff.mp hapi
      obtain rfl : bs' = bs := congrArg Container.binds hc
      exact ⟨rfl, bs', hbs, hbs'⟩
    · rintro ⟨-, bs, hbs, hbs'⟩
      exact ⟨s.container env bs, Option.map_eq_some_iff.mpr ⟨bs, hbs, rfl⟩, Option.map_eq_some_iff.mpr ⟨bs, hbs', rfl⟩⟩

end AgentCraft.Engine.Containers
