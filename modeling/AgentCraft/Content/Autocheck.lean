import AgentCraft.Python.Regex

/-!
# The check at submission

`run_auto_check` searches the texts of a revision for keys, dangerous commands, executable code and
jailbreak templates. A revision with an error or a template is not submitted.
-/

namespace AgentCraft.Content

open AgentCraft.Python

/-! ## Patterns -/

section Patterns

open Regex

/-- The characters of a string. -/
def lit (s : String) : Regex := .text s.toList

/-- Expressions after each other. -/
def seqs : List Regex → Regex
  | [] => .text []
  | [r] => r
  | r :: rs => .seq r (seqs rs)

/-- One of several expressions. -/
def alts : List Regex → Regex
  | [] => .alt (.text []) (.text [])
  | [r] => r
  | r :: rs => .alt r (alts rs)

def opt (r : Regex) : Regex := .alt r (.text [])

def plus (r : Regex) : Regex := .seq r (.star r)

/-- `{n,}`. -/
def atLeast (n : ℕ) (r : Regex) : Regex := .seq (seqs (List.replicate n r)) (.star r)

/-- `{n}`. -/
def exactly (n : ℕ) (r : Regex) : Regex := seqs (List.replicate n r)

def isUpper (c : Char) : Bool := 'A' ≤ c && c ≤ 'Z'

def isLower (c : Char) : Bool := 'a' ≤ c && c ≤ 'z'

def isDigit (c : Char) : Bool := '0' ≤ c && c ≤ '9'

/-- `[A-Za-z0-9]` with further characters. -/
def alnumOr (s : String) : Regex := .one fun c => isUpper c || isLower c || isDigit c || s.toList.contains c

/-- A class of listed characters. -/
def among (s : String) : Regex := .one fun c => s.toList.contains c

/-- `\s`. -/
def space : Regex := .one isSpace

/-- The lower-case letter by which `re.IGNORECASE` compares a character. -/
def folded (c : Char) : Char :=
  if isUpper c then Char.ofNat (c.toNat + 32)
  else if c = 'İ' ∨ c = 'ı' then 'i'
  else if c = 'K' then 'k'
  else if c = 'ſ' then 's'
  else c

/-- The characters of a string of lower-case letters, with `re.IGNORECASE`. -/
def litFolded (s : String) : Regex := seqs (s.toList.map fun c => .one fun d => folded d == c)

/-- `\b`. -/
abbrev wb : Regex := .wordBoundary

/-- `_API_KEY_PATTERNS`. -/
def apiKeyPatterns : List (String × Regex) := [
  ("openai", seqs [wb, lit "sk-", atLeast 16 (alnumOr "_-"), wb]),
  ("github", seqs [wb, lit "gh", among "pousr", lit "_", atLeast 20 (alnumOr ""), wb]),
  ("aws", seqs [wb, lit "AKIA", exactly 16 (.one fun c => isDigit c || isUpper c), wb]),
  ("slack", seqs [wb, lit "xox", among "baprs", lit "-", atLeast 10 (alnumOr "-"), wb]),
  ("google", seqs [wb, lit "AIza", atLeast 30 (alnumOr "_-"), wb])]

/-- `-{1,2}`. -/
def dashes : Regex := .seq (lit "-") (opt (lit "-"))

/-- `_DANGEROUS_PATTERNS`. -/
def dangerousPatterns : List (String × Regex) := [
  ("rm-rf", seqs [wb, lit "rm", plus space,
    .star (seqs [dashes, plus (.one fun c => isLower c || isUpper c || c == '-'), plus space]), dashes, among "rf"]),
  ("mkfs", seqs [wb, lit "mkfs", wb]),
  ("dd", seqs [wb, lit "dd", plus space, lit "if="]),
  ("del-windows", seqs [wb, alts [
    seqs [litFolded "del", plus space, lit "/", .one fun c => "sqf".toList.contains (folded c)],
    seqs [litFolded "rd", plus space, lit "/", litFolded "s"]], wb]),
  ("format-drive", seqs [wb, litFolded "format", plus space, .one fun c => isLower (folded c), lit ":"]),
  ("drop-table", seqs [wb, litFolded "drop", plus space, alts [litFolded "table", litFolded "database"], wb]),
  ("pipe-to-shell", seqs [wb, alts [lit "curl", lit "wget"], wb,
    .star (.one fun c => !"|;\n".toList.contains c), lit "|", .star space, opt (.seq (lit "sudo") (plus space)),
    opt (lit "ba"), lit "sh", wb])]

/-- `(os|subprocess|sys|shutil|socket)`. -/
def systemModules : Regex := alts [lit "os", lit "subprocess", lit "sys", lit "shutil", lit "socket"]

/-- `_EXECUTABLE_CODE_PATTERNS`. -/
def executableCodePatterns : List (String × Regex) := [
  ("import", seqs [wb, lit "import", plus space, systemModules, wb]),
  ("from-import", seqs [wb, lit "from", plus space, systemModules, plus space, lit "import", wb]),
  ("eval", seqs [wb, lit "eval", .star space, lit "("]),
  ("exec", seqs [wb, lit "exec", .star space, lit "("]),
  ("import-hook", seqs [lit "__import__", .star space, lit "("]),
  ("os-system", seqs [wb, lit "os.system", wb]),
  ("subprocess", seqs [wb, lit "subprocess.", alts [lit "run", lit "call", lit "Popen", lit "check_output"], wb])]

/-- `_JAILBREAK_PATTERNS`. -/
def jailbreakPatterns : List Regex := [
  lit "[INST]",
  lit "<<<",
  seqs [lit "</", litFolded "system", lit ">"],
  seqs [lit "忽略", alts [lit "以上", lit "之前", lit "上述", .seq (lit "上面") (opt (lit "的"))], opt (lit "所有"),
    opt (lit "的"), alts [lit "指令", lit "规则", lit "设定", lit "提示"]],
  lit "现在你是一个"]

end Patterns

/-! ## Issues -/

inductive Level
  | error
  | warning
deriving DecidableEq, Repr

structure Issue where
  field : String
  rule : String
  level : Level
  message : String
deriving DecidableEq, Repr

/-- The issue of a jailbreak template. -/
def Issue.template (field message : String) : Issue := ⟨field, "jailbreak_template", .warning, message⟩

/-- What a check returns. -/
structure Report where
  valid : Bool
  issues : List Issue
deriving DecidableEq, Repr

/-- A report is valid if no issue is an error or a jailbreak template. -/
def Report.of (issues : List Issue) : Report where
  valid := !issues.any fun i => i.level = .error || i.rule = "jailbreak_template"
  issues := issues

section Checks

variable (isAlnum : Char → Bool)

/-- The scans of one text; `label` names it in the messages. -/
def scan (field label templateMessage : String) (text : List Char) : List Issue :=
  (apiKeyPatterns.filter fun p => p.2.search isAlnum text).map (fun p =>
    ⟨field, "api_key", .error, label ++ "包含疑似 API Key（" ++ p.1 ++ "）"⟩) ++
  (dangerousPatterns.filter fun p => p.2.search isAlnum text).map (fun p =>
    ⟨field, "dangerous_command", .error, label ++ "包含危险指令模式（" ++ p.1 ++ "）"⟩) ++
  (executableCodePatterns.filter fun p => p.2.search isAlnum text).map (fun p =>
    ⟨field, "executable_code", .warning, label ++ "包含可执行代码模式（" ++ p.1 ++ "）"⟩) ++
  (jailbreakPatterns.filter fun r => r.search isAlnum text).map (fun _ => .template field templateMessage)

/-! ## Skills -/

/-- The fields that are scanned. -/
inductive SkillField
  | name
  | description
  | useCase
  | role
  | goal
  | steps
  | inputRequirements
  | outputRequirements
  | constraints
deriving DecidableEq, Repr

def SkillField.key : SkillField → String
  | .name => "name"
  | .description => "description"
  | .useCase => "use_case"
  | .role => "role"
  | .goal => "goal"
  | .steps => "steps"
  | .inputRequirements => "input_requirements"
  | .outputRequirements => "output_requirements"
  | .constraints => "constraints"

/-- `_FIELD_LABELS`. -/
def SkillField.label : SkillField → String
  | .name => "名称"
  | .description => "描述"
  | .useCase => "使用场景"
  | .role => "AI 角色"
  | .goal => "任务目标"
  | .steps => "工作步骤"
  | .inputRequirements => "输入要求"
  | .outputRequirements => "输出要求"
  | .constraints => "约束"

/-- `SCAN_FIELDS`. -/
def scanFields : List SkillField := [
  .name, .description, .useCase, .role, .goal, .steps, .inputRequirements, .outputRequirements, .constraints]

/-- `REQUIRED_FIELDS`. -/
def requiredFields : List SkillField := [.role, .goal, .steps, .outputRequirements, .constraints]

/-- `MAX_FIELD_LENGTH`. -/
def maxFieldLength : ℕ := 5000

/-- The content of a skill revision, by its fields. -/
abbrev SkillContent := SkillField → Option (List Char)

/-- `_as_text(skill.get(field))`. -/
def SkillContent.text (skill : SkillContent) (field : SkillField) : List Char := (skill field).getD []

/-- `_scan_field`. -/
def scanField (field : SkillField) (text : List Char) : List Issue :=
  scan isAlnum field.key field.label (field.label ++ "命中越狱模板，标记不通过") text

/-- `validate_skill`. -/
def validateSkill (skill : SkillContent) : Report :=
  .of ((requiredFields.filter fun f => strip (skill.text f) = []).map (fun f =>
      ⟨f.key, "required", .error, f.label ++ "不能为空"⟩) ++
    (scanFields.filter fun f => skill.text f ≠ []).flatMap fun f =>
      (if maxFieldLength < (skill.text f).length then
        [⟨f.key, "max_length", .warning, f.label ++ "超过 5000 字符"⟩] else []) ++
      scanField isAlnum f (skill.text f))

/-! ## Experts -/

/-- The content of an expert revision. -/
structure ExpertContent where
  name : Option (List Char)
  description : Option (List Char)
  persona : Option (List Char)
  methodology : Option (List Char)
  taskExamples : List (List Char)
  /-- The `revision_id` of each of the `skill_refs`. -/
  skillRefs : List (List Char)

/-- `_scan_text`. -/
def scanText (field : String) (text : List Char) : List Issue :=
  scan isAlnum field field (field ++ " 命中越狱模板，标记不通过") text

/-- The check of an expert revision. -/
def checkExpert (content : ExpertContent) : Report :=
  .of ([("name", content.name), ("description", content.description), ("persona", content.persona),
      ("methodology", content.methodology)].flatMap (fun p =>
        let text := p.2.getD []
        if text = [] then [] else scanText isAlnum p.1 text) ++
    (content.taskExamples.mapIdx fun index example_ =>
      if example_ = [] then []
      else scanText isAlnum ("task_examples[" ++ toString index ++ "]") example_).flatten)

/-- A revision that is submitted. -/
inductive Submission
  | expert (content : ExpertContent)
  | skill (content : SkillContent)

/-- `run_auto_check`. -/
def runAutoCheck : Submission → Report
  | .skill content => validateSkill isAlnum content
  | .expert content => checkExpert isAlnum content

/-! ## What passes has no three angle brackets -/

variable {isAlnum}

/-- Three angle brackets, which begin a marker. -/
def brackets : List Char := "<<<".toList

theorem Report.rule_ne_of_valid {issues : List Issue} (h : (Report.of issues).valid = true) {i : Issue}
    (hi : i ∈ issues) : i.rule ≠ "jailbreak_template" := by
  intro hrule
  rw [Report.of, Bool.not_eq_true', List.any_eq_false] at h
  exact h i hi (by simp [hrule])

theorem mem_scan_of_brackets {field label message : String} {text : List Char} (h : brackets <:+: text) :
    Issue.template field message ∈ scan isAlnum field label message text := by
  refine List.mem_append_right _ (List.mem_map.mpr ⟨lit "<<<", List.mem_filter.mpr ⟨?_, ?_⟩, rfl⟩)
  · exact List.mem_cons_of_mem _ List.mem_cons_self
  · exact Regex.search_text_of_infix h

theorem ne_nil_of_brackets {text : List Char} (h : brackets <:+: text) : text ≠ [] := by
  rintro rfl
  exact absurd (List.infix_nil.mp h) (by decide)

theorem SkillField.mem_scanFields (f : SkillField) : f ∈ scanFields := by
  cases f <;> decide

/-- Every field of a skill is scanned. -/
theorem brackets_of_validateSkill {skill : SkillContent} (h : (validateSkill isAlnum skill).valid = true)
    (f : SkillField) : ¬ brackets <:+: skill.text f := by
  intro hin
  have hfield : f ∈ scanFields.filter fun f => skill.text f ≠ [] :=
    List.mem_filter.mpr ⟨f.mem_scanFields, decide_eq_true (ne_nil_of_brackets hin)⟩
  have hscan : Issue.template f.key (f.label ++ "命中越狱模板，标记不通过") ∈ scanField isAlnum f (skill.text f) :=
    mem_scan_of_brackets hin
  have hissue := List.mem_append_right
    (if maxFieldLength < (skill.text f).length then
      [(⟨f.key, "max_length", .warning, f.label ++ "超过 5000 字符"⟩ : Issue)] else []) hscan
  exact Report.rule_ne_of_valid h (List.mem_append_right _ (List.mem_flatMap.mpr ⟨f, hfield, hissue⟩)) rfl

/-- The persona and the methodology of an expert are scanned. -/
theorem brackets_of_checkExpert {content : ExpertContent} (h : (checkExpert isAlnum content).valid = true) :
    ¬ brackets <:+: content.persona.getD [] ∧ ¬ brackets <:+: content.methodology.getD [] := by
  have hfield (field : String) (text : Option (List Char))
      (hmem : (field, text) ∈ [("name", content.name), ("description", content.description),
        ("persona", content.persona), ("methodology", content.methodology)]) : ¬ brackets <:+: text.getD [] := by
    intro hin
    have hscan : Issue.template field (field ++ " 命中越狱模板，标记不通过") ∈
        if text.getD [] = [] then [] else scanText isAlnum field (text.getD []) := by
      rw [if_neg (ne_nil_of_brackets hin)]
      exact mem_scan_of_brackets hin
    exact Report.rule_ne_of_valid h (List.mem_append_left _ (List.mem_flatMap.mpr ⟨_, hmem, hscan⟩)) rfl
  exact ⟨hfield "persona" _ (by simp), hfield "methodology" _ (by simp)⟩

end Checks

end AgentCraft.Content
