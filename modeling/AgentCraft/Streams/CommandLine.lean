import Mathlib.Data.List.Basic
import Mathlib.Data.List.TakeWhile

/-!
# Command lines

A command reads its arguments from the left. An argument that begins with a dash names an option, whose
value is what follows `=` in it or the next argument; the first other argument ends the options. Options
are read as they are written, whatever their values are (`readArguments_written`), and an argument that is
read as an option is not a positional one (`length_le_of_option`).
-/

namespace AgentCraft.Streams

/-- The options of a command. -/
structure OptionTable (O : Type*) where
  all : List O
  name : O → List Char
  takesValue : O → Bool
  mem_all : ∀ o, o ∈ all
  name_injective : Function.Injective name
  head_name : ∀ o, (name o).head? = some '-'
  one_lt_length_name : ∀ o, 1 < (name o).length
  name_ne_terminator : ∀ o, name o ≠ ['-', '-']
  not_mem_name : ∀ o, '=' ∉ name o

/-- Whether an argument is none of the options. -/
def isPositional (a : List Char) : Bool := a.head? != some '-' || a == ['-']

/-- What an argument says before its first `=`. -/
def optionName (a : List Char) : List Char := a.takeWhile (· ≠ '=')

/-- What an argument says after its first `=`. -/
def joinedValue (a : List Char) : Option (List Char) := (a.dropWhile (· ≠ '=')).tail?

/-- An option as it is written: alone, with its value after it, or with its value joined to it. -/
inductive Written (O : Type*)
  | flag (o : O)
  | spaced (o : O) (v : List Char)
  | joined (o : O) (v : List Char)

/-- The option and its value. -/
def Written.entry {O : Type*} : Written O → O × List Char
  | .flag o => (o, [])
  | .spaced o v => (o, v)
  | .joined o v => (o, v)

namespace OptionTable

variable {O : Type*} (t : OptionTable O)

/-- The option of a name. -/
def option (a : List Char) : Option O := t.all.find? (t.name · = a)

/-- The options of a command line with their values, and its positional arguments. It is `none` if an
option is not of the table or its value is missing. -/
@[grind] def readArguments : List (List Char) → Option (List (O × List Char) × List (List Char))
  | [] => some ([], [])
  | a :: rest =>
    if isPositional a then some ([], a :: rest)
    else if a = ['-', '-'] then some ([], rest)
    else match t.option (optionName a) with
      | none => none
      | some o => match joinedValue a with
        | some v => (readArguments rest).map fun r => ((o, v) :: r.1, r.2)
        | none =>
          if t.takesValue o then
            match rest with
            | [] => none
            | v :: rest => (readArguments rest).map fun r => ((o, v) :: r.1, r.2)
          else (readArguments rest).map fun r => ((o, []) :: r.1, r.2)

/-- The arguments of an option. -/
def arguments : Written O → List (List Char)
  | .flag o => [t.name o]
  | .spaced o v => [t.name o, v]
  | .joined o v => [t.name o ++ '=' :: v]

/-- Whether an option is written alone just if it takes no value. -/
def Fits : Written O → Prop
  | .flag o => t.takesValue o = false
  | .spaced o _ => t.takesValue o = true
  | .joined _ _ => True

/-! ## What is written is read -/

theorem option_name (o : O) : t.option (t.name o) = some o := by
  cases ho : t.option (t.name o) with
  | none =>
    have hnone := List.find?_eq_none.mp ho o (t.mem_all o)
    exact absurd (decide_eq_true rfl) hnone
  | some o' =>
    have hname : t.name o' = t.name o := of_decide_eq_true (List.find?_some (p := (t.name · = t.name o)) ho)
    rw [t.name_injective hname]

theorem isPositional_name_append (o : O) (s : List Char) : isPositional (t.name o ++ s) = false := by
  have hhead : (t.name o ++ s).head? = some '-' := by
    rw [List.head?_append, t.head_name, Option.some_or]
  have hne : t.name o ++ s ≠ ['-'] := fun h => by
    have hlength := congrArg List.length h
    rw [List.length_append, List.length_singleton] at hlength
    have hname := t.one_lt_length_name o
    omega
  rw [isPositional, hhead, bne_self_eq_false, Bool.false_or, beq_eq_false_iff_ne]
  exact hne

theorem ne_eq_of_mem_name {o : O} {c : Char} (h : c ∈ t.name o) : decide (c ≠ '=') = true :=
  decide_eq_true fun hc => t.not_mem_name o (hc ▸ h)

theorem optionName_name (o : O) : optionName (t.name o) = t.name o :=
  List.takeWhile_eq_self_iff.mpr fun _ => t.ne_eq_of_mem_name

theorem joinedValue_name (o : O) : joinedValue (t.name o) = none := by
  rw [joinedValue, List.dropWhile_eq_nil_iff.mpr fun _ => t.ne_eq_of_mem_name]
  rfl

theorem optionName_joined (o : O) (v : List Char) : optionName (t.name o ++ '=' :: v) = t.name o := by
  rw [optionName, List.takeWhile_append_of_pos fun _ => t.ne_eq_of_mem_name,
    List.takeWhile_cons_of_neg (by decide), List.append_nil]

theorem joinedValue_joined (o : O) (v : List Char) : joinedValue (t.name o ++ '=' :: v) = some v := by
  rw [joinedValue, List.dropWhile_append_of_pos fun _ => t.ne_eq_of_mem_name,
    List.dropWhile_cons_of_neg (by decide)]
  rfl

theorem joined_ne_terminator (o : O) (v : List Char) : t.name o ++ '=' :: v ≠ ['-', '-'] := fun h => by
  have hmem : '=' ∈ t.name o ++ '=' :: v := List.mem_append_right _ List.mem_cons_self
  rw [h] at hmem
  exact absurd hmem (by decide)

/-- One option is read. -/
theorem readArguments_arguments {w : Written O} (hw : t.Fits w) (rest : List (List Char)) :
    t.readArguments (t.arguments w ++ rest) =
      (t.readArguments rest).map fun r => (w.entry :: r.1, r.2) := by
  have hname (o : O) : isPositional (t.name o) = false := by
    rw [← List.append_nil (t.name o), isPositional_name_append]
  cases w with
  | flag o =>
    change t.readArguments (t.name o :: rest) = _
    rw [readArguments, hname, if_neg Bool.false_ne_true, if_neg (t.name_ne_terminator o), optionName_name,
      option_name, joinedValue_name]
    exact if_neg (Bool.eq_false_iff.mp hw)
  | spaced o v =>
    change t.readArguments (t.name o :: v :: rest) = _
    rw [readArguments, hname, if_neg Bool.false_ne_true, if_neg (t.name_ne_terminator o), optionName_name,
      option_name, joinedValue_name]
    exact if_pos hw
  | joined o v =>
    change t.readArguments ((t.name o ++ '=' :: v) :: rest) = _
    rw [readArguments, isPositional_name_append, if_neg Bool.false_ne_true, if_neg (t.joined_ne_terminator o v),
      optionName_joined, option_name, joinedValue_joined]
    rfl

/-- Options are read, whatever follows them. -/
theorem readArguments_written {ws : List (Written O)} (hws : ∀ w ∈ ws, t.Fits w) (rest : List (List Char)) :
    t.readArguments (ws.flatMap t.arguments ++ rest) =
      (t.readArguments rest).map fun r => (ws.map Written.entry ++ r.1, r.2) := by
  induction ws with
  | nil => simp
  | cons w ws ih =>
    rw [List.flatMap_cons, List.append_assoc, t.readArguments_arguments (hws w List.mem_cons_self),
      ih fun w' hw' => hws w' (List.mem_cons_of_mem _ hw'), Option.map_map]
    rfl

/-! ## Positional arguments -/

theorem readArguments_positional {a : List Char} (ha : isPositional a = true) (rest : List (List Char)) :
    t.readArguments (a :: rest) = some ([], a :: rest) := by
  rw [readArguments, if_pos ha]

theorem length_le_of_readArguments {l : List (List Char)} {r : List (O × List Char) × List (List Char)}
    (h : t.readArguments l = some r) : r.2.length ≤ l.length := by
  fun_induction readArguments t l generalizing r with
  | case1 => cases h; exact Nat.le_refl _
  | case2 a rest ha => cases h; exact Nat.le_refl _
  | case3 rest => cases h; exact Nat.le_succ _
  | case4 => cases h
  | case5 a rest _ _ o _ v _ ih =>
    obtain ⟨r', hr', rfl⟩ := Option.map_eq_some_iff.mp h
    have hle : r'.2.length ≤ rest.length := ih hr'
    exact Nat.le_succ_of_le hle
  | case6 => cases h
  | case7 a _ _ o _ _ _ v rest ih =>
    obtain ⟨r', hr', rfl⟩ := Option.map_eq_some_iff.mp h
    have hle : r'.2.length ≤ rest.length := ih hr'
    exact Nat.le_succ_of_le (Nat.le_succ_of_le hle)
  | case8 a rest _ _ o _ _ _ ih =>
    obtain ⟨r', hr', rfl⟩ := Option.map_eq_some_iff.mp h
    have hle : r'.2.length ≤ rest.length := ih hr'
    exact Nat.le_succ_of_le hle

/-- An argument that is read as an option is not among the positional ones. -/
theorem length_le_of_option {a : List Char} (ha : isPositional a = false) {rest : List (List Char)}
    {r : List (O × List Char) × List (List Char)} (h : t.readArguments (a :: rest) = some r) :
    r.2.length ≤ rest.length := by
  rw [readArguments, ha, if_neg Bool.false_ne_true] at h
  split at h
  · cases h
    exact Nat.le_refl _
  · split at h
    · cases h
    · split at h
      · obtain ⟨r', hr', rfl⟩ := Option.map_eq_some_iff.mp h
        have hle := t.length_le_of_readArguments hr'
        exact hle
      · split at h
        · split at h
          · cases h
          · obtain ⟨r', hr', rfl⟩ := Option.map_eq_some_iff.mp h
            have hle := t.length_le_of_readArguments hr'
            exact Nat.le_succ_of_le hle
        · obtain ⟨r', hr', rfl⟩ := Option.map_eq_some_iff.mp h
          have hle := t.length_le_of_readArguments hr'
          exact hle

end OptionTable

end AgentCraft.Streams
