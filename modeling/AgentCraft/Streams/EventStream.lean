import AgentCraft.Python.Text

/-!
# Event streams

The format `text/event-stream`: events of lines, each ended by an empty line. A line is a comment or a
field, and the data of an event are the values of its data fields, one line for each. An event without
data fields says nothing.

Lines end with a line feed, or with a carriage return and a line feed; no other character ends a line.
-/

namespace AgentCraft.Streams

open AgentCraft.Python

/-- The end of a line. -/
inductive LineEnd
  | lf
  | crlf
deriving DecidableEq, Repr

def LineEnd.text : LineEnd → List Char
  | lf => ['\n']
  | crlf => ['\r', '\n']

/-- What stands on one line. -/
structure LineText where
  chars : List Char
  oneLine : '\n' ∉ chars ∧ '\r' ∉ chars
deriving DecidableEq, Repr

/-- The fields of an event. -/
inductive FieldName
  | data | event | id | retry
deriving DecidableEq, Repr

def FieldName.text : FieldName → List Char
  | data => ['d', 'a', 't', 'a']
  | event => ['e', 'v', 'e', 'n', 't']
  | id => ['i', 'd']
  | retry => ['r', 'e', 't', 'r', 'y']

/-- A line of an event. A field has a value after its colon, or is a name alone. -/
inductive EventLine
  | comment (text : LineText)
  | field (name : FieldName) (value : Option LineText)
deriving DecidableEq, Repr

namespace EventLine

def text : EventLine → List Char
  | comment t => ':' :: t.chars
  | field name none => name.text
  | field name (some value) => name.text ++ ':' :: value.chars

/-- A value without the space after its colon. -/
def dropSpace (s : List Char) : List Char := if s.head? = some ' ' then s.tail else s

/-- The line of data that the line stands for. -/
def data : EventLine → Option (List Char)
  | field .data none => some []
  | field .data (some value) => some (dropSpace value.chars)
  | _ => none

end EventLine

/-- The lines of an event, and the end of the empty line after them. -/
structure StreamEvent where
  lines : List (EventLine × LineEnd)
  finish : LineEnd
deriving DecidableEq, Repr

namespace StreamEvent

def text (e : StreamEvent) : List Char :=
  e.lines.flatMap (fun p => p.1.text ++ p.2.text) ++ e.finish.text

def dataLines (e : StreamEvent) : List (List Char) := e.lines.filterMap (·.1.data)

/-- The data of an event: its lines of data with a line feed between them. -/
def data (e : StreamEvent) : List Char := ['\n'].intercalate e.dataLines

end StreamEvent

/-- The body that carries the events. -/
def streamText (es : List StreamEvent) : List Char := es.flatMap StreamEvent.text

/-- The last event that says something. -/
def lastMessage (es : List StreamEvent) : Option StreamEvent :=
  (es.filter (·.dataLines ≠ [])).getLast?

/-! ## The lines of a body -/

theorem LineEnd.text_eq (eol : LineEnd) : eol.text = ['\n'] ∨ eol.text = ['\r', '\n'] := by
  cases eol with
  | lf => exact .inl rfl
  | crlf => exact .inr rfl

theorem EventLine.not_mem_text (l : EventLine) : '\r' ∉ l.text := by
  cases l with
  | comment t => exact List.not_mem_cons_of_ne_of_not_mem (by decide) t.oneLine.2
  | field name value =>
    have hname : '\r' ∉ name.text := by cases name <;> decide
    cases value with
    | none => exact hname
    | some value =>
      refine fun h => (List.mem_append.mp h).elim hname ?_
      exact List.not_mem_cons_of_ne_of_not_mem (by decide) value.oneLine.2

theorem EventLine.not_mem_data {l : EventLine} {y : List Char} (h : l.data = some y) :
    '\n' ∉ y ∧ '\r' ∉ y := by
  have hspace {c : Char} {s : List Char} (hc : c ∉ s) : c ∉ dropSpace s := by
    unfold dropSpace
    split
    · exact fun h => hc (List.mem_of_mem_tail h)
    · exact hc
  unfold data at h
  split at h
  · cases h
    exact ⟨List.not_mem_nil, List.not_mem_nil⟩
  · next value =>
    cases h
    exact ⟨hspace value.oneLine.1, hspace value.oneLine.2⟩
  · cases h

/-- The lines of a body, as `str.splitlines` breaks them. -/
theorem splitlines_streamText (es : List StreamEvent) :
    splitlines (streamText es) =
      es.flatMap fun e => e.lines.flatMap (allLines ·.1.text) ++ [[]] := by
  have hevent (lines : List (EventLine × LineEnd)) (s : List Char) :
      allLines (lines.flatMap (fun p => p.1.text ++ p.2.text) ++ s) =
        lines.flatMap (allLines ·.1.text) ++ allLines s := by
    induction lines with
    | nil => rfl
    | cons p lines ih =>
      rw [List.flatMap_cons, List.append_assoc, allLines_append p.1.not_mem_text p.2.text_eq, ih,
        List.flatMap_cons, List.append_assoc]
  refine splitlines_of_end ?_
  induction es with
  | nil => rfl
  | cons e es ih =>
    have hfinish : allLines (e.finish.text ++ streamText es) = [] :: allLines (streamText es) :=
      allLines_append (l := []) (fun h => by cases h) e.finish.text_eq _
    rw [streamText, List.flatMap_cons, StreamEvent.text, List.append_assoc, hevent, List.flatMap_cons]
    rw [streamText] at hfinish ih
    rw [hfinish, ih]
    simp

/-- A body with a line in it begins with the colon of a comment or the letter of a field, after blank
lines. -/
theorem streamText_head {es : List StreamEvent} {e : StreamEvent} (he : e ∈ es) (hlines : e.lines ≠ []) :
    ∃ b c s, streamText es = b ++ c :: s ∧ (∀ x ∈ b, x = '\n' ∨ x = '\r') ∧
      c ∈ [':', 'd', 'e', 'i', 'r'] := by
  induction es with
  | nil => cases he
  | cons e' es ih =>
    by_cases hnil : e'.lines = []
    · have hmem : e ∈ es := by
        rcases List.mem_cons.mp he with rfl | hmem
        · exact absurd hnil hlines
        · exact hmem
      obtain ⟨b, c, s, htext, hb, hc⟩ := ih hmem
      refine ⟨e'.finish.text ++ b, c, s, ?_, fun x hx => ?_, hc⟩
      · rw [streamText, List.flatMap_cons, ← streamText, htext, StreamEvent.text, hnil]
        simp
      · rcases List.mem_append.mp hx with hx | hx
        · rcases e'.finish.text_eq with heol | heol
          all_goals
            rw [heol] at hx
            simp only [List.mem_cons, List.not_mem_nil, or_false] at hx
            tauto
        · exact hb x hx
    · obtain ⟨p, lines, hsplit⟩ := List.exists_cons_of_ne_nil hnil
      obtain ⟨c, s, hline, hc⟩ : ∃ c s, p.1.text = c :: s ∧ c ∈ [':', 'd', 'e', 'i', 'r'] := by
        cases p.1 with
        | comment t => exact ⟨':', t.chars, rfl, by decide⟩
        | field name value => cases name <;> cases value <;> exact ⟨_, _, rfl, by decide⟩
      refine ⟨[], c, s ++ p.2.text ++ lines.flatMap (fun p => p.1.text ++ p.2.text) ++ e'.finish.text ++
        streamText es, ?_, fun x hx => (by cases hx), hc⟩
      rw [streamText, List.flatMap_cons, StreamEvent.text, hsplit, List.flatMap_cons, hline]
      simp [streamText]

/-! ## Data -/

theorem intercalate_cons_cons (sep y z : List Char) (l : List (List Char)) :
    sep.intercalate (y :: z :: l) = y ++ sep ++ sep.intercalate (z :: l) := by
  simp [List.intercalate]

/-- Blank lines around a line of data are blanks around the data. -/
theorem intercalate_blank {p : Char → Prop} (hbreak : p '\n') {b b' : List (List Char)}
    (hb : ∀ y ∈ b ++ b', ∀ c ∈ y, p c) (x : List Char) :
    ∃ d d', ['\n'].intercalate (b ++ x :: b') = d ++ x ++ d' ∧ (∀ c ∈ d, p c) ∧ ∀ c ∈ d', p c := by
  induction b with
  | nil =>
    induction b' generalizing x with
    | nil => exact ⟨[], [], by simp [List.intercalate], by simp, by simp⟩
    | cons y b' ih =>
      obtain ⟨d, d', htext, hd, hd'⟩ := ih y fun z hz => hb z (List.mem_cons_of_mem _ hz)
      refine ⟨[], '\n' :: (d ++ y ++ d'), ?_, by simp, ?_⟩
      · rw [List.nil_append] at htext ⊢
        rw [intercalate_cons_cons, htext]
        simp
      · have hy : ∀ c ∈ y, p c := hb y List.mem_cons_self
        simp only [List.mem_cons, List.mem_append]
        rintro c (rfl | (hc | hc) | hc)
        · exact hbreak
        · exact hd c hc
        · exact hy c hc
        · exact hd' c hc
  | cons y b ih =>
    obtain ⟨d, d', htext, hd, hd'⟩ := ih fun z hz => hb z (List.mem_cons_of_mem _ hz)
    refine ⟨y ++ '\n' :: d, d', ?_, ?_, hd'⟩
    · obtain ⟨z, l, hzl⟩ : ∃ z l, b ++ x :: b' = z :: l :=
        List.exists_cons_of_ne_nil (by simp)
      rw [List.cons_append, hzl, intercalate_cons_cons, ← hzl, htext]
      simp
    · have hy : ∀ c ∈ y, p c := hb y List.mem_cons_self
      simp only [List.mem_cons, List.mem_append]
      rintro c (hc | rfl | hc)
      · exact hy c hc
      · exact hbreak
      · exact hd c hc

end AgentCraft.Streams
