import NoteQuery.Proofs.Text.Lines
import NoteQuery.Row.Task

/-! The tasks of a text that is put together. The lines of a text written behind whole lines are numbered on from
theirs, and so are the tasks on them. A task that is written on a line of its own is found there, and nothing else
is, whatever its text looks like. -/

namespace NoteQuery
set_option autoImplicit false
open Text

/-! ### Numbered lines -/

namespace TaskItem

/-- The task some lines further down. -/
def below (count : Nat) (t : TaskItem) : TaskItem := { t with line := t.line + count }

section
variable (path : Value) (n count : Nat)

theorem ofLines_append (as bs : List (List Char)) :
    ofLines path n (as ++ bs) = ofLines path n as ++ ofLines path (n + as.length) bs := by
  induction as generalizing n with
  | nil => rfl
  | cons a as ih =>
    have hnumber : n + 1 + as.length = n + (a :: as).length := by
      rw [List.length_cons]
      omega
    rw [List.cons_append, ofLines, ofLines, ih, hnumber, List.append_assoc]

theorem ofLine?_below (cs : List Char) :
    ofLine? path (n + count) cs = (ofLine? path n cs).map (below count) := by
  rw [ofLine?, ofLine?, Option.map_map]
  rfl

theorem ofLines_below (ls : List (List Char)) :
    ofLines path (n + count) ls = (ofLines path n ls).map (below count) := by
  induction ls generalizing n with
  | nil => rfl
  | cons l ls ih =>
    have hnumber : n + count + 1 = n + 1 + count := by omega
    rw [ofLines, ofLines, ofLine?_below, hnumber, ih, List.map_append, Option.toList_map]

end

/-! ### Written tasks -/

/-- A task as it is written: whether it is completed, and what there is to do. -/
abbrev Entry := Bool × String

/-- The line that a task is written on. -/
def entryLine (e : Entry) : List Char :=
  '-' :: ' ' :: '[' :: (if e.1 then 'x' else ' ') :: ']' :: ' ' :: e.2.toList

/-- The task that is written on a line. -/
def ofEntry (path : Value) (line : Nat) (e : Entry) : TaskItem :=
  { path, line
    text := e.2
    completed := e.1
    tags := (tagsFrom none e.2.toList).map String.ofList }

/-- A text on one line, without blanks around it. -/
def IsEntryText (s : String) : Prop := OneLine s.toList ∧ stripChars s.toList = s.toList

theorem oneLine_entryLine {e : Entry} (h : IsEntryText e.2) : OneLine (entryLine e) := by
  have hstart : OneLine ['-', ' ', '[', if e.1 then 'x' else ' ', ']', ' '] := by
    unfold OneLine
    cases e.1 <;> decide
  exact hstart.append h.1

theorem ofLine?_entryLine (path : Value) (line : Nat) {e : Entry} (h : IsEntryText e.2) :
    ofLine? path line (entryLine e) = some (ofEntry path line e) := by
  have hstrip : stripChars (' ' :: e.2.toList) = e.2.toList := (stripChars_cons rfl _).trans h.2
  have hread : taskOnLine? (entryLine e) =
      some (if e.1 then 'x' else ' ', stripChars (' ' :: e.2.toList)) := by
    rw [entryLine]
    cases e.1 <;> rfl
  rw [ofLine?, hread, hstrip, Option.map_some, ofEntry, String.ofList_toList]
  cases e.1 <;> rfl

theorem ofLines_entryLines (path : Value) (n : Nat) {es : List Entry} (h : ∀ e ∈ es, IsEntryText e.2) :
    ofLines path n (es.map entryLine) = (es.zipIdx n).map fun e => ofEntry path e.2 e.1 := by
  induction es generalizing n with
  | nil => rfl
  | cons e es ih =>
    obtain ⟨hfirst, hrest⟩ := List.forall_mem_cons.mp h
    rw [List.map_cons, ofLines, ofLine?_entryLine path n hfirst, ih (n + 1) hrest, List.zipIdx_cons,
      List.map_cons]
    rfl

/-- The lines of tasks, with line feeds between them and perhaps one at the end. -/
theorem ofLines_text (path : Value) {es : List Entry} (h : ∀ e ∈ es, IsEntryText e.2) {ending : List Char}
    (hending : ending = [] ∨ ending = ['\n']) :
    ofLines path 1 (lineContents (joinWith ['\n'] (es.map entryLine) ++ ending)) =
      (es.zipIdx 1).map fun e => ofEntry path e.2 e.1 := by
  cases es with
  | nil => rcases hending with rfl | rfl <;> rfl
  | cons e es =>
    have hlines : ∀ p ∈ (e :: es).map entryLine, OneLine p ∧ p ≠ [] := by
      intro p hp
      obtain ⟨e, he, rfl⟩ := List.mem_map.mp hp
      exact ⟨oneLine_entryLine (h e he), List.cons_ne_nil _ _⟩
    rw [lineContents_joinWith hlines (List.cons_ne_nil _ _) hending]
    exact ofLines_entryLines path 1 h

end TaskItem

namespace Row

/-- The row with another text. -/
def withText (r : Row) (s : String) : Row := { r with text? := some s }

theorem tasks_withText (r : Row) (s : String) :
    (r.withText s).tasks = TaskItem.ofLines r.file.path 1 (lineContents s.toList) := rfl

/-- Tasks are found in each part of a text, numbered on from the lines of the part before, and tasks that are
written on lines of their own are found as they are written. -/
theorem tasks_composed (r : Row) :
    (∀ front back : String, (∀ c ∈ front.toList.getLast?, c = '\n') →
      (r.withText (front ++ back)).tasks = (r.withText front).tasks ++
        (r.withText back).tasks.map (TaskItem.below (lines front.toList).length)) ∧
    ∀ es : List TaskItem.Entry, (∀ e ∈ es, TaskItem.IsEntryText e.2) → ∀ ending ∈ ["", "\n"],
      (r.withText (String.ofList (joinWith ['\n'] (es.map TaskItem.entryLine)) ++ ending)).tasks =
        (es.zipIdx 1).map fun e => TaskItem.ofEntry r.file.path e.2 e.1 := by
  constructor
  · intro front back hfront
    have hends : EndsLine front.toList := by
      intro c hc
      rw [hfront c hc]
      rfl
    have hreturn : front.toList.getLast? ≠ some '\r' := fun h => absurd (hfront _ h) (by decide)
    rw [tasks_withText, tasks_withText, tasks_withText, String.toList_append, lineContents,
      lines_append_of_endsLine hends (absurd · hreturn), List.map_append, TaskItem.ofLines_append,
      ← TaskItem.ofLines_below, List.length_map]
    rfl
  · intro es hes ending hending
    have hchars : ending.toList = [] ∨ ending.toList = ['\n'] := by
      rcases List.mem_cons.mp hending with rfl | hending
      · exact .inl rfl
      · rw [List.mem_singleton.mp hending]
        exact .inr rfl
    rw [tasks_withText, String.toList_append, String.toList_ofList]
    exact TaskItem.ofLines_text r.file.path hes hchars

end Row
end NoteQuery
