import NoteQuery.Calendar.Moment
import NoteQuery.Files.Path

/-!
A tree of files as it is read: a directory names its nodes, a file holds bytes. Main statement: the
notes below a directory are listed in the order of the parts of their names.
-/

namespace NoteQuery
set_option autoImplicit false

structure FileTimes where
  changed : Moment
  modified : Moment

inductive FileNode where
  | file (content : List UInt8) (times : FileTimes)
  | directory (entries : List (String × FileNode))

/-- Why a name leads nowhere. -/
inductive PathFault where
  | missing
  | notADirectory
  deriving DecidableEq

namespace FileNode

/-- The node that a list of parts leads to; `above` are the directories passed so far. -/
def follow (above : List FileNode) (n : FileNode) : List String → Except PathFault FileNode
  | [] => .ok n
  | part :: parts =>
    match n with
    | file .. => .error .notADirectory
    | directory entries =>
      if part = ".." then
        match above with
        | up :: above => follow above up parts
        | [] => .error .missing
      else
        match entries.lookup part with
        | some m => follow (n :: above) m parts
        | none => .error .missing

/-- The node of a name that is looked up from this directory. -/
def find (n : FileNode) (p : Path) : Except PathFault FileNode :=
  if p.absolute then .error .missing else follow [] n p.parts

end FileNode

/-- Names of notes. -/
def isNoteName (name : String) : Bool := Text.endsWith ".md".toList name.toList

/-- A node with the parts of its name below a directory. -/
abbrev Located := List String × FileNode

mutual

/-- The nodes below a node that are named like notes. -/
def FileNode.notesFrom (at_ : List String) : FileNode → List Located
  | .file .. => []
  | .directory entries => notesAmong at_ entries

def notesAmong (at_ : List String) : List (String × FileNode) → List Located
  | [] => []
  | (name, n) :: entries =>
    let here := if isNoteName name then [(at_ ++ [name], n)] else []
    here ++ n.notesFrom (at_ ++ [name]) ++ notesAmong at_ entries

end

/-- Order of names by their parts: the second is not before the first. -/
def Located.le (a b : Located) : Bool := !List.lex b.1 a.1 fun x y => x < y

/-- The nodes below a node that are named like notes, in the order of their names. -/
def FileNode.notes (n : FileNode) : List Located := (n.notesFrom []).mergeSort Located.le

theorem Located.le_iff (a b : Located) :
    Located.le a b = true ↔ @LE.le (List String) List.instLE a.1 b.1 := by
  rw [Located.le, Bool.not_eq_true', List.lex_eq_false_iff_ge]

theorem Located.le_total (a b : Located) : Located.le a b || Located.le b a := by
  simp only [Bool.or_eq_true, Located.le_iff]
  exact List.le_total a.1 b.1

theorem Located.le_trans {a b c : Located} (h : Located.le a b = true)
    (k : Located.le b c = true) : Located.le a c = true := by
  rw [Located.le_iff] at h k ⊢
  exact List.le_trans h k

theorem FileNode.pairwise_notes (n : FileNode) :
    n.notes.Pairwise fun a b => Located.le a b = true := by
  apply List.pairwise_mergeSort
  · exact fun _ _ _ h k => Located.le_trans h k
  · exact Located.le_total

end NoteQuery

