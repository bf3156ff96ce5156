import NoteQuery.Row.Basic
import NoteQuery.Text.Line
import NoteQuery.Text.Word

/-!
Tasks: lines of a note that start with a bullet and a check box. Tags in the text of a task start
with `#`. Main use: the tasks of a row, with the numbers of their lines.
-/

namespace NoteQuery
set_option autoImplicit false
open NoteQuery.Text

structure TaskItem where
  path : Value
  line : Nat
  text : String
  completed : Bool
  tags : List String

/-- What stands on a line with a task: the mark in the box and the text behind it. -/
def taskOnLine? (cs : List Char) : Option (Char × List Char) :=
  match skipBlanks cs with
  | bullet :: rest =>
    if (bullet == '-' || bullet == '*' || bullet == '+') && rest.head?.any isBlank then
      match skipBlanks rest with
      | '[' :: mark :: ']' :: text =>
        if mark == ' ' || mark == 'x' || mark == 'X' then some (mark, stripChars text) else none
      | _ => none
    else none
  | [] => none

def isTagChar (c : Char) : Bool := isWord c || c == '/' || c == '-'

/-- Whether a tag may start after a character. -/
def mayPrecedeTag (c : Char) : Bool := !(isWord c || c == '#')

/-- The tags in a text, from left to right; `before` is the character before the text. -/
def tagsFrom (before : Option Char) (cs : List Char) : List (List Char) :=
  match cs with
  | [] => []
  | c :: rest =>
    if c == '#' && before.all mayPrecedeTag && rest.head?.any isTagChar then
      let tag := rest.takeWhile isTagChar
      tag :: tagsFrom tag.getLast? (rest.dropWhile isTagChar)
    else tagsFrom (some c) rest
termination_by cs.length
decreasing_by
  · exact Nat.lt_succ_of_le (List.dropWhile_sublist isTagChar).length_le
  · exact Nat.lt_succ_self _

namespace TaskItem

def ofLine? (path : Value) (line : Nat) (cs : List Char) : Option TaskItem :=
  (taskOnLine? cs).map fun t =>
    { path, line
      text := String.ofList t.2
      completed := t.1 != ' '
      tags := (tagsFrom none t.2).map String.ofList }

/-- The tasks on lines that are numbered from `n` on. -/
def ofLines (path : Value) (n : Nat) : List (List Char) → List TaskItem
  | [] => []
  | l :: ls => (ofLine? path n l).toList ++ ofLines path (n + 1) ls

def tagsValue (t : TaskItem) : Value := .array (t.tags.map .text)

/-- The task as fields of a row of its own. -/
def context (t : TaskItem) (file : FileInfo) : Context :=
  ⟨[("text", .text t.text), ("completed", .bool t.completed), ("tags", t.tagsValue),
    ("line", .int t.line), ("path", t.path)], file.record, []⟩

def record (t : TaskItem) : Record :=
  [("path", t.path), ("line", .int t.line), ("text", .text t.text),
    ("completed", .bool t.completed), ("tags", t.tagsValue)]

end TaskItem

namespace Row

/-- The tasks of a row; its lines are numbered from one on. -/
def tasks (r : Row) : List TaskItem :=
  TaskItem.ofLines r.file.path 1 (lineContents (r.text?.getD "").toList)

end Row
end NoteQuery
