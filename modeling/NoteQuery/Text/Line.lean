import NoteQuery.Text.Blank

/-!
Lines. A line ends at a line feed, a carriage return, the pair of both, a vertical tab, a form feed,
one of three information separators, the next-line control, or a line or paragraph separator. Main
statement: the lines with their endings are the text.
-/

namespace NoteQuery.Text
set_option autoImplicit false

def isLineBreak (c : Char) : Bool :=
  let n := c.toNat
  (10 ≤ n && n ≤ 13) || (28 ≤ n && n ≤ 30) || n == 0x85 || n == 0x2028 || n == 0x2029

structure Line where
  content : List Char
  ending : List Char
  deriving DecidableEq

namespace Line

def chars (l : Line) : List Char := l.content ++ l.ending

def joined (ls : List Line) : List Char := ls.flatMap chars

end Line

/-- Puts a character in front of the first line. -/
def extendFirst (c : Char) : List Line → List Line
  | [] => [⟨[c], []⟩]
  | l :: ls => ⟨c :: l.content, l.ending⟩ :: ls

/-- The lines of a text; an empty text has none, and a final ending starts no further line. -/
def lines : List Char → List Line
  | [] => []
  | '\r' :: '\n' :: rest => ⟨[], ['\r', '\n']⟩ :: lines rest
  | c :: rest => if isLineBreak c then ⟨[], [c]⟩ :: lines rest else extendFirst c (lines rest)

def lineContents (cs : List Char) : List (List Char) := (lines cs).map (·.content)

theorem joined_extendFirst (c : Char) (ls : List Line) :
    Line.joined (extendFirst c ls) = c :: Line.joined ls := by
  cases ls <;> simp [extendFirst, Line.joined, Line.chars]

theorem joined_lines (cs : List Char) : Line.joined (lines cs) = cs := by
  fun_induction lines cs with
  | case1 => rfl
  | case2 rest ih => simpa [Line.joined, Line.chars] using ih
  | case3 c rest _ _ ih => simpa [Line.joined, Line.chars] using ih
  | case4 c rest _ _ ih => rw [joined_extendFirst, ih]

end NoteQuery.Text
