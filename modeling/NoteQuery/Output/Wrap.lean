import NoteQuery.Text.Blank
import NoteQuery.Text.Search
import NoteQuery.Text.Width

/-!
Setting text in a column of a terminal. Lines are broken between words; a word that is too long for a
line gets one of its own, and is cut. Main statement: every line takes as many columns as there are.
-/

namespace NoteQuery.Output
set_option autoImplicit false
open NoteQuery.Text

/-- Controls that would move the cursor of a terminal. -/
def movesCursor (c : Char) : Bool :=
  c == '\x07' || c == '\x08' || c == '\x0b' || c == '\x0c' || c == '\r'

def tabWidth : Nat := 8

/-- Text with blanks for tabs, from a column on. -/
def expandTabs (column : Nat) : List Char → List Char
  | [] => []
  | c :: cs =>
    if c = '\t' then
      let n := tabWidth - column % tabWidth
      blanks n ++ expandTabs (column + n) cs
    else c :: expandTabs (column + charWidth c) cs

/-- Words with the blanks behind them; blanks at the start stand by themselves. -/
def wordPieces : List Char → List (List Char)
  | [] => []
  | c :: cs =>
    match wordPieces cs with
    | [] => [[c]]
    | w :: ws =>
      if isBlank c && w.head?.any fun d => !isBlank d then [c] :: w :: ws else (c :: w) :: ws

/-- Words with the blanks behind them, and those at the start before the first word. -/
def wordsWithBlanks (cs : List Char) : List (List Char) :=
  match wordPieces cs with
  | first :: second :: rest =>
    if first.all isBlank then (first ++ second) :: rest else first :: second :: rest
  | pieces => pieces

/-- Puts words on lines of `n` columns. A word that does not fit on what is left of a line starts the
next one; blanks behind it need not fit. -/
def fillLines (n : Nat) (line : List Char) (used : Nat) : List (List Char) → List (List Char)
  | [] => [line]
  | w :: ws =>
    if used + width (dropTrailingBlanks w) ≤ n ∨ line = [] then
      fillLines n (line ++ w) (used + width w) ws
    else line :: fillLines n w (width w) ws

/-- Drops blanks at the end of a line that is longer than `n`, as far as it is longer. -/
def cropBlanks (n : Nat) (line : List Char) : List Char :=
  let blankCount := (line.reverse.takeWhile isBlank).length
  line.take (line.length - min blankCount (line.length - n))

/-- Text as lines of `n` columns each. -/
def columnLines (n : Nat) (cs : List Char) : List (List Char) :=
  (pieces ['\n'] cs).flatMap fun line =>
    (fillLines n [] 0 (wordsWithBlanks (expandTabs 0 line))).map fun l => fitted n (cropBlanks n l)

theorem width_of_mem_columnLines {n : Nat} {cs line : List Char} (h : line ∈ columnLines n cs) :
    width line = n := by
  obtain ⟨_, _, hl⟩ := List.mem_flatMap.1 h
  obtain ⟨l, _, rfl⟩ := List.mem_map.1 hl
  exact width_fitted n _

end NoteQuery.Output
