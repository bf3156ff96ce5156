import NoteQuery.Markup.Basic
import NoteQuery.Number.Binary64
import NoteQuery.Output.Basic
import NoteQuery.Output.Wrap
import NoteQuery.Text.Line

/-!
Drawing tables. Columns are as wide as their widest cell; where they do not fit on a terminal, the
widest are narrowed until they do.
-/

namespace NoteQuery.Output
set_option autoImplicit false
open NoteQuery.Text

/-! ### Widths -/

/-- The columns that the longest line of a text takes. -/
def textWidth (cs : List Char) : Nat := (((lineContents cs).map width).max?).getD 0

/-- Blanks on both sides of a cell. -/
def padding : Nat := 2

/-- The columns that a cell takes where there are `most`. -/
def cellWidth (most : Nat) (cs : List Char) : Nat :=
  if most ≤ padding then most else min (min (textWidth cs) most + padding) most

def columnWidth (most : Nat) (column : List (List Char)) : Nat :=
  ((column.map (cellWidth most)).max?).getD most

/-- Takes `total` from values that are marked, in equal parts, but from each no more than its share
of `limits`. -/
def reduceEvenly (total marked : Nat) : List (Nat × Bool × Nat) → List Nat
  | [] => []
  | (value, isMarked, limit) :: rest =>
    if isMarked && 0 < marked then
      let part := min limit (Binary64.divNearest total marked)
      (value - part) :: reduceEvenly (total - part) (marked - 1) rest
    else value :: reduceEvenly total marked rest

/-- Narrows the widest columns, at most down to the width of the next ones. -/
def narrowOnce (excess : Nat) (widths : List Nat) : List Nat :=
  let widest := (widths.max?).getD 0
  let next := ((widths.filter (· ≠ widest)).max?).getD 0
  let limit := min excess (widest - next)
  let marked := widths.map fun w => (w, w == widest && limit != 0, limit)
  reduceEvenly excess (marked.filter (·.2.1)).length marked

def totalWidth (widths : List Nat) : Nat := widths.foldl (· + ·) 0

/-- Narrows columns until they take no more than `most`. -/
def narrow (most : Nat) : Nat → List Nat → List Nat
  | 0, widths => widths
  | fuel + 1, widths =>
    if totalWidth widths ≤ most then widths
    else narrow most fuel (narrowOnce (totalWidth widths - most) widths)

/-- The widths of columns on a terminal that has `most` columns for them. -/
def columnWidths (most : Nat) (columns : List (List (List Char))) : List Nat :=
  let wanted := columns.map fun c => max 1 (columnWidth most c)
  if totalWidth wanted ≤ most then wanted
  else
    let narrowed := narrow most (totalWidth wanted + 1) wanted
    List.zipWith columnWidth narrowed columns

/-! ### Drawing -/

/-- The lines of a cell, with blanks on both sides; there are none where only blanks would fit. -/
def cellLines (w : Nat) (cs : List Char) : List (List Char) :=
  if w ≤ padding then [] else (columnLines (w - padding) cs).map fun l => ' ' :: l ++ [' ']

/-- Cells side by side. Cells with fewer lines than the others get blank lines, in a heading above
their text, otherwise below it. -/
def rowLines (isHeading : Bool) (bar : Char) (widths : List Nat) (cells : List (List Char)) :
    List (List Char) :=
  let blocks := List.zipWith cellLines widths cells
  let height := max 1 (((blocks.map List.length).max?).getD 1)
  let full := List.zipWith (fun w b =>
    let missing := List.replicate (height - b.length) (blanks w)
    if isHeading then missing ++ b else b ++ missing) widths blocks
  (List.range height).map fun i =>
    bar :: joinWith [bar] (full.map fun b => (b[i]?).getD []) ++ [bar]

/-- A line between or around rows. -/
def rule (left line cross right : Char) (widths : List Nat) : List Char :=
  left :: joinWith [cross] (widths.map fun w => List.replicate w line) ++ [right]

/-- What a terminal shows for markup. -/
def shownText (s : String) : List Char := (Markup.shown s.toList).filter fun c => !movesCursor c

/-- The lines of a table on a terminal of `most` columns. -/
def tableLines (most : Nat) (t : MarkedTable) : List (List Char) :=
  let heading := t.heading.map shownText
  let rows := t.rows.map fun r => r.map shownText
  let columns := heading.zipIdx.map fun h => h.1 :: rows.map fun r => (r[h.2]?).getD []
  let widths := columnWidths (most - (heading.length + 1)) columns
  [rule '┏' '━' '┳' '┓' widths] ++ rowLines true '┃' widths heading ++
    [rule '┡' '━' '╇' '┩' widths] ++ rows.flatMap (rowLines false '│' widths) ++
    [rule '└' '─' '┴' '┘' widths]

end NoteQuery.Output
