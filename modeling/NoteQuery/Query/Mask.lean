/-!
What a text shows outside quotes and brackets. The contents of quotes are masked and every character
has a depth of brackets, so that the words of a query can be looked for where they count. Main
statement: masking keeps the length of a text.
-/

namespace NoteQuery
set_option autoImplicit false

/-- Where a reader stands with respect to quotes. -/
inductive Quoting where
  | outside
  | inside (quote : Char)
  /-- After a backslash inside quotes. -/
  | escaped (quote : Char)
  deriving DecidableEq

namespace Quoting

def isQuote (c : Char) : Bool := c == '"' || c == '\''

def next : Quoting → Char → Quoting
  | outside, c => if isQuote c then inside c else outside
  | inside q, c => if c == '\\' then escaped q else if c == q then outside else inside q
  | escaped q, _ => inside q

/-- Whether a character is a content of quotes; the quotes themselves are not. -/
def hides : Quoting → Char → Bool
  | outside, _ => false
  | inside q, c => c == '\\' || c != q
  | escaped _, _ => true

/-- The character that stands for a hidden one. -/
def mask : Char := '_'

end Quoting

def maskFrom (q : Quoting) : List Char → List Char
  | [] => []
  | c :: cs => (if q.hides c then Quoting.mask else c) :: maskFrom (q.next c) cs

/-- The text with the contents of its quotes masked. -/
def maskQuoted (cs : List Char) : List Char := maskFrom .outside cs

theorem length_maskFrom (q : Quoting) (cs : List Char) : (maskFrom q cs).length = cs.length := by
  induction cs generalizing q with
  | nil => rfl
  | cons c cs ih => simp [maskFrom, ih]

theorem length_maskQuoted (cs : List Char) : (maskQuoted cs).length = cs.length :=
  length_maskFrom .outside cs

def opensBracket (c : Char) : Bool := c == '(' || c == '['

def closesBracket (c : Char) : Bool := c == ')' || c == ']'

/-- The depth of brackets at each character, from a depth on. A closing bracket belongs outside what
it closes, and closes nothing at depth zero. -/
def depthsFrom (depth : Nat) : List Char → List Nat
  | [] => []
  | c :: cs =>
    let here := if closesBracket c then depth - 1 else depth
    here :: depthsFrom (if opensBracket c then here + 1 else here) cs

def nestingDepths (cs : List Char) : List Nat := depthsFrom 0 cs

theorem length_depthsFrom (depth : Nat) (cs : List Char) :
    (depthsFrom depth cs).length = cs.length := by
  induction cs generalizing depth with
  | nil => rfl
  | cons c cs ih => simp [depthsFrom, ih]

/-- A character of a text with what shows of it and its depth. -/
structure Cell where
  char : Char
  shown : Char
  depth : Nat
  deriving DecidableEq

namespace Cell

/-- The cells of a text. -/
def ofChars (cs : List Char) : List Cell :=
  let masked := maskQuoted cs
  (cs.zip (masked.zip (nestingDepths masked))).map fun x => ⟨x.1, x.2.1, x.2.2⟩

def text (cells : List Cell) : List Char := cells.map (·.char)

def shownText (cells : List Cell) : List Char := cells.map (·.shown)

theorem text_ofChars (cs : List Char) : text (ofChars cs) = cs := by
  have h : (nestingDepths (maskQuoted cs)).length = cs.length := by
    rw [nestingDepths, length_depthsFrom, length_maskQuoted]
  simp only [text, ofChars, List.map_map]
  exact List.map_fst_zip (by simp [h, length_maskQuoted])

end Cell

/-- A separator read at a cell: what it says, and how many further cells it takes. The cell before it
is given, if there is one. -/
abbrev SeparatorReader (κ : Type) := Option Cell → Cell → List Cell → Option (κ × Nat)

/-- A separator with the piece that follows it. -/
structure Cut (κ : Type) where
  key : κ
  separator : List Cell
  piece : List Cell

/-- Cuts at the separators outside brackets; answers the first piece, and each separator with the
piece that follows it. Those inside brackets are passed over as a whole. -/
def cutAt {κ : Type} (read? : SeparatorReader κ) (before : Option Cell) (piece : List Cell) :
    List Cell → List Cell × List (Cut κ)
  | [] => (piece.reverse, [])
  | c :: cs =>
    match read? before c cs with
    | none => cutAt read? (some c) (c :: piece) cs
    | some (k, extra) =>
      let taken := c :: cs.take extra
      if c.depth = 0 then
        let r := cutAt read? taken.getLast? [] (cs.drop extra)
        (piece.reverse, ⟨k, taken, r.1⟩ :: r.2)
      else cutAt read? taken.getLast? (taken.reverse ++ piece) (cs.drop extra)
termination_by cells => cells.length

def Cell.cut {κ : Type} (read? : SeparatorReader κ) (cs : List Char) : List Cell × List (Cut κ) :=
  cutAt read? none [] (Cell.ofChars cs)

end NoteQuery
