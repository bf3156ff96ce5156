import NoteQuery.Text.Blank

/-!
Links from a note to others, written `[[target]]`, with a heading of the target behind `#` and other
words for it behind `|`.
-/

namespace NoteQuery.Note
set_option autoImplicit false

def isTargetChar (c : Char) : Bool := c != ']' && c != '|' && c != '#'

def isHeadingChar (c : Char) : Bool := c != ']' && c != '|'

/-- What follows a part of a link that may be left out. -/
def skipPart (mark : Char) (inside : Char → Bool) : List Char → List Char
  | [] => []
  | c :: cs => if c = mark then cs.dropWhile inside else c :: cs

theorem length_skipPart_le (mark : Char) (inside : Char → Bool) (cs : List Char) :
    (skipPart mark inside cs).length ≤ cs.length := by
  cases cs with
  | nil => exact Nat.le_refl _
  | cons c cs =>
    simp only [skipPart]
    split
    · exact Nat.le_succ_of_le (List.dropWhile_sublist inside).length_le
    · exact Nat.le_refl _

/-- What follows the target of a link, from its end on. -/
def afterTarget (cs : List Char) : List Char :=
  skipPart '|' (· != ']') (skipPart '#' isHeadingChar (cs.dropWhile isTargetChar))

theorem length_afterTarget_le (cs : List Char) : (afterTarget cs).length ≤ cs.length :=
  Nat.le_trans (length_skipPart_le ..) <|
    Nat.le_trans (length_skipPart_le ..) (List.dropWhile_sublist isTargetChar).length_le

/-- The target of the link that a text begins with, and what follows the link. -/
def linkAhead? : List Char → Option (List Char × List Char)
  | '[' :: '[' :: cs =>
    let target := cs.takeWhile isTargetChar
    match afterTarget cs with
    | ']' :: ']' :: rest => if target.isEmpty then none else some (target, rest)
    | _ => none
  | _ => none

theorem length_of_linkAhead? {cs target rest : List Char} (h : linkAhead? cs = some (target, rest)) :
    rest.length < cs.length := by
  unfold linkAhead? at h
  split at h
  · next cs =>
    simp only at h
    split at h
    · next r hr =>
      split at h
      · simp at h
      · simp only [Option.some.injEq, Prod.mk.injEq] at h
        have hl := length_afterTarget_le cs
        rw [hr, ← h.2.symm] at hl
        simp only [List.length_cons] at hl ⊢
        omega
    · simp at h
  · simp at h

/-- The targets of all links, from left to right. -/
def linkTargets (cs : List Char) : List (List Char) :=
  match _h : linkAhead? cs with
  | some (target, rest) => target :: linkTargets rest
  | none =>
    match cs with
    | [] => []
    | _ :: cs => linkTargets cs
termination_by cs.length
decreasing_by
  · exact length_of_linkAhead? (by assumption)
  · exact Nat.lt_succ_self _

/-- The notes that a text links to, each once, in the order of the first link to it. -/
def outlinks (cs : List Char) : List String :=
  (((linkTargets cs).map Text.stripChars).filter fun t => !t.isEmpty).eraseDups.map String.ofList

end NoteQuery.Note
