import NoteQuery.Text.Blank
import NoteQuery.Text.Line

/-!
The frontmatter of a note: the lines between a first line of three dashes and the next such line.
Blanks around the dashes do not count. Main statement: cutting it off loses nothing.
-/

namespace NoteQuery.Note
set_option autoImplicit false
open NoteQuery.Text

def fence : List Char := ['-', '-', '-']

def isFence (l : Line) : Bool := stripChars l.content == fence

/-- The lines before the first fence, the fence, and the lines after it. -/
def cutAtFence? : List Line → Option (List Line × Line × List Line)
  | [] => none
  | l :: ls => if isFence l then some ([], l, ls) else (cutAtFence? ls).map fun r => (l :: r.1, r.2)

/-- The frontmatter, if there is one, and the rest of the text. -/
def splitFrontmatter (cs : List Char) : Option (List Char) × List Char :=
  match lines cs with
  | [] => (none, cs)
  | first :: ls =>
    if isFence first then
      match cutAtFence? ls with
      | some (front, _, body) => (some (Line.joined front), Line.joined body)
      | none => (none, cs)
    else (none, cs)

theorem eq_append_of_cutAtFence? {ls before after : List Line} {l : Line}
    (h : cutAtFence? ls = some (before, l, after)) : ls = before ++ l :: after := by
  induction ls generalizing before with
  | nil => simp [cutAtFence?] at h
  | cons k ls ih =>
    simp only [cutAtFence?] at h
    split at h
    · simp only [Option.some.injEq, Prod.mk.injEq] at h
      obtain ⟨rfl, rfl, rfl⟩ := h
      rfl
    · obtain ⟨r, hr, he⟩ := Option.map_eq_some_iff.1 h
      simp only [Prod.mk.injEq] at he
      obtain ⟨rfl, he⟩ := he
      rw [@ih r.1 (by rw [hr, ← he]), List.cons_append]

theorem isFence_of_cutAtFence? {ls before after : List Line} {l : Line}
    (h : cutAtFence? ls = some (before, l, after)) : isFence l = true := by
  induction ls generalizing before with
  | nil => simp [cutAtFence?] at h
  | cons k ls ih =>
    simp only [cutAtFence?] at h
    split at h
    · next hk =>
      simp only [Option.some.injEq, Prod.mk.injEq] at h
      rw [← h.2.1, hk]
    · obtain ⟨r, hr, he⟩ := Option.map_eq_some_iff.1 h
      simp only [Prod.mk.injEq] at he
      exact @ih r.1 (by rw [hr, ← he.2])

end NoteQuery.Note
