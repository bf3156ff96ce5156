/-!
Looking for one text in another. Main statement: cutting at the first occurrence and writing the
separator back gives the text again.
-/

namespace NoteQuery.Text
set_option autoImplicit false

/-- What follows `start` in a text that begins with it. -/
def after? : List Char → List Char → Option (List Char)
  | [], cs => some cs
  | _ :: _, [] => none
  | s :: start, c :: cs => if s = c then after? start cs else none

def startsWith (start cs : List Char) : Bool := (after? start cs).isSome

def endsWith (ending cs : List Char) : Bool := startsWith ending.reverse cs.reverse

/-- The parts before and after the first occurrence of `sep`. -/
def cut? (sep : List Char) : List Char → Option (List Char × List Char)
  | [] => if sep = [] then some ([], []) else none
  | c :: cs =>
    match after? sep (c :: cs) with
    | some rest => some ([], rest)
    | none => (cut? sep cs).map fun r => (c :: r.1, r.2)

def occursIn (needle cs : List Char) : Bool := (cut? needle cs).isSome

theorem eq_append_of_after? {start cs rest : List Char} (h : after? start cs = some rest) :
    cs = start ++ rest := by
  induction start generalizing cs with
  | nil => simp only [after?, Option.some.injEq] at h; simp [h]
  | cons s start ih =>
    cases cs with
    | nil => simp [after?] at h
    | cons c cs =>
      simp only [after?] at h
      split at h
      · next hc => rw [ih h, hc, List.cons_append]
      · simp at h

theorem eq_append_of_cut? {sep cs before rest : List Char}
    (h : cut? sep cs = some (before, rest)) : cs = before ++ sep ++ rest := by
  induction cs generalizing before with
  | nil =>
    simp only [cut?] at h
    split at h
    · next hs => simp at h; simp [h.1, h.2, hs]
    · simp at h
  | cons c cs ih =>
    simp only [cut?] at h
    split at h
    · next r hr =>
      simp only [Option.some.injEq, Prod.mk.injEq] at h
      rw [← h.1, ← h.2, List.nil_append]
      exact eq_append_of_after? hr
    · obtain ⟨r, hr, he⟩ := Option.map_eq_some_iff.1 h
      cases he
      simp [ih hr]

/-- The pieces between the occurrences of a separator that is not empty, found from left to
right. -/
def pieces (sep : List Char) (cs : List Char) : List (List Char) :=
  match h : cut? sep cs with
  | none => [cs]
  | some (before, rest) =>
    if hs : sep = [] then [cs]
    else
      have : rest.length < cs.length := by
        have hp : 0 < sep.length := List.length_pos_iff.2 hs
        rw [eq_append_of_cut? h]
        simp only [List.length_append]
        omega
      before :: pieces sep rest
termination_by cs.length

/-- Writes a separator between pieces. -/
def joinWith (sep : List Char) : List (List Char) → List Char
  | [] => []
  | [p] => p
  | p :: q :: ps => p ++ sep ++ joinWith sep (q :: ps)

/-- Writes `image` for the first occurrence of `needle`. -/
def replaceFirst (needle image cs : List Char) : List Char :=
  match cut? needle cs with
  | none => cs
  | some (before, rest) => before ++ image ++ rest

end NoteQuery.Text
