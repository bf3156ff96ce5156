import NoteQuery.Note.Outlink
import NoteQuery.Proofs.Order.Leaders
import NoteQuery.Proofs.Text.Characters

/-! The links of a text that is written with links. A link is read from its brackets to the first bracket that
closes it, so its target and its other words may have opening brackets and line breaks in them. Between links
nothing is read, as long as no opening bracket is there. -/

namespace NoteQuery.Note
set_option autoImplicit false
open Text

/-- A link: its target, and a heading of the target and other words for it where it has them. -/
structure Link where
  target : List Char
  heading? : Option (List Char)
  words? : Option (List Char)
  plainTarget : ∀ c ∈ target, c ≠ ']' ∧ c ≠ '|' ∧ c ≠ '#'
  notBlank : stripChars target ≠ []
  plainHeading : ∀ h ∈ heading?, ∀ c ∈ h, c ≠ ']' ∧ c ≠ '|'
  plainWords : ∀ w ∈ words?, ∀ c ∈ w, c ≠ ']'

/-- A part that may be left out, behind its mark. -/
def markedPart (mark : Char) : Option (List Char) → List Char
  | none => []
  | some cs => mark :: cs

namespace Link

/-- The link as it is written. -/
def chars (l : Link) : List Char :=
  '[' :: '[' :: (l.target ++ (markedPart '#' l.heading? ++ (markedPart '|' l.words? ++ [']', ']'])))

/-- The note that the link leads to. -/
def note (l : Link) : String := String.ofList (stripChars l.target)

end Link

/-- A link and what stands behind it, up to the next one. -/
structure Passage extends Link where
  after : List Char
  noBracket : '[' ∉ after

def Passage.text (p : Passage) : List Char := p.chars ++ p.after

section
variable {cs rest target : List Char} {mark c : Char}

/-! ### One link -/

theorem head?_markedPart {q : Char → Prop} (hmark : q mark) (hrest : ∀ c ∈ rest.head?, q c)
    (part? : Option (List Char)) : ∀ c ∈ (markedPart mark part? ++ rest).head?, q c := by
  cases part? with
  | none => exact hrest
  | some cs =>
    rintro c ⟨⟩
    exact hmark

theorem skipPart_markedPart {inside : Char → Bool} {part? : Option (List Char)}
    (hpart : ∀ cs ∈ part?, ∀ c ∈ cs, inside c) (hrest : ∀ c ∈ rest.head?, c ≠ mark ∧ inside c = false) :
    skipPart mark inside (markedPart mark part? ++ rest) = rest := by
  cases part? with
  | none =>
    cases rest with
    | nil => rfl
    | cons c rest => rw [markedPart, List.nil_append, skipPart, if_neg (hrest c rfl).1]
  | some cs =>
    rw [markedPart, List.cons_append, skipPart, if_pos rfl]
    exact dropWhile_append (hpart cs rfl) fun c hc => (hrest c hc).2

namespace Link
variable (l : Link)

theorem isTargetChar_of_mem (hc : c ∈ l.target) : isTargetChar c := by
  obtain ⟨hclose, hbar, hhash⟩ := l.plainTarget c hc
  simp [isTargetChar, hclose, hbar, hhash]

theorem isHeadingChar_of_mem : ∀ h ∈ l.heading?, ∀ c ∈ h, isHeadingChar c := by
  intro h hh c hc
  obtain ⟨hclose, hbar⟩ := l.plainHeading h hh c hc
  simp [isHeadingChar, hclose, hbar]

theorem target_ne_nil : l.target ≠ [] := by
  intro hnil
  have hblank := l.notBlank
  rw [hnil] at hblank
  exact hblank rfl

/-- No part goes on into the next one, or into the closing brackets. -/
theorem head?_ends (rest : List Char) {q : Char → Prop} (hhash : q '#') (hbar : q '|') (hclose : q ']') :
    ∀ c ∈ (markedPart '#' l.heading? ++ (markedPart '|' l.words? ++ ']' :: rest)).head?, q c := by
  refine head?_markedPart hhash (head?_markedPart hbar ?_ l.words?) l.heading?
  rintro c ⟨⟩
  exact hclose

theorem afterTarget_written (rest : List Char) : afterTarget (l.target ++
    (markedPart '#' l.heading? ++ (markedPart '|' l.words? ++ ']' :: rest))) = ']' :: rest := by
  have hwords : skipPart '|' (· != ']') (markedPart '|' l.words? ++ ']' :: rest) = ']' :: rest := by
    refine skipPart_markedPart (fun w hw c hc => bne_iff_ne.mpr (l.plainWords w hw c hc)) ?_
    rintro c ⟨⟩
    decide
  have hheading : skipPart '#' isHeadingChar (markedPart '#' l.heading? ++
      (markedPart '|' l.words? ++ ']' :: rest)) = markedPart '|' l.words? ++ ']' :: rest := by
    refine skipPart_markedPart l.isHeadingChar_of_mem (head?_markedPart (by decide) ?_ l.words?)
    rintro c ⟨⟩
    decide
  rw [afterTarget, dropWhile_append (fun c => l.isTargetChar_of_mem) (l.head?_ends rest rfl rfl rfl), hheading,
    hwords]

/-- A link is read to its end, whatever comes then. -/
theorem linkAhead?_chars (rest : List Char) : linkAhead? (l.chars ++ rest) = some (l.target, rest) := by
  have hchars : l.chars ++ rest = '[' :: '[' :: (l.target ++
      (markedPart '#' l.heading? ++ (markedPart '|' l.words? ++ ']' :: ']' :: rest))) := by
    simp only [chars, List.cons_append, List.append_assoc, List.nil_append]
  have htarget := takeWhile_append (fun c => l.isTargetChar_of_mem)
    (l.head?_ends (']' :: rest) (q := fun c => isTargetChar c = false) rfl rfl rfl)
  rw [hchars, linkAhead?]
  simp only [l.afterTarget_written, htarget, List.isEmpty_eq_false_iff.mpr l.target_ne_nil, Bool.false_eq_true,
    if_false]

end Link

/-! ### All links -/

theorem linkTargets_of_linkAhead? (h : linkAhead? cs = some (target, rest)) :
    linkTargets cs = target :: linkTargets rest := by
  rw [linkTargets]
  split
  · next hahead =>
    rw [h] at hahead
    cases hahead
    rfl
  · next hahead =>
    rw [h] at hahead
    cases hahead

theorem linkTargets_cons (hc : c ≠ '[') (cs : List Char) : linkTargets (c :: cs) = linkTargets cs := by
  have hnone : linkAhead? (c :: cs) = none := by
    rw [linkAhead?]
    rintro cs ⟨⟩
    exact hc rfl
  rw [linkTargets]
  split
  · next hahead =>
    rw [hnone] at hahead
    cases hahead
  · rfl

theorem linkTargets_append (hcs : '[' ∉ cs) (rest : List Char) :
    linkTargets (cs ++ rest) = linkTargets rest := by
  induction cs with
  | nil => rfl
  | cons c cs ih =>
    rw [List.mem_cons, not_or] at hcs
    rw [List.cons_append, linkTargets_cons (Ne.symm hcs.1), ih hcs.2]

theorem linkTargets_passages (ps : List Passage) :
    linkTargets (ps.flatMap Passage.text) = ps.map fun p => p.target := by
  induction ps with
  | nil =>
    rw [List.flatMap_nil, List.map_nil, linkTargets]
    rfl
  | cons p ps ih =>
    rw [List.flatMap_cons, Passage.text, List.append_assoc, linkTargets_of_linkAhead? (p.linkAhead?_chars _),
      linkTargets_append p.noBracket, ih, List.map_cons]

/-- A text links to the notes that its links lead to, each once, in the order of their first links. -/
theorem outlinks_passages (lead : List Char) (hlead : '[' ∉ lead) (ps : List Passage) :
    Order.FirstAppearances (ps.map fun p => p.note) (outlinks (lead ++ ps.flatMap Passage.text)) := by
  have hnames : ((ps.map fun p => p.target).map stripChars).filter (fun t => !t.isEmpty) =
      ps.map fun p => stripChars p.target := by
    rw [List.map_map, List.filter_eq_self.mpr]
    · rfl
    · intro t ht
      obtain ⟨p, -, rfl⟩ := List.mem_map.mp ht
      simpa using p.notBlank
  have hnotes : (ps.map fun p => p.note) = (ps.map fun p => stripChars p.target).map String.ofList := by
    rw [List.map_map]
    rfl
  rw [outlinks, linkTargets_append hlead, linkTargets_passages, hnames, hnotes,
    ← Order.eraseDups_map fun _ _ => String.ofList_injective]
  exact Order.firstAppearances_eraseDups _

/-- Brackets and line breaks within links, a heading that is left blank, and a note with two links to it. -/
theorem outlinks_passages_brackets : '[' ∉ "On ".toList ∧
    Order.FirstAppearances ["[a\nb", "c", "[a\nb"]
      (outlinks "On [[ [a\nb#|d[\n]], [[c#e]]]\n[[[a\nb ]].".toList) := by
  refine ⟨by decide, outlinks_passages "On ".toList (by decide) [
    { target := " [a\nb".toList, heading? := some [], words? := some "d[\n".toList
      plainTarget := by decide, notBlank := by decide, plainHeading := by decide, plainWords := by decide
      after := ", ".toList, noBracket := by decide },
    { target := "c".toList, heading? := some ['e'], words? := none
      plainTarget := by decide, notBlank := by decide, plainHeading := by decide, plainWords := by decide
      after := "]\n".toList, noBracket := by decide },
    { target := "[a\nb ".toList, heading? := none, words? := none
      plainTarget := by decide, notBlank := by decide, plainHeading := by decide, plainWords := by decide
      after := ['.'], noBracket := by decide }]⟩

end
end NoteQuery.Note
