import NoteQuery.Proofs.Text.Lines
import NoteQuery.Proofs.Text.Pieces
import NoteQuery.Query.Clause

/-! Laying a query out anew. A query is cut into lines, and the lines are stripped and joined again; this
leaves its words as they are, with other blanks between them. The induction is on the words: a gap
without a line break stays, and one with a line break becomes one line feed. -/

namespace NoteQuery
set_option autoImplicit false
open Text

def shownLines (cs : List Char) : List (List Char) :=
  ((lineContents cs).map stripChars).filter fun l => !l.isEmpty

section
variable {c : Char} {cs p gap text : List Char}

theorem shownLines_eq_cons {l : Line} {ls : List Line} (h : lines cs = l :: ls) :
    shownLines cs = [stripChars l.content].filter (fun l => !l.isEmpty) ++
      ((ls.map (·.content)).map stripChars).filter fun l => !l.isEmpty := by
  rw [shownLines, lineContents, h, List.map_cons, List.map_cons, ← List.filter_append]
  rfl

theorem shownLines_lineFeed (cs : List Char) : shownLines ('\n' :: cs) = shownLines cs := by
  have hlines : lines ('\n' :: cs) = ⟨[], ['\n']⟩ :: lines cs := rfl
  rw [shownLines_eq_cons hlines]
  rfl

theorem shownLines_break (h : isLineBreak c) (cs : List Char) :
    shownLines (c :: cs) = shownLines cs := by
  obtain ⟨ending, rest, hlines, hrest⟩ := lines_cons_of_isLineBreak h cs
  have hskip : shownLines (c :: cs) = shownLines rest := by
    rw [shownLines_eq_cons hlines]
    rfl
  rcases hrest with rfl | rfl
  · exact hskip
  · rw [hskip, shownLines_lineFeed]

theorem shownLines_blank (h : isBlank c) (cs : List Char) : shownLines (c :: cs) = shownLines cs := by
  cases hbreak : isLineBreak c with
  | true => exact shownLines_break hbreak cs
  | false =>
    have hlines := lines_cons_of_not_isLineBreak hbreak cs
    cases hcs : lines cs with
    | nil =>
      rw [hcs] at hlines
      rw [shownLines_eq_cons hlines, stripChars_cons h, shownLines, lineContents, hcs]
      rfl
    | cons l ls =>
      rw [hcs] at hlines
      rw [shownLines_eq_cons hlines, shownLines_eq_cons hcs, stripChars_cons h]

theorem shownLines_blanks (h : Blanks gap) (cs : List Char) :
    shownLines (gap ++ cs) = shownLines cs := by
  induction gap with
  | nil => rfl
  | cons c gap ih =>
    rw [List.cons_append, shownLines_blank (h c List.mem_cons_self)]
    exact ih fun d hd => h d (List.mem_cons_of_mem c hd)

theorem filter_solid (h : Solid p) : [p].filter (fun l => !l.isEmpty) = [p] := by
  cases p with
  | nil => exact absurd rfl h.1
  | cons c p => rfl

/-- A word is a line of its own where a line break comes after it. -/
theorem shownLines_word_break (hp : Solid p) (hline : OneLine p) (hgap : Blanks gap)
    (hgapline : OneLine gap) (hc : isLineBreak c) (cs : List Char) :
    shownLines (p ++ gap ++ c :: cs) = p :: shownLines cs := by
  obtain ⟨ending, rest, hlines, _⟩ := lines_cons_of_isLineBreak hc cs
  have hall : lines (p ++ gap ++ c :: cs) = ⟨p ++ gap, ending⟩ :: lines rest := by
    rw [lines_append (hline.append hgapline), hlines, foldr_extendFirst, List.append_nil]
  have hstrip : stripChars (p ++ gap) = p := by
    have h := stripChars_around .nil hp hgap
    rw [List.nil_append] at h
    exact h
  rw [← shownLines_break hc cs, shownLines_eq_cons hall, shownLines_eq_cons hlines, hstrip,
    filter_solid hp]
  rfl

theorem exists_solid (hne : cs ≠ []) (hhead : ∀ c ∈ cs.head?, isBlank c = false) :
    ∃ s trail, cs = s ++ trail ∧ Solid s ∧ Blanks trail := by
  have hsplit : dropTrailingBlanks cs ++ (cs.reverse.takeWhile isBlank).reverse = cs := by
    rw [dropTrailingBlanks, ← List.reverse_append, List.takeWhile_append_dropWhile,
      List.reverse_reverse]
  have htrail : Blanks (cs.reverse.takeWhile isBlank).reverse := by
    intro c hc
    exact List.all_eq_true.mp List.all_takeWhile c (List.mem_reverse.mp hc)
  have hstrip : stripChars cs = dropTrailingBlanks cs := by
    rw [stripChars, skipBlanks_of_head hhead]
  refine ⟨dropTrailingBlanks cs, _, hsplit.symm, ?_, htrail⟩
  rw [← hstrip]
  apply solid_stripChars
  intro hnil
  rw [← hstrip, hnil, List.nil_append] at hsplit
  cases cs with
  | nil => exact hne rfl
  | cons c cs =>
    have hc := htrail c (by rw [hsplit]; exact List.mem_cons_self)
    rw [hhead c rfl] at hc
    cases hc

/-- A word stays on the line of the next one where no line break is between them. -/
theorem shownLines_word (hp : Solid p) (hline : OneLine p) (hgap : OneLine gap) (htext : Solid text)
    {l : List Char} {ls : List (List Char)} (h : shownLines text = l :: ls) :
    shownLines (p ++ gap ++ text) = (p ++ gap ++ l) :: ls := by
  cases text with
  | nil => exact absurd rfl htext.1
  | cons c cs =>
    have hblank := htext.2.1 c rfl
    have hbreak := isLineBreak_of_notBlank hblank
    obtain ⟨m, ms, hlines, hm⟩ : ∃ m ms, lines (c :: cs) = m :: ms ∧ m.content.head? = some c := by
      rw [lines_cons_of_not_isLineBreak hbreak]
      cases lines cs with
      | nil => exact ⟨_, _, rfl, rfl⟩
      | cons m ms => exact ⟨_, _, rfl, rfl⟩
    have hcontent : ∃ s trail, m.content = s ++ trail ∧ Solid s ∧ Blanks trail := by
      apply exists_solid
      · intro hnil
        rw [hnil] at hm
        cases hm
      · rw [hm]
        intro d hd
        cases hd
        exact hblank
    obtain ⟨s, trail, hs, hsolid, htrail⟩ := hcontent
    have hstrip : stripChars m.content = s := by
      have hstrip := stripChars_around .nil hsolid htrail
      rw [List.nil_append] at hstrip
      rw [hs, hstrip]
    have hall : lines (p ++ gap ++ c :: cs) = ⟨p ++ gap ++ m.content, m.ending⟩ :: ms := by
      rw [lines_append (hline.append hgap), hlines, foldr_extendFirst]
    have hwhole := hp.append hsolid gap
    have hstripall : stripChars (p ++ gap ++ m.content) = p ++ gap ++ s := by
      have hstrip := stripChars_around .nil hwhole htrail
      rw [List.nil_append] at hstrip
      rw [hs, ← List.append_assoc, hstrip]
    rw [shownLines_eq_cons hlines, hstrip, filter_solid hsolid] at h
    obtain ⟨rfl, rfl⟩ := List.cons.inj h
    rw [shownLines_eq_cons hall, hstripall, filter_solid hwhole]
    rfl

end

/-- The words of a text stay what they are when its lines are joined again. -/
theorem spaced_shownLines {ps : List (List Char)} {text : List Char} (h : Spaced ps text)
    (hsolid : ∀ p ∈ ps, Solid p) (hline : ∀ p ∈ ps, OneLine p) :
    ∃ l ls, shownLines text = l :: ls ∧ Spaced ps (joinWith ['\n'] (l :: ls)) := by
  induction h with
  | one p =>
    have hp := hsolid p List.mem_cons_self
    refine ⟨p, [], ?_, .one p⟩
    rw [shownLines_eq_cons (lines_of_oneLine (hline p List.mem_cons_self) hp.1),
      stripChars_of_solid hp, filter_solid hp]
    rfl
  | @more p gap text ps hne hgap htext ih =>
    have hp := hsolid p List.mem_cons_self
    have hpline := hline p List.mem_cons_self
    have hrest : ∀ q ∈ ps, Solid q := fun q hq => hsolid q (List.mem_cons_of_mem p hq)
    obtain ⟨l, ls, hlines, hspaced⟩ := ih hrest fun q hq => hline q (List.mem_cons_of_mem p hq)
    rcases oneLine_or_break gap with hgapline | ⟨front, c, back, rfl, hfront, hc⟩
    · refine ⟨_, ls, shownLines_word hp hpline hgapline (htext.solid hrest) hlines, ?_⟩
      rw [joinWith_append]
      exact .more hne hgap hspaced
    · have hfrontblanks : Blanks front := fun d hd => hgap d (List.mem_append_left _ hd)
      have hback : Blanks back := fun d hd => hgap d (by simp [hd])
      refine ⟨p, l :: ls, ?_, .more (by simp) (.cons (by decide) .nil) hspaced⟩
      rw [List.append_assoc, List.append_assoc, List.cons_append, ← List.append_assoc,
        shownLines_word_break hp hpline hfrontblanks hfront hc, shownLines_blanks hback, hlines]

end NoteQuery
