import NoteQuery.Note.Frontmatter
import NoteQuery.Proofs.Text.Lines

/-! Frontmatter cut off and put back. The first line and the first line after it that shows three dashes are the
fences; what is between them, what comes after them and the fences themselves are the text. So a text that is
written with fences around lines that are none is cut at these fences. -/

namespace NoteQuery.Note
set_option autoImplicit false
open Text

/-- Nothing is left of a text without the blanks around it but three dashes. -/
def ShowsFence (cs : List Char) : Prop := stripChars cs = fence

/-- A single line, with how it ends, that shows a fence. -/
def IsFenceLine (cs : List Char) : Prop := (∃ l, lines cs = [l]) ∧ ShowsFence cs

/-- A text made of two fences, whole lines between them that are none, and whole lines after them. -/
structure IsFenced (cs opening front closing body : List Char) : Prop where
  text : cs = opening ++ front ++ closing ++ body
  wholeLines : lines cs = lines opening ++ lines front ++ lines closing ++ lines body
  isOpening : IsFenceLine opening
  isClosing : IsFenceLine closing
  between : ∀ l ∈ lines front, ¬ShowsFence l.chars

section
variable {cs opening front closing body : List Char} {ls before after : List Line} {l : Line}

/-! ### Lines -/

theorem isFence_iff (h : l ∈ lines cs) : isFence l ↔ ShowsFence l.chars := by
  rw [isFence, beq_iff_eq, ShowsFence, Line.chars, stripChars_append_blanks (blanks_ending h)]

theorem not_isFence (h : ∀ l ∈ lines cs, ¬ShowsFence l.chars) : ∀ l ∈ lines cs, ¬isFence l :=
  fun l hl hfence => h l hl ((isFence_iff hl).mp hfence)

theorem isFenceLine_chars (hl : l ∈ lines cs) (hfence : isFence l) : IsFenceLine l.chars :=
  ⟨⟨l, lines_chars hl⟩, (isFence_iff hl).mp hfence⟩

theorem IsFenceLine.exists_line (h : IsFenceLine cs) : ∃ l, lines cs = [l] ∧ isFence l := by
  obtain ⟨⟨l, hl⟩, hshows⟩ := h
  have hchars : cs = l.chars := by
    have hjoined := joined_lines cs
    rw [hl, Line.joined, List.flatMap_singleton] at hjoined
    exact hjoined.symm
  rw [hchars] at hshows
  exact ⟨l, hl, (isFence_iff (hl ▸ List.mem_singleton_self l)).mpr hshows⟩

/-! ### The cut -/

/-- The cut is at the first fence. -/
theorem not_isFence_of_cutAtFence? (h : cutAtFence? ls = some (before, l, after)) :
    ∀ k ∈ before, ¬isFence k := by
  induction ls generalizing before with
  | nil => cases h
  | cons k ls ih =>
    rw [cutAtFence?] at h
    split at h
    · cases h
      exact List.forall_mem_nil _
    · next hk =>
      obtain ⟨⟨front, r⟩, hr, heq⟩ := Option.map_eq_some_iff.mp h
      cases heq
      exact List.forall_mem_cons.mpr ⟨hk, ih hr⟩

theorem cutAtFence?_append (hbefore : ∀ k ∈ before, ¬isFence k) (hl : isFence l) (after : List Line) :
    cutAtFence? (before ++ l :: after) = some (before, l, after) := by
  induction before with
  | nil => rw [List.nil_append, cutAtFence?, if_pos hl]
  | cons k before ih =>
    obtain ⟨hk, hrest⟩ := List.forall_mem_cons.mp hbefore
    rw [List.cons_append, cutAtFence?, if_neg hk, ih hrest]
    rfl

/-- A text is cut at its fences. -/
theorem splitFrontmatter_of_isFenced (h : IsFenced cs opening front closing body) :
    splitFrontmatter cs = (some front, body) := by
  obtain ⟨first, hopening, hfirst⟩ := h.isOpening.exists_line
  obtain ⟨last, hclosing, hlast⟩ := h.isClosing.exists_line
  have hlines : lines cs = first :: (lines front ++ last :: lines body) := by
    rw [h.wholeLines, hopening, hclosing]
    simp only [List.append_assoc, List.cons_append, List.nil_append]
  rw [splitFrontmatter, hlines]
  simp only [hfirst, if_true, cutAtFence?_append (not_isFence h.between) hlast, joined_lines]

/-- Whole lines between fences make a text with fences. -/
theorem isFenced_of_lines {first last : Line} (h : lines cs = first :: (before ++ last :: after))
    (hfirst : isFence first) (hlast : isFence last) (hbefore : ∀ l ∈ before, ¬isFence l) :
    IsFenced cs first.chars (Line.joined before) last.chars (Line.joined after) := by
  have hmem {l : Line} (hl : l ∈ first :: (before ++ last :: after)) : l ∈ lines cs := by rwa [h]
  have hfirstmem : first ∈ lines cs := hmem (by simp)
  have hlastmem : last ∈ lines cs := hmem (by simp)
  obtain ⟨-, hrest⟩ := lines_joined_of_append [first] h
  obtain ⟨hfront, htail⟩ := lines_joined_of_append before hrest
  obtain ⟨-, hafter⟩ := lines_joined_of_append [last] htail
  refine ⟨?_, ?_, isFenceLine_chars hfirstmem hfirst, isFenceLine_chars hlastmem hlast, ?_⟩
  · rw [← joined_lines cs, h]
    simp only [Line.joined, List.flatMap_cons, List.flatMap_append, List.append_assoc]
  · rw [h, lines_chars hfirstmem, lines_chars hlastmem, hfront, hafter]
    simp only [List.append_assoc, List.cons_append, List.nil_append]
  · intro l hl
    rw [hfront] at hl
    exact fun hshows => hbefore l hl ((isFence_iff (hmem (by simp [hl]))).mpr hshows)

theorem splitFrontmatter_cases (cs : List Char) : splitFrontmatter cs = (none, cs) ∨
    ∃ opening front closing body, IsFenced cs opening front closing body := by
  cases hlines : lines cs with
  | nil =>
    left
    rw [splitFrontmatter, hlines]
  | cons first ls =>
    by_cases hfirst : isFence first
    · cases hcut : cutAtFence? ls with
      | none =>
        left
        rw [splitFrontmatter, hlines]
        simp only [hfirst, if_true, hcut]
      | some r =>
        right
        rw [eq_append_of_cutAtFence? hcut] at hlines
        exact ⟨_, _, _, _, isFenced_of_lines hlines hfirst (isFence_of_cutAtFence? hcut)
          (not_isFence_of_cutAtFence? hcut)⟩
    · left
      rw [splitFrontmatter, hlines]
      simp only [hfirst, Bool.false_eq_true, if_false]

/-- A written text has its fences where they are written. -/
theorem isFenced_written (hfront : EndsLine front) (hbetween : ∀ l ∈ lines front, ¬ShowsFence l.chars)
    (body : List Char) : IsFenced (fence ++ '\n' :: (front ++ (fence ++ '\n' :: body)))
      (fence ++ ['\n']) front (fence ++ ['\n']) body := by
  have hline : IsFenceLine (fence ++ ['\n']) := ⟨⟨⟨fence, ['\n']⟩, rfl⟩, rfl⟩
  have hends : EndsLine (fence ++ ['\n']) := by
    rintro c ⟨⟩
    rfl
  have hafter (cs : List Char) : lines (fence ++ ['\n'] ++ cs) = lines (fence ++ ['\n']) ++ lines cs :=
    lines_append_of_endsLine hends nofun
  have hinner : lines (front ++ (fence ++ ['\n'] ++ body)) = lines front ++ lines (fence ++ ['\n'] ++ body) :=
    lines_append_of_endsLine hfront nofun
  have htext : fence ++ '\n' :: (front ++ (fence ++ '\n' :: body)) =
      fence ++ ['\n'] ++ (front ++ (fence ++ ['\n'] ++ body)) := by
    simp only [List.append_assoc, List.singleton_append]
  refine ⟨?_, ?_, hline, hline, hbetween⟩
  · rw [htext]
    simp only [List.append_assoc]
  · rw [htext, hafter, hinner, hafter]
    simp only [List.append_assoc]

end

/-- Cutting frontmatter off loses nothing: the text comes back as it is, or it is two fences, the frontmatter
between them and the body. Every text with fences is cut at them, and so is every text written with them. -/
theorem splitFrontmatter_exact :
    (∀ cs, splitFrontmatter cs = (none, cs) ∨ ∃ opening front closing body,
      splitFrontmatter cs = (some front, body) ∧ IsFenced cs opening front closing body) ∧
    (∀ cs opening front closing body, IsFenced cs opening front closing body →
      splitFrontmatter cs = (some front, body)) ∧
    ∀ front body, EndsLine front → (∀ l ∈ lines front, ¬ShowsFence l.chars) →
      splitFrontmatter (fence ++ '\n' :: (front ++ (fence ++ '\n' :: body))) = (some front, body) := by
  refine ⟨fun cs => ?_, fun _ _ _ _ _ => splitFrontmatter_of_isFenced, ?_⟩
  · rcases splitFrontmatter_cases cs with hnone | ⟨opening, front, closing, body, h⟩
    · exact .inl hnone
    · exact .inr ⟨opening, front, closing, body, splitFrontmatter_of_isFenced h, h⟩
  · intro front body hfront hbetween
    exact splitFrontmatter_of_isFenced (isFenced_written hfront hbetween body)

example : splitFrontmatter "---\r\ndue: 1\x0b\n --- \rText".toList =
    (some "due: 1\x0b\n".toList, "Text".toList) := by decide

end NoteQuery.Note
