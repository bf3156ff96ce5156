import NoteQuery.Proofs.Text.Characters
import NoteQuery.Text.Line

/-! Words with blanks around and between them. A word starts and ends with no blank; what stands around it
is stripped, and what stands between words is not. -/

namespace NoteQuery.Text
set_option autoImplicit false

def Blanks (gap : List Char) : Prop := ∀ c ∈ gap, isBlank c

/-- A text that starts and ends with no blank. -/
def Solid (p : List Char) : Prop :=
  p ≠ [] ∧ (∀ c ∈ p.head?, isBlank c = false) ∧ ∀ c ∈ p.getLast?, isBlank c = false

/-- Words with blanks between each and the next. -/
inductive Spaced : List (List Char) → List Char → Prop
  | one (p : List Char) : Spaced [p] p
  | more {p gap text : List Char} {ps : List (List Char)} :
    gap ≠ [] → Blanks gap → Spaced ps text → Spaced (p :: ps) (p ++ gap ++ text)

/-- Words with blanks before each. -/
inductive Followed : List (List Char) → List Char → Prop
  | nil : Followed [] []
  | cons {p gap more : List Char} {ps : List (List Char)} :
    gap ≠ [] → Blanks gap → Followed ps more → Followed (p :: ps) (gap ++ (p ++ more))

section
variable {p q gap lead trail text : List Char} {ps qs : List (List Char)}

theorem Blanks.nil : Blanks [] := by
  intro c hc
  cases hc

theorem Blanks.cons {c : Char} (hc : isBlank c) (h : Blanks gap) : Blanks (c :: gap) := by
  intro d hd
  cases hd with
  | head => exact hc
  | tail _ hd => exact h d hd

theorem skipBlanks_append (h : Blanks lead) (cs : List Char) :
    skipBlanks (lead ++ cs) = skipBlanks cs := List.dropWhile_append_of_pos h

theorem skipBlanks_of_head {cs : List Char} (h : ∀ c ∈ cs.head?, isBlank c = false) :
    skipBlanks cs = cs := by
  cases cs with
  | nil => rfl
  | cons c cs =>
    rw [skipBlanks, List.dropWhile_cons_of_neg]
    simp [h c rfl]

theorem dropTrailingBlanks_append (h : Blanks trail) (hlast : ∀ c ∈ p.getLast?, isBlank c = false) :
    dropTrailingBlanks (p ++ trail) = p := by
  have hreverse : Blanks trail.reverse := fun c hc => h c (List.mem_reverse.mp hc)
  have hskip := skipBlanks_append hreverse p.reverse
  have hhead : ∀ c ∈ p.reverse.head?, isBlank c = false := by
    intro c hc
    rw [List.head?_reverse] at hc
    exact hlast c hc
  rw [skipBlanks_of_head hhead] at hskip
  rw [dropTrailingBlanks, List.reverse_append]
  change (skipBlanks (trail.reverse ++ p.reverse)).reverse = p
  rw [hskip, List.reverse_reverse]

theorem head?_append_of_solid (h : Solid p) (cs : List Char) : (p ++ cs).head? = p.head? := by
  cases p with
  | nil => exact absurd rfl h.1
  | cons c p => rfl

/-- What stands around a word is stripped. -/
theorem stripChars_around (hlead : Blanks lead) (h : Solid p) (htrail : Blanks trail) :
    stripChars (lead ++ p ++ trail) = p := by
  have hhead : ∀ c ∈ (p ++ trail).head?, isBlank c = false := by
    rw [head?_append_of_solid h]
    exact h.2.1
  rw [stripChars, List.append_assoc, skipBlanks_append hlead, skipBlanks_of_head hhead,
    dropTrailingBlanks_append htrail h.2.2]

theorem stripChars_blanks (h : Blanks gap) : stripChars gap = [] := by
  have hskip := skipBlanks_append h []
  rw [List.append_nil] at hskip
  rw [stripChars, hskip]
  rfl

theorem stripChars_of_solid (h : Solid p) : stripChars p = p := by
  have hstrip := stripChars_around .nil h .nil
  rw [List.nil_append, List.append_nil] at hstrip
  exact hstrip

theorem stripChars_cons {c : Char} (h : isBlank c) (cs : List Char) :
    stripChars (c :: cs) = stripChars cs := by
  have hskip := skipBlanks_append (Blanks.cons h .nil) cs
  rw [List.singleton_append] at hskip
  rw [stripChars, stripChars, hskip]

/-- A text is what is left of it with blanks around. -/
theorem exists_blanks_around (cs : List Char) : ∃ lead trail, Blanks lead ∧ Blanks trail ∧
    cs = lead ++ stripChars cs ++ trail := by
  have hblanks (ds : List Char) : Blanks (ds.takeWhile isBlank) := fun c hc =>
    List.all_eq_true.mp List.all_takeWhile c hc
  have htrail := List.takeWhile_append_dropWhile (p := isBlank) (l := (skipBlanks cs).reverse)
  refine ⟨cs.takeWhile isBlank, ((skipBlanks cs).reverse.takeWhile isBlank).reverse, hblanks cs, ?_, ?_⟩
  · intro c hc
    exact hblanks _ c (List.mem_reverse.mp hc)
  · rw [stripChars, dropTrailingBlanks, List.append_assoc, ← List.reverse_append, htrail,
      List.reverse_reverse, skipBlanks, List.takeWhile_append_dropWhile]

theorem exists_blanks_before (cs : List Char) : ∃ gap, Blanks gap ∧ cs = gap ++ skipBlanks cs :=
  ⟨cs.takeWhile isBlank, fun c hc => List.all_eq_true.mp List.all_takeWhile c hc,
    List.takeWhile_append_dropWhile.symm⟩

theorem head?_dropWhile {cs : List Char} : ∀ c ∈ (cs.dropWhile isBlank).head?, isBlank c = false := by
  intro c hc
  have h := List.head?_dropWhile_not isBlank cs
  rw [hc] at h
  exact h

theorem solid_stripChars (h : stripChars p ≠ []) : Solid (stripChars p) := by
  refine ⟨h, ?_, ?_⟩
  · intro c hc
    obtain ⟨as, has⟩ : dropTrailingBlanks (skipBlanks p) <+: skipBlanks p := by
      have hsuffix := List.dropWhile_suffix isBlank (l := (skipBlanks p).reverse)
      have hprefix := List.reverse_prefix.mpr hsuffix
      rw [List.reverse_reverse] at hprefix
      exact hprefix
    have hhead : c ∈ (skipBlanks p).head? := by
      cases hs : stripChars p with
      | nil => exact absurd hs h
      | cons d ds =>
        rw [hs] at hc
        rw [stripChars] at hs
        rw [← has, hs]
        exact hc
    exact head?_dropWhile c hhead
  · intro c hc
    rw [stripChars, dropTrailingBlanks, List.getLast?_reverse] at hc
    exact head?_dropWhile c hc

theorem solid_of_stripChars (h : stripChars p = p) (hne : p ≠ []) : Solid p := by
  have hsolid : Solid (stripChars p) := solid_stripChars (by rw [h]; exact hne)
  rw [h] at hsolid
  exact hsolid

theorem stripChars_append_blanks (htrail : Blanks trail) (cs : List Char) :
    stripChars (cs ++ trail) = stripChars cs := by
  obtain ⟨front, back, hfront, hback, hcs⟩ := exists_blanks_around cs
  have happend {gap : List Char} (h : Blanks gap) : Blanks (gap ++ trail) := fun c hc =>
    (List.mem_append.mp hc).elim (h c) (htrail c)
  by_cases hnil : stripChars cs = []
  · rw [hnil, List.append_nil] at hcs
    have hblanks : Blanks cs := hcs ▸ fun c hc => (List.mem_append.mp hc).elim (hfront c) (hback c)
    rw [stripChars_blanks (happend hblanks), hnil]
  · have hstrip := stripChars_around hfront (solid_stripChars hnil) (happend hback)
    rw [← List.append_assoc, ← hcs] at hstrip
    exact hstrip

theorem Solid.append (h : Solid p) (k : Solid q) (gap : List Char) : Solid (p ++ gap ++ q) := by
  refine ⟨?_, ?_, ?_⟩
  · intro he
    exact h.1 (List.append_eq_nil_iff.mp (List.append_eq_nil_iff.mp he).1).1
  · rw [List.append_assoc, head?_append_of_solid h]
    exact h.2.1
  · rw [List.getLast?_append, List.getLast?_eq_some_getLast k.1, Option.some_or,
      ← List.getLast?_eq_some_getLast k.1]
    exact k.2.2

theorem Spaced.solid (h : Spaced ps text) (hsolid : ∀ p ∈ ps, Solid p) : Solid text := by
  induction h with
  | one p => exact hsolid p List.mem_cons_self
  | @more p gap _ ps _ _ _ ih =>
    exact (hsolid p List.mem_cons_self).append
      (ih fun q hq => hsolid q (List.mem_cons_of_mem p hq)) gap

theorem Spaced.followed (h : Spaced ps text) :
    ∃ p qs more, ps = p :: qs ∧ text = p ++ more ∧ Followed qs more := by
  induction h with
  | one p => exact ⟨p, [], [], rfl, (List.append_nil p).symm, .nil⟩
  | @more p gap text ps hne hgap _ ih =>
    obtain ⟨q, qs, more, rfl, rfl, hmore⟩ := ih
    exact ⟨p, q :: qs, gap ++ (q ++ more), rfl, List.append_assoc _ _ _, .cons hne hgap hmore⟩

theorem Followed.spaced (h : Followed ps text) (p : List Char) : Spaced (p :: ps) (p ++ text) := by
  induction h generalizing p with
  | nil =>
    rw [List.append_nil]
    exact .one p
  | @cons q gap more ps hne hgap _ ih =>
    rw [← List.append_assoc]
    exact .more hne hgap (ih q)

theorem Followed.split (h : Followed (ps ++ qs) text) :
    ∃ front back, text = front ++ back ∧ Followed ps front ∧ Followed qs back := by
  induction ps generalizing text with
  | nil => exact ⟨[], text, rfl, .nil, h⟩
  | cons p ps ih =>
    cases h with
    | @cons _ gap more _ hne hgap hmore =>
      obtain ⟨front, back, rfl, hfront, hback⟩ := ih hmore
      refine ⟨gap ++ (p ++ front), back, ?_, .cons hne hgap hfront, hback⟩
      simp only [List.append_assoc]

/-- Words with blanks before them are blanks with spaced words after them. -/
theorem Followed.exists_gap (h : Followed ps text) (hne : ps ≠ []) :
    ∃ gap core, text = gap ++ core ∧ gap ≠ [] ∧ Blanks gap ∧ Spaced ps core := by
  cases h with
  | nil => exact absurd rfl hne
  | @cons p gap more ps hgapne hgap hmore => exact ⟨gap, _, rfl, hgapne, hgap, hmore.spaced p⟩

theorem isBlank_of_isLineBreak {c : Char} (h : isLineBreak c) : isBlank c := by
  simp only [isLineBreak, Bool.or_eq_true, Bool.and_eq_true, decide_eq_true_eq, beq_iff_eq] at h
  simp only [isBlank, Bool.or_eq_true, Bool.and_eq_true, decide_eq_true_eq, beq_iff_eq]
  omega

end

end NoteQuery.Text
