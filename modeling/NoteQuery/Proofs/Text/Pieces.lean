import NoteQuery.Text.Search

/-! A text is cut at the first place where a separator stands: no separator stands in what is before it. So the
pieces of a text hold no separator, and with the separator between them they are the text again. A text that is
put together from pieces with a character between them falls into these pieces, if the character is in none of
them. -/

namespace NoteQuery.Text
set_option autoImplicit false

variable {c : Char} {start as cs : List Char}

theorem after?_append (start rest : List Char) : after? start (start ++ rest) = some rest := by
  induction start with
  | nil => rfl
  | cons c start ih => rw [List.cons_append, after?, if_pos rfl, ih]

theorem cut?_of_not_mem (h : c ∉ as) : cut? (c :: start) as = none := by
  induction as with
  | nil => rfl
  | cons a as ih =>
    simp only [List.mem_cons, not_or] at h
    rw [cut?, after?, if_neg h.1]
    simp only [ih h.2, Option.map_none]

theorem cut?_first (h : c ∉ as) : cut? (c :: start) (as ++ (c :: start ++ cs)) = some (as, cs) := by
  induction as with
  | nil =>
    rw [List.nil_append, List.cons_append, cut?, ← List.cons_append, after?_append]
  | cons a as ih =>
    simp only [List.mem_cons, not_or] at h
    rw [List.cons_append, cut?, after?, if_neg h.1]
    simp only [ih h.2, Option.map_some]

theorem cut?_append (h : c ∉ as) : cut? [c] (as ++ c :: cs) = some (as, cs) := cut?_first h

theorem replaceFirst_of_not_mem (h : c ∉ as) (image : List Char) :
    replaceFirst (c :: start) image as = as := by
  rw [replaceFirst, cut?_of_not_mem h]

theorem replaceFirst_append (h : c ∉ as) (image : List Char) :
    replaceFirst (c :: start) image (as ++ (c :: start ++ cs)) = as ++ (image ++ cs) := by
  rw [replaceFirst, cut?_first h]
  exact List.append_assoc _ _ _

theorem pieces_of_not_mem (h : c ∉ as) : pieces [c] as = [as] := by
  rw [pieces]
  split
  · rfl
  · next hcut => rw [cut?_of_not_mem h] at hcut; cases hcut

theorem pieces_append (h : c ∉ as) : pieces [c] (as ++ c :: cs) = as :: pieces [c] cs := by
  rw [pieces]
  split
  · next hcut => rw [cut?_append h] at hcut; cases hcut
  · next hcut =>
    rw [cut?_append h] at hcut
    cases hcut
    rfl

theorem pieces_flatMap (h : c ∉ as) {parts : List (List Char)} (hs : ∀ p ∈ parts, c ∉ p) :
    pieces [c] (as ++ parts.flatMap (c :: ·)) = as :: parts := by
  induction parts generalizing as with
  | nil =>
    rw [List.flatMap_nil, List.append_nil]
    exact pieces_of_not_mem h
  | cons p parts ih =>
    rw [List.flatMap_cons, List.cons_append, pieces_append h,
      ih (hs p List.mem_cons_self) fun q hq => hs q (List.mem_cons_of_mem p hq)]

/-! ### Any separator -/

section
variable {sep before rest : List Char}

theorem prefix_iff_after? : start <+: cs ↔ ∃ rest, after? start cs = some rest := by
  constructor
  · rintro ⟨rest, rfl⟩
    exact ⟨rest, after?_append start rest⟩
  · rintro ⟨rest, h⟩
    exact ⟨rest, (eq_append_of_after? h).symm⟩

/-- A text is cut wherever the separator stands in it. -/
theorem cut?_eq_none_iff : cut? sep cs = none ↔ ¬sep <:+: cs := by
  induction cs with
  | nil =>
    rw [cut?, List.infix_nil]
    split <;> simp_all
  | cons c cs ih =>
    rw [cut?, List.infix_cons_iff, prefix_iff_after?]
    cases after? sep (c :: cs) with
    | some rest => simp
    | none => simpa using ih

/-- The cut is at the first place: what is before it contains no separator. -/
theorem not_infix_of_cut? (hsep : sep ≠ []) (h : cut? sep cs = some (before, rest)) :
    ¬sep <:+: before := by
  induction cs generalizing before with
  | nil =>
    rw [cut?, if_neg hsep] at h
    cases h
  | cons c cs ih =>
    rw [cut?] at h
    split at h
    · cases h
      rwa [List.infix_nil]
    · next hnone =>
      obtain ⟨⟨front, back⟩, hcut, heq⟩ := Option.map_eq_some_iff.mp h
      cases heq
      rw [List.infix_cons_iff]
      rintro (hstart | hinfix)
      · have hall : c :: front <+: c :: cs := by
          rw [eq_append_of_cut? hcut, List.append_assoc, ← List.cons_append]
          exact List.prefix_append _ _
        obtain ⟨r, hr⟩ := prefix_iff_after?.mp (hstart.trans hall)
        rw [hr] at hnone
        cases hnone
      · exact ih hcut hinfix

theorem pieces_ne_nil (sep cs : List Char) : pieces sep cs ≠ [] := by
  rw [pieces]
  split
  · exact List.cons_ne_nil _ _
  · split <;> exact List.cons_ne_nil _ _

theorem joinWith_cons (sep p : List Char) {ps : List (List Char)} (h : ps ≠ []) :
    joinWith sep (p :: ps) = p ++ sep ++ joinWith sep ps := by
  cases ps with
  | nil => exact absurd rfl h
  | cons q ps => rfl

theorem joinWith_append (sep as l : List Char) (ls : List (List Char)) :
    joinWith sep ((as ++ l) :: ls) = as ++ joinWith sep (l :: ls) := by
  cases ls with
  | nil => rfl
  | cons m ms => simp only [joinWith, List.append_assoc]

/-- The separator written between the pieces gives the text again. -/
theorem joinWith_pieces (sep cs : List Char) : joinWith sep (pieces sep cs) = cs := by
  fun_induction pieces sep cs with
  | case1 cs hcut => rfl
  | case2 cs before rest hcut hsep => rfl
  | case3 cs before rest hcut hsep _ ih =>
    rw [joinWith_cons sep before (pieces_ne_nil sep rest), ih]
    exact (eq_append_of_cut? hcut).symm

theorem not_infix_of_mem_pieces (hsep : sep ≠ []) :
    ∀ p ∈ pieces sep cs, ¬sep <:+: p := by
  fun_induction pieces sep cs with
  | case1 cs hcut => exact List.forall_mem_singleton.mpr (cut?_eq_none_iff.mp hcut)
  | case2 cs before rest hcut hnil => exact absurd hnil hsep
  | case3 cs before rest hcut _ _ ih =>
    exact List.forall_mem_cons.mpr ⟨not_infix_of_cut? hsep hcut, ih⟩

theorem joinWith_characters (cs : List Char) : joinWith [] (cs.map fun c => [c]) = cs := by
  induction cs with
  | nil => rfl
  | cons c cs ih =>
    cases cs with
    | nil => rfl
    | cons d cs => exact congrArg (c :: ·) ih

end

end NoteQuery.Text
