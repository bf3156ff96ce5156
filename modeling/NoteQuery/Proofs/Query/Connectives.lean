import NoteQuery.Proofs.Query.Fields
import NoteQuery.Query.Source

/-! Texts that are cut at connectives. A part of a text in which no connective is outside brackets is passed
over, whatever is read inside them, since a connective closes no bracket. What is cut apart are such parts;
written again with connectives between them, they are what the text is cut into. -/

namespace NoteQuery
set_option autoImplicit false
open Text

/-! ### Connectives -/

section
variable {c : Cell} {cs rest : List Cell}

theorem exists_of_readConnective {before : Option Cell} {k : Connective} {n : Nat}
    (h : readConnective before c cs = some (k, n)) :
    ∃ word, (∀ l ∈ word.toList, l ∈ keywordLetters) ∧ spacedWord? word c cs = some n := by
  unfold readConnective at h
  cases hand : spacedWord? "and" c cs with
  | some m =>
    rw [hand] at h
    cases h
    exact ⟨"and", by decide, hand⟩
  | none =>
    cases hor : spacedWord? "or" c cs with
    | some m =>
      rw [hand, hor] at h
      cases h
      exact ⟨"or", by decide, hor⟩
    | none =>
      rw [hand, hor] at h
      cases h

theorem isSome_readConnective {before : Option Cell} : (readConnective before c cs).isSome ↔
    ∃ word ∈ ["and", "or"], (spacedWord? word c cs).isSome := by
  unfold readConnective
  cases hand : spacedWord? "and" c cs <;> cases hor : spacedWord? "or" c cs <;> simp [hand, hor]

/-- A connective starts with a blank and has no brackets in it. -/
theorem isPlain_of_readConnective {before : Option Cell} {k : Connective} {n : Nat}
    (h : readConnective before c cs = some (k, n)) : isBlank c.shown ∧ n ≤ cs.length ∧
      ∀ x ∈ c.shown :: (Cell.shownText cs).take n, isPlain x := by
  obtain ⟨word, hword, hread⟩ := exists_of_readConnective h
  exact isPlain_of_spacedWord? hword hread

/-- Where a connective is read, one is with another rest, unless there was one and is none. -/
theorem isSome_readConnective_of {rest' : List Cell} {before : Option Cell}
    (hlast : ∀ x ∈ (c.shown :: Cell.shownText cs).getLast?, isBlank x = false)
    (hrest : Parted (Cell.shownText rest)) (hrest' : Parted (Cell.shownText rest'))
    (hne : rest ≠ [] → rest' ≠ []) (h : (readConnective before c (cs ++ rest)).isSome) :
    (readConnective before c (cs ++ rest')).isSome := by
  have hletters : ∀ word ∈ ["and", "or"], ∀ l ∈ word.toList, l ∈ keywordLetters := by decide
  rw [isSome_readConnective] at h ⊢
  obtain ⟨word, hword, hread⟩ := h
  obtain ⟨hblank, r, hr, hmore⟩ := (isSome_spacedWord?_append (hletters word hword) hlast hrest).mp hread
  refine ⟨word, hword, (isSome_spacedWord?_append (hletters word hword) hlast hrest').mpr ?_⟩
  exact ⟨hblank, r, hr, hmore.imp_left fun hend => ⟨hend.1, hne hend.2⟩⟩

end

/-! ### Parts of a text without connectives -/

/-- No connective is read outside brackets in a part of a text, with the `rest` behind it. -/
def NoConnective (cells rest : List Cell) : Prop :=
  ∀ c cs, c :: cs <:+ cells → c.depth = 0 → readConnective none c (cs ++ rest) = none

section
variable {p q w lead trail : List Char} {cells rest rest' : List Cell}

theorem NoConnective.nil : NoConnective [] rest :=
  fun _ _ hs _ => absurd (List.suffix_nil.mp hs) (List.cons_ne_nil _ _)

theorem NoConnective.suffix {as bs : List Cell} (h : NoConnective bs rest) (hs : as <:+ bs) :
    NoConnective as rest := fun c cs hcs hdepth => h c cs (hcs.trans hs) hdepth

theorem NoConnective.cons {c : Cell} (h : NoConnective cells rest)
    (hc : c.depth = 0 → readConnective none c (cells ++ rest) = none) :
    NoConnective (c :: cells) rest := by
  intro d ds hs hdepth
  rcases List.suffix_cons_iff.mp hs with heq | hs
  · cases heq
    exact hc hdepth
  · exact h d ds hs hdepth

theorem readConnective_of_not_blank {c : Cell} (h : isBlank c.shown = false) (before : Option Cell)
    (cs : List Cell) : readConnective before c cs = none := by
  rw [← Option.not_isSome_iff_eq_none, isSome_readConnective]
  rintro ⟨word, -, hread⟩
  obtain ⟨n, hn⟩ := Option.isSome_iff_exists.mp hread
  rw [(exists_of_spacedWord? hn).1] at h
  cases h

theorem noConnective_of_not_blank (h : ∀ c ∈ cells, isBlank c.shown = false) :
    NoConnective cells rest :=
  fun c _ hs _ => readConnective_of_not_blank (h c (hs.subset List.mem_cons_self)) none _

/-- Whatever comes after a solid part instead, as long as there was something if there is now. -/
theorem NoConnective.with_rest (hp : Solid p) (h : NoConnective (Cell.ofChars p) rest)
    (hrest : Parted (Cell.shownText rest)) (hrest' : Parted (Cell.shownText rest'))
    (hne : rest' ≠ [] → rest ≠ []) : NoConnective (Cell.ofChars p) rest' := by
  intro c cs hs hdepth
  have hnone := h c cs hs hdepth
  rw [← Option.not_isSome_iff_eq_none] at hnone ⊢
  refine mt (isSome_readConnective_of ?_ hrest' hrest hne) hnone
  intro x hx
  obtain ⟨front, hfront⟩ := hs
  refine getLast?_maskQuoted hp x ?_
  rw [← shownText_ofChars, ← hfront, shownText_append, List.getLast?_append]
  rw [Option.mem_def.mp (show x ∈ (Cell.shownText (c :: cs)).getLast? from hx)]
  rfl

theorem exists_cellsFrom_cons (q : Quoting) (d : Nat) (x : Char) (p : List Char) :
    ∃ c : Cell, c.depth = depthHere d c.shown ∧
      cellsFrom q d (x :: p) = c :: cellsFrom (q.next x) (depthNext d c.shown) p ∧
        maskFrom q (x :: p) = c.shown :: maskFrom (q.next x) p := ⟨_, rfl, rfl, rfl⟩

/-- What is left of a part behind its first cells is a part too, and ends at the same depth. -/
theorem exists_cellsFrom_drop (q : Quoting) (d : Nat) {n : Nat} (hn : n ≤ p.length) :
    ∃ q' d', (cellsFrom q d p).drop n = cellsFrom q' d' (p.drop n) ∧
      (maskFrom q' (p.drop n)).foldl depthNext d' = (maskFrom q p).foldl depthNext d := by
  refine ⟨(p.take n).foldl Quoting.next q, (maskFrom q (p.take n)).foldl depthNext d, ?_, ?_⟩
  · have hcells := cellsFrom_append q d (p.take n) (p.drop n)
    rw [List.take_append_drop] at hcells
    rw [hcells, List.drop_left' (by rw [length_cellsFrom, List.length_take_of_le hn])]
  · rw [← List.foldl_append, ← maskFrom_append, List.take_append_drop]

/-- What is read inside brackets of a part ends in it, as a connective closes no bracket. -/
theorem length_le_of_readConnective {q : Quoting} {d : Nat} {before : Option Cell} {c : Cell}
    {k : Connective} {n : Nat}
    (hdepth : c.depth = depthHere d c.shown) (hinside : c.depth ≠ 0)
    (hend : (maskFrom q p).foldl depthNext (depthNext d c.shown) = 0 ∨ rest = [])
    (hread : readConnective before c (cellsFrom q (depthNext d c.shown) p ++ rest) = some (k, n)) :
    n ≤ p.length := by
  obtain ⟨-, hn, hplain⟩ := isPlain_of_readConnective hread
  obtain ⟨hc, hplain⟩ := List.forall_mem_cons.mp hplain
  rw [List.length_append, length_cellsFrom] at hn
  rcases hend with hend | rfl
  · by_contra hlt
    have hall : ∀ x ∈ maskFrom q p, isPlain x := by
      intro x hx
      refine hplain x ?_
      rw [shownText_append, shownText_cellsFrom, List.take_append, List.take_of_length_le]
      · exact List.mem_append_left _ hx
      · rw [length_maskFrom]
        omega
    rw [depthNext_of_isPlain hc, foldl_depthNext_of_isPlain hall] at hend
    rw [hend, depthHere_of_isPlain hc] at hdepth
    exact hinside hdepth
  · exact hn

/-- A part without connectives is passed over, if it closes its brackets or ends the text. -/
theorem cutAt_noConnective {q : Quoting} {d : Nat} (h : NoConnective (cellsFrom q d p) rest)
    (hend : (maskFrom q p).foldl depthNext d = 0 ∨ rest = []) (before : Option Cell)
    (piece : List Cell) : ∃ last, cutAt readConnective before piece (cellsFrom q d p ++ rest) =
      cutAt readConnective last ((cellsFrom q d p).reverse ++ piece) rest := by
  induction hlength : p.length using Nat.strongRecOn generalizing p q d before piece with
  | ind length ih =>
    cases p with
    | nil => exact ⟨before, rfl⟩
    | cons x p =>
      obtain ⟨c, hdepth, hcells, hmask⟩ := exists_cellsFrom_cons q d x p
      have hlt : p.length < length := by
        rw [← hlength]
        exact Nat.lt_succ_self _
      rw [hmask, List.foldl_cons] at hend
      rw [hcells] at h ⊢
      have hrest := h.suffix (List.suffix_cons c _)
      cases hread : readConnective before c (cellsFrom (q.next x) (depthNext d c.shown) p ++ rest) with
      | none =>
        obtain ⟨last, hlast⟩ := ih p.length hlt hrest hend (some c) (c :: piece) rfl
        refine ⟨last, ?_⟩
        rw [List.cons_append, cutAt_none hread, hlast, List.reverse_cons, List.append_assoc]
        rfl
      | some r =>
        -- it is inside brackets, so the scan goes on behind it
        obtain ⟨k, n⟩ := r
        have hinside : c.depth ≠ 0 := by
          intro hzero
          have hnone : readConnective before c _ = none := h c _ List.suffix_rfl hzero
          rw [hread] at hnone
          cases hnone
        have hn := length_le_of_readConnective hdepth hinside hend hread
        obtain ⟨q', d', hdrop, hfold⟩ := exists_cellsFrom_drop (q.next x) (depthNext d c.shown) hn
        have hn' : n ≤ (cellsFrom (q.next x) (depthNext d c.shown) p).length := by
          rw [length_cellsFrom]
          exact hn
        have hleft := hrest.suffix (List.drop_suffix n _)
        rw [hdrop] at hleft
        have hshorter : (p.drop n).length < length := by
          rw [List.length_drop]
          omega
        rw [← hfold] at hend
        obtain ⟨last, hlast⟩ := ih _ hshorter hleft hend
          (c :: (cellsFrom (q.next x) (depthNext d c.shown) p).take n).getLast?
          ((c :: (cellsFrom (q.next x) (depthNext d c.shown) p).take n).reverse ++ piece) rfl
        refine ⟨last, ?_⟩
        rw [List.cons_append, cutAt_some hread, if_neg hinside, List.take_append_of_le_length hn',
          List.drop_append_of_le_length hn', hdrop, hlast, ← hdrop, ← List.append_assoc,
          ← List.reverse_append, List.cons_append, List.take_append_drop]

theorem NoConnective.append {as bs : List Cell} (h : NoConnective as (bs ++ rest))
    (k : NoConnective bs rest) : NoConnective (as ++ bs) rest := by
  induction as with
  | nil => exact k
  | cons c as ih =>
    refine (ih (h.suffix (List.suffix_cons c as))).cons fun hdepth => ?_
    rw [List.append_assoc]
    exact h c as List.suffix_rfl hdepth

theorem NoConnective.left {as bs : List Cell} (h : NoConnective (as ++ bs) rest) :
    NoConnective as (bs ++ rest) := by
  rintro c cs ⟨front, rfl⟩ hdepth
  have hnone := h c (cs ++ bs) ⟨front, by simp⟩ hdepth
  rw [List.append_assoc] at hnone
  exact hnone

theorem noConnective_of_depth (h : ∀ c ∈ cells, c.depth ≠ 0) : NoConnective cells rest :=
  fun c _ hs hdepth => absurd hdepth (h c (hs.subset List.mem_cons_self))

end

/-! ### Cuts of a text without quotes -/

section
variable {t w sep more : List Char} {d : Nat}

theorem cellsFrom_append_of_noQuote (h : ∀ x ∈ w, Quoting.isQuote x = false) (d : Nat)
    (more : List Char) : cellsFrom .outside d (w ++ more) =
      cellsFrom .outside d w ++ cellsFrom .outside (w.foldl depthNext d) more := by
  rw [cellsFrom_append, foldl_next_of_noQuote h, maskFrom_of_noQuote h]

theorem cellsFrom_cons_of_noQuote {x : Char} (h : Quoting.isQuote x = false) (d : Nat) (t : List Char) :
    cellsFrom .outside d (x :: t) = ⟨x, x, depthHere d x⟩ :: cellsFrom .outside (depthNext d x) t := by
  have hx : ∀ y ∈ [x], Quoting.isQuote y = false := by simpa using h
  exact cellsFrom_append_of_noQuote hx d t

theorem isQuote_of_isPlain {x : Char} (h : isPlain x) : Quoting.isQuote x = false := by
  simp only [isPlain, Bool.not_eq_true', Bool.or_eq_false_iff] at h
  exact h.1.1

theorem cellsFrom_append_of_isPlain (h : ∀ x ∈ w, isPlain x) (d : Nat) (more : List Char) :
    cellsFrom .outside d (w ++ more) = cellsFrom .outside d w ++ cellsFrom .outside d more := by
  rw [cellsFrom_append_of_noQuote fun x hx => isQuote_of_isPlain (h x hx), foldl_depthNext_of_isPlain h]

/-- A connective is a part of the text, at one depth. -/
theorem exists_of_readConnective_cons {x : Char} (hq : ∀ y ∈ t, Quoting.isQuote y = false)
    {before : Option Cell} {k : Connective} {n : Nat}
    (hread : readConnective before ⟨x, x, depthHere d x⟩ (cellsFrom .outside (depthNext d x) t) =
      some (k, n)) :
    isBlank x ∧ ∃ s more, t = s ++ more ∧ n = s.length ∧ (∀ y ∈ x :: s, isPlain y) := by
  obtain ⟨hblank, hn, hplain⟩ := isPlain_of_readConnective hread
  rw [length_cellsFrom] at hn
  rw [shownText_cellsFrom, maskFrom_of_noQuote hq] at hplain
  exact ⟨hblank, t.take n, t.drop n, (List.take_append_drop n t).symm,
    (List.length_take_of_le hn).symm, hplain⟩

/-- A scan passes over some characters, among which no connective is outside brackets, or it cuts. -/
theorem cutAt_step {x : Char} (hq : ∀ y ∈ x :: t, Quoting.isQuote y = false) (d : Nat)
    (before : Option Cell) (piece : List Cell) :
    (∃ s more last, x :: t = s ++ more ∧ s ≠ [] ∧
      NoConnective (cellsFrom .outside d s) (cellsFrom .outside (s.foldl depthNext d) more) ∧
      cutAt readConnective before piece (cellsFrom .outside d (x :: t)) =
        cutAt readConnective last ((cellsFrom .outside d s).reverse ++ piece)
          (cellsFrom .outside (s.foldl depthNext d) more)) ∨
    d = 0 ∧ isBlank x ∧ ∃ k s gap more last, x :: t = x :: s ++ more ∧
      cutAt readConnective before piece (cellsFrom .outside d (x :: t)) =
        (piece.reverse, ⟨k, gap, (cutAt readConnective last [] (Cell.ofChars more)).1⟩ ::
          (cutAt readConnective last [] (Cell.ofChars more)).2) := by
  rw [List.forall_mem_cons] at hq
  cases hread : readConnective before ⟨x, x, depthHere d x⟩ (cellsFrom .outside (depthNext d x) t) with
  | none =>
    have hcell : cellsFrom .outside d [x] = [⟨x, x, depthHere d x⟩] :=
      cellsFrom_cons_of_noQuote hq.1 d []
    refine .inl ⟨[x], t, some ⟨x, x, depthHere d x⟩, rfl, List.cons_ne_nil _ _, ?_, ?_⟩
    · rw [hcell]
      exact NoConnective.nil.cons fun _ => hread
    · rw [hcell, cellsFrom_cons_of_noQuote hq.1]
      exact cutAt_none hread piece
  | some r =>
    obtain ⟨k, n⟩ := r
    obtain ⟨hblank, s, more, rfl, rfl, hplain⟩ := exists_of_readConnective_cons hq.2 hread
    have hx := hplain x List.mem_cons_self
    have hs : ∀ y ∈ s, isPlain y := fun y hy => hplain y (List.mem_cons_of_mem x hy)
    have htaken : cellsFrom .outside d (x :: s) = ⟨x, x, d⟩ :: cellsFrom .outside d s := by
      rw [cellsFrom_of_isPlain hplain, cellsFrom_of_isPlain hs, List.map_cons]
    rw [depthHere_of_isPlain hx, depthNext_of_isPlain hx, cellsFrom_append_of_isPlain hs] at hread
    have hlength : (cellsFrom .outside d s).length = s.length := length_cellsFrom _ _ _
    have hcut := cutAt_some hread piece
    rw [List.take_left' hlength, List.drop_left' hlength, ← htaken, ← List.cons_append, ← htaken,
      ← cellsFrom_append_of_isPlain hplain, List.cons_append] at hcut
    rw [hcut]
    by_cases hd : d = 0
    · subst hd
      rw [← ofChars_eq_cellsFrom more]
      exact .inr ⟨rfl, hblank, k, s, _, more, _, rfl, if_pos rfl⟩
    · have hdepth : (x :: s).foldl depthNext d = d := foldl_depthNext_of_isPlain hplain d
      refine .inl ⟨x :: s, more, (cellsFrom .outside d (x :: s)).getLast?, rfl, List.cons_ne_nil _ _,
        ?_, ?_⟩
      · rw [cellsFrom_of_isPlain hplain]
        refine noConnective_of_depth fun c hc => ?_
        obtain ⟨y, -, rfl⟩ := List.mem_map.mp hc
        exact hd
      · rw [hdepth]
        exact if_neg hd

/-- The first connective of a text, with what is before and after it. -/
structure CutsAt (d : Nat) (t w sep more : List Char) : Prop where
  text : t = w ++ (sep ++ more)
  closed : w.foldl depthNext d = 0
  gap : sep ≠ [] ∧ ∀ x ∈ sep.head?, isBlank x
  free : NoConnective (cellsFrom .outside d w) (Cell.ofChars (sep ++ more))

theorem CutsAt.balanced (h : CutsAt 0 t w sep more) (hq : ∀ y ∈ t, Quoting.isQuote y = false) :
    Balanced w := by
  have hw : ∀ y ∈ w, Quoting.isQuote y = false := fun y hy => hq y (by simp [h.text, hy])
  refine ⟨foldl_next_of_noQuote hw, ?_⟩
  rw [maskQuoted, maskFrom_of_noQuote hw]
  exact h.closed

/-- What a scan passes over comes before the first connective too. -/
theorem CutsAt.after {s rest : List Char} (hq : ∀ y ∈ s ++ rest, Quoting.isQuote y = false)
    (hfree : NoConnective (cellsFrom .outside d s) (cellsFrom .outside (s.foldl depthNext d) rest))
    (h : CutsAt (s.foldl depthNext d) rest w sep more) : CutsAt d (s ++ rest) (s ++ w) sep more where
  text := by rw [h.text, List.append_assoc]
  closed := by rw [List.foldl_append, h.closed]
  gap := h.gap
  free := by
    have hs : ∀ y ∈ s, Quoting.isQuote y = false := fun y hy => hq y (List.mem_append_left rest hy)
    have hw : ∀ y ∈ w, Quoting.isQuote y = false := fun y hy => hq y (by simp [h.text, hy])
    have hparts := cellsFrom_append_of_noQuote hw (s.foldl depthNext d) (sep ++ more)
    rw [← h.text, h.closed, ← ofChars_eq_cellsFrom] at hparts
    rw [hparts] at hfree
    rw [cellsFrom_append_of_noQuote hs]
    exact hfree.append h.free

theorem cutAt_first (hq : ∀ y ∈ t, Quoting.isQuote y = false) (d : Nat) (before : Option Cell)
    (piece : List Cell) :
    NoConnective (cellsFrom .outside d t) [] ∧
      cutAt readConnective before piece (cellsFrom .outside d t) =
        (piece.reverse ++ cellsFrom .outside d t, []) ∨
    ∃ w sep more k gap last, CutsAt d t w sep more ∧
      cutAt readConnective before piece (cellsFrom .outside d t) =
        (piece.reverse ++ cellsFrom .outside d w,
          ⟨k, gap, (cutAt readConnective last [] (Cell.ofChars more)).1⟩ ::
            (cutAt readConnective last [] (Cell.ofChars more)).2) := by
  induction hlength : t.length using Nat.strongRecOn generalizing t d before piece with
  | ind length ih =>
    cases t with
    | nil =>
      refine .inl ⟨.nil, ?_⟩
      rw [cellsFrom, cutAt_nil, List.append_nil]
    | cons x t =>
      obtain ⟨s, rest, last, htext, hne, hfree, hcut⟩ |
        ⟨rfl, hblank, k, s, gap, more, last, htext, hcut⟩ := cutAt_step hq d before piece
      · rw [htext] at hq hlength ⊢
        obtain ⟨hs, hrest⟩ := List.forall_mem_append.mp hq
        have hlt : rest.length < length := by
          rw [← hlength, List.length_append]
          have hpos := List.length_pos_iff.mpr hne
          omega
        rw [htext] at hcut
        obtain ⟨hfree', hcut'⟩ | ⟨w, sep, more, k, gap, last', hcuts, hcut'⟩ :=
          ih _ hlt hrest (s.foldl depthNext d) last ((cellsFrom .outside d s).reverse ++ piece) rfl
        · refine .inl ⟨?_, ?_⟩
          · rw [cellsFrom_append_of_noQuote hs]
            rw [← List.append_nil (cellsFrom .outside _ rest)] at hfree
            exact hfree.append hfree'
          · rw [hcut, hcut', cellsFrom_append_of_noQuote hs, List.reverse_append, List.reverse_reverse,
              List.append_assoc]
        · refine .inr ⟨s ++ w, sep, more, k, gap, last', hcuts.after hq hfree, ?_⟩
          rw [hcut, hcut', cellsFrom_append_of_noQuote hs, List.reverse_append, List.reverse_reverse,
            List.append_assoc]
      · refine .inr ⟨[], x :: s, more, k, gap, last,
          ⟨htext, rfl, ⟨List.cons_ne_nil _ _, ?_⟩, ?_⟩, ?_⟩
        · intro y hy
          cases hy
          exact hblank
        · exact .nil
        · rw [hcut, cellsFrom, List.append_nil]

/-! ### Pieces -/

/-- Texts between connectives: no connective is outside brackets in one of them, and all brackets before
the last one are closed. -/
inductive Pieces : List (List Char) → Prop
  | last {p : List Char} : NoConnective (Cell.ofChars p) [] → Pieces [p]
  | more {p : List Char} {ps : List (List Char)} {rest : List Cell} : Balanced p →
    NoConnective (Cell.ofChars p) rest → rest ≠ [] → Parted (Cell.shownText rest) → Pieces ps →
      Pieces (p :: ps)

/-- The texts of the pieces that a text is cut into. -/
def Cut.texts {κ : Type} (r : List Cell × List (Cut κ)) : List (List Char) :=
  (Cut.pieces r).map Cell.text

theorem pieces_of_cutAt (hq : ∀ y ∈ t, Quoting.isQuote y = false) (before : Option Cell) :
    Pieces (Cut.texts (cutAt readConnective before [] (Cell.ofChars t))) ∧
      ∀ p ∈ Cut.texts (cutAt readConnective before [] (Cell.ofChars t)), ∀ y ∈ p, y ∈ t := by
  induction hlength : t.length using Nat.strongRecOn generalizing t before with
  | ind length ih =>
    obtain ⟨hfree, hcut⟩ | ⟨w, sep, more, k, gap, last, hcuts, hcut⟩ := cutAt_first hq 0 before []
    · rw [← ofChars_eq_cellsFrom] at hfree hcut
      have htexts : Cut.texts (cutAt readConnective before [] (Cell.ofChars t)) = [t] := by
        rw [hcut]
        exact congrArg (fun p => [p]) (Cell.text_ofChars t)
      rw [htexts]
      exact ⟨.last hfree, by simp⟩
    · have hfree := hcuts.free
      rw [← ofChars_eq_cellsFrom] at hfree
      rw [← ofChars_eq_cellsFrom, ← ofChars_eq_cellsFrom] at hcut
      have htexts : Cut.texts (cutAt readConnective before [] (Cell.ofChars t)) =
          w :: Cut.texts (cutAt readConnective last [] (Cell.ofChars more)) := by
        rw [hcut]
        exact congrArg (fun p => p :: _) (Cell.text_ofChars w)
      have hmem := hcuts.text
      have hmore : ∀ y ∈ more, y ∈ t := fun y hy => by simp [hmem, hy]
      have hw : ∀ y ∈ w, y ∈ t := fun y hy => by simp [hmem, hy]
      obtain ⟨hne, hblank⟩ := hcuts.gap
      have hlt : more.length < length := by
        have hpos := List.length_pos_iff.mpr hne
        simp only [← hlength, hmem, List.length_append]
        omega
      obtain ⟨hpieces, hin⟩ := ih _ hlt (fun y hy => hq y (hmore y hy)) last rfl
      rw [htexts]
      refine ⟨.more (hcuts.balanced hq) hfree ?_ ?_ hpieces, List.forall_mem_cons.mpr ⟨hw, ?_⟩⟩
      · intro hnil
        have hlength := length_cellsFrom .outside 0 (sep ++ more)
        rw [← ofChars_eq_cellsFrom, hnil, List.length_append] at hlength
        have hpos := List.length_pos_iff.mpr hne
        simp only [List.length_nil] at hlength
        omega
      · intro x hx
        rw [shownText_ofChars, maskQuoted, head?_maskFrom, List.head?_append_of_ne_nil _ hne] at hx
        exact hblank x hx
      · exact fun p hp y hy => hmore y (hin p hp y hy)

theorem head?_shownText_of_solid {p : List Char} (h : Solid p) (more : List Char) :
    ∀ x ∈ (Cell.shownText (Cell.ofChars (p ++ more))).head?, isBlank x = false := by
  intro x hx
  rw [shownText_ofChars, maskQuoted, head?_maskFrom, head?_append_of_solid h] at hx
  exact h.2.1 x hx

/-- A connective is read where it is written between blanks. -/
theorem readConnective_written (k : Connective) {rest : List Cell}
    (hrest : ∀ x ∈ (Cell.shownText rest).head?, isBlank x = false) (before : Option Cell) :
    readConnective before ⟨' ', ' ', 0⟩ (Cell.ofChars (k.symbol.toList ++ [' ']) ++ rest) =
      some (k, (Cell.ofChars (k.symbol.toList ++ [' '])).length) := by
  have hblank : isBlank ' ' := by decide
  unfold readConnective
  cases k with
  | and =>
    have hand : spacedWord? "and" ⟨' ', ' ', 0⟩
        (Cell.ofChars (Connective.and.symbol.toList ++ [' ']) ++ rest) =
          some (Cell.ofChars (Connective.and.symbol.toList ++ [' '])).length :=
      spacedWord?_spelled (spells_self "AND".toList) (by decide) (by decide) hblank .nil hrest
    rw [hand]
  | or =>
    have hor : spacedWord? "or" ⟨' ', ' ', 0⟩
        (Cell.ofChars (Connective.or.symbol.toList ++ [' ']) ++ rest) =
          some (Cell.ofChars (Connective.or.symbol.toList ++ [' '])).length :=
      spacedWord?_spelled (spells_self "OR".toList) (by decide) (by decide) hblank .nil hrest
    have hand : spacedWord? "and" ⟨' ', ' ', 0⟩
        (Cell.ofChars (Connective.or.symbol.toList ++ [' ']) ++ rest) = none := by
      have hword : readWord? "and".toList ("OR".toList ++ ' ' :: Cell.shownText rest) = none :=
        readWord?_of_clash (spells_self "OR".toList) (by decide) (by decide) _
      have hskip : skipBlanks (Connective.or.symbol.toList ++ [' '] ++ Cell.shownText rest) =
          "OR".toList ++ ' ' :: Cell.shownText rest := by
        rw [skipBlanks_of_head]
        · rfl
        · intro x hx
          cases hx
          decide
      unfold spacedWord?
      rw [if_pos hblank, shownText_append, shownText_of_isPlain (by decide)]
      simp only [hskip, hword]
    rw [hand, hor]

theorem exists_intercalate (sep v : String) (vs : List String) :
    ∃ tail, (sep.intercalate (v :: vs)).toList = v.toList ++ tail := by
  cases vs with
  | nil => exact ⟨[], by rw [String.intercalate_singleton, List.append_nil]⟩
  | cons u vs =>
    rw [String.intercalate_cons_cons, String.toList_append, String.toList_append, List.append_assoc]
    exact ⟨_, rfl⟩

/-- The cells of a connective between blanks, with those of what comes after it. -/
theorem ofChars_connective (k : Connective) (more : List Char) :
    Cell.ofChars ((" " ++ k.symbol ++ " ").toList ++ more) =
      ⟨' ', ' ', 0⟩ :: (Cell.ofChars (k.symbol.toList ++ [' ']) ++ Cell.ofChars more) := by
  have hplain : ∀ x ∈ (" " ++ k.symbol ++ " ").toList, isPlain x := by cases k <;> decide
  have hplain' : ∀ x ∈ k.symbol.toList ++ [' '], isPlain x := by cases k <;> decide
  rw [(balanced_of_isPlain hplain).ofChars_append, ofChars_of_isPlain hplain, ofChars_of_isPlain hplain']
  cases k <;> rfl

/-- Pieces with connectives between them are what the text is cut into again. -/
theorem cutAt_joined (k : Connective) {v : String} {vs : List String}
    (h : Pieces ((v :: vs).map (·.toList))) (hsolid : ∀ v' ∈ v :: vs, Solid v'.toList)
    (before : Option Cell) (piece : List Cell) : ∃ cuts,
      cutAt readConnective before piece
        (Cell.ofChars ((" " ++ k.symbol ++ " ").intercalate (v :: vs)).toList) =
          (piece.reverse ++ Cell.ofChars v.toList, cuts) ∧
        (∀ cut ∈ cuts, cut.key = k) ∧ cuts.map (·.piece) = vs.map fun v => Cell.ofChars v.toList := by
  induction vs generalizing v before piece with
  | nil =>
    cases h with
    | last hfree =>
      rw [ofChars_eq_cellsFrom] at hfree
      obtain ⟨last, hcut⟩ := cutAt_noConnective hfree (.inr rfl) before piece
      rw [List.append_nil, ← ofChars_eq_cellsFrom, cutAt_nil, List.reverse_append,
        List.reverse_reverse] at hcut
      rw [String.intercalate_singleton]
      exact ⟨[], hcut, by simp, rfl⟩
    | more _ _ _ _ hnil => cases hnil
  | cons u vs ih =>
    cases h with
    | more hbalanced hfree hne hparted hps =>
      have hv := hsolid v List.mem_cons_self
      have hvs : ∀ v' ∈ u :: vs, Solid v'.toList := fun v' hv' => hsolid v' (List.mem_cons_of_mem v hv')
      obtain ⟨tail, htail⟩ := exists_intercalate (" " ++ k.symbol ++ " ") u vs
      have hhead := head?_shownText_of_solid (hvs u List.mem_cons_self) tail
      rw [← htail] at hhead
      have hparted' (cells : List Cell) : Parted (Cell.shownText (⟨' ', ' ', 0⟩ :: cells)) := by
        intro x hx
        cases hx
        decide
      have hfree' := hfree.with_rest hv hparted (hparted' (Cell.ofChars (k.symbol.toList ++ [' ']) ++
        Cell.ofChars ((" " ++ k.symbol ++ " ").intercalate (u :: vs)).toList)) fun _ => hne
      rw [ofChars_eq_cellsFrom] at hfree'
      obtain ⟨last, hpass⟩ := cutAt_noConnective hfree' (.inl hbalanced.2) before piece
      rw [← ofChars_eq_cellsFrom] at hpass
      obtain ⟨cuts, hcut, hkeys, hpieces⟩ := ih hps hvs
        (⟨' ', ' ', 0⟩ :: Cell.ofChars (k.symbol.toList ++ [' '])).getLast? []
      rw [String.intercalate_cons_cons, String.toList_append, String.toList_append, List.append_assoc,
        hbalanced.ofChars_append, ofChars_connective, hpass,
        cutAt_some (readConnective_written k hhead last), if_pos rfl, List.take_left, List.drop_left,
        hcut, List.reverse_append, List.reverse_reverse]
      refine ⟨_, rfl, List.forall_mem_cons.mpr ⟨rfl, hkeys⟩, ?_⟩
      rw [List.map_cons, hpieces]
      rfl

end

end NoteQuery
