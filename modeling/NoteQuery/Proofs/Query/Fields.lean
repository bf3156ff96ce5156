import NoteQuery.Proofs.Outcome.Yields
import NoteQuery.Proofs.Query.Cutting
import NoteQuery.Proofs.Query.Words

/-! Lists of fields that are written out and read again. An expression is sealed, so a list is cut between
its fields and nowhere else; it shows no `as` between blanks, so a field is cut before its name and nowhere
else. The name stands in quotes and is masked. -/

namespace NoteQuery
set_option autoImplicit false
open Text

/-! ### Cuts between fields -/

section
variable {p : List Char} {κ : Type} {read? : SeparatorReader κ}

theorem cutAt_readComma {q : Quoting} {d : Nat} {cs : List Char} (h : Nested d (maskFrom q cs))
    (before : Option Cell) (piece : List Cell) :
    (cutAt readComma before piece (cellsFrom q d cs)).2 = [] := by
  induction cs generalizing q d before piece with
  | nil => rw [cellsFrom, cutAt_nil]
  | cons c cs ih =>
    obtain ⟨hcomma, hrest⟩ := h
    rw [cellsFrom]
    by_cases hc : (if q.hides c then Quoting.mask else c) = ','
    · have hread (b : Option Cell) (more : List Cell) :
          readComma b ⟨c, ',', depthHere d ','⟩ more = some ((), 0) := rfl
      simp only [hc] at hcomma hrest ⊢
      have hdepth : (⟨c, ',', depthHere d ','⟩ : Cell).depth ≠ 0 := hcomma trivial
      rw [cutAt_some (hread _ _), if_neg hdepth, List.drop_zero]
      exact ih hrest _ _
    · have hread (b : Option Cell) (depth : Nat) (more : List Cell) :
          readComma b ⟨c, if q.hides c then Quoting.mask else c, depth⟩ more = none :=
        if_neg (by simpa using hc)
      rw [cutAt_none (hread _ _ _)]
      exact ih hrest _ _

/-- A sealed text is passed over as a whole. -/
theorem Sealed.cutAt_pass (h : Sealed p) (before : Option Cell) (piece rest : List Cell) :
    cutAt readComma before piece (Cell.ofChars p ++ rest) =
      cutAt readComma ((Cell.ofChars p).getLast?.or before) ((Cell.ofChars p).reverse ++ piece)
        rest := by
  refine NoteQuery.cutAt_pass (fun _ _ _ _ => rfl) ?_ before piece ?_
  · intro b c cs k extra hread
    rw [readComma] at hread
    split at hread
    · cases hread
      exact Nat.zero_le _
    · cases hread
  · rw [ofChars_eq_cellsFrom]
    exact cutAt_readComma h.nested before piece

/-- The pieces around cuts. -/
def Cut.pieces (r : List Cell × List (Cut κ)) : List (List Cell) := r.1 :: r.2.map (·.piece)

/-- Sealed texts with commas between them are cut there and nowhere else. -/
theorem pieces_intercalate {w : String} {ws : List String} (h : ∀ x ∈ w :: ws, Sealed x.toList)
    (before : Option Cell) (piece : List Cell) :
    Cut.pieces (cutAt readComma before piece (Cell.ofChars (",".intercalate (w :: ws)).toList)) =
      (piece.reverse ++ Cell.ofChars w.toList) :: ws.map fun x => Cell.ofChars x.toList := by
  have hw := h w List.mem_cons_self
  induction ws generalizing w before piece with
  | nil =>
    have hpass := hw.cutAt_pass before piece []
    rw [List.append_nil, cutAt_nil] at hpass
    rw [String.intercalate_singleton, hpass, List.reverse_append, List.reverse_reverse]
    rfl
  | cons x ws ih =>
    have hx := h x (List.mem_cons_of_mem w List.mem_cons_self)
    have hread (b : Option Cell) (more : List Cell) :
        readComma b ⟨',', ',', 0⟩ more = some ((), 0) := rfl
    have hcells (cs : List Char) :
        Cell.ofChars (",".toList ++ cs) = ⟨',', ',', 0⟩ :: Cell.ofChars cs := by
      rw [(balanced_of_isPlain (by decide)).ofChars_append, ofChars_of_isPlain (by decide)]
      rfl
    rw [String.intercalate_cons_cons, String.toList_append, String.toList_append, List.append_assoc,
      hw.balanced.ofChars_append, hw.cutAt_pass, hcells, cutAt_some (hread _ _), if_pos rfl,
      List.drop_zero, List.reverse_append, List.reverse_reverse]
    exact congrArg _ (ih (fun y hy => h y (List.mem_cons_of_mem w hy)) _ [] hx)

/-- A list of sealed texts that are not blank is split into them. -/
theorem splitFields_intercalate {ws : List String}
    (h : ∀ w ∈ ws, Sealed w.toList ∧ stripChars w.toList ≠ []) :
    splitFields (",".intercalate ws) = ws.map strip := by
  cases ws with
  | nil =>
    have hcut : Cell.cut readComma "".toList = ([], []) := by
      change cutAt readComma none [] [] = _
      rw [cutAt_nil]
      rfl
    change splitFields "" = []
    unfold splitFields
    rw [hcut]
    rfl
  | cons w ws =>
    have hpieces := pieces_intercalate (fun x hx => (h x hx).1) none []
    have hall : (Cut.pieces (Cell.cut readComma (",".intercalate (w :: ws)).toList)).map
        (fun cells => stripChars (Cell.text cells)) = (w :: ws).map fun x => stripChars x.toList := by
      change (Cut.pieces (cutAt readComma none [] (Cell.ofChars _))).map _ = _
      rw [hpieces]
      simp [Cell.text_ofChars]
    change (((Cut.pieces (Cell.cut readComma _)).map fun cells => stripChars (Cell.text cells)).filter
      fun p => !p.isEmpty).map String.ofList = _
    rw [hall, List.filter_eq_self.mpr, List.map_map]
    · rfl
    · intro p hp
      obtain ⟨x, hx, rfl⟩ := List.mem_map.mp hp
      simp [(h x hx).2]

end

/-! ### Words between blanks -/

section
variable {gap : List Char} {c : Cell} {cs rest : List Cell} {word : String}

/-- A word that is read stands between blanks, and all of them are taken. -/
theorem exists_of_spacedWord? {n : Nat} (h : spacedWord? word c cs = some n) :
    isBlank c.shown ∧ ∃ gap read trail more, Blanks gap ∧ Blanks trail ∧
      readWord? word.toList (read ++ (trail ++ more)) = some (read, trail ++ more) ∧
      Cell.shownText cs = gap ++ read ++ trail ++ more ∧ n = (gap ++ read ++ trail).length := by
  unfold spacedWord? at h
  split at h
  · next hblank =>
    dsimp only at h
    split at h
    · next read rest hread =>
      split at h
      · cases h
        have happend := readWord?_append _ _ _ _ hread
        obtain ⟨gap, hgap, hcs⟩ := exists_blanks_before (Cell.shownText cs)
        obtain ⟨trail, htrail, hrest⟩ := exists_blanks_before rest
        rw [happend, hrest] at hread
        rw [happend, hrest, ← List.append_assoc, ← List.append_assoc] at hcs
        refine ⟨hblank, gap, read, trail, _, hgap, htrail, hread, hcs, ?_⟩
        rw [hcs, List.length_append, Nat.add_sub_cancel]
      · cases h
    · cases h
  · cases h

/-- Words and the blanks around them have no brackets in them. -/
theorem isPlain_of_spacedWord? {n : Nat} (hword : ∀ l ∈ word.toList, l ∈ keywordLetters)
    (h : spacedWord? word c cs = some n) : isBlank c.shown ∧ n ≤ cs.length ∧
      ∀ x ∈ c.shown :: (Cell.shownText cs).take n, isPlain x := by
  obtain ⟨hblank, gap, read, trail, more, hgap, htrail, hread, hcs, rfl⟩ := exists_of_spacedWord? h
  refine ⟨hblank, ?_, ?_⟩
  · have hlength : (Cell.shownText cs).length = cs.length := List.length_map _
    rw [← hlength, hcs]
    exact (List.prefix_append _ more).length_le
  · rw [hcs, List.take_left]
    refine List.forall_mem_cons.mpr ⟨isPlain_of_isBlank hblank, fun x hx => ?_⟩
    simp only [List.mem_append] at hx
    obtain (hx | hx) | hx := hx
    · exact isPlain_of_isBlank (hgap x hx)
    · exact isPlain_of_readWord? hword hread x hx
    · exact isPlain_of_isBlank (htrail x hx)

/-- Whether a word is read at the end of a part of a text depends on whether something comes after it. -/
theorem isSome_spacedWord?_append (hword : ∀ l ∈ word.toList, l ∈ keywordLetters)
    (hlast : ∀ x ∈ (c.shown :: Cell.shownText cs).getLast?, isBlank x = false)
    (hrest : Parted (Cell.shownText rest)) : (spacedWord? word c (cs ++ rest)).isSome ↔
      isBlank c.shown ∧ ∃ r, readWord? word.toList (skipBlanks (Cell.shownText cs)) = some r ∧
        (r.2 = [] ∧ rest ≠ [] ∨ r.2.head?.any isBlank) := by
  unfold spacedWord?
  split
  · next hblank =>
    have hne : Cell.shownText cs ≠ [] := by
      intro hnil
      rw [hnil] at hlast
      have hc := hlast c.shown rfl
      rw [hblank] at hc
      cases hc
    have hlast' : ∀ x ∈ (Cell.shownText cs).getLast?, isBlank x = false := by
      intro x hx
      refine hlast x ?_
      rw [List.getLast?_cons, Option.mem_def.mp hx]
      rfl
    simp only [shownText_append, skipBlanks_append_of_last hne hlast', readWord?_append_parted hword _ hrest,
      hblank, true_and]
    cases readWord? word.toList (skipBlanks (Cell.shownText cs)) with
    | none => simp
    | some r =>
      obtain ⟨read, more⟩ := r
      have hend : (more ++ Cell.shownText rest).head?.any isBlank ↔
          more = [] ∧ rest ≠ [] ∨ more.head?.any isBlank := by
        cases more with
        | cons x more => simp
        | nil =>
          cases rest with
          | nil => simp [Cell.shownText]
          | cons d rest => simpa [Cell.shownText] using hrest d.shown rfl
      simp only [Option.map_some, Option.some.injEq, exists_eq_left', ← hend]
      split <;> simp_all
  · next hblank => simp [hblank]

/-- The blanks before a word, the word and a blank after it are read as one. -/
theorem spacedWord?_spelled {word kw : List Char} (h : Spells word kw) (hword : ∀ c ∈ word, c.isUpper)
    (hne : word ≠ []) {x : Char} (hx : isBlank x) (hgap : Blanks gap)
    (hrest : ∀ d ∈ (Cell.shownText rest).head?, isBlank d = false) :
    spacedWord? (String.ofList (word.map Char.toLower)) ⟨x, x, 0⟩
      (Cell.ofChars (gap ++ (kw ++ [' '])) ++ rest) =
        some (Cell.ofChars (gap ++ (kw ++ [' ']))).length := by
  have hsolid := h.solid hword hne
  have hplain : ∀ d ∈ gap ++ (kw ++ [' ']), isPlain d := by
    simp only [List.mem_append, List.mem_singleton]
    rintro d (hd | hd | rfl)
    · exact isPlain_of_isBlank (hgap d hd)
    · exact (h.cased hword d hd).plain
    · decide
  have hskip : skipBlanks (gap ++ (kw ++ [' ']) ++ Cell.shownText rest) =
      kw ++ ' ' :: Cell.shownText rest := by
    rw [List.append_assoc, skipBlanks_append hgap, List.append_assoc, List.singleton_append,
      skipBlanks_of_head]
    rw [head?_append_of_solid hsolid]
    exact hsolid.2.1
  have hafter : skipBlanks (' ' :: Cell.shownText rest) = Cell.shownText rest := by
    have hblank : Blanks [' '] := .cons rfl .nil
    have happend := skipBlanks_append hblank (Cell.shownText rest)
    rw [skipBlanks_of_head hrest] at happend
    exact happend
  unfold spacedWord?
  rw [if_pos hx, shownText_append, shownText_of_isPlain hplain]
  simp only [String.toList_ofList, hskip, h.readWord? hword, hafter]
  rw [if_pos (by rfl), ofChars_of_isPlain hplain, List.length_map, List.length_append,
    Nat.add_sub_cancel]

end

/-! ### The cut before a name -/

section
variable {p : List Char}

theorem shownText_ofChars (cs : List Char) : Cell.shownText (Cell.ofChars cs) = maskQuoted cs := by
  rw [ofChars_eq_cellsFrom, shownText_cellsFrom, maskQuoted]

theorem exists_of_readWord?_as {cs read rest : List Char}
    (h : readWord? "as".toList cs = some (read, rest)) :
    ∃ c d, cs = c :: d :: rest ∧ isLetter 'a' c ∧ isLetter 's' d := by
  rcases cs with _ | ⟨c, _ | ⟨d, cs⟩⟩
  · cases h
  · change (if isLetter 'a' c then _ else none) = _ at h
    split at h <;> cases h
  · change (if isLetter 'a' c then (if isLetter 's' d then some ([d], cs) else none).map _ else none) =
      _ at h
    split at h
    · next hc =>
      split at h
      · next hd =>
        cases h
        exact ⟨c, d, rfl, hc, hd⟩
      · cases h
    · cases h

theorem getLast?_maskQuoted (hp : Solid p) : ∀ c ∈ (maskQuoted p).getLast?, isBlank c = false := by
  intro c hc
  rw [← shownText_ofChars, Cell.shownText, List.getLast?_map] at hc
  obtain ⟨cell, hcell, rfl⟩ := Option.map_eq_some_iff.mp hc
  exact getLast?_ofChars_of_solid hp cell hcell

/-- The last of some blanks, with what comes before it. -/
theorem exists_last_blank {b : Char} {gap : List Char} (hb : isBlank b) (hgap : Blanks gap) :
    ∃ init last, b :: gap = init ++ [last] ∧ isBlank last := by
  rcases List.eq_nil_or_concat (b :: gap) with hnil | ⟨init, last, hconcat⟩
  · cases hnil
  · rw [List.concat_eq_append] at hconcat
    refine ⟨init, last, hconcat, ?_⟩
    have hblanks := hgap.cons hb
    rw [hconcat] at hblanks
    exact hblanks last (by simp)

/-- After a blank no `as` is read that ends before a blank or at the end. -/
theorem ShowsNoAs.not_parted {us ys read more : List Char} {b : Char}
    (has : ShowsNoAs (us ++ b :: ys)) (hb : isBlank b)
    (hread : readWord? "as".toList (skipBlanks ys) = some (read, more)) : ¬ Parted more := by
  obtain ⟨c, d, hword, hc, hd⟩ := exists_of_readWord?_as hread
  have hgap : Blanks (ys.takeWhile isBlank) := fun x hx => List.mem_takeWhile_imp hx
  obtain ⟨init, last, hinit, hlast⟩ := exists_last_blank hb hgap
  have hall : us ++ b :: ys = us ++ init ++ last :: c :: d :: more := calc
    us ++ b :: ys = us ++ (b :: ys.takeWhile isBlank) ++ skipBlanks ys := by
      rw [skipBlanks, List.append_assoc, List.cons_append, List.takeWhile_append_dropWhile]
    _ = us ++ init ++ last :: c :: d :: more := by
      rw [hinit, hword]
      simp
  exact has hall hlast hc hd

/-- Nothing in a text without `as` is read as the cut before a name, whatever blank comes after it. -/
theorem readAs_none (hp : Solid p) (has : ShowsNoAs (maskQuoted p)) {c : Cell} {cs rest : List Cell}
    (hs : c :: cs <:+ Cell.ofChars p) (hrest : Parted (Cell.shownText rest)) (before : Option Cell) :
    readAs before c (cs ++ rest) = none := by
  obtain ⟨front, hfront⟩ := hs
  have hshown : maskQuoted p = Cell.shownText front ++ c.shown :: Cell.shownText cs := by
    rw [← shownText_ofChars, ← hfront, shownText_append]
    rfl
  have hlast := getLast?_maskQuoted hp
  rw [hshown] at has hlast
  unfold readAs
  rw [Option.map_eq_none_iff, ← Option.not_isSome_iff_eq_none,
    isSome_spacedWord?_append (by decide) ?_ hrest]
  · rintro ⟨hb, r, hread, hmore⟩
    refine has.not_parted hb hread fun x hx => ?_
    rcases hmore with ⟨hnil, -⟩ | hblank
    · rw [hnil] at hx
      cases hx
    · rw [Option.mem_def.mp hx] at hblank
      exact hblank
  · intro x hx
    refine hlast x ?_
    rw [List.getLast?_append, Option.mem_def.mp hx]
    rfl

theorem cutAt_readAs (hp : Solid p) (has : ShowsNoAs (maskQuoted p)) {rest : List Cell}
    (hrest : Parted (Cell.shownText rest)) (before : Option Cell) (piece : List Cell) :
    cutAt readAs before piece (Cell.ofChars p ++ rest) =
      cutAt readAs ((Cell.ofChars p).getLast?.or before) ((Cell.ofChars p).reverse ++ piece) rest :=
  cutAt_of_none (fun b _ _ hs => readAs_none hp has hs hrest b) before piece

theorem FieldSpec.read_of_showsNoAs (hp : Solid p) (has : ShowsNoAs (maskQuoted p)) :
    FieldSpec.read (String.ofList p) = .ok ⟨String.ofList p, none⟩ := by
  have hcut : Cell.cut readAs p = (Cell.ofChars p, []) := by
    have hnil : Parted (Cell.shownText []) := .nil
    have hpass := cutAt_readAs hp has hnil none []
    rw [List.append_nil, cutAt_nil, List.append_nil, List.reverse_reverse] at hpass
    exact hpass
  unfold FieldSpec.read
  simp only [String.toList_ofList, stripChars_of_solid hp, hcut, List.getLast?_nil]

end

/-! ### Names in quotes -/

section
variable {p gap name : List Char}

/-- A name that can stand in double quotes as it is. -/
def IsName (name : List Char) : Prop := ∀ c ∈ name, c ≠ '"' ∧ c ≠ '\\'

def inQuotes (name : List Char) : List Char := '"' :: (name ++ ['"'])

theorem IsName.quoted (h : IsName name) : Quoted '"' name name := by
  induction name with
  | nil => exact .nil
  | cons c name ih =>
    have hc := h c List.mem_cons_self
    exact .plain hc.1 hc.2 (ih fun d hd => h d (List.mem_cons_of_mem c hd))

theorem IsName.sealed (h : IsName name) : Sealed (inQuotes name) := .of_quoted rfl h.quoted

theorem solid_inQuotes (name : List Char) : Solid (inQuotes name) := by
  refine ⟨List.cons_ne_nil _ _, ?_, ?_⟩
  · intro c hc
    cases hc
    decide
  · intro c hc
    rw [inQuotes, ← List.cons_append, List.getLast?_append] at hc
    cases hc
    decide

theorem stripQuotes_inQuotes (name : List Char) : stripQuotes (inQuotes name) = name := by
  simp [stripQuotes, inQuotes, Quoting.isQuote]

theorem IsName.isBlank_shown (h : IsName name) :
    ∀ c ∈ Cell.ofChars (inQuotes name), isBlank c.shown = false := by
  intro c hc
  have hshown : c.shown ∈ maskQuoted (inQuotes name) := by
    rw [← shownText_ofChars]
    exact List.mem_map_of_mem hc
  rw [maskQuoted, inQuotes, h.quoted.maskFrom_outside rfl] at hshown
  rcases List.mem_cons.mp hshown with hq | hshown
  · rw [hq]
    decide
  · rcases List.mem_append.mp hshown with hmask | hq
    · rw [List.eq_of_mem_replicate hmask]
      decide
    · rw [List.mem_singleton.mp hq]
      decide

/-- Nothing in a name is a cut. -/
theorem IsName.cutAt_readAs (h : IsName name) (before : Option Cell) :
    cutAt readAs before [] (Cell.ofChars (inQuotes name)) = (Cell.ofChars (inQuotes name), []) := by
  have hnone (b : Option Cell) (c : Cell) (cs : List Cell)
      (hs : c :: cs <:+ Cell.ofChars (inQuotes name)) : readAs b c (cs ++ []) = none := by
    have hc := h.isBlank_shown c (hs.subset List.mem_cons_self)
    unfold readAs spacedWord?
    rw [if_neg (Bool.eq_false_iff.mp hc)]
    rfl
  have hpass := cutAt_of_none hnone before []
  rw [List.append_nil, cutAt_nil, List.append_nil, List.reverse_reverse] at hpass
  exact hpass

theorem isPlain_gap_as (hgap : Blanks gap) : ∀ c ∈ gap ++ "AS ".toList, isPlain c := by
  have hword : ∀ c ∈ "AS ".toList, isPlain c := by decide
  intro c hc
  rcases List.mem_append.mp hc with hc | hc
  · exact isPlain_of_isBlank (hgap c hc)
  · exact hword c hc

/-- The blanks before an `as`, the word and a blank after it are read as one cut. -/
theorem readAs_cut {c : Char} (hc : isBlank c) (hgap : Blanks gap) {rest : List Cell}
    (hrest : ∀ d ∈ (Cell.shownText rest).head?, isBlank d = false) (before : Option Cell) :
    readAs before ⟨c, c, 0⟩ (Cell.ofChars (gap ++ "AS ".toList) ++ rest) =
      some ((), (Cell.ofChars (gap ++ "AS ".toList)).length) := by
  have hread := spacedWord?_spelled (spells_self "AS".toList) (by decide) (by decide) hc hgap hrest
  unfold readAs
  exact congrArg (Option.map _) hread

/-- A field is cut between its expression and its name and nowhere else. -/
theorem cut_named (hp : Solid p) (has : ShowsNoAs (maskQuoted p)) (hsealed : Sealed p) {c : Char}
    (hc : isBlank c) (hgap : Blanks gap) (hname : IsName name) :
    Cell.cut readAs (p ++ ([c] ++ ((gap ++ "AS ".toList) ++ inQuotes name))) = (Cell.ofChars p,
      [⟨(), ⟨c, c, 0⟩ :: Cell.ofChars (gap ++ "AS ".toList), Cell.ofChars (inQuotes name)⟩]) := by
  have hblank : ∀ d ∈ [c], isPlain d := by
    intro d hd
    rw [List.mem_singleton.mp hd]
    exact isPlain_of_isBlank hc
  have hcells : Cell.ofChars (p ++ ([c] ++ ((gap ++ "AS ".toList) ++ inQuotes name))) =
      Cell.ofChars p ++ (⟨c, c, 0⟩ :: (Cell.ofChars (gap ++ "AS ".toList) ++
        Cell.ofChars (inQuotes name))) := by
    rw [hsealed.balanced.ofChars_append, (balanced_of_isPlain hblank).ofChars_append,
      (balanced_of_isPlain (isPlain_gap_as hgap)).ofChars_append, ofChars_of_isPlain hblank]
    rfl
  have hparted : Parted (Cell.shownText (⟨c, c, 0⟩ :: (Cell.ofChars (gap ++ "AS ".toList) ++
      Cell.ofChars (inQuotes name)))) := by
    intro d hd
    cases hd
    exact hc
  have hquote : ∀ d ∈ (Cell.shownText (Cell.ofChars (inQuotes name))).head?, isBlank d = false := by
    intro d hd
    rw [shownText_ofChars, maskQuoted, head?_maskFrom] at hd
    exact (solid_inQuotes name).2.1 d hd
  rw [Cell.cut, hcells, cutAt_readAs hp has hparted, cutAt_some (readAs_cut hc hgap hquote _),
    if_pos rfl, List.take_left, List.drop_left, hname.cutAt_readAs, List.append_nil,
    List.reverse_reverse]

theorem FieldSpec.read_named (hp : Solid p) (has : ShowsNoAs (maskQuoted p)) (hsealed : Sealed p)
    (hgap : Blanks gap) (hname : IsName name) (hne : name ≠ []) :
    FieldSpec.read (String.ofList (p ++ (gap ++ " AS ".toList) ++ inQuotes name)) =
      .ok ⟨String.ofList p, some (String.ofList name)⟩ := by
  have hsolid := hp.append (solid_inQuotes name) (gap ++ " AS ".toList)
  obtain ⟨c, gap', hc, hgap', hall⟩ : ∃ c gap', isBlank c ∧ Blanks gap' ∧
      gap ++ " AS ".toList = [c] ++ (gap' ++ "AS ".toList) := by
    cases gap with
    | nil => exact ⟨' ', [], rfl, .nil, rfl⟩
    | cons c gap =>
      refine ⟨c, gap ++ [' '], hgap c List.mem_cons_self, ?_, by simp⟩
      intro d hd
      rcases List.mem_append.mp hd with hd | hd
      · exact hgap d (List.mem_cons_of_mem c hd)
      · rw [List.mem_singleton.mp hd]
        rfl
  have hcut := cut_named hp has hsealed hc hgap' hname
  rw [← List.append_assoc [c], ← hall, ← List.append_assoc] at hcut
  have hempty : p.isEmpty = false := List.isEmpty_eq_false_iff.mpr hp.1
  have hnameEmpty : name.isEmpty = false := List.isEmpty_eq_false_iff.mpr hne
  unfold FieldSpec.read
  simp only [String.toList_ofList, stripChars_of_solid hsolid, hcut, List.getLast?_singleton,
    List.dropLast_singleton, Cut.joined, List.flatMap_nil, List.append_nil, Cell.text_ofChars,
    stripChars_of_solid hp, stripChars_of_solid (solid_inQuotes name), stripQuotes_inQuotes, hempty,
    hnameEmpty, Bool.or_self]
  rfl

end

/-! ### Fields -/

section
variable {rest cs : List Char} {offset : Nat} {ts : List Token}

theorem Segmented.tokens_of_blanks (h : Segmented rest offset cs ts) (hcs : Blanks cs) : ts = [] := by
  induction h with
  | nil => rfl
  | blank _ _ ih => exact ih fun c hc => hcs c (List.mem_cons_of_mem _ hc)
  | quoted hquote _ _ _ =>
    rw [isQuote_of_isBlank (hcs _ List.mem_cons_self)] at hquote
    cases hquote
  | lexeme hblank _ _ _ _ =>
    rw [hcs _ List.mem_cons_self] at hblank
    cases hblank

/-- A text of blanks is no expression. -/
theorem solid_of_parse {text : String} {e : Expr} (h : Expr.parse text = .ok e) :
    Solid (stripChars text.toList) := by
  apply solid_stripChars
  intro hnil
  obtain ⟨lead, trail, hlead, htrail, hall⟩ := exists_blanks_around text.toList
  have hblanks : Blanks text.toList := by
    rw [hall, hnil, List.append_nil]
    intro c hc
    rcases List.mem_append.mp hc with hc | hc
    · exact hlead c hc
    · exact htrail c hc
  unfold Expr.parse at h
  cases hts : tokenize text with
  | error fault =>
    rw [hts] at h
    cases h
  | ok ts =>
    rw [hts, (segmented_of_tokenize hts).tokens_of_blanks hblanks] at h
    exact absurd (phrase_of_ofTokens h).consumed.length_lt (by decide)

end

namespace FieldSpec

/-- A field as a query writes it: its expression, with its name after an `AS` if it has one. -/
def written (f : FieldSpec) : String :=
  match f.alias? with
  | none => f.expression
  | some name => f.expression ++ " AS \"" ++ name ++ "\""

/-- A field that can be written: its expression is one, in ASCII characters and with no identifier `as` in
any case, and its name has a character and none that ends or escapes the quotes. -/
structure IsWritable (f : FieldSpec) : Prop where
  parses : ∃ e, Expr.parse f.expression = .ok e
  ascii : Ascii f.expression.toList
  noAs : ∀ ts, tokenize f.expression = .ok ts → ∀ t ∈ ts, t.kind = .identifier →
    t.text.toList.map Char.toLower ≠ "as".toList
  named : ∀ name, f.alias? = some name → name ≠ "" ∧ IsName name.toList

section
variable {f : FieldSpec}

/-- The expression of a field is its core with blanks around it. -/
theorem IsWritable.exists_core (h : f.IsWritable) : ∃ lead p trail, Blanks lead ∧ Blanks trail ∧
    f.expression.toList = lead ++ p ++ trail ∧ Solid p ∧ Sealed p ∧ ShowsNoAs (maskQuoted p) := by
  obtain ⟨e, he⟩ := h.parses
  obtain ⟨ts, hts, hsealed⟩ := sealed_of_parse he
  have hsegments := segmented_of_tokenize hts
  have hno := hsegments.showsNoAs h.ascii (h.noAs ts hts)
  obtain ⟨lead, trail, hlead, htrail, hall⟩ := exists_blanks_around f.expression.toList
  have hne := solid_of_parse he
  generalize stripChars f.expression.toList = p at hall hne
  rw [hall] at hsealed hno
  have hcore := hsealed.of_around hlead htrail
  rw [Sealed.maskQuoted_around hlead hcore.closed htrail] at hno
  exact ⟨lead, p, trail, hlead, htrail, hall, hne, hcore, hno.of_around htrail⟩

theorem toList_written_none (expression : String) :
    (written ⟨expression, none⟩).toList = expression.toList := rfl

theorem toList_written_some (expression name : String) :
    (written ⟨expression, some name⟩).toList =
      expression.toList ++ (" AS ".toList ++ inQuotes name.toList) := by
  have hquote : " AS \"".toList = " AS ".toList ++ ['"'] := rfl
  rw [written, String.toList_append, String.toList_append, String.toList_append, hquote, inQuotes]
  simp

theorem IsWritable.sealed_written (h : f.IsWritable) : Sealed f.written.toList := by
  obtain ⟨e, he⟩ := h.parses
  obtain ⟨_, _, hsealed⟩ := sealed_of_parse he
  obtain ⟨expression, name?⟩ := f
  cases name? with
  | none => exact hsealed
  | some name =>
    have hword : ∀ c ∈ " AS ".toList, Quoting.isQuote c = false ∧ isNesting c = false := by decide
    rw [toList_written_some]
    exact hsealed.append ((Sealed.of_isPlain hword).append (h.named name rfl).2.sealed)

theorem IsWritable.read_written (h : f.IsWritable) : stripChars f.written.toList ≠ [] ∧
    read (strip f.written) = .ok ⟨strip f.expression, f.alias?⟩ := by
  obtain ⟨lead, p, trail, hlead, htrail, hall, hp, hsealed, hno⟩ := h.exists_core
  obtain ⟨expression, name?⟩ := f
  have hexpression : stripChars expression.toList = p := by
    rw [hall]
    exact stripChars_around hlead hp htrail
  cases name? with
  | none =>
    rw [toList_written_none, hexpression, strip, toList_written_none, strip, hexpression]
    exact ⟨hp.1, read_of_showsNoAs hp hno⟩
  | some name =>
    obtain ⟨hne, hname⟩ := h.named name rfl
    have hsolid := hp.append (solid_inQuotes name.toList) (trail ++ " AS ".toList)
    have hwritten : stripChars (written ⟨expression, some name⟩).toList =
        p ++ (trail ++ " AS ".toList) ++ inQuotes name.toList := by
      have hstrip := stripChars_around hlead hsolid .nil
      rw [toList_written_some, hall, ← hstrip]
      simp
    have hchars : name.toList ≠ [] := by
      intro hnil
      exact hne (String.toList_eq_nil_iff.mp hnil)
    rw [strip, hwritten, strip, hexpression, read_named hp hno hsealed htrail hname hchars,
      String.ofList_toList]
    exact ⟨hsolid.1, rfl⟩

end

/-- Fields that are written with commas between them are read again as they were, without the blanks around
their expressions. -/
theorem readList_written {fields : List FieldSpec} (h : ∀ f ∈ fields, f.IsWritable) :
    readList (",".intercalate (fields.map written)) =
      .ok (fields.map fun f => ⟨strip f.expression, f.alias?⟩) := by
  have hsplit : splitFields (",".intercalate (fields.map written)) =
      (fields.map written).map strip := by
    apply splitFields_intercalate
    intro w hw
    obtain ⟨f, hf, rfl⟩ := List.mem_map.mp hw
    exact ⟨(h f hf).sealed_written, (h f hf).read_written.1⟩
  rw [readList, hsplit, List.mapM_map, List.mapM_map]
  exact mapM_eq_ok fun f hf => (h f hf).read_written.2

/-- The first field has a comma in brackets and one in quotes, and its name has both. -/
theorem readList_written_commas :
    readList " sum(a, \"b, c\")  AS \"n, ('\",d" =
      .ok [⟨"sum(a, \"b, c\")", some "n, ('"⟩, ⟨"d", none⟩] := by
  have hparses (text : String) (h : (Expr.parse text).toOption.isSome) : ∃ e, Expr.parse text = .ok e := by
    cases he : Expr.parse text with
    | error fault =>
      rw [he] at h
      cases h
    | ok e => exact ⟨e, rfl⟩
  have hsum : tokenize " sum(a, \"b, c\") " = .ok [⟨.identifier, "sum", 1⟩, ⟨.punctuation, "(", 4⟩,
      ⟨.identifier, "a", 5⟩, ⟨.punctuation, ",", 6⟩, ⟨.text, "b, c", 8⟩, ⟨.punctuation, ")", 14⟩] := by
    decide +kernel
  have hname : tokenize "d" = .ok [⟨.identifier, "d", 0⟩] := by decide +kernel
  have hfirst : IsWritable ⟨" sum(a, \"b, c\") ", some "n, ('"⟩ := by
    refine ⟨hparses _ (by decide +kernel), ?_, ?_, ?_⟩
    · unfold Ascii
      decide
    · intro ts hts
      rw [hsum] at hts
      cases hts
      decide
    · intro name h
      cases h
      unfold IsName
      decide
  have hsecond : IsWritable ⟨"d", none⟩ := by
    refine ⟨hparses _ (by decide +kernel), ?_, ?_, ?_⟩
    · unfold Ascii
      decide
    · intro ts hts
      rw [hname] at hts
      cases hts
      decide
    · intro name h
      cases h
  have hfields : ∀ f ∈ [(⟨" sum(a, \"b, c\") ", some "n, ('"⟩ : FieldSpec), ⟨"d", none⟩],
      f.IsWritable := by
    intro f hf
    rcases List.mem_cons.mp hf with rfl | hf
    · exact hfirst
    · rw [List.mem_singleton.mp hf]
      exact hsecond
  have hread := readList_written hfields
  have htext : ",".intercalate ([(⟨" sum(a, \"b, c\") ", some "n, ('"⟩ : FieldSpec), ⟨"d", none⟩].map
      written) = " sum(a, \"b, c\")  AS \"n, ('\",d" := by decide
  have hstrip : strip " sum(a, \"b, c\") " = "sum(a, \"b, c\")" ∧ strip "d" = "d" := by decide
  rw [htext] at hread
  simp only [List.map_cons, List.map_nil, hstrip] at hread
  exact hread

end FieldSpec
end NoteQuery
