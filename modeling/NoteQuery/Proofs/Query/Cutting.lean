import NoteQuery.Proofs.Query.Keywords
import NoteQuery.Proofs.Query.Layout

/-! Cutting a text at its clauses. The induction is on the clauses: blanks are passed over, a keyword is
cut at, and the content after it is passed over because nothing in it is a keyword. -/

namespace NoteQuery
set_option autoImplicit false
open Text

/-- A text that can stand as the header or as the content of a clause: it has one line and no blanks
around it, its quotes and brackets are closed, and no keyword stands outside them. -/
structure IsPiece (p : List Char) : Prop where
  line : OneLine p
  strip : stripChars p = p
  balanced : Balanced p
  free : (Cell.cut Clause.readKeyword p).2 = []

/-- A text that is passed over where clauses are cut; it may have several lines. -/
structure IsUncut (p : List Char) : Prop where
  strip : stripChars p = p
  balanced : Balanced p
  free : (Cell.cut Clause.readKeyword p).2 = []

theorem IsPiece.uncut {p : List Char} (h : IsPiece p) : IsUncut p := ⟨h.strip, h.balanced, h.free⟩

theorem IsUncut.solid {p : List Char} (h : IsUncut p) (hne : p ≠ []) : Solid p :=
  solid_of_stripChars h.strip hne

section
variable {κ : Type} {read? : SeparatorReader κ}

/-- What was read of the first piece stands in front of the rest of it. -/
theorem cutAt_piece (before : Option Cell) (piece cells : List Cell) :
    cutAt read? before piece cells = (piece.reverse ++ (cutAt read? before [] cells).1,
      (cutAt read? before [] cells).2) := by
  induction hn : cells.length using Nat.strongRecOn generalizing before piece cells with
  | ind n ih =>
    cases cells with
    | nil => rw [cutAt_nil, cutAt_nil, List.reverse_nil, List.append_nil]
    | cons c cs =>
      cases hc : read? before c cs with
      | none =>
        have hlt : cs.length < n := by
          simp only [List.length_cons] at hn
          omega
        rw [cutAt_none hc, cutAt_none hc, ih _ hlt _ (c :: piece) _ rfl, ih _ hlt _ [c] _ rfl]
        simp only [List.reverse_cons, List.reverse_nil, List.nil_append, List.append_assoc]
      | some r =>
        obtain ⟨k, extra⟩ := r
        have hlt : (cs.drop extra).length < n := by
          rw [List.length_drop]
          simp only [List.length_cons] at hn
          omega
        rw [cutAt_some hc, cutAt_some hc]
        split
        · rw [List.reverse_nil, List.append_nil]
        · rw [ih _ hlt _ ((c :: cs.take extra).reverse ++ piece) _ rfl,
            ih _ hlt _ ((c :: cs.take extra).reverse ++ []) _ rfl]
          simp only [List.reverse_append, List.reverse_reverse, List.reverse_nil, List.nil_append,
            List.append_assoc]

end

theorem mayPrecede_of_isBlank {c : Char} (h : isBlank c) : Clause.mayPrecede c := by
  exact forall_isBlank (p := fun c => Clause.mayPrecede c) (by decide +kernel) h

theorem readKeyword_le (before : Option Cell) (c : Cell) (cs : List Cell) (k : String) (extra : Nat)
    (h : Clause.readKeyword before c cs = some (k, extra)) : extra ≤ cs.length := by
  rw [readKeyword_eq] at h
  split at h
  · obtain ⟨ws, _, hws⟩ := List.exists_of_findSome?_eq_some h
    rw [keywordAt] at hws
    split at hws
    · split at hws
      · cases hws
        omega
      · cases hws
    · cases hws
  · cases h

section
variable {p gap text : List Char}

theorem cutAt_blanks (h : Blanks gap) (before : Option Cell) (piece cells : List Cell) :
    cutAt Clause.readKeyword before piece (Cell.ofChars gap ++ cells) =
      cutAt Clause.readKeyword ((Cell.ofChars gap).getLast?.or before)
        ((Cell.ofChars gap).reverse ++ piece) cells := by
  apply cutAt_of_none
  intro b c cs hs
  apply readKeyword_blank
  have hc : c ∈ Cell.ofChars gap := hs.subset List.mem_cons_self
  rw [ofChars_of_isPlain fun c hc => isPlain_of_isBlank (h c hc)] at hc
  obtain ⟨d, hd, rfl⟩ := List.mem_map.mp hc
  exact h d hd

theorem shown_of_mem_ofChars (cs : List Char) :
    ∀ c ∈ Cell.ofChars cs, c.shown = c.char ∨ c.shown = Quoting.mask := by
  have hfrom (q : Quoting) (d : Nat) :
      ∀ c ∈ cellsFrom q d cs, c.shown = c.char ∨ c.shown = Quoting.mask := by
    induction cs generalizing q d with
    | nil =>
      intro c hc
      cases hc
    | cons e cs ih =>
      intro c hc
      rw [cellsFrom] at hc
      rcases List.mem_cons.mp hc with rfl | hc
      · simp only
        split
        · exact .inr rfl
        · exact .inl rfl
      · exact ih _ _ c hc
  rw [ofChars_eq_cellsFrom]
  exact hfrom .outside 0

theorem getLast?_ofChars_of_solid (h : Solid p) :
    ∀ c ∈ (Cell.ofChars p).getLast?, isBlank c.shown = false := by
  intro c hc
  have hchar : c.char ∈ p.getLast? := by
    rw [← Cell.text_ofChars p, Cell.text, List.getLast?_map, hc]
    rfl
  rcases shown_of_mem_ofChars p c (List.mem_of_mem_getLast? hc) with hshown | hshown
  · rw [hshown]
    exact h.2.2 _ hchar
  · rw [hshown]
    decide

/-- A piece after a blank is passed over as a whole. -/
theorem cutAt_of_isUncut (h : IsUncut p) (hne : p ≠ []) {before : Option Cell}
    (hbefore : before.all fun b => Clause.mayPrecede b.shown) {cells : List Cell}
    (hrest : Parted (Cell.shownText cells))
    (hby : readWord? "by".toList (skipBlanks (Cell.shownText cells)) = none) (piece : List Cell) :
    cutAt Clause.readKeyword before piece (Cell.ofChars p ++ cells) =
      cutAt Clause.readKeyword ((Cell.ofChars p).getLast?.or before)
        ((Cell.ofChars p).reverse ++ piece) cells := by
  have hlast := getLast?_ofChars_of_solid (h.solid hne)
  have hread (b : Option Cell) (c : Cell) (cs : List Cell) (hs : c :: cs <:+ Cell.ofChars p) :
      Clause.readKeyword b c (cs ++ cells) = Clause.readKeyword b c cs := by
    apply readKeyword_append b c cs cells _ hrest hby
    intro d hd
    obtain ⟨front, hfront⟩ := hs
    apply hlast d
    rw [← hfront, List.getLast?_append, hd]
    rfl
  have hfree : (cutAt Clause.readKeyword before piece (Cell.ofChars p)).2 = [] := by
    have hstart : cutAt Clause.readKeyword before [] (Cell.ofChars p) =
        cutAt Clause.readKeyword none [] (Cell.ofChars p) := by
      cases Cell.ofChars p with
      | nil => rw [cutAt_nil, cutAt_nil]
      | cons c cs =>
        have hsame : Clause.readKeyword before c cs = Clause.readKeyword none c cs := by
          rw [readKeyword_eq, readKeyword_eq, if_pos hbefore]
          rfl
        rw [cutAt, cutAt, hsame]
    rw [cutAt_piece, hstart]
    exact h.free
  exact cutAt_pass hread readKeyword_le before piece hfree

end

section
variable {p gap kw text : List Char} {ps : List (List Char)} {key : ClauseKey}

theorem isPlain_of_blanks (h : Blanks gap) : ∀ c ∈ gap, isPlain c :=
  fun c hc => isPlain_of_isBlank (h c hc)

theorem SpellsAll.ne_nil (h : SpellsAll key.words ps) : ps ≠ [] := by
  rintro rfl
  cases key <;> cases h

theorem SpellsAll.cased (h : SpellsAll key.words ps) : ∀ p ∈ ps, p ≠ [] ∧ ∀ c ∈ p, Cased c := by
  intro p hp
  have hupper := key.words_upper (p.map Char.toUpper) (h ▸ List.mem_map_of_mem hp)
  exact ⟨((spells_self p).solid hupper.2 hupper.1).1, (spells_self p).cased hupper.2⟩

theorem isPlain_of_spaced (hs : Spaced ps kw) (h : ∀ p ∈ ps, ∀ c ∈ p, isPlain c) :
    ∀ c ∈ kw, isPlain c := by
  induction hs with
  | one p => exact h p List.mem_cons_self
  | @more p gap text ps _ hgap _ ih =>
    intro c hc
    rcases List.mem_append.mp hc with hc | hc
    · rcases List.mem_append.mp hc with hc | hc
      · exact h p List.mem_cons_self c hc
      · exact isPlain_of_blanks hgap c hc
    · exact ih (fun q hq => h q (List.mem_cons_of_mem p hq)) c hc

theorem shownText_of_isPlain (h : ∀ c ∈ p, isPlain c) : Cell.shownText (Cell.ofChars p) = p := by
  rw [ofChars_of_isPlain h, Cell.shownText, List.map_map]
  exact List.map_id p

theorem shownText_append (as bs : List Cell) :
    Cell.shownText (as ++ bs) = Cell.shownText as ++ Cell.shownText bs := List.map_append

theorem text_append (as bs : List Cell) : Cell.text (as ++ bs) = Cell.text as ++ Cell.text bs :=
  List.map_append

theorem parted_of_gap (hne : gap ≠ []) (h : Blanks gap) (cells : List Cell) :
    Parted (Cell.shownText (Cell.ofChars gap ++ cells)) := by
  rw [shownText_append, shownText_of_isPlain (isPlain_of_blanks h)]
  intro c hc
  cases gap with
  | nil => exact absurd rfl hne
  | cons d gap =>
    cases hc
    exact h c List.mem_cons_self

/-- The blanks before a clause, its keyword and what comes after it. -/
theorem exists_keyword {words : List (List Char)} (h : Followed (ps ++ words) text)
    (hps : SpellsAll key.words ps) : ∃ gap kw more, Followed words more ∧ gap ≠ [] ∧ Blanks gap ∧
      Spaced ps kw ∧ Cell.ofChars text = Cell.ofChars gap ++ (Cell.ofChars kw ++ Cell.ofChars more) := by
  obtain ⟨front, more, rfl, hfront, hmore⟩ := h.split
  obtain ⟨gap, kw, rfl, hne, hgap, hs⟩ := hfront.exists_gap hps.ne_nil
  have hplain := isPlain_of_spaced hs fun q hq c hc => ((hps.cased q hq).2 c hc).plain
  refine ⟨gap, kw, more, hmore, hne, hgap, hs, ?_⟩
  rw [List.append_assoc, (balanced_of_isPlain (isPlain_of_blanks hgap)).ofChars_append,
    (balanced_of_isPlain hplain).ofChars_append]

/-- What comes after a piece starts with a blank, and no keyword starts with the second word of one. -/
theorem parted_of_followed {keys : List ClauseKey} {spelling : ClauseKey → List (List Char)}
    {content : ClauseKey → List Char} (hspell : ∀ key ∈ keys, SpellsAll key.words (spelling key))
    (h : Followed (keys.flatMap fun key => spelling key ++ [content key]) text) :
    Parted (Cell.shownText (Cell.ofChars text)) ∧
      readWord? "by".toList (skipBlanks (Cell.shownText (Cell.ofChars text))) = none := by
  cases keys with
  | nil =>
    cases h
    exact ⟨.nil, rfl⟩
  | cons key keys =>
    have hps := hspell key List.mem_cons_self
    rw [List.flatMap_cons, List.append_assoc] at h
    obtain ⟨gap, kw, more, _, hne, hgap, hs, hcells⟩ := exists_keyword h hps
    have hplain := isPlain_of_spaced hs fun q hq c hc => ((hps.cased q hq).2 c hc).plain
    have hsolid : Solid kw := by
      apply hs.solid
      intro q hq
      have hcased := hps.cased q hq
      exact solid_of_cased hcased.1 hcased.2
    have hskip : skipBlanks (Cell.shownText (Cell.ofChars text)) =
        kw ++ Cell.shownText (Cell.ofChars more) := by
      rw [hcells, shownText_append, shownText_append, shownText_of_isPlain (isPlain_of_blanks hgap),
        shownText_of_isPlain hplain, skipBlanks_append hgap, skipBlanks_of_head]
      rw [head?_append_of_solid hsolid]
      exact hsolid.2.1
    refine ⟨?_, ?_⟩
    · rw [hcells]
      exact parted_of_gap hne hgap _
    · rw [hskip]
      exact readWord?_clash_spaced hs hps key.clash_by _

theorem mayPrecede_of_gap (hne : gap ≠ []) (h : Blanks gap) (before : Option Cell) :
    ((Cell.ofChars gap).getLast?.or before).all fun b => Clause.mayPrecede b.shown := by
  rw [ofChars_of_isPlain (isPlain_of_blanks h), List.getLast?_map, List.getLast?_eq_some_getLast hne]
  exact mayPrecede_of_isBlank (h _ (List.getLast_mem hne))

/-- Blanks and the piece after them are passed over. -/
theorem cutAt_padded (hne : gap ≠ []) (hgap : Blanks gap) (hp : IsUncut p) (hpne : p ≠ [])
    {cells : List Cell} (hrest : Parted (Cell.shownText cells))
    (hby : readWord? "by".toList (skipBlanks (Cell.shownText cells)) = none)
    (before : Option Cell) (piece : List Cell) : ∃ last,
      cutAt Clause.readKeyword before piece (Cell.ofChars gap ++ (Cell.ofChars p ++ cells)) =
        cutAt Clause.readKeyword last ((Cell.ofChars gap ++ Cell.ofChars p).reverse ++ piece) cells := by
  have hpass := cutAt_of_isUncut hp hpne (mayPrecede_of_gap hne hgap before) hrest hby
    ((Cell.ofChars gap).reverse ++ piece)
  rw [cutAt_blanks hgap, hpass, ← List.append_assoc, ← List.reverse_append]
  exact ⟨_, rfl⟩

/-- A text is cut at a keyword with blanks around it. -/
theorem cutAt_keyword (hne : gap ≠ []) (hgap : Blanks gap) (hs : Spaced ps kw)
    (hps : SpellsAll key.words ps) {cells : List Cell} (hrest : Parted (Cell.shownText cells))
    (before : Option Cell) (piece : List Cell) : ∃ last,
      cutAt Clause.readKeyword before piece (Cell.ofChars gap ++ (Cell.ofChars kw ++ cells)) =
        (piece.reverse ++ Cell.ofChars gap, ⟨key.name, Cell.ofChars kw,
          (cutAt Clause.readKeyword last [] cells).1⟩ :: (cutAt Clause.readKeyword last [] cells).2) := by
  have hplain := isPlain_of_spaced hs fun q hq c hc => ((hps.cased q hq).2 c hc).plain
  have hkw := ofChars_of_isPlain hplain
  obtain ⟨k, rest, rfl⟩ : ∃ k rest, kw = k :: rest := by
    cases kw with
    | nil =>
      obtain ⟨q, _, _, hq, hnil, _⟩ := hs.followed
      have hcased := hps.cased q (hq ▸ List.mem_cons_self)
      exact absurd (List.append_eq_nil_iff.mp hnil.symm).1 hcased.1
    | cons k rest => exact ⟨k, rest, rfl⟩
  have hshown : k :: Cell.shownText ((rest.map fun c => (⟨c, c, 0⟩ : Cell)) ++ cells) =
      k :: rest ++ Cell.shownText cells := by
    rw [shownText_append, Cell.shownText, List.map_map]
    exact congrArg (fun cs => k :: (cs ++ Cell.shownText cells)) (List.map_id rest)
  have hread := readKeyword_key (c := ⟨k, k, 0⟩) (mayPrecede_of_gap hne hgap before) hs hps hshown hrest
  have hextra : (k :: rest).length - 1 = (rest.map fun c => (⟨c, c, 0⟩ : Cell)).length := by
    rw [List.length_map]
    rfl
  rw [hextra] at hread
  rw [cutAt_blanks hgap, hkw, List.map_cons, List.cons_append, cutAt_some hread, if_pos rfl,
    List.take_left, List.drop_left, List.reverse_append, List.reverse_reverse]
  exact ⟨_, rfl⟩

/-- One clause: a text is cut at its keyword, and its content is passed over. -/
theorem cutAt_clause {words : List (List Char)} (hps : SpellsAll key.words ps) (hp : IsUncut p)
    (hpne : p ≠ []) (h : Followed (ps ++ p :: words) text)
    (hafter : ∀ more, Followed words more → Parted (Cell.shownText (Cell.ofChars more)) ∧
      readWord? "by".toList (skipBlanks (Cell.shownText (Cell.ofChars more))) = none)
    (before : Option Cell) (piece : List Cell) :
    ∃ gap kw lead more last, Blanks gap ∧ Blanks lead ∧ Followed words more ∧
      cutAt Clause.readKeyword before piece (Cell.ofChars text) =
        (piece.reverse ++ Cell.ofChars gap, ⟨key.name, kw, (cutAt Clause.readKeyword last
          (Cell.ofChars lead ++ Cell.ofChars p).reverse (Cell.ofChars more)).1⟩ ::
            (cutAt Clause.readKeyword last (Cell.ofChars lead ++ Cell.ofChars p).reverse
              (Cell.ofChars more)).2) := by
  obtain ⟨gap, kw, _, hmore, hne, hgap, hs, hcells⟩ := exists_keyword h hps
  cases hmore with
  | @cons _ lead more _ hleadne hlead hmore =>
    have hend := hafter more hmore
    rw [(balanced_of_isPlain (isPlain_of_blanks hlead)).ofChars_append,
      hp.balanced.ofChars_append] at hcells
    obtain ⟨first, hcut⟩ := cutAt_keyword hne hgap hs hps
      (parted_of_gap hleadne hlead (Cell.ofChars p ++ Cell.ofChars more)) before piece
    obtain ⟨last, hpass⟩ := cutAt_padded hleadne hlead hp hpne hend.1 hend.2 first []
    rw [hpass, List.append_nil, ← hcells] at hcut
    exact ⟨gap, Cell.ofChars kw, lead, more, last, hgap, hlead, hmore, hcut⟩

/-- The clauses of a text are what it is cut into. -/
theorem cutAt_clauses {keys : List ClauseKey} {spelling : ClauseKey → List (List Char)}
    {content : ClauseKey → List Char} (hspell : ∀ key ∈ keys, SpellsAll key.words (spelling key))
    (hcontent : ∀ key ∈ keys, IsUncut (content key) ∧ content key ≠ [])
    (h : Followed (keys.flatMap fun key => spelling key ++ [content key]) text)
    (before : Option Cell) (piece : List Cell) :
    ∃ gap cuts, Blanks (Cell.text gap) ∧
      cutAt Clause.readKeyword before piece (Cell.ofChars text) = (piece.reverse ++ gap, cuts) ∧
        cuts.map (fun cut => (cut.key, stripChars (Cell.text cut.piece))) =
          keys.map fun key => (key.name, content key) := by
  induction keys generalizing text before piece with
  | nil =>
    cases h
    refine ⟨[], [], .nil, ?_, rfl⟩
    rw [List.append_nil]
    exact cutAt_nil before piece
  | cons key keys ih =>
    have hp := hcontent key List.mem_cons_self
    have hspell' : ∀ k ∈ keys, SpellsAll k.words (spelling k) :=
      fun k hk => hspell k (List.mem_cons_of_mem key hk)
    rw [List.flatMap_cons, List.append_assoc, List.singleton_append] at h
    obtain ⟨gap, kw, lead, more, last, hgap, hlead, hmore, hcut⟩ :=
      cutAt_clause (hspell key List.mem_cons_self) hp.1 hp.2 h
        (fun more hmore => parted_of_followed hspell' hmore) before piece
    obtain ⟨trail, cuts, htrail, hrest, hcuts⟩ := ih hspell'
      (fun k hk => hcontent k (List.mem_cons_of_mem key hk)) hmore last
      (Cell.ofChars lead ++ Cell.ofChars (content key)).reverse
    rw [List.reverse_reverse] at hrest
    rw [hrest] at hcut
    have hstrip : stripChars (Cell.text (Cell.ofChars lead ++ Cell.ofChars (content key) ++ trail)) =
        content key := by
      rw [text_append, text_append, Cell.text_ofChars, Cell.text_ofChars]
      exact stripChars_around hlead (hp.1.solid hp.2) htrail
    refine ⟨Cell.ofChars gap, _, ?_, hcut, ?_⟩
    · rw [Cell.text_ofChars]
      exact hgap
    · rw [List.map_cons, List.map_cons, hcuts, hstrip]

end

end NoteQuery
