import NoteQuery.Proofs.Query.Connectives

/-! Sources that are written out and read again. A tag is written as it stands in the text, so that it shows
no more connectives than it did there; all else is written in quotes and shows none. -/

namespace NoteQuery
set_option autoImplicit false
open Text

/-! ### Sources -/

/-- A text without quotes and backslashes. -/
def Unquoted (cs : List Char) : Prop := ∀ c ∈ cs, Quoting.isQuote c = false ∧ c ≠ '\\'

instance (cs : List Char) : Decidable (Unquoted cs) := List.decidableBAll _ cs

/-- The sign of a source. -/
def signOf (negated : Bool) : List Char := if negated then ['-'] else []

/-- How the value of a source is written: a tag as it is, all else in quotes. -/
def writtenValue (core : List Char) : List Char :=
  match core with
  | '#' :: _ => core
  | _ => inQuotes core

section
variable {w core lead trail : List Char} {negated : Bool} {s : Source} {rest : List Cell}

theorem Unquoted.isName (h : Unquoted w) : IsName w := by
  intro c hc
  refine ⟨?_, (h c hc).2⟩
  rintro rfl
  cases (h _ hc).1

theorem Unquoted.stripQuotes (h : Unquoted w) : stripQuotes w = w := by
  cases w with
  | nil => rfl
  | cons c w => simp [NoteQuery.stripQuotes, (h c List.mem_cons_self).1]

theorem ofChars_of_head? (h : core.head? ≠ some '#') (negated : Bool) :
    Source.ofChars negated core =
      ⟨if endsWith Source.noteEnding (lowerChars (stripQuotes core)) then .file else .folder,
        String.ofList (stripQuotes core), negated⟩ := by
  unfold Source.ofChars
  split
  · exact absurd rfl h
  · rfl

/-- A source is a tag that is written as it is, or a path that may be written in quotes. -/
theorem ofChars_cases (h : Unquoted core) (negated : Bool) :
    (∃ name, core = '#' :: name ∧ Source.ofChars negated core = ⟨.tag, String.ofList name, negated⟩ ∧
      writtenValue core = core) ∨
    ∃ kind, kind ≠ .tag ∧ Source.ofChars negated core = ⟨kind, String.ofList core, negated⟩ ∧
      Source.ofChars negated (inQuotes core) = ⟨kind, String.ofList core, negated⟩ ∧
        writtenValue core = inQuotes core := by
  by_cases hhead : core.head? = some '#'
  · obtain ⟨name, rfl⟩ := List.head?_eq_some_iff.mp hhead
    exact .inl ⟨name, rfl, rfl, rfl⟩
  · refine .inr ⟨if endsWith Source.noteEnding (lowerChars core) then .file else .folder, ?_, ?_, ?_, ?_⟩
    · split <;> decide
    · rw [ofChars_of_head? hhead, h.stripQuotes]
    · rw [ofChars_of_head? (by simp [inQuotes]), stripQuotes_inQuotes]
    · unfold writtenValue
      split
      · exact absurd rfl hhead
      · rfl

theorem toList_describe (h : Unquoted core) (negated : Bool) :
    (Source.ofChars negated core).describe.toList = signOf negated ++ writtenValue core := by
  obtain ⟨name, rfl, hs, hvalue⟩ | ⟨kind, hkind, hs, -, hvalue⟩ := ofChars_cases h negated
  · rw [hs, hvalue]
    cases negated <;> simp [Source.describe, signOf]
  · rw [hs, hvalue]
    cases negated <;> simp [Source.describe, signOf, hkind, inQuotes]

/-- What is read of a piece stands in it, with a dash and blanks around it. -/
theorem exists_of_read (h : Source.read (String.ofList w) = .ok s) :
    ∃ negated lead core trail, w = lead ++ core ++ trail ∧ (∀ x ∈ lead, isPlain x) ∧ Blanks trail ∧
      Solid core ∧ s = Source.ofChars negated core := by
  unfold Source.read at h
  rw [String.toList_ofList] at h
  obtain ⟨lead, trail, hlead, htrail, hw⟩ := exists_blanks_around w
  dsimp only at h
  split at h
  · next rest hdash =>
    split at h
    · cases h
    · next hempty =>
      cases h
      obtain ⟨lead', trail', hlead', htrail', hrest⟩ := exists_blanks_around rest
      refine ⟨true, lead ++ '-' :: lead', stripChars rest, trail' ++ trail, ?_, ?_, ?_, ?_, rfl⟩
      · calc
          w = lead ++ '-' :: rest ++ trail := by rw [← hdash, ← hw]
          _ = lead ++ '-' :: (lead' ++ stripChars rest ++ trail') ++ trail := by rw [← hrest]
          _ = lead ++ '-' :: lead' ++ stripChars rest ++ (trail' ++ trail) := by simp
      · simp only [List.mem_append, List.mem_cons]
        rintro x (hx | rfl | hx)
        · exact isPlain_of_isBlank (hlead x hx)
        · decide
        · exact isPlain_of_isBlank (hlead' x hx)
      · exact fun x hx => (List.mem_append.mp hx).elim (htrail' x) (htrail x)
      · exact solid_stripChars (by simpa using hempty)
  · split at h
    · cases h
    · next hempty =>
      cases h
      exact ⟨false, lead, stripChars w, trail, hw, fun x hx => isPlain_of_isBlank (hlead x hx), htrail,
        solid_stripChars (by simpa using hempty), rfl⟩

theorem solid_writtenValue (h : Solid core) : Solid (writtenValue core) := by
  unfold writtenValue
  split
  · exact h
  · exact solid_inQuotes core

theorem solid_dash {p : List Char} (h : Solid p) : Solid ('-' :: p) := by
  have hdash : Solid ['-'] := solid_of_stripChars (by decide) (by decide)
  have hsolid := hdash.append h []
  rw [List.append_nil] at hsolid
  exact hsolid

theorem solid_written (h : Solid core) (negated : Bool) :
    Solid (signOf negated ++ writtenValue core) := by
  cases negated with
  | false => exact solid_writtenValue h
  | true => exact solid_dash (solid_writtenValue h)

theorem read_written (h : Solid core) (hu : Unquoted core) (negated : Bool) :
    Source.read (String.ofList (signOf negated ++ writtenValue core)) =
      .ok (Source.ofChars negated core) := by
  have hsolid := solid_writtenValue h
  have hvalue : Source.ofChars negated (writtenValue core) = Source.ofChars negated core := by
    obtain ⟨name, -, -, hvalue⟩ | ⟨kind, -, hs, hs', hvalue⟩ := ofChars_cases hu negated
    · rw [hvalue]
    · rw [hvalue, hs, hs']
  have hempty : (writtenValue core).isEmpty = false := List.isEmpty_eq_false_iff.mpr hsolid.1
  unfold Source.read
  rw [String.toList_ofList, stripChars_of_solid (solid_written h negated)]
  cases negated with
  | true =>
    simp only [signOf, if_true, List.singleton_append, stripChars_of_solid hsolid, hempty, hvalue]
    rfl
  | false =>
    simp only [signOf, Bool.false_eq_true, if_false, List.nil_append]
    split
    · next rest hdash =>
      obtain ⟨name, rfl, -, hvalue⟩ | ⟨kind, -, -, -, hvalue⟩ := ofChars_cases hu false
      · rw [hvalue] at hdash
        cases hdash
      · rw [hvalue] at hdash
        cases hdash
    · simp only [hempty, hvalue]
      rfl

/-- Without what stands around it, a piece is still one without connectives. -/
theorem NoConnective.of_around (hlead : ∀ x ∈ lead, isPlain x) (htrail : Blanks trail) (hcore : Solid core)
    (hq : ∀ x ∈ core, Quoting.isQuote x = false)
    (h : NoConnective (Cell.ofChars (lead ++ core ++ trail)) rest)
    (hrest : Parted (Cell.shownText rest)) : NoConnective (Cell.ofChars core) rest := by
  obtain ⟨d, hcells⟩ : ∃ d, Cell.ofChars (core ++ trail) =
      Cell.ofChars core ++ cellsFrom .outside d trail := by
    rw [ofChars_eq_cellsFrom, cellsFrom_append_of_noQuote hq, ← ofChars_eq_cellsFrom]
    exact ⟨_, rfl⟩
  rw [List.append_assoc, (balanced_of_isPlain hlead).ofChars_append, hcells] at h
  have hshown : Cell.shownText (cellsFrom .outside d trail) = trail := by
    rw [shownText_cellsFrom, maskFrom_of_noQuote fun x hx => isQuote_of_isBlank (htrail x hx)]
  have hparted : Parted (Cell.shownText (cellsFrom .outside d trail ++ rest)) := by
    rw [shownText_append, hshown]
    cases trail with
    | nil => exact hrest
    | cons x trail =>
      intro y hy
      cases hy
      exact htrail x List.mem_cons_self
  exact (h.suffix (List.suffix_append _ _)).left.with_rest hcore hparted hrest
    fun hne => List.append_ne_nil_of_right_ne_nil _ hne

theorem Balanced.of_around (hlead : ∀ x ∈ lead, isPlain x) (htrail : Blanks trail)
    (hq : ∀ x ∈ lead ++ core ++ trail, Quoting.isQuote x = false)
    (h : Balanced (lead ++ core ++ trail)) : Balanced core := by
  have hcore : ∀ x ∈ core, Quoting.isQuote x = false := fun x hx => hq x (by simp [hx])
  have hdepth := h.2
  rw [maskQuoted, maskFrom_of_noQuote hq, List.foldl_append, List.foldl_append,
    foldl_depthNext_of_isPlain hlead,
    foldl_depthNext_of_isPlain fun x hx => isPlain_of_isBlank (htrail x hx)] at hdepth
  refine ⟨foldl_next_of_noQuote hcore, ?_⟩
  rw [maskQuoted, maskFrom_of_noQuote hcore]
  exact hdepth

/-- What is written for a piece can stand in its place. -/
structure IsEcho (w e : List Char) : Prop where
  solid : Solid e
  balanced : Balanced w → Balanced e
  free : ∀ rest, Parted (Cell.shownText rest) → NoConnective (Cell.ofChars w) rest →
    NoConnective (Cell.ofChars e) rest

theorem isEcho_writtenValue (hlead : ∀ x ∈ lead, isPlain x) (htrail : Blanks trail)
    (hcore : Solid core) (hu : Unquoted (lead ++ core ++ trail)) :
    IsEcho (lead ++ core ++ trail) (writtenValue core) := by
  have hu' : Unquoted core := fun x hx => hu x (by simp [hx])
  refine ⟨solid_writtenValue hcore, fun hbalanced => ?_, fun rest hrest hfree => ?_⟩
  · obtain ⟨name, -, -, hvalue⟩ | ⟨kind, -, -, -, hvalue⟩ := ofChars_cases hu' false
    · rw [hvalue]
      exact hbalanced.of_around hlead htrail fun x hx => (hu x hx).1
    · rw [hvalue]
      exact hu'.isName.sealed.balanced
  · obtain ⟨name, -, -, hvalue⟩ | ⟨kind, -, -, -, hvalue⟩ := ofChars_cases hu' false
    · rw [hvalue]
      exact hfree.of_around hlead htrail hcore (fun x hx => (hu' x hx).1) hrest
    · rw [hvalue]
      exact noConnective_of_not_blank hu'.isName.isBlank_shown

/-- A dash is no connective and closes nothing. -/
theorem IsEcho.dash {e : List Char} (h : IsEcho w e) : IsEcho w ('-' :: e) where
  solid := solid_dash h.solid
  balanced hw := h.balanced hw
  free rest hrest hw := by
    have hcells := (balanced_of_isPlain (p := ['-']) (by decide)).ofChars_append e
    rw [List.singleton_append] at hcells
    rw [hcells]
    exact (h.free rest hrest hw).cons fun _ => readConnective_of_not_blank (by decide) none _

/-- A source that is read of a piece is read again where it is written in its place. -/
theorem isEcho_of_read (hu : Unquoted w) (h : Source.read (String.ofList w) = .ok s) :
    IsEcho w s.describe.toList ∧ Source.read s.describe = .ok s := by
  obtain ⟨negated, lead, core, trail, rfl, hlead, htrail, hcore, rfl⟩ := exists_of_read h
  have hu' : Unquoted core := fun x hx => hu x (by simp [hx])
  have hvalue := isEcho_writtenValue hlead htrail hcore hu
  refine ⟨?_, ?_⟩
  · rw [toList_describe hu']
    cases negated with
    | true => exact hvalue.dash
    | false => exact hvalue
  · have hread := read_written hcore hu' negated
    rw [← toList_describe hu', String.ofList_toList] at hread
    exact hread

end

/-! ### Clauses -/

/-- Where pieces are echoed one by one, what is written are pieces again. -/
theorem Pieces.echo {ws es : List (List Char)} (h : Pieces ws) (hes : List.Forall₂ IsEcho ws es) :
    Pieces es := by
  induction h generalizing es with
  | last hfree =>
    cases hes with | cons hw hnil =>
    cases hnil
    exact .last (hw.free [] .nil hfree)
  | more hbalanced hfree hne hparted _ ih =>
    cases hes with | cons hw hrest =>
    exact .more (hw.balanced hbalanced) (hw.free _ hparted hfree) hne hparted (ih hrest)

namespace SourceClause

/-- The sources of a clause are read of the pieces of its text, between which stands one connective. -/
theorem read_eq_ok {text : String} {clause : SourceClause} {r : List Cell × List (Cut Connective)}
    (hr : Cell.cut readConnective text.toList = r) : read text = .ok clause ↔
      ¬(r.2.any (·.key = .and) && r.2.any (·.key = .or)) ∧
        ((Cut.texts r).map String.ofList).mapM Source.read = .ok clause.sources ∧
          clause.connective = (r.2.head?.map (·.key)).getD .and := by
  have htexts : (r.1 :: r.2.map (·.piece)).map (fun p => String.ofList (Cell.text p)) =
      (Cut.texts r).map String.ofList := by
    rw [Cut.texts, Cut.pieces, List.map_map]
    rfl
  obtain ⟨connective, sources⟩ := clause
  unfold read
  rw [hr]
  simp only [htexts]
  by_cases hmixed : r.2.any (·.key = .and) && r.2.any (·.key = .or)
  · rw [if_pos hmixed]
    exact iff_of_false nofun fun h => h.1 hmixed
  · rw [if_neg hmixed]
    change ((((Cut.texts r).map String.ofList).mapM Source.read) >>= fun sources =>
      pure (⟨(r.2.head?.map (·.key)).getD .and, sources⟩ : SourceClause)) = _ ↔ _
    rw [bind_eq_ok]
    constructor
    · rintro ⟨_, hsources, h⟩
      cases h
      exact ⟨hmixed, hsources, rfl⟩
    · rintro ⟨-, hsources, hconnective⟩
      exact ⟨sources, hsources, by rw [← hconnective]; rfl⟩

/-- Sources that are written between connectives are read back; a single one says nothing of the
connective. -/
theorem read_joined {connective : Connective} {s : Source} {ss : List Source}
    (h : Pieces ((s :: ss).map fun s => s.describe.toList))
    (hread : ∀ s' ∈ s :: ss, Solid s'.describe.toList ∧ Source.read s'.describe = .ok s')
    (hone : ss = [] → connective = .and) :
    read (describe ⟨connective, s :: ss⟩) = .ok ⟨connective, s :: ss⟩ := by
  have hsolid : ∀ v ∈ s.describe :: ss.map (·.describe), Solid v.toList := by
    rw [← List.map_cons, List.forall_mem_map]
    exact fun s hs => (hread s hs).1
  have hpieces : Pieces ((s.describe :: ss.map (·.describe)).map (·.toList)) := by
    rw [← List.map_cons, List.map_map]
    exact h
  obtain ⟨cuts, hcut, hkeys, hcells⟩ := cutAt_joined connective hpieces hsolid none []
  have htexts : (Cut.texts (Cell.ofChars s.describe.toList, cuts)).map String.ofList =
      (s :: ss).map (·.describe) := by
    rw [Cut.texts, Cut.pieces, hcells]
    simp [Cell.text_ofChars]
  refine (read_eq_ok hcut).mpr ⟨?_, ?_, ?_⟩
  · simp only [Bool.and_eq_true, List.any_eq_true, decide_eq_true_eq]
    rintro ⟨⟨c, hc, hand⟩, c', hc', hor⟩
    rw [hkeys c hc] at hand
    rw [hkeys c' hc', hand] at hor
    cases hor
  · rw [List.reverse_nil, List.nil_append, htexts]
    refine mapM_of_forall₂ (List.forall₂_map_left_iff.mpr ?_)
    exact List.forall₂_same.mpr fun s hs => (hread s hs).2
  · cases cuts with
    | nil =>
      exact hone (List.map_eq_nil_iff.mp (List.map_eq_nil_iff.mp hcells.symm))
    | cons c cuts => exact (hkeys c List.mem_cons_self).symm

/-- A clause that is read of a text without quotes and backslashes is read of what is written for it. -/
theorem read_describe {text : String} {clause : SourceClause} (hu : Unquoted text.toList)
    (h : read text = .ok clause) : read clause.describe = .ok clause := by
  rcases hcut : Cell.cut readConnective text.toList with ⟨first, cuts⟩
  obtain ⟨-, hsources, hconnective⟩ := (read_eq_ok hcut).mp h
  obtain ⟨connective, sources⟩ := clause
  have hcuts := pieces_of_cutAt (fun x hx => (hu x hx).1) none
  change Pieces (Cut.texts (Cell.cut readConnective text.toList)) ∧
    ∀ p ∈ Cut.texts (Cell.cut readConnective text.toList), ∀ x ∈ p, x ∈ text.toList at hcuts
  rw [hcut] at hcuts
  obtain ⟨hpieces, hin⟩ := hcuts
  have hread : List.Forall₂ (fun w s => Unquoted w ∧ Source.read (String.ofList w) = .ok s)
      (Cut.texts (first, cuts)) sources :=
    (List.forall₂_and_left _ _).mpr ⟨fun w hw x hx => hu x (hin w hw x hx),
      List.forall₂_map_left_iff.mp (forall₂_of_mapM hsources)⟩
  have hagain : ∀ s ∈ sources, Solid s.describe.toList ∧ Source.read s.describe = .ok s :=
    forall_of_forall₂ hread fun w s hs => (isEcho_of_read hs.1 hs.2).imp_left IsEcho.solid
  have hecho : Pieces (sources.map fun s => s.describe.toList) :=
    hpieces.echo (List.forall₂_map_right_iff.mpr (hread.imp fun w s hs => (isEcho_of_read hs.1 hs.2).1))
  cases hread with
  | cons hfirst hrest =>
    refine read_joined hecho hagain fun hnil => ?_
    subst hnil
    cases cuts with
    | nil => exact hconnective
    | cons c cuts => cases hrest

/-- Words between blanks join nothing inside brackets, and an open bracket hides them to the end. -/
theorem read_describe_brackets :
    let text := "-  #a(b AND c) or Notes/X.MD OR or [ AND d"
    let clause : SourceClause :=
      ⟨.or, [⟨.tag, "a(b AND c)", true⟩, ⟨.file, "Notes/X.MD", false⟩,
        ⟨.folder, "or [ AND d", false⟩]⟩
    (Unquoted text.toList ∧ read text = .ok clause) ∧
      clause.describe = "-#a(b AND c) OR \"Notes/X.MD\" OR \"or [ AND d\"" ∧
        read clause.describe = .ok clause := by
  intro text clause
  have hu : Unquoted text.toList := by decide +kernel
  have hread : read text = .ok clause := toOption_eq_some.mp (by decide +kernel)
  exact ⟨⟨hu, hread⟩, by decide +kernel, read_describe hu hread⟩

end SourceClause

end NoteQuery
