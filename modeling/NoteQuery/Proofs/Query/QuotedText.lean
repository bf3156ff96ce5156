import NoteQuery.Proofs.Expr.RoundTrip
import NoteQuery.Proofs.Query.Fields
import NoteQuery.Proofs.Query.Reading

/-! Texts in quotes inside a query. The lines of a query are stripped and joined again before its quotes
are looked at, so blanks next to a line break are lost inside quotes as well, and every line break there
becomes a line feed. All else in quotes is kept: no keyword, comma or bracket counts, and no blank between
two words of one line is lost. -/

namespace NoteQuery
set_option autoImplicit false
open Text

/-! ### Lines joined again -/

/-- What becomes of some blanks when the lines of a text are stripped and joined again. -/
def shownGap (gap : List Char) : List Char := if gap.any isLineBreak then ['\n'] else gap

/-- What becomes of a text after the blanks in `gap`. -/
def rejoinedFrom (gap : List Char) : List Char → List Char
  | [] => shownGap gap
  | c :: cs =>
    if isBlank c then rejoinedFrom (gap ++ [c]) cs else shownGap gap ++ c :: rejoinedFrom [] cs

/-- What becomes of a text between two other characters when its lines are stripped and joined again. -/
def rejoined (cs : List Char) : List Char := rejoinedFrom [] cs

section
variable {c : Char} {cs p gap : List Char}

theorem shownGap_of_oneLine (h : OneLine gap) : shownGap gap = gap := by
  rw [shownGap, if_neg]
  intro hany
  obtain ⟨c, hc, hbreak⟩ := List.any_eq_true.mp hany
  rw [h c hc] at hbreak
  cases hbreak

theorem shownGap_of_break (front back : List Char) (hc : isLineBreak c) :
    shownGap (front ++ c :: back) = ['\n'] := by
  rw [shownGap, if_pos (List.any_eq_true.mpr ⟨c, by simp, hc⟩)]

theorem blanks_concat (h : Blanks gap) (hc : isBlank c) : Blanks (gap ++ [c]) := by
  intro d hd
  rcases List.mem_append.mp hd with hd | hd
  · exact h d hd
  · rw [List.mem_singleton.mp hd]
    exact hc

theorem eq_nil_of_head? (h : Blanks gap) (hhead : ∀ c ∈ gap.head?, isBlank c = false) : gap = [] := by
  cases gap with
  | nil => rfl
  | cons c gap =>
    have hc := h c List.mem_cons_self
    rw [hhead c rfl] at hc
    cases hc

theorem eq_nil_of_getLast? (h : Blanks gap) (hlast : ∀ c ∈ gap.getLast?, isBlank c = false) :
    gap = [] := by
  refine List.reverse_eq_nil_iff.mp (eq_nil_of_head? (fun c hc => h c (List.mem_reverse.mp hc)) ?_)
  rw [List.head?_reverse]
  exact hlast

theorem rejoinedFrom_of_blank (hc : isBlank c) (gap cs : List Char) :
    rejoinedFrom gap (c :: cs) = rejoinedFrom (gap ++ [c]) cs := by rw [rejoinedFrom, if_pos hc]

theorem rejoinedFrom_of_notBlank (hc : isBlank c = false) (gap cs : List Char) :
    rejoinedFrom gap (c :: cs) = shownGap gap ++ c :: rejoined cs := by
  rw [rejoinedFrom, if_neg (by simp [hc]), rejoined]

/-- A character that is no blank parts a text. -/
theorem rejoinedFrom_append (hc : isBlank c = false) (gap as cs : List Char) :
    rejoinedFrom gap (as ++ c :: cs) = rejoinedFrom gap as ++ c :: rejoined cs := by
  induction as generalizing gap with
  | nil => exact rejoinedFrom_of_notBlank hc gap cs
  | cons a as ih =>
    cases ha : isBlank a with
    | true => rw [List.cons_append, rejoinedFrom_of_blank ha, rejoinedFrom_of_blank ha, ih]
    | false =>
      rw [List.cons_append, rejoinedFrom_of_notBlank ha, rejoinedFrom_of_notBlank ha, rejoined, ih,
        List.append_assoc]
      rfl

theorem mem_rejoinedFrom (h : c ∈ rejoinedFrom gap cs) : c ∈ gap ++ cs ∨ c = '\n' := by
  have hshown {gap : List Char} (hc : c ∈ shownGap gap) : c ∈ gap ∨ c = '\n' := by
    rw [shownGap] at hc
    split at hc
    · exact .inr (List.mem_singleton.mp hc)
    · exact .inl hc
  induction cs generalizing gap with
  | nil =>
    rw [List.append_nil]
    exact hshown h
  | cons d cs ih =>
    cases hd : isBlank d with
    | true =>
      rw [rejoinedFrom_of_blank hd] at h
      have hmem := ih h
      rw [List.append_assoc] at hmem
      exact hmem
    | false =>
      rw [rejoinedFrom_of_notBlank hd] at h
      rcases List.mem_append.mp h with h | h
      · exact (hshown h).imp_left (List.mem_append_left _)
      · rcases List.mem_cons.mp h with rfl | h
        · exact .inl (by simp)
        · refine (ih h).imp_left fun hc => ?_
          exact List.mem_append_right _ (List.mem_cons_of_mem d hc)

theorem oneLine_singleton (hc : isBlank c = false) : OneLine [c] := by
  intro d hd
  rw [List.mem_singleton.mp hd]
  exact isLineBreak_of_notBlank hc

theorem solid_singleton (hc : isBlank c = false) : Solid [c] := by
  refine ⟨List.cons_ne_nil c [], ?_, ?_⟩
  · intro d hd
    cases hd
    exact hc
  · intro d hd
    cases hd
    exact hc

/-- A word before a line break is joined to the lines after it by a line feed. -/
theorem joinWith_shownLines_break {front back text : List Char} (hp : Solid p) (hline : OneLine p)
    (hgap : Blanks (front ++ c :: back)) (hfront : OneLine front) (hc : isLineBreak c)
    (htext : shownLines text ≠ []) :
    joinWith ['\n'] (shownLines (p ++ (front ++ c :: back) ++ text)) =
      p ++ '\n' :: joinWith ['\n'] (shownLines text) := by
  have hfrontblanks : Blanks front := fun d hd => hgap d (List.mem_append_left _ hd)
  have hback : Blanks back := fun d hd => hgap d (by simp [hd])
  have hall : p ++ (front ++ c :: back) ++ text = p ++ front ++ c :: (back ++ text) := by simp
  rw [hall, shownLines_word_break hp hline hfrontblanks hfront hc, shownLines_blanks hback]
  cases hlines : shownLines text with
  | nil => exact absurd hlines htext
  | cons l ls => exact List.append_assoc p ['\n'] _

/-- The lines of a text joined again. The induction carries what was read of a line: a word and the
blanks after it. -/
theorem joinWith_shownLines (hp : Solid p) (hline : OneLine p) (hgap : Blanks gap)
    (hlast : ∀ c ∈ (p ++ gap ++ cs).getLast?, isBlank c = false) :
    joinWith ['\n'] (shownLines (p ++ gap ++ cs)) = p ++ rejoinedFrom gap cs := by
  induction cs generalizing p gap with
  | nil =>
    have hnil : gap = [] := by
      apply eq_nil_of_getLast? hgap
      intro c hc
      apply hlast c
      rw [List.append_nil, List.getLast?_append, Option.mem_def.mp hc]
      rfl
    subst hnil
    rw [List.append_nil, List.append_nil, shownLines_eq_cons (lines_of_oneLine hline hp.1),
      stripChars_of_solid hp, filter_solid hp]
    exact (List.append_nil p).symm
  | cons c cs ih =>
    cases hc : isBlank c with
    | true =>
      have hmore : p ++ gap ++ c :: cs = p ++ (gap ++ [c]) ++ cs := by simp
      rw [hmore] at hlast ⊢
      rw [rejoinedFrom_of_blank hc]
      exact ih hp hline (blanks_concat hgap hc) hlast
    | false =>
      have hword := solid_singleton hc
      have hwordline := oneLine_singleton hc
      rw [rejoinedFrom_of_notBlank hc]
      rcases oneLine_or_break gap with hgapline | ⟨front, b, back, rfl, hfront, hb⟩
      · have hmore : p ++ gap ++ c :: cs = p ++ gap ++ [c] ++ [] ++ cs := by simp
        rw [hmore] at hlast ⊢
        rw [ih (hp.append hword gap) ((hline.append hgapline).append hwordline) .nil hlast,
          shownGap_of_oneLine hgapline, rejoined]
        simp only [List.append_assoc, List.singleton_append]
      · have hend : ∀ d ∈ (c :: cs).getLast?, isBlank d = false := by
          intro d hd
          apply hlast d
          rw [List.getLast?_append, Option.mem_def.mp hd, Option.some_or]
          rfl
        have hnext : joinWith ['\n'] (shownLines (c :: cs)) = c :: rejoined cs :=
          ih hword hwordline .nil hend
        have hne : shownLines (c :: cs) ≠ [] := by
          intro hnil
          rw [hnil] at hnext
          cases hnext
        rw [joinWith_shownLines_break hp hline hgap hfront hb hne, hnext, shownGap_of_break front back hb]
        rfl

/-- What a query is read from, character by character. -/
theorem joinWith_sourceLines (h : Solid cs) :
    joinWith ['\n'] (Query.sourceLines cs) = rejoined cs := by
  cases cs with
  | nil => exact absurd rfl h.1
  | cons c cs =>
    have hc := h.2.1 c rfl
    have hjoin : joinWith ['\n'] (shownLines (c :: cs)) = c :: rejoined cs :=
      joinWith_shownLines (solid_singleton hc) (oneLine_singleton hc) .nil h.2.2
    change joinWith ['\n'] (shownLines (stripChars (c :: cs))) = _
    rw [stripChars_of_solid h, hjoin]
    exact (rejoinedFrom_of_notBlank hc [] cs).symm

/-! ### Texts that are kept -/

/-- Each line break of a text is a line feed with no blank next to it. -/
def KeepsLines (cs : List Char) : Prop :=
  ∀ front c back, cs = front ++ c :: back → isLineBreak c →
    c = '\n' ∧ (∀ d ∈ front.getLast?, isBlank d = false) ∧ ∀ d ∈ back.head?, isBlank d = false

theorem keepsLines_of_oneLine (h : OneLine cs) : KeepsLines cs := by
  rintro front c back rfl hc
  rw [h c (by simp)] at hc
  cases hc

theorem shownGap_eq_iff (h : Blanks gap) : shownGap gap = gap ↔ KeepsLines gap := by
  rcases oneLine_or_break gap with hline | ⟨front, b, back, rfl, _, hb⟩
  · exact ⟨fun _ => keepsLines_of_oneLine hline, fun _ => shownGap_of_oneLine hline⟩
  · rw [shownGap_of_break front back hb]
    constructor
    · intro hone front' c back' hgap hc
      rw [← hone] at hgap
      cases front' with
      | nil =>
        cases hgap
        exact ⟨rfl, nofun, nofun⟩
      | cons d front' => exact absurd (List.cons.inj hgap).2 (by simp)
    · intro hkeeps
      obtain ⟨rfl, hfront, hback⟩ := hkeeps front b back rfl hb
      have hfrontnil := eq_nil_of_getLast? (fun d hd => h d (List.mem_append_left _ hd)) hfront
      have hbacknil := eq_nil_of_head? (fun d hd => h d (by simp [hd])) hback
      rw [hfrontnil, hbacknil, List.nil_append]

/-- A character that is no blank parts what is kept. -/
theorem keepsLines_append (hc : isBlank c = false) (as cs : List Char) :
    KeepsLines (as ++ c :: cs) ↔ KeepsLines as ∧ KeepsLines cs := by
  constructor
  · intro h
    constructor
    · rintro front b back rfl hb
      obtain ⟨hfeed, hfront, hback⟩ := h front b (back ++ c :: cs) (by simp) hb
      refine ⟨hfeed, hfront, fun d hd => hback d ?_⟩
      rw [List.head?_append, Option.mem_def.mp hd, Option.some_or]
      rfl
    · rintro front b back rfl hb
      obtain ⟨hfeed, hfront, hback⟩ := h (as ++ c :: front) b back (by simp) hb
      refine ⟨hfeed, fun d hd => hfront d ?_, hback⟩
      rw [List.getLast?_append, List.getLast?_cons, Option.mem_def.mp hd]
      rfl
  · rintro ⟨has, hcs⟩ front b back hall hb
    have hne : b ≠ c := by
      rintro rfl
      rw [isBlank_of_isLineBreak hb] at hc
      cases hc
    rcases List.append_eq_append_iff.mp hall with ⟨front', rfl, hmore⟩ | ⟨back', rfl, hmore⟩
    · cases front' with
      | nil => exact absurd (List.cons.inj hmore).1.symm hne
      | cons d front' =>
        obtain ⟨rfl, rfl⟩ := List.cons.inj hmore
        obtain ⟨hfeed, hfront, hback⟩ := hcs front' b back rfl hb
        refine ⟨hfeed, fun d hd => ?_, hback⟩
        rw [List.getLast?_append, List.getLast?_cons, Option.some_or] at hd
        cases hlast : front'.getLast? with
        | none =>
          rw [hlast] at hd
          cases hd
          exact hc
        | some e =>
          rw [hlast] at hd
          cases hd
          exact hfront _ hlast
    · cases back' with
      | nil => exact absurd (List.cons.inj hmore).1 hne
      | cons d back' =>
        obtain ⟨rfl, rfl⟩ := List.cons.inj hmore
        obtain ⟨hfeed, hfront, hback⟩ := has front b back' rfl hb
        refine ⟨hfeed, hfront, fun d hd => ?_⟩
        cases back' with
        | nil =>
          cases hd
          exact hc
        | cons e back' => exact hback d hd

theorem shownGap_append_eq_iff (h : Blanks gap) (hc : isBlank c = false) (as : List Char) :
    shownGap gap ++ c :: as = gap ++ c :: cs ↔ shownGap gap = gap ∧ as = cs := by
  constructor
  · intro hall
    have hshown : Blanks (shownGap gap) := by
      rw [shownGap]
      split
      · exact .cons (by decide) .nil
      · exact h
    have htake (front back : List Char) (hfront : Blanks front) :
        (front ++ c :: back).takeWhile isBlank = front := by
      rw [List.takeWhile_append_of_pos hfront, List.takeWhile_cons_of_neg (by simp [hc]), List.append_nil]
    have hgap : shownGap gap = gap := by
      rw [← htake (shownGap gap) as hshown, hall, htake gap cs h]
    rw [hgap] at hall
    exact ⟨hgap, (List.cons.inj (List.append_cancel_left hall)).2⟩
  · rintro ⟨hgap, rfl⟩
    rw [hgap]

theorem rejoinedFrom_eq_iff (h : Blanks gap) :
    rejoinedFrom gap cs = gap ++ cs ↔ KeepsLines (gap ++ cs) := by
  induction cs generalizing gap with
  | nil =>
    rw [List.append_nil]
    exact shownGap_eq_iff h
  | cons c cs ih =>
    cases hc : isBlank c with
    | true =>
      have hmore : gap ++ c :: cs = gap ++ [c] ++ cs := by simp
      rw [rejoinedFrom_of_blank hc, hmore]
      exact ih (blanks_concat h hc)
    | false =>
      rw [rejoinedFrom_of_notBlank hc, shownGap_append_eq_iff h hc, keepsLines_append hc,
        shownGap_eq_iff h]
      exact and_congr_right fun _ => ih .nil

/-- A text between two other characters is kept if its line breaks are. -/
theorem rejoined_eq_iff : rejoined cs = cs ↔ KeepsLines cs := rejoinedFrom_eq_iff .nil

end

/-! ### A clause with a text in quotes -/

/-- A comparison of a name with a text in quotes. -/
def comparisonChars (s : List Char) : List Char := "x = ".toList ++ '"' :: (s ++ ['"'])

section
variable {s : List Char}

theorem quoted_self (h : ∀ c ∈ s, c ≠ '"' ∧ c ≠ '\\') : Quoted '"' s s := by
  induction s with
  | nil => exact .nil
  | cons c s ih =>
    have hc := h c List.mem_cons_self
    exact .plain hc.1 hc.2 (ih fun d hd => h d (List.mem_cons_of_mem c hd))

theorem flatMap_escaped (h : ∀ c ∈ s, c ≠ '"' ∧ c ≠ '\\') : s.flatMap escaped = s := by
  induction s with
  | nil => rfl
  | cons c s ih =>
    have hc := h c List.mem_cons_self
    rw [List.flatMap_cons, ih fun d hd => h d (List.mem_cons_of_mem c hd), escaped, if_neg (by simp [hc])]
    rfl

theorem solid_comparison (s : List Char) : Solid (comparisonChars s) := by
  refine ⟨nofun, ?_, ?_⟩
  · intro c hc
    cases hc
    rfl
  · intro c hc
    rw [comparisonChars, List.getLast?_append, List.getLast?_cons, List.getLast?_append] at hc
    cases hc
    rfl

theorem maskQuoted_comparison (h : ∀ c ∈ s, c ≠ '"' ∧ c ≠ '\\') : maskQuoted (comparisonChars s) =
    "x = ".toList ++ '"' :: (List.replicate s.length Quoting.mask ++ ['"']) := by
  rw [maskQuoted, comparisonChars, maskFrom_append_of_noQuote (by decide),
    (quoted_self h).maskFrom_outside rfl]

/-- Whatever stands in the quotes, no clause starts there. -/
theorem isUncut_comparison (h : ∀ c ∈ s, c ≠ '"' ∧ c ≠ '\\') : IsUncut (comparisonChars s) where
  strip := stripChars_of_solid (solid_comparison s)
  balanced := by
    have hname : Sealed "x = ".toList := .of_isPlain (by decide)
    exact (hname.append (.of_quoted rfl (quoted_self h))).balanced
  free := by
    have hshown : ∀ d ∈ maskQuoted (comparisonChars s), d ∈ ['x', ' ', '=', '"', Quoting.mask] := by
      intro d hd
      rw [maskQuoted_comparison h] at hd
      rcases List.mem_append.mp hd with hd | hd
      · have hname : ∀ d ∈ "x = ".toList, d ∈ ['x', ' ', '=', '"', Quoting.mask] := by decide
        exact hname d hd
      · rcases List.mem_cons.mp hd with rfl | hd
        · decide
        · rcases List.mem_append.mp hd with hd | hd
          · rw [List.eq_of_mem_replicate hd]
            decide
          · rw [List.mem_singleton.mp hd]
            decide
    have hletters : ∀ d ∈ ['x', ' ', '=', '"', Quoting.mask], ∀ l ∈ keywordLetters,
        isLetter l d = false := by decide
    have hnone : ∀ b c cs, c :: cs <:+ Cell.ofChars (comparisonChars s) →
        Clause.readKeyword b c (cs ++ []) = none := by
      intro b c cs hs
      apply readKeyword_none
      apply hletters
      apply hshown
      rw [← shownText_ofChars]
      exact List.mem_map_of_mem (hs.subset List.mem_cons_self)
    have hpass := cutAt_of_none hnone none []
    rw [List.append_nil, cutAt_nil] at hpass
    rw [Cell.cut, hpass]

theorem tokenize_comparison (h : ∀ c ∈ s, c ≠ '"' ∧ c ≠ '\\') :
    tokenize (String.ofList (comparisonChars s)) =
      .ok [⟨.identifier, "x", 0⟩, ⟨.operator, "=", 2⟩, ⟨.text, String.ofList s, 4⟩] := by
  have hquoted : Lexes (some ⟨.operator, "=", 2⟩) 4 ('"' :: (s ++ ['"'])) []
      [⟨.text, String.ofList s, 4⟩] := by
    have hchars := flatMap_escaped h
    rw [← String.toList_ofList (l := s)] at hchars
    have hlex : Lexes (some ⟨.operator, "=", 2⟩) 4 _ [] _ := lexes_quoted (String.ofList s)
    rw [hchars, String.toList_ofList] at hlex
    exact hlex
  have hequals : Lexes (some ⟨.identifier, "x", 0⟩) 2 "=".toList (' ' :: '"' :: (s ++ ['"']) ++ [])
      [⟨.operator, "=", 2⟩] := lexes_symbol (by decide) (space_head _)
  have hname : Lexes none 0 "x".toList (' ' :: ("=".toList ++ ' ' :: '"' :: (s ++ ['"'])) ++ [])
      [⟨.identifier, "x", 0⟩] := lexes_name (by decide) (not_isWordPart_cons (by decide) _)
  rw [tokenize, String.toList_ofList]
  exact (hname.append ((hequals.append (hquoted.blank (by decide))).blank (by decide))).tokensFrom_eq

theorem parse_comparison (h : ∀ c ∈ s, c ≠ '"' ∧ c ≠ '\\') :
    Expr.parse (String.ofList (comparisonChars s)) =
      .ok (.binary (.compare .eq) (.name "x") (.literal (.text (String.ofList s)))) := by
  have hname (us : List Token) : Derives (Stops .disjunction) .primary
      (⟨.identifier, "x", 0⟩ :: us) (.name "x") us := .name rfl
  have htext : Derives (Stops .disjunction) .primary [⟨.text, String.ofList s, 4⟩]
      (.literal (.text (String.ofList s))) [] := .literal rfl
  have hcompare := Derives.compare ((hname (⟨.operator, "=", 2⟩ :: _)).of_primary _)
    (by rfl) (htext.of_primary _)
  rw [Expr.parse, tokenize_comparison h]
  exact ofTokens_of_derives hcompare.expression _

theorem followed_comparison (s : List Char) :
    Followed ["WHERE".toList, comparisonChars s] (" WHERE ".toList ++ comparisonChars s) := by
  have hspace : Blanks [' '] := .cons rfl .nil
  have hcontent : Followed [comparisonChars s] ([' '] ++ (comparisonChars s ++ [])) :=
    .cons (List.cons_ne_nil ' ' []) hspace .nil
  rw [List.append_nil] at hcontent
  exact .cons (List.cons_ne_nil ' ' []) hspace hcontent

theorem split_comparison (h : ∀ c ∈ s, c ≠ '"' ∧ c ≠ '\\') : ∃ header, Blanks header ∧
    Clause.split (" WHERE ".toList ++ comparisonChars s) =
      .ok (header, [⟨"WHERE", String.ofList (comparisonChars s)⟩]) := by
  have hspell : ∀ key ∈ [ClauseKey.filter], SpellsAll key.words key.words := by
    intro key _
    cases key <;> rfl
  have hcontent : ∀ key ∈ [ClauseKey.filter],
      IsUncut (comparisonChars s) ∧ comparisonChars s ≠ [] :=
    fun _ _ => ⟨isUncut_comparison h, (solid_comparison s).1⟩
  obtain ⟨header, cuts, hheader, hcut, hcuts⟩ :=
    cutAt_clauses hspell hcontent (followed_comparison s) none []
  have hcollect := collect_cuts (List.nodup_cons.mpr ⟨List.not_mem_nil, .nil⟩)
    (fun _ _ => List.not_mem_nil) (fun key hkey => (hcontent key hkey).2) hcuts
  refine ⟨Cell.text header, hheader, ?_⟩
  rw [Clause.split, Cell.cut, hcut]
  simp only [hcollect]
  rfl

theorem Statement.spells_name (k : Statement) : Spells k.name.toList k.name.toList := by
  cases k <;> rfl

/-- A query whose only clause is a comparison with a text in quotes. -/
theorem Query.read_of_comparison {text : String} {k : Statement} (h : ∀ c ∈ s, c ≠ '"' ∧ c ≠ '\\')
    (htext : joinWith ['\n'] (Query.sourceLines text.toList) =
      k.name.toList ++ (" WHERE ".toList ++ comparisonChars s)) :
    Query.read text = .ok {
      statement := k, fields := if k = .task then [] else Query.defaultFields, source? := none,
      filter? := some (String.ofList (comparisonChars s)), sort? := none, groups := [],
      flatten? := none, limit? := none } := by
  have hlines : (Query.sourceLines text.toList).isEmpty = false := by
    rw [List.isEmpty_eq_false_iff]
    intro hnil
    rw [hnil] at htext
    exact k.name_upper.1 (List.append_eq_nil_iff.mp htext.symm).1
  have hstatement := readStatement_append k.spells_name (followed_comparison s)
  obtain ⟨header, hheader, hsplit⟩ := split_comparison h
  have hgroups : splitFields "" = [] := @splitFields_intercalate [] nofun
  have hfields : FieldSpec.readList "" = .ok [] := by
    rw [FieldSpec.readList, hgroups]
    rfl
  have hok {α β : Type} (x : α) (f : α → Except ClauseFault β) : (Except.ok x >>= f) = f x := rfl
  have hpure {α : Type} (x : α) : (pure x : Except ClauseFault α) = .ok x := rfl
  rw [Query.read, htext, hlines]
  simp only [Bool.false_eq_true, if_false, hstatement, hok, hsplit, stripChars_blanks hheader, hfields]
  cases k <;> simp [hok, hpure, Clause.find?, hgroups]

/-- What stands before the text in quotes is not changed. -/
theorem sourceLines_comparison (k : Statement) (s : List Char) :
    joinWith ['\n'] (Query.sourceLines (k.name.toList ++ (" WHERE ".toList ++ comparisonChars s))) =
      k.name.toList ++ (" WHERE ".toList ++ comparisonChars (rejoined s)) := by
  have hname : rejoined (k.name.toList ++ " WHERE x = ".toList) = k.name.toList ++ " WHERE x = ".toList := by
    cases k <;> decide
  have hupper := k.name_upper
  have hsolid := (k.spells_name.solid hupper.2 hupper.1).append (solid_comparison s) " WHERE ".toList
  have hall (t : List Char) : k.name.toList ++ (" WHERE ".toList ++ comparisonChars t) =
      (k.name.toList ++ " WHERE x = ".toList) ++ '"' :: (t ++ ['"']) := by
    simp [comparisonChars]
  rw [List.append_assoc] at hsolid
  rw [joinWith_sourceLines hsolid, hall, hall, rejoined, rejoinedFrom_append (by decide)]
  change rejoined _ ++ '"' :: rejoinedFrom [] (s ++ '"' :: []) = _
  rw [hname, rejoinedFrom_append (by decide)]
  rfl

end

/-- A text in quotes is read with its lines joined again, and so as it stands only if each of its line
breaks is a line feed between other characters. -/
theorem Query.read_quoted (k : Statement) (s : String) (hs : ∀ c ∈ s.toList, c ≠ '"' ∧ c ≠ '\\') :
    ∃ filter, Query.read (k.name ++ " WHERE x = \"" ++ s ++ "\"") = .ok {
        statement := k, fields := if k = .task then [] else Query.defaultFields, source? := none,
        filter? := some filter, sort? := none, groups := [], flatten? := none, limit? := none } ∧
      Expr.parse filter = .ok (.binary (.compare .eq) (.name "x")
        (.literal (.text (String.ofList (rejoined s.toList))))) ∧
      (String.ofList (rejoined s.toList) = s ↔ KeepsLines s.toList) := by
  have hshown : ∀ c ∈ rejoined s.toList, c ≠ '"' ∧ c ≠ '\\' := by
    intro c hc
    rcases mem_rejoinedFrom hc with hc | rfl
    · exact hs c hc
    · decide
  refine ⟨String.ofList (comparisonChars (rejoined s.toList)), ?_, parse_comparison hshown, ?_⟩
  · have htext : (k.name ++ " WHERE x = \"" ++ s ++ "\"").toList =
        k.name.toList ++ (" WHERE ".toList ++ comparisonChars s.toList) := by
      simp [comparisonChars]
    have hlines := sourceLines_comparison k s.toList
    rw [← htext] at hlines
    exact Query.read_of_comparison hshown hlines
  · rw [← rejoined_eq_iff]
    constructor
    · intro h
      rw [← String.toList_ofList (l := rejoined s.toList), h]
    · intro h
      rw [h, String.ofList_toList]

/-- A keyword at the start of a line, a comma and an open bracket stay in their quotes. -/
theorem Query.read_quoted_keyword : (∀ c ∈ "a, (b\nSORT c".toList, c ≠ '"' ∧ c ≠ '\\') ∧
    ∃ filter, Query.read "LIST WHERE x = \"a, (b\nSORT c\"" = .ok {
        statement := .list, fields := Query.defaultFields, source? := none, filter? := some filter,
        sort? := none, groups := [], flatten? := none, limit? := none } ∧
      Expr.parse filter = .ok (.binary (.compare .eq) (.name "x")
        (.literal (.text "a, (b\nSORT c"))) := by
  have hquotes : ∀ c ∈ "a, (b\nSORT c".toList, c ≠ '"' ∧ c ≠ '\\' := by decide
  obtain ⟨filter, hread, hparse, _⟩ := Query.read_quoted .list "a, (b\nSORT c" hquotes
  exact ⟨hquotes, filter, hread, hparse⟩

/-- A blank before a line feed is lost. -/
theorem Query.read_quoted_blank :
    (Query.read "TABLE WHERE x = \"a \nb\"").toOption.map (·.filter?) = some (some "x = \"a\nb\"") ∧
      Expr.parse "x = \"a\nb\"" = .ok (.binary (.compare .eq) (.name "x") (.literal (.text "a\nb"))) ∧
        Expr.parse "x = \"a\nb\"" ≠
          .ok (.binary (.compare .eq) (.name "x") (.literal (.text "a \nb"))) := by
  have hparse := @parse_comparison "a\nb".toList (by decide)
  have hchars : String.ofList (comparisonChars "a\nb".toList) = "x = \"a\nb\"" := by decide
  have htext : String.ofList "a\nb".toList = "a\nb" := by decide
  rw [hchars, htext] at hparse
  refine ⟨by decide +kernel, hparse, ?_⟩
  rw [hparse]
  simp

end NoteQuery
