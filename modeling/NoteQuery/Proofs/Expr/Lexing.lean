import NoteQuery.Proofs.Text.Digits

/-! The lexer on a text that starts with known lexemes: they become tokens, and the rest of the text is read
as it would be after them. A lexeme ends where the next character cannot carry it on. -/

namespace NoteQuery
set_option autoImplicit false
open Text

section
variable {previous : Option Token} {offset : Nat} {c : Char} {cs : List Char}

theorem tokensFrom_nil (previous : Option Token) (offset : Nat) : tokensFrom previous offset [] = .ok [] := by
  rw [tokensFrom.eq_def]

theorem tokensFrom_blank (hb : isBlank c) :
    tokensFrom previous offset (c :: cs) = tokensFrom previous (offset + 1) cs := by
  rw [tokensFrom.eq_def]
  exact if_pos hb

theorem tokensFrom_quote (hb : ¬isBlank c) (hq : c = '"' ∨ c = '\'') :
    tokensFrom previous offset (c :: cs) = match Lexeme.quotedBody? c cs with
      | none => .error ⟨offset, c⟩
      | some (body, width) => do
        let token : Token := ⟨.text, String.ofList body, offset⟩
        let rest ← tokensFrom (some token) (offset + 1 + width) (cs.drop width)
        return token :: rest := by
  rw [tokensFrom.eq_def]
  exact (if_neg hb).trans (if_pos hq)

theorem tokensFrom_lexeme (hb : ¬isBlank c) (hq : ¬(c = '"' ∨ c = '\'')) :
    tokensFrom previous offset (c :: cs) =
      let lexeme := Lexeme.ofChars ((previous.map Token.opensOperand).getD true) c cs
      let rest := cs.drop lexeme.extra
      match lexeme.token with
      | none => tokensFrom previous (offset + 1 + lexeme.extra) rest
      | some (kind, text) => do
        let token : Token := ⟨kind, text, offset⟩
        let tokens ← tokensFrom (some token) (offset + 1 + lexeme.extra) rest
        return token :: tokens := by
  rw [tokensFrom.eq_def]
  exact (if_neg hb).trans (if_neg hq)

end

/-- The characters `cs` in front of `rest` become the tokens `ts`. -/
def Lexes (previous : Option Token) (offset : Nat) (cs rest : List Char) (ts : List Token) : Prop :=
  tokensFrom previous offset (cs ++ rest) =
    (tokensFrom (ts.getLast?.or previous) (offset + cs.length) rest).map (ts ++ ·)

/-- An operand may start after a token, or where there is none. -/
def opensOperand (previous : Option Token) : Bool := (previous.map Token.opensOperand).getD true

def markAt (c : Char) (offset : Nat) : Token := ⟨.punctuation, String.ofList [c], offset⟩

section
variable {previous : Option Token} {offset : Nat} {cs ds rest : List Char} {ts us : List Token}

theorem map_map_append (r : Except UnclosedText (List Token)) (ts us : List Token) :
    (r.map (us ++ ·)).map (ts ++ ·) = r.map (ts ++ us ++ ·) := by
  cases r with
  | error f => rfl
  | ok vs => simp only [Except.map, List.append_assoc]

theorem Lexes.append (h : Lexes previous offset cs (ds ++ rest) ts)
    (k : Lexes (ts.getLast?.or previous) (offset + cs.length) ds rest us) :
    Lexes previous offset (cs ++ ds) rest (ts ++ us) := by
  unfold Lexes at h k ⊢
  rw [List.append_assoc, h, k, map_map_append, List.getLast?_append, Option.or_assoc,
    List.length_append, Nat.add_assoc]

/-- A text made of lexemes has their tokens. -/
theorem Lexes.tokensFrom_eq (h : Lexes previous offset cs [] ts) :
    tokensFrom previous offset cs = .ok ts := by
  unfold Lexes at h
  rw [List.append_nil] at h
  rw [h, tokensFrom_nil]
  simp only [Except.map, List.append_nil]

theorem Lexes.nil : Lexes previous offset [] rest [] := by
  unfold Lexes
  rw [List.nil_append, List.length_nil, Nat.add_zero, List.getLast?_nil, Option.none_or]
  cases tokensFrom previous offset rest <;> rfl

theorem lexes_blank {c : Char} (hc : isBlank c) : Lexes previous offset [c] rest [] := by
  have h : Lexes previous (offset + 1) [] rest [] := .nil
  unfold Lexes at h ⊢
  rw [List.singleton_append, tokensFrom_blank hc]
  exact h

theorem lexes_of_lexeme {c : Char} {kind : TokenKind} {text : String} (hb : isBlank c = false)
    (hq : ¬(c = '"' ∨ c = '\''))
    (h : Lexeme.ofChars (opensOperand previous) c (cs ++ rest) = ⟨some (kind, text), cs.length⟩) :
    Lexes previous offset (c :: cs) rest [⟨kind, text, offset⟩] := by
  have hlength : offset + 1 + cs.length = offset + (c :: cs).length := by
    simp only [List.length_cons]
    omega
  unfold Lexes
  unfold opensOperand at h
  rw [List.cons_append, tokensFrom_lexeme (Bool.eq_false_iff.mp hb) hq]
  have hlast : [(⟨kind, text, offset⟩ : Token)].getLast?.or previous = some ⟨kind, text, offset⟩ := rfl
  simp only [h, List.drop_left, hlength, hlast]
  cases tokensFrom (some ⟨kind, text, offset⟩) (offset + (c :: cs).length) rest <;> rfl

theorem lexes_operatorOrMark {c : Char} {kind : TokenKind} {text : String}
    (hc : (Lexeme.singleOperators ++ Lexeme.marks ++ ['&', '|']).contains c)
    (hm : c = '-' → ∀ d ∈ (cs ++ rest).head?, isDecimal d = false)
    (h : Lexeme.operatorOrMark c (cs ++ rest) = ⟨some (kind, text), cs.length⟩) :
    Lexes previous offset (c :: cs) rest [⟨kind, text, offset⟩] := by
  have hplain : isBlank c = false ∧ ¬(c = '"' ∨ c = '\'') ∧ isDecimal c = false ∧
      Lexeme.isWordStart c = false := by
    simp only [Lexeme.singleOperators, Lexeme.marks, List.cons_append, List.nil_append,
      List.contains_eq_mem, List.mem_cons, List.not_mem_nil, or_false, decide_eq_true_eq] at hc
    rcases hc with rfl | rfl | rfl | rfl | rfl | rfl | rfl | rfl | rfl | rfl | rfl | rfl | rfl |
      rfl | rfl | rfl | rfl <;> decide
  obtain ⟨hb, hq, hd, hw⟩ := hplain
  refine lexes_of_lexeme hb hq ?_
  have hminus : ¬(c = '-' ∧ opensOperand previous ∧
      ((cs ++ rest).head?.map isDecimal).getD false) := by
    rintro ⟨rfl, _, hdigit⟩
    cases hhead : (cs ++ rest).head? with
    | none => simp [hhead] at hdigit
    | some d => simp [hhead, hm rfl d hhead] at hdigit
  rw [Lexeme.ofChars, if_neg hminus, if_neg (by simp [hd]), if_neg (by simp [hw]), h]

theorem mem_of_doubleOperators {c : Char} {cs : List Char}
    (h : Lexeme.doubleOperators.contains (String.ofList (c :: cs))) :
    c ∈ ['=', '!', '<', '>', '&', '|'] := by
  have hhead : ∀ s ∈ Lexeme.doubleOperators, ∀ c ∈ s.toList.take 1,
      c ∈ ['=', '!', '<', '>', '&', '|'] := by decide
  have hmem : c ∈ (String.ofList (c :: cs)).toList.take 1 := by
    rw [String.toList_ofList]
    exact List.mem_cons_self
  exact hhead _ (List.contains_iff_mem.mp h) c hmem

/-- A mark is a lexeme whatever comes after it. -/
theorem lexes_mark {c : Char} (hc : Lexeme.marks.contains c) :
    Lexes previous offset [c] rest [markAt c offset] := by
  have hmark : c ∉ ['=', '!', '<', '>', '&', '|'] ∧ Lexeme.singleOperators.contains c = false := by
    simp only [Lexeme.marks, List.contains_eq_mem, List.mem_cons, List.not_mem_nil, or_false,
      decide_eq_true_eq] at hc
    rcases hc with rfl | rfl | rfl | rfl | rfl | rfl <;> decide
  refine lexes_operatorOrMark ?_ ?_ ?_
  · simp only [List.contains_append, hc, Bool.or_true, Bool.true_or]
  · rintro rfl
    exact absurd hc (by decide)
  · have hdouble : ¬ Lexeme.doubleOperators.contains (Lexeme.leading c ([] ++ rest) 1) :=
      fun h => hmark.1 (mem_of_doubleOperators h)
    rw [Lexeme.operatorOrMark, if_neg hdouble, if_neg (Bool.eq_false_iff.mp hmark.2),
      if_pos hc]
    rfl

theorem space_head (rest : List Char) : ∀ d ∈ (' ' :: rest).head?, d = ' ' := by
  rintro d ⟨⟩
  rfl

/-- Before a blank, and at the end, an operator is a lexeme. -/
theorem lexes_operator {c : Char}
    (h : String.ofList (c :: cs) ∈ Lexeme.doubleOperators ∨ cs = [] ∧ c ∈ Lexeme.singleOperators)
    (hr : ∀ d ∈ rest.head?, d = ' ') :
    Lexes previous offset (c :: cs) rest [⟨.operator, String.ofList (c :: cs), offset⟩] := by
  have hlength : ∀ s ∈ Lexeme.doubleOperators, s.toList.length = 2 := by decide
  rcases h with h | ⟨rfl, h⟩
  · have hc := mem_of_doubleOperators (List.contains_iff_mem.mpr h)
    have htwo := hlength _ h
    rw [String.toList_ofList, List.length_cons] at htwo
    obtain ⟨d, rfl⟩ := List.length_eq_one_iff.mp (Nat.succ.inj htwo)
    refine lexes_operatorOrMark ?_ ?_ ?_
    · simp only [List.mem_cons, List.not_mem_nil, or_false] at hc
      rcases hc with rfl | rfl | rfl | rfl | rfl | rfl <;> decide
    · rintro rfl
      exact absurd hc (by decide)
    · have hread : Lexeme.leading c ([d] ++ rest) 1 = String.ofList [c, d] := rfl
      rw [Lexeme.operatorOrMark, hread, if_pos (List.contains_iff_mem.mpr h)]
      rfl
  · have hblank : ∀ s ∈ Lexeme.doubleOperators, ' ' ∉ s.toList := by decide
    have hdouble : ¬ Lexeme.doubleOperators.contains (Lexeme.leading c ([] ++ rest) 1) := by
      intro hd
      have hmem := List.contains_iff_mem.mp hd
      cases rest with
      | nil =>
        have htwo := hlength _ hmem
        simp [Lexeme.leading] at htwo
      | cons d rest =>
        obtain rfl := hr d rfl
        have hnot := hblank _ hmem
        simp [Lexeme.leading] at hnot
    refine lexes_operatorOrMark ?_ ?_ ?_
    · simp only [List.contains_append, List.contains_iff_mem.mpr h, Bool.true_or]
    · intro _ d hd
      rw [hr d hd]
      decide
    · rw [Lexeme.operatorOrMark, if_neg hdouble, if_pos (List.contains_iff_mem.mpr h)]
      rfl

theorem lexes_symbol {symbol : String}
    (h : symbol ∈ Lexeme.doubleOperators ++ Lexeme.singleOperators.map fun c => String.ofList [c])
    (hr : ∀ d ∈ rest.head?, d = ' ') :
    Lexes previous offset symbol.toList rest [⟨.operator, symbol, offset⟩] := by
  rcases List.mem_append.mp h with h | h
  · cases hchars : symbol.toList with
    | nil =>
      have hne : ∀ s ∈ Lexeme.doubleOperators, s.toList ≠ [] := by decide
      exact absurd hchars (hne _ h)
    | cons c cs =>
      have hsymbol : symbol = String.ofList (c :: cs) := by rw [← hchars, String.ofList_toList]
      rw [hsymbol] at h ⊢
      exact lexes_operator (.inl h) hr
  · obtain ⟨c, hc, rfl⟩ := List.mem_map.mp h
    rw [String.toList_ofList]
    exact lexes_operator (.inr ⟨rfl, hc⟩) hr

theorem isWordStart_bounds {c : Char} (h : Lexeme.isWordStart c) :
    65 ≤ c.toNat ∧ c.toNat ≤ 90 ∨ 97 ≤ c.toNat ∧ c.toNat ≤ 122 ∨ c.toNat = 95 := by
  rcases Bool.or_eq_true_iff.mp h with halpha | hunderscore
  · rcases Bool.or_eq_true_iff.mp halpha with hupper | hlower
    · exact .inl (toNat_of_isUpper hupper)
    · exact .inr (.inl (toNat_of_isLower hlower))
  · rw [eq_of_beq hunderscore]
    exact .inr (.inr rfl)

theorem isBlank_of_isWordStart {c : Char} (h : Lexeme.isWordStart c) : isBlank c = false := by
  have hc := isWordStart_bounds h
  simp only [isBlank, Bool.or_eq_false_iff, Bool.and_eq_false_iff, decide_eq_false_iff_not,
    beq_eq_false_iff_ne]
  omega

theorem isDecimal_of_isWordStart {c : Char} (h : Lexeme.isWordStart c) : isDecimal c = false := by
  have hc := isWordStart_bounds h
  have hdigit : c.isDigit = false := by
    cases hd : c.isDigit with
    | false => rfl
    | true =>
      have hbounds := toNat_of_isDigit hd
      omega
  rw [isDecimal, digitValue?, if_pos (by omega), hdigit]
  rfl

theorem ofChars_of_isWordStart {c : Char} (hc : Lexeme.isWordStart c) (operandMayStart : Bool)
    (cs : List Char) : Lexeme.ofChars operandMayStart c cs = Lexeme.word c cs := by
  have hminus : c ≠ '-' := by
    rintro rfl
    exact absurd hc (by decide)
  rw [Lexeme.ofChars, if_neg (fun h => hminus h.1), if_neg (by simp [isDecimal_of_isWordStart hc]),
    if_pos hc]

/-- A word is a lexeme where no further character belongs to it. -/
theorem lexes_word {c : Char} (hc : Lexeme.isWordStart c) (hcs : ∀ d ∈ cs, Lexeme.isWordPart d)
    (hr : ∀ d ∈ rest.head?, Lexeme.isWordPart d = false) :
    Lexes previous offset (c :: cs) rest [match keyword? (c :: cs) with
      | some k => ⟨.keyword, k, offset⟩
      | none => ⟨.identifier, String.ofList (c :: cs), offset⟩] := by
  have hquote : ¬(c = '"' ∨ c = '\'') := by
    rintro (rfl | rfl)
    · exact absurd hc (by decide)
    · exact absurd hc (by decide)
  cases hk : keyword? (c :: cs) with
  | some k =>
    refine lexes_of_lexeme (isBlank_of_isWordStart hc) hquote ?_
    rw [ofChars_of_isWordStart hc, Lexeme.word]
    simp only [takeWhile_append hcs hr, List.take_left, hk]
  | none =>
    refine lexes_of_lexeme (isBlank_of_isWordStart hc) hquote ?_
    rw [ofChars_of_isWordStart hc, Lexeme.word]
    simp only [takeWhile_append hcs hr, List.take_left, hk, Lexeme.leading]

theorem not_isWordPart_cons {c : Char} (hc : Lexeme.isWordPart c = false) (rest : List Char) :
    ∀ d ∈ (c :: rest).head?, Lexeme.isWordPart d = false := by
  intro d hd
  cases hd
  exact hc

theorem lexes_keyword {c : Char} {k : String} (hc : Lexeme.isWordStart c)
    (hcs : ∀ d ∈ cs, Lexeme.isWordPart d) (hk : keyword? (c :: cs) = some k)
    (hr : ∀ d ∈ rest.head?, Lexeme.isWordPart d = false) :
    Lexes previous offset (c :: cs) rest [⟨.keyword, k, offset⟩] := by
  have h : Lexes previous offset (c :: cs) rest _ := lexes_word hc hcs hr
  rw [hk] at h
  exact h

/-- A word that is no keyword. -/
def isPlainName (s : String) : Bool :=
  match s.toList with
  | [] => false
  | c :: cs => Lexeme.isWordStart c && cs.all Lexeme.isWordPart && (keyword? (c :: cs)).isNone

theorem lexes_name {s : String} (hs : isPlainName s)
    (hr : ∀ d ∈ rest.head?, Lexeme.isWordPart d = false) :
    Lexes previous offset s.toList rest [⟨.identifier, s, offset⟩] := by
  unfold isPlainName at hs
  cases hchars : s.toList with
  | nil =>
    rw [hchars] at hs
    cases hs
  | cons c cs =>
    rw [hchars] at hs
    simp only [Bool.and_eq_true, List.all_eq_true, Option.isNone_iff_eq_none] at hs
    have h : Lexes previous offset (c :: cs) rest _ := lexes_word hs.1.1 hs.1.2 hr
    rw [hs.2, ← hchars, String.ofList_toList] at h
    rw [← hchars]
    exact h

theorem numberExtra_append (hcs : ∀ c ∈ cs, c.isDigit)
    (hr : ∀ c ∈ rest.head?, isDecimal c = false ∧ c ≠ '.') :
    Lexeme.numberExtra (cs ++ rest) = cs.length := by
  have hwhole : (cs ++ rest).takeWhile isDecimal = cs :=
    takeWhile_append (fun c hc => isDecimal_of_isDigit (hcs c hc)) fun c hc => (hr c hc).1
  unfold Lexeme.numberExtra
  simp only [hwhole, List.drop_left]
  split
  · next heq => exact absurd rfl (hr '.' rfl).2
  · rfl

/-- Digits are a lexeme where no further character belongs to the number. -/
theorem lexes_unsigned {d : Char} (hd : isDecimal d)
    (hextra : Lexeme.numberExtra (ds ++ rest) = ds.length) :
    Lexes previous offset (d :: ds) rest [⟨.number, String.ofList (d :: ds), offset⟩] := by
  have hplain : ¬(d = '"' ∨ d = '\'') ∧ d ≠ '-' := by
    refine ⟨?_, ?_⟩
    · rintro (rfl | rfl)
      · exact absurd hd (by decide)
      · exact absurd hd (by decide)
    · rintro rfl
      exact absurd hd (by decide)
  refine lexes_of_lexeme (isBlank_of_isDecimal hd) hplain.1 ?_
  rw [Lexeme.ofChars, if_neg (fun h => hplain.2 h.1), if_pos hd]
  simp only [hextra, Lexeme.leading, List.take_left]

theorem lexes_signed {d : Char} (hprevious : opensOperand previous) (hd : isDecimal d)
    (hextra : Lexeme.numberExtra (ds ++ rest) = ds.length) :
    Lexes previous offset ('-' :: d :: ds) rest [⟨.number, String.ofList ('-' :: d :: ds), offset⟩] := by
  have hfirst : ((d :: ds ++ rest).head?.map isDecimal).getD false := hd
  have htake : (d :: ds ++ rest).take (ds.length + 1) = d :: ds := by
    rw [List.cons_append, List.take_succ_cons, List.take_left]
  have hdrop : Lexeme.numberExtra ((d :: ds ++ rest).drop 1) = ds.length := hextra
  refine lexes_of_lexeme (by decide) (by decide) ?_
  rw [Lexeme.ofChars, if_pos ⟨rfl, hprevious, hfirst⟩]
  simp only [hdrop, Lexeme.leading, htake, List.length_cons, Nat.add_comm 1 ds.length]

/-- An integer is a lexeme, with its minus where an operand may start. -/
theorem lexes_integer (n : Int) (hprevious : opensOperand previous)
    (hr : ∀ c ∈ rest.head?, isDecimal c = false ∧ c ≠ '.') :
    Lexes previous offset (toString n).toList rest [⟨.number, toString n, offset⟩] := by
  have hdigits : ∀ c ∈ Nat.toDigits 10 n.natAbs, c.isDigit :=
    fun c hc => Nat.isDigit_of_mem_toDigits (by decide) (by decide) hc
  have htext := toList_toString n
  have hstring : toString n = String.ofList (toString n).toList := String.ofList_toList.symm
  rw [hstring, String.toList_ofList, htext]
  cases hd : Nat.toDigits 10 n.natAbs with
  | nil => exact absurd hd Nat.toDigits_ne_nil
  | cons d ds =>
    rw [hd] at hdigits
    have hfirst := isDecimal_of_isDigit (hdigits d List.mem_cons_self)
    have hmore := numberExtra_append (fun c hc => hdigits c (List.mem_cons_of_mem d hc)) hr
    split
    · exact lexes_signed hprevious hfirst hmore
    · exact lexes_unsigned hfirst hmore

/-- A character between double quotes. -/
def escaped (c : Char) : List Char := if c = '"' ∨ c = '\\' then ['\\', c] else [c]

theorem quotedBody?_escaped (body rest : List Char) :
    Lexeme.quotedBody? '"' (body.flatMap escaped ++ '"' :: rest) =
      some (body, (body.flatMap escaped).length + 1) := by
  induction body with
  | nil => rfl
  | cons c body ih =>
    rw [List.flatMap_cons, List.append_assoc]
    by_cases hc : c = '"' ∨ c = '\\'
    · rw [escaped, if_pos hc, List.cons_append, List.singleton_append, Lexeme.quotedBody?, ih]
      simp only [Option.map_some, List.length_append, List.length_cons, List.length_nil,
        Option.some.injEq, Prod.mk.injEq, true_and]
      omega
    · have hplain : c ≠ '"' ∧ c ≠ '\\' := ⟨fun h => hc (.inl h), fun h => hc (.inr h)⟩
      rw [escaped, if_neg hc, List.singleton_append, Lexeme.quotedBody?, if_neg hplain.1,
        if_neg hplain.2, ih]
      · simp only [Option.map_some, List.length_append, List.length_cons, List.length_nil,
          Option.some.injEq, Prod.mk.injEq, true_and]
        omega
      · intro d ds h
        exact absurd h hplain.2

/-- A text in double quotes is a lexeme, its escapes resolved. -/
theorem lexes_quoted (s : String) :
    Lexes previous offset ('"' :: s.toList.flatMap escaped ++ ['"']) rest [⟨.text, s, offset⟩] := by
  have hbody := quotedBody?_escaped s.toList rest
  have hrest : (s.toList.flatMap escaped ++ '"' :: rest).drop ((s.toList.flatMap escaped).length + 1) =
      rest := by
    rw [← List.drop_drop, List.drop_left]
    rfl
  have hlength : offset + 1 + ((s.toList.flatMap escaped).length + 1) =
      offset + ('"' :: s.toList.flatMap escaped ++ ['"']).length := by
    simp only [List.length_append, List.length_cons, List.length_nil]
    omega
  have hlast : [(⟨.text, s, offset⟩ : Token)].getLast?.or previous = some ⟨.text, s, offset⟩ := rfl
  unfold Lexes
  rw [List.cons_append, List.cons_append, List.append_assoc, List.singleton_append,
    tokensFrom_quote (by decide) (.inl rfl)]
  simp only [hbody, hrest, hlength, hlast, String.ofList_toList, ← List.cons_append]
  cases tokensFrom (some ⟨.text, s, offset⟩)
    (offset + ('"' :: s.toList.flatMap escaped ++ ['"']).length) rest <;> rfl

end

end NoteQuery
