import NoteQuery.Proofs.Expr.Printing
import NoteQuery.Proofs.Expr.Recognition

/-! An expression is read back from what it is written as. By induction on the tree: the text of each part
becomes tokens that are a phrase for it, wherever an operand may start and whatever closes it. -/

namespace NoteQuery
set_option autoImplicit false
open Text NoteQuery.Expr

/-- The text after an operand is over, or closes or separates it. -/
def Ends (rest : List Char) : Prop := ∀ c ∈ rest.head?, c = ')' ∨ c = ']' ∨ c = ','

/-- The phrases that the parser reads. -/
abbrev Readable := Derives (Stops .disjunction)

/-- A text is read as an expression where an operand may start. -/
def Written (cs : List Char) (e : Expr) : Prop :=
  ∀ previous offset rest, opensOperand previous → Ends rest → ∃ ts,
    Lexes previous offset cs rest ts ∧
      ∀ us, Stops .disjunction us → Readable .disjunction (ts ++ us) e us

/-- A text is read as an operand everywhere. -/
def Operand (cs : List Char) (e : Expr) : Prop :=
  ∀ previous offset rest, ∃ ts,
    Lexes previous offset cs rest ts ∧ ∀ us, Readable .primary (ts ++ us) e us

section
variable {previous : Option Token} {offset : Nat} {cs ds rest : List Char} {ts us : List Token}

theorem Lexes.blank {c : Char} (h : Lexes previous (offset + 1) ds rest ts) (hc : isBlank c) :
    Lexes previous offset (c :: ds) rest ts := (lexes_blank hc).append h

theorem Lexes.mark {c : Char} (h : Lexes (some (markAt c offset)) (offset + 1) ds rest ts)
    (hc : Lexeme.marks.contains c) : Lexes previous offset (c :: ds) rest (markAt c offset :: ts) :=
  (lexes_mark hc).append h

theorem Lexes.closed {c : Char} (h : Lexes previous offset cs (c :: rest) ts)
    (hc : Lexeme.marks.contains c) :
    Lexes previous offset (cs ++ [c]) rest (ts ++ [markAt c (offset + cs.length)]) :=
  h.append (lexes_mark hc)

/-- Two groups with the token of an operator between them. -/
theorem Lexes.infixed {kind : TokenKind} {symbol : String} {as bs : List Char}
    (hts : Lexes previous offset (grouped as) (' ' :: (symbol.toList ++ ' ' :: grouped bs) ++ rest) ts)
    (hsymbol : ∀ previous offset rest,
      Lexes previous offset symbol.toList (' ' :: rest) [⟨kind, symbol, offset⟩])
    (hus : Lexes (some ⟨kind, symbol, offset + (grouped as).length + 1⟩)
      (offset + (grouped as).length + 1 + symbol.toList.length + 1) (grouped bs) rest us) :
    Lexes previous offset (infixed symbol.toList as bs) rest
      (ts ++ ⟨kind, symbol, offset + (grouped as).length + 1⟩ :: us) := by
  have ⟨p, hp⟩ : ∃ p, p = offset + (grouped as).length + 1 := ⟨_, rfl⟩
  rw [← hp] at hus ⊢
  have hoperator : Lexes (ts.getLast?.or previous) p symbol.toList (' ' :: grouped bs ++ rest)
      [⟨kind, symbol, p⟩] := hsymbol _ _ _
  have hboth := hoperator.append (hus.blank (by decide))
  rw [hp] at hboth ⊢
  exact hts.append (hboth.blank (by decide))

theorem lexes_connective (op : Connective) (previous : Option Token) (offset : Nat)
    (rest : List Char) :
    Lexes previous offset op.symbol.toList (' ' :: rest) [⟨.keyword, op.symbol, offset⟩] := by
  have hblank := not_isWordPart_cons (c := ' ') (by decide)
  cases op with
  | and => exact lexes_keyword (by decide) (by decide) (by decide) (hblank rest)
  | or => exact lexes_keyword (by decide) (by decide) (by decide) (hblank rest)

theorem Lexes.not (h : Lexes (some ⟨.keyword, "NOT", offset⟩) (offset + 4) (grouped cs) rest ts) :
    Lexes previous offset (UnaryOp.not.symbol.toList ++ ' ' :: grouped cs) rest
      (⟨.keyword, "NOT", offset⟩ :: ts) := by
  have hword : Lexes previous offset ['N', 'O', 'T'] (' ' :: grouped cs ++ rest)
      [⟨.keyword, "NOT", offset⟩] :=
    lexes_keyword (by decide) (by decide) (by decide) (not_isWordPart_cons (by decide) _)
  exact hword.append (h.blank (by decide))

theorem connective?_symbol (op : Connective) (offset : Nat) :
    ∃ l : Layer, l.connective? ⟨.keyword, op.symbol, offset⟩ = some op := by
  cases op with
  | and => exact ⟨.conjunction, rfl⟩
  | or => exact ⟨.disjunction, rfl⟩

theorem Ends.cons {c : Char} (hc : c = ')' ∨ c = ']' ∨ c = ',') (rest : List Char) :
    Ends (c :: rest) := by
  intro d hd
  cases hd
  exact hc

theorem Ends.not_isWordPart (h : Ends rest) : ∀ c ∈ rest.head?, Lexeme.isWordPart c = false := by
  intro c hc
  rcases h c hc with rfl | rfl | rfl <;> decide

theorem Ends.not_number (h : Ends rest) : ∀ c ∈ rest.head?, isDecimal c = false ∧ c ≠ '.' := by
  intro c hc
  rcases h c hc with rfl | rfl | rfl <;> decide

end

section
variable {as bs cs : List Char} {a b e : Expr}

theorem Operand.written (h : Operand cs e) : Written cs e := by
  intro previous offset rest _ _
  obtain ⟨ts, hlex, hread⟩ := h previous offset rest
  exact ⟨ts, hlex, fun us _ => (hread us).expression⟩

theorem isMark_markAt (c : Char) (offset : Nat) : (markAt c offset).isMark (String.ofList [c]) := by
  simp only [Token.isMark, markAt, decide_true, beq_self_eq_true, Bool.and_self]

theorem stops_closing (offset : Nat) (l : Layer) (us : List Token) :
    Stops l (markAt ')' offset :: us) :=
  .of_mark (isMark_markAt ')' offset) (by decide) l us

theorem Written.grouped (h : Written cs e) : Operand (grouped cs) e := by
  intro previous offset rest
  obtain ⟨ts, hlex, hread⟩ := h (some (markAt '(' offset)) (offset + 1) (')' :: rest) rfl
    (.cons (.inl rfl) rest)
  refine ⟨_, (hlex.closed (by decide)).mark (by decide), ?_⟩
  intro us
  rw [List.cons_append, List.append_assoc]
  exact .group (isMark_markAt '(' _) (hread _ (stops_closing _ _ _)) (isMark_markAt ')' _)

theorem Written.enclosed (h : Written cs e) (wrap : Bool) : Written (enclosed wrap cs) e := by
  cases wrap with
  | false => exact h
  | true => exact h.grouped.written

/-- Two operands and the operator between them; how they are derived together depends on its layer. -/
theorem Written.infixed {f : Expr → Expr → Expr} {kind : TokenKind} {symbol : String}
    (ha : Written as a) (hb : Written bs b)
    (hsymbol : ∀ previous offset rest,
      Lexes previous offset symbol.toList (' ' :: rest) [⟨kind, symbol, offset⟩])
    (hread : ∀ offset ts us rest, Readable .primary ts a (⟨kind, symbol, offset⟩ :: us) →
      Readable .primary us b rest → Readable .disjunction ts (f a b) rest) :
    Written (infixed symbol.toList as bs) (f a b) := by
  intro previous offset rest _ _
  obtain ⟨ts, hts, hleft⟩ := ha.grouped previous offset
    (' ' :: (symbol.toList ++ ' ' :: Expr.grouped bs) ++ rest)
  obtain ⟨us, hus, hright⟩ := hb.grouped _ _ rest
  refine ⟨_, hts.infixed hsymbol hus, ?_⟩
  intro ws _
  rw [List.append_assoc, List.cons_append]
  exact hread _ _ _ _ (hleft _) (hright ws)

/-- An operand with a literal or any other index behind it. -/
theorem Written.indexed (ha : Written as a) (hb : Written bs b) :
    Written (Expr.grouped as ++ '[' :: (bs ++ [']'])) (Member.of a (.indexed b)) := by
  intro previous offset rest _ _
  obtain ⟨ts, hts, hbase⟩ := ha.grouped previous offset ('[' :: (bs ++ [']']) ++ rest)
  have ⟨p, hp⟩ : ∃ p, p = offset + (Expr.grouped as).length := ⟨_, rfl⟩
  obtain ⟨us, hus, hkey⟩ := hb (some (markAt '[' p)) (p + 1) (']' :: rest) rfl
    (.cons (.inr (.inl rfl)) rest)
  have hbracket : Lexes (ts.getLast?.or previous) p ('[' :: (bs ++ [']'])) rest
      (markAt '[' p :: (us ++ [markAt ']' (p + 1 + bs.length)])) :=
    (hus.closed (by decide)).mark (by decide)
  refine ⟨ts ++ (markAt '[' p :: (us ++ [markAt ']' (p + 1 + bs.length)])),
    hts.append (hp ▸ hbracket), ?_⟩
  intro ws _
  have hfirst := (hbase (markAt '[' p :: (us ++ markAt ']' (p + 1 + bs.length) :: ws))).of_primary
    .postfixed
  have hclosing := isMark_markAt ']' (p + 1 + bs.length)
  have hinner := hkey (markAt ']' (p + 1 + bs.length) :: ws) (.of_mark hclosing (by decide) _ _)
  have hmember : Readable .postfixed
      (ts ++ markAt '[' p :: (us ++ markAt ']' (p + 1 + bs.length) :: ws))
      (Member.of a (.indexed b)) ws := by
    cases b with
    | literal v => exact .fixed hfirst (isMark_markAt '[' p) hinner hclosing
    | _ => exact .index hfirst (isMark_markAt '[' p) hinner hclosing (by simp)
  simp only [List.append_assoc, List.cons_append, List.nil_append]
  exact hmember.expression

theorem Written.unary {op : UnaryOp} (h : Written cs e) :
    Written (op.symbol.toList ++ ' ' :: Expr.grouped cs) (.unary op e) := by
  intro previous offset rest _ _
  cases op with
  | not =>
    obtain ⟨ts, hts, hread⟩ := h.grouped (some ⟨.keyword, "NOT", offset⟩) (offset + 4) rest
    refine ⟨_, hts.not, ?_⟩
    intro us _
    exact (Derives.not (by rfl) ((hread us).of_primary _)).expression
  | negate =>
    obtain ⟨ts, hts, hread⟩ := h.grouped (some ⟨.operator, "-", offset⟩) (offset + 2) rest
    have hblank := hts.blank (c := ' ') (by decide)
    have hminus : Lexes previous offset UnaryOp.negate.symbol.toList (' ' :: Expr.grouped cs ++ rest)
        [⟨.operator, "-", offset⟩] := lexes_symbol (by decide) (space_head _)
    refine ⟨_, hminus.append hblank, ?_⟩
    intro us _
    exact (Derives.minus (by rfl) ((hread us).of_primary _)).expression

theorem written_keyword {c : Char} {k : String} {v : Literal} (hc : Lexeme.isWordStart c)
    (hcs : ∀ d ∈ cs, Lexeme.isWordPart d) (hk : keyword? (c :: cs) = some k)
    (hv : ∀ offset, Token.literal? ⟨.keyword, k, offset⟩ = some v) :
    Written (c :: cs) (.literal v) := by
  intro previous offset rest _ hrest
  refine ⟨_, lexes_keyword hc hcs hk hrest.not_isWordPart, ?_⟩
  intro us _
  exact (Derives.literal (hv offset)).expression

theorem literal?_integer (n : Int) (offset : Nat) :
    Token.literal? ⟨.number, toString n, offset⟩ = some (.number (.int n)) := by
  have hpoint : (toString n).toList.contains '.' = false := by
    rw [toList_toString, List.contains_eq_mem, decide_eq_false_iff_not, List.mem_append]
    rintro (h | h)
    · split at h
      · exact absurd h (by decide)
      · cases h
    · exact absurd (Nat.isDigit_of_mem_toDigits (by decide) (by decide) h) (by decide)
  simp only [Token.literal?, numeral?, hpoint, integer?_toString]
  rfl

theorem written_literal {v : Literal} (h : v.writable) : Written v.chars (.literal v) := by
  cases v with
  | null => exact written_keyword (by decide) (by decide) (k := "null") (by decide) fun _ => rfl
  | bool b =>
    cases b with
    | true => exact written_keyword (by decide) (by decide) (k := "true") (by decide) fun _ => rfl
    | false => exact written_keyword (by decide) (by decide) (k := "false") (by decide) fun _ => rfl
  | number n =>
    cases n with
    | real x => cases h
    | int n =>
      intro previous offset rest hprevious hrest
      refine ⟨_, lexes_integer n hprevious hrest.not_number, ?_⟩
      intro us _
      exact (Derives.literal (literal?_integer n offset)).expression
  | text s =>
    intro previous offset rest _ _
    refine ⟨_, lexes_quoted s, ?_⟩
    intro us _
    exact (Derives.literal rfl).expression

theorem written_name {x : String} (hx : isPlainName x) : Written x.toList (.name x) := by
  intro previous offset rest _ hrest
  refine ⟨_, lexes_name hx hrest.not_isWordPart, ?_⟩
  intro us _
  exact (Derives.name (by rfl)).expression

/-- Arguments are read up to the parenthesis that closes the call. -/
def WrittenList (cs : List Char) (es : List Expr) : Prop :=
  ∀ previous offset rest, opensOperand previous → ∃ ts,
    Lexes previous offset cs (')' :: rest) ts ∧ ∀ o us,
      Arguments (Stops .disjunction) (ts ++ markAt ')' o :: us) es (markAt ')' o :: us)

theorem Written.one (h : Written cs e) : WrittenList cs [e] := by
  intro previous offset rest hprevious
  obtain ⟨ts, hts, hread⟩ := h previous offset (')' :: rest) hprevious (.cons (.inl rfl) rest)
  exact ⟨ts, hts, fun o us => .one (hread _ (stops_closing o _ us))⟩

theorem Written.more {es : List Expr} (h : Written cs e) (hs : WrittenList bs es) :
    WrittenList (cs ++ ',' :: ' ' :: bs) (e :: es) := by
  intro previous offset rest hprevious
  obtain ⟨ts, hts, hread⟩ := h previous offset (',' :: ' ' :: bs ++ ')' :: rest) hprevious
    (.cons (.inr (.inr rfl)) _)
  have ⟨p, hp⟩ : ∃ p, p = offset + cs.length := ⟨_, rfl⟩
  obtain ⟨us, hus, hmore⟩ := hs (some (markAt ',' p)) (p + 1 + 1) rest rfl
  have hcomma : Lexes (ts.getLast?.or previous) p (',' :: ' ' :: bs) (')' :: rest)
      (markAt ',' p :: us) := (hus.blank (by decide)).mark (by decide)
  refine ⟨ts ++ markAt ',' p :: us, hts.append (hp ▸ hcomma), ?_⟩
  intro o ws
  have hmark := isMark_markAt ',' p
  rw [List.append_assoc, List.cons_append]
  exact .more (hread _ (.of_mark hmark (by decide) _ _)) hmark (hmore o ws)

theorem written_callNone {f : String} (hf : isPlainName f) :
    Written (f.toList ++ '(' :: ([] ++ [')'])) (.call f []) := by
  intro previous offset rest _ _
  have hname : Lexes previous offset f.toList ('(' :: ([] ++ [')']) ++ rest)
      [⟨.identifier, f, offset⟩] := lexes_name hf (not_isWordPart_cons (by decide) _)
  refine ⟨_, hname.append ((lexes_mark (by decide)).mark (by decide)), ?_⟩
  intro us _
  exact (Derives.callNone (by rfl) (isMark_markAt '(' _) (isMark_markAt ')' _)).expression

theorem WrittenList.call {f : String} {es : List Expr} (hf : isPlainName f)
    (h : WrittenList cs es) : Written (f.toList ++ '(' :: (cs ++ [')'])) (.call f es) := by
  intro previous offset rest _ _
  have ⟨p, hp⟩ : ∃ p, p = offset + f.toList.length := ⟨_, rfl⟩
  have hname : Lexes previous offset f.toList ('(' :: (cs ++ [')']) ++ rest)
      [⟨.identifier, f, offset⟩] := lexes_name hf (not_isWordPart_cons (by decide) _)
  obtain ⟨ts, hts, hread⟩ := h (some (markAt '(' p)) (p + 1) rest rfl
  have hparentheses : Lexes (some ⟨.identifier, f, offset⟩) p ('(' :: (cs ++ [')'])) rest
      (markAt '(' p :: (ts ++ [markAt ')' (p + 1 + cs.length)])) :=
    (hts.closed (by decide)).mark (by decide)
  refine ⟨_, hname.append (hp ▸ hparentheses), ?_⟩
  intro us _
  simp only [List.append_assoc, List.cons_append, List.nil_append]
  exact (Derives.call (by rfl) (isMark_markAt '(' _) (hread _ us) (isMark_markAt ')' _)).expression

theorem Written.lambda {x : String} (hx : isPlainName x) (h : Written cs e) :
    Written ('(' :: (x.toList ++ ')' :: ' ' :: '=' :: '>' :: ' ' :: cs)) (.lambda x e) := by
  intro previous offset rest _ hrest
  have ⟨p, hp⟩ : ∃ p, p = offset + 1 + x.toList.length := ⟨_, rfl⟩
  obtain ⟨ts, hts, hread⟩ := h (some ⟨.operator, "=>", p + 1 + 1⟩) (p + 1 + 1 + 2 + 1) rest rfl hrest
  have hname : Lexes (some (markAt '(' offset)) (offset + 1) x.toList
      (')' :: ' ' :: '=' :: '>' :: ' ' :: cs ++ rest) [⟨.identifier, x, offset + 1⟩] :=
    lexes_name hx (not_isWordPart_cons (by decide) _)
  have harrow : Lexes (some (markAt ')' p)) (p + 1 + 1) ['=', '>'] (' ' :: cs ++ rest)
      [⟨.operator, "=>", p + 1 + 1⟩] := lexes_operator (.inl (by decide)) (space_head _)
  have hbody : Lexes (some ⟨.operator, "=>", p + 1 + 1⟩) (p + 1 + 1 + 2) (' ' :: cs) rest ts :=
    hts.blank (by decide)
  have htail : Lexes (some ⟨.identifier, x, offset + 1⟩) p
      (')' :: ' ' :: '=' :: '>' :: ' ' :: cs) rest
      (markAt ')' p :: ⟨.operator, "=>", p + 1 + 1⟩ :: ts) :=
    ((harrow.append hbody).blank (by decide)).mark (by decide)
  refine ⟨_, (hname.append (hp ▸ htail)).mark (by decide), ?_⟩
  intro us hstops
  have hparameter : Token.isName ⟨.identifier, x, offset + 1⟩ := rfl
  have hoperator : Token.isOperator ⟨.operator, "=>", p + 1 + 1⟩ "=>" := rfl
  have hfunction := Derives.groupedFunction (isMark_markAt '(' offset) hparameter
    (isMark_markAt ')' p) hoperator (hread us hstops) hstops
  exact (hp ▸ hfunction).expression

end

theorem mem_symbols_of_binary (op : BinaryOp) :
    op.symbol ∈ Lexeme.doubleOperators ++ Lexeme.singleOperators.map fun c => String.ofList [c] := by
  cases op with
  | compare c => cases c <;> decide
  | compute a => cases a <;> decide

theorem Written.binary {as bs : List Char} {a b : Expr} (op : BinaryOp) (ha : Written as a)
    (hb : Written bs b) : Written (Expr.infixed op.symbol.toList as bs) (.binary op a b) := by
  refine ha.infixed hb (fun _ _ _ => lexes_symbol (mem_symbols_of_binary op) (space_head _)) ?_
  intro offset ts us rest hleft hright
  cases op with
  | compare c =>
    refine (Derives.compare (hleft.of_primary _) ?_ (hright.of_primary _)).expression
    simp only [Token.comparison?, BinaryOp.symbol, Comparison.ofSymbol?_symbol, if_pos]
  | compute op =>
    have hlayer : ∃ l : Layer, l.arithmetic? ⟨.operator, op.symbol, offset⟩ = some op := by
      cases op with
      | add => exact ⟨.sum, rfl⟩
      | sub => exact ⟨.sum, rfl⟩
      | mul => exact ⟨.product, rfl⟩
      | div => exact ⟨.product, rfl⟩
      | rem => exact ⟨.product, rfl⟩
    obtain ⟨l, hl⟩ := hlayer
    exact (Derives.compute (hleft.of_primary _) hl (hright.of_primary _)).expression

theorem Written.connect {as bs : List Char} {a b : Expr} (op : Connective) (ha : Written as a)
    (hb : Written bs b) : Written (Expr.infixed op.symbol.toList as bs) (.connect op a b) := by
  refine ha.infixed hb (lexes_connective op) ?_
  intro offset ts us rest hleft hright
  obtain ⟨l, hl⟩ := connective?_symbol op offset
  exact (Derives.connect (hleft.of_primary _) hl (hright.of_primary _)).expression

mutual

theorem written_chars (wrap : Bool) (e : Expr) (h : e.writable) : Written (e.chars wrap) e := by
  match e with
  | .literal v => exact written_literal h
  | .name x => exact written_name h
  | .property base key =>
    simp only [writable, Bool.and_eq_true] at h
    exact (written_chars wrap base h.1).indexed (written_literal h.2)
  | .index base key =>
    simp only [writable, Bool.and_eq_true] at h
    have hindexed := (written_chars wrap base h.1.1).indexed
      ((written_chars wrap key h.1.2).enclosed wrap)
    rw [of_indexed] at hindexed
    · exact hindexed
    · rintro v rfl
      exact absurd h.2 (by simp [isLiteral])
  | .binary op left right =>
    simp only [writable, Bool.and_eq_true] at h
    exact .binary op (written_chars wrap left h.1) (written_chars wrap right h.2)
  | .connect op left right =>
    simp only [writable, Bool.and_eq_true] at h
    exact .connect op (written_chars wrap left h.1) (written_chars wrap right h.2)
  | .unary op operand => exact (written_chars wrap operand h).unary
  | .call f arguments =>
    simp only [writable, Bool.and_eq_true] at h
    rcases writtenList_chars wrap arguments h.2 with hnil | hlist
    · rw [hnil]
      exact written_callNone h.1
    · exact hlist.call h.1
  | .lambda x body =>
    simp only [writable, Bool.and_eq_true] at h
    exact .lambda h.1 ((written_chars wrap body h.2).enclosed wrap)

theorem writtenList_chars (wrap : Bool) (es : List Expr) (h : allWritable es) :
    es = [] ∨ WrittenList (argumentsChars wrap es) es := by
  match es with
  | [] => exact .inl rfl
  | [e] =>
    simp only [allWritable, Bool.and_eq_true] at h
    exact .inr ((written_chars wrap e h.1).enclosed wrap).one
  | e :: f :: fs =>
    rw [allWritable, Bool.and_eq_true] at h
    rcases writtenList_chars wrap (f :: fs) h.2 with hnil | hlist
    · cases hnil
    · exact .inr (((written_chars wrap e h.1).enclosed wrap).more hlist)

end

end NoteQuery
