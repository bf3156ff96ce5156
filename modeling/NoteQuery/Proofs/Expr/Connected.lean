import NoteQuery.Proofs.Expr.Relexing

/-! Expressions put together as texts. In parentheses the text of an expression is an operand, whatever the
expression is: the parentheses keep its tokens together, and no arrow after them makes it the parameter
of a function. So texts can be connected and negated as the expressions are that they stand for. -/

namespace NoteQuery
set_option autoImplicit false
open Text NoteQuery.Expr

/-! ### Phrases that are read -/

/-- The tokens of `ts` before `rest` are a phrase of a layer, and the parser takes them for it. -/
structure Layer.Takes (l : Layer) (ts : List Token) (e : Expr) (rest : List Token) : Prop where
  numerals : Numerals ts
  phrase : Phrase l ts e rest
  reads : l.Reads ts e rest

namespace Layer.Takes

variable {l m : Layer} {ts us rest : List Token} {t : Token} {a b e : Expr}

theorem weaken (h : m.Takes ts e rest) (hle : l.rank ≤ m.rank) : l.Takes ts e rest where
  numerals := h.numerals
  phrase := h.phrase.weaken hle
  reads := reads_of_stronger h.phrase h.reads hle

theorem connect {op : Connective} (ha : l.Takes ts a (t :: us)) (hop : l.connective? t = some op)
    (hb : l.operand.Takes us b rest) : l.Takes ts (.connect op a b) rest := by
  have hf := join?_of_connective? hop
  exact ⟨ha.numerals, .connect ha.phrase hop hb.phrase,
    reads_of_join (repeats_of_join? hf) ha.reads hf hb.reads ha.phrase.consumed.skip
      hb.phrase.consumed⟩

theorem not (ht : t.isNegation) (h : prefixed.Takes ts e rest) :
    prefixed.Takes (t :: ts) (.unary .not e) rest :=
  ⟨h.numerals.negation ht, .not ht h.phrase, reads_of_not ht h.reads⟩

/-- A whole list of tokens that is taken is the expression. -/
theorem ofTokens_eq (h : disjunction.Takes ts e []) (text : String) : ofTokens ts text = .ok e :=
  ofTokens_eq_ok.mpr ⟨h.reads.run_eq (Nat.le_refl _) (.nil _), h.numerals⟩

theorem group {n : Nat} {opening closing : Token}
    (h : Parser.run (disjunctions (Expr.prefixed (ts.length + 1))) ts = some (e, [])) (hts : Numerals ts)
    (ho : opening.isMark "(") (hc : closing.isMark ")") (hrest : Numerals rest) :
    primary.Takes (opening :: (ts.map (Token.shift n) ++ closing :: rest)) e rest := by
  have hreads : disjunction.Reads (ts.map (Token.shift n) ++ closing :: rest) e (closing :: rest) :=
    reads_of_run (by rintro t ⟨⟩; exact hc) h
  have hinside : Numerals (ts.map (Token.shift n) ++ closing :: rest) := by
    intro t ht hk
    rcases List.mem_append.mp ht with ht | ht
    · obtain ⟨s, hs, rfl⟩ := List.mem_map.mp ht
      exact hts s hs hk
    · exact hrest.mark hc t ht hk
  have hrun := hreads.run_eq (Nat.le_refl _) (.of_mark hc (by simp) _ _)
  have hphrase := (sound_prefixed _).layers _ _ _ hinside hrun
  exact ⟨hinside.mark ho, .group ho hphrase hc, reads_of_group ho hreads hc⟩

end Layer.Takes

/-! ### Texts -/

/-- A text is taken as an operand everywhere. -/
def TakenAs (cs : List Char) (e : Expr) : Prop :=
  ∀ previous offset rest, ∃ ts,
    Lexes previous offset cs rest ts ∧ ∀ us, Numerals us → Layer.primary.Takes (ts ++ us) e us

theorem grouped_takenAs {p : String} {e : Expr} (h : parse p = .ok e) :
    TakenAs (grouped p.toList) e := by
  cases hts : tokenize p with
  | error f => simp [parse, hts] at h
  | ok ts =>
    simp only [parse, hts] at h
    obtain ⟨hrun, hnumerals⟩ := ofTokens_eq_ok.mp h
    intro previous offset rest
    have hopens : opensOperand (some (markAt '(' offset)) = opensOperand none := rfl
    have hlex : Lexes (some (markAt '(' offset)) (0 + (offset + 1)) p.toList (')' :: rest)
        (ts.map (Token.shift (offset + 1))) := lexes_enclosed ⟨rest, rfl⟩ hopens hts
    rw [Nat.zero_add] at hlex
    refine ⟨_, (hlex.closed (by decide)).mark (by decide), fun us hus => ?_⟩
    rw [List.cons_append, List.append_assoc]
    exact .group hrun hnumerals (isMark_markAt '(' _) (isMark_markAt ')' _) hus

/-- Two texts in parentheses, with a connective between them. -/
def connected (op : Connective) (p q : String) : String :=
  "(" ++ p ++ ") " ++ op.symbol ++ " (" ++ q ++ ")"

/-- A text in parentheses, negated. -/
def negated (p : String) : String := "NOT (" ++ p ++ ")"

theorem toList_connected (op : Connective) (p q : String) :
    (connected op p q).toList = infixed op.symbol.toList p.toList q.toList := by
  simp [connected, infixed, grouped, String.toList_append]

theorem toList_negated (p : String) :
    (negated p).toList = UnaryOp.not.symbol.toList ++ ' ' :: grouped p.toList := by
  simp [negated, grouped, UnaryOp.symbol, String.toList_append]

theorem parse_connected {p q : String} {a b : Expr} (op : Connective) (ha : parse p = .ok a)
    (hb : parse q = .ok b) : parse (connected op p q) = .ok (.connect op a b) := by
  obtain ⟨ts, hts, hleft⟩ := grouped_takenAs ha none 0
    (' ' :: (op.symbol.toList ++ ' ' :: grouped q.toList) ++ [])
  obtain ⟨us, hus, hright⟩ := grouped_takenAs hb _ _ []
  obtain ⟨l, hl⟩ := connective?_symbol op (0 + (grouped p.toList).length + 1)
  have htokens := (hts.infixed (lexes_connective op) hus).tokensFrom_eq
  have hsecond := hright [] (by intro t ht; cases ht)
  rw [List.append_nil] at hsecond
  have hfirst := hleft (⟨.keyword, op.symbol, 0 + (grouped p.toList).length + 1⟩ :: us)
    (hsecond.numerals.layer (layer?_of_connective? hl))
  have hjoined : l.Takes _ _ [] :=
    (hfirst.weaken (by cases l <;> decide)).connect hl (hsecond.weaken (by cases l <;> decide))
  rw [parse, tokenize, toList_connected, htokens]
  exact (hjoined.weaken (Nat.zero_le _)).ofTokens_eq _

theorem parse_negated {p : String} {e : Expr} (h : parse p = .ok e) :
    parse (negated p) = .ok (.unary .not e) := by
  obtain ⟨ts, hts, hoperand⟩ := grouped_takenAs h (some ⟨.keyword, "NOT", 0⟩) (0 + 4) []
  have hlex : Lexes none 0 _ [] _ := hts.not
  have hinside := hoperand [] (by intro t ht; cases ht)
  rw [List.append_nil] at hinside
  have hnegation : Layer.prefixed.Takes (⟨.keyword, "NOT", 0⟩ :: ts) _ [] :=
    (hinside.weaken (by decide)).not (by rfl)
  rw [parse, tokenize, toList_negated, hlex.tokensFrom_eq]
  exact (hnegation.weaken (by decide)).ofTokens_eq _

end NoteQuery
