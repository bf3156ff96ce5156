import NoteQuery.Proofs.Expr.Rendering

/-! Tokens with a text that the lexer gives to their kind. These are the tokens that are legible where no
token comes before them, and each is then the only token of what it is written as. Numbers among them
denote numbers. -/

namespace NoteQuery
set_option autoImplicit false
open Text NoteQuery.Expr

/-- A token that reads as one of the tokens of a text does. -/
def Token.Lexical (t : Token) : Prop :=
  ∃ s ts u, tokenize s = .ok ts ∧ u ∈ ts ∧ u.spelling = t.spelling

section
variable {previous : Option Token} {t u : Token} {ts : List Token} {cs : List Char}

/-- Where a token stands does not matter. -/
theorem lexical_of_lexes {s : String} {kind : TokenKind} {text : String}
    (h : Lexes none 0 s.toList [] [⟨kind, text, 0⟩]) (offset : Nat) : Token.Lexical ⟨kind, text, offset⟩ :=
  ⟨s, _, _, h.tokensFrom_eq, List.mem_singleton.mpr rfl, rfl⟩

theorem Token.Legible.respelled (h : u.Legible previous) (heq : u.spelling = t.spelling) :
    t.Legible previous := by
  obtain ⟨hkind, htext⟩ := Prod.mk.inj heq
  obtain ⟨piece, hform, hsaid, hminus⟩ := h
  refine ⟨piece, hkind ▸ hform, ?_, fun hnumber => hminus (hkind.trans hnumber)⟩
  rw [← hkind, ← htext]
  exact hsaid

/-- Where no token comes before an operand may start, and so any token may. -/
theorem Token.Legible.alone (h : t.Legible previous) : t.Legible none := by
  obtain ⟨piece, hform, hsaid, _⟩ := h
  exact ⟨piece, hform, hsaid, fun _ _ => rfl⟩

theorem LegibleFrom.legible_of_mem (h : LegibleFrom previous ts) (ht : t ∈ ts) : t.Legible none := by
  induction h with
  | nil => cases ht
  | cons hfirst _ ih =>
    rcases List.mem_cons.mp ht with rfl | ht
    · exact hfirst.alone
    · exact ih ht

theorem lexical_iff_legible : t.Lexical ↔ t.Legible none := by
  constructor
  · rintro ⟨s, ts, u, hts, hu, heq⟩
    exact ((scanned_of_tokensFrom hts).legible.legible_of_mem hu).respelled heq
  · intro h
    exact lexical_of_lexes (h.lexes rfl nofun) t.offset

section
variable (offset : Nat)

theorem lexical_name {x : String} (h : isPlainName x) : Token.Lexical ⟨.identifier, x, offset⟩ :=
  lexical_of_lexes (lexes_name h nofun) offset

theorem lexical_keyword {word : String} (h : word ∈ connectingWords ++ valueWords) :
    Token.Lexical ⟨.keyword, word, offset⟩ :=
  lexical_of_lexes (lexes_keyword_text h nofun) offset

theorem lexical_symbol {symbol : String}
    (h : symbol ∈ Lexeme.doubleOperators ++ Lexeme.singleOperators.map fun c => String.ofList [c]) :
    Token.Lexical ⟨.operator, symbol, offset⟩ :=
  lexical_of_lexes (lexes_symbol h nofun) offset

theorem lexical_mark {symbol : String} (h : symbol ∈ Lexeme.marks.map fun c => String.ofList [c]) :
    Token.Lexical ⟨.punctuation, symbol, offset⟩ := by
  obtain ⟨c, hc, rfl⟩ := List.mem_map.mp h
  have hmark : Lexes none 0 [c] [] [markAt c 0] := lexes_mark (List.contains_iff_mem.mpr hc)
  exact lexical_of_lexes (by rwa [String.toList_ofList]) offset

theorem lexical_text (s : String) : Token.Lexical ⟨.text, s, offset⟩ := by
  have hquoted : Lexes none 0 _ [] [⟨.text, s, 0⟩] := lexes_quoted s
  exact lexical_of_lexes (s := String.ofList _) (by rwa [String.toList_ofList]) offset

theorem lexical_integer (n : Int) : Token.Lexical ⟨.number, toString n, offset⟩ :=
  lexical_of_lexes (lexes_integer n rfl nofun) offset

end

/-! ### Numbers -/

theorem numeral?_of_isNumeral (negative : Bool) (h : Form.IsNumeral cs) {s : String}
    (hs : s.toList = (if negative then ['-'] else []) ++ cs) : (numeral? s).isSome := by
  have hsign : '.' ∉ (if negative then ['-'] else []) := by cases negative <;> decide
  unfold numeral?
  rw [hs]
  cases h with
  | whole hds =>
    have hpoint : '.' ∉ cs := fun hmem => absurd (hds.2 '.' hmem) (by decide)
    have hnone : ((if negative then ['-'] else []) ++ cs).contains '.' = false := by
      simp [hsign, hpoint]
    rw [hnone, Numeral.integer?_of_isDecimal negative hds.2 hds.1]
    rfl
  | @fraction ds es hds hes =>
    have hsome : ((if negative then ['-'] else []) ++ (ds ++ '.' :: es)).contains '.' := by simp
    rw [hsome, Numeral.real?_of_isDecimal negative hds.2 hds.1 hes.2 hes.1]
    rfl

theorem Token.Lexical.numeral (h : t.Lexical) (hk : t.kind = .number) : (numeral? t.text).isSome := by
  obtain ⟨piece, hform, hsaid, _⟩ := lexical_iff_legible.mp h
  rw [hk] at hform hsaid
  obtain rfl : t.text.toList = piece := hsaid
  rcases hform with hnumeral | ⟨ds, hpiece, hnumeral⟩
  · exact numeral?_of_isNumeral false hnumeral rfl
  · exact numeral?_of_isNumeral true hnumeral hpiece

theorem numerals_of_lexical (h : ∀ t ∈ ts, t.Lexical) : Numerals ts := fun t ht hk => (h t ht).numeral hk

end
end NoteQuery
