import NoteQuery.Proofs.Expr.Recognition
import NoteQuery.Proofs.Expr.Segments
import NoteQuery.Proofs.Query.Masking

/-! Brackets and commas of an expression. What stands outside the quotes of a text as a bracket or a comma
is a token of it, and in the phrases of the grammar every bracket is closed and commas stand inside
brackets only. By induction along the lexemes, and by induction on the phrase. -/

namespace NoteQuery
set_option autoImplicit false
open Text

/-- A character that counts for the nesting of a text. -/
def isNesting (c : Char) : Bool := opensBracket c || closesBracket c || c == ','

/-- From the depth `d` on every comma stands inside brackets, and no bracket is open in the end. -/
def Nested (d : Nat) : List Char → Prop
  | [] => d = 0
  | c :: cs => (c = ',' → d ≠ 0) ∧ Nested (depthNext d c) cs

section
variable {d : Nat} {c : Char} {cs ds : List Char}

theorem depthNext_of_not_isNesting (h : isNesting c = false) (d : Nat) : depthNext d c = d := by
  simp only [isNesting, Bool.or_eq_false_iff] at h
  rw [depthNext, depthHere, h.1.1, h.1.2]
  rfl

theorem nested_cons_of_not_isNesting (h : isNesting c = false) :
    Nested d (c :: cs) ↔ Nested d cs := by
  have hcomma : c ≠ ',' := by
    rintro rfl
    cases h
  rw [Nested, depthNext_of_not_isNesting h]
  exact ⟨fun hc => hc.2, fun hcs => ⟨fun hc => absurd hc hcomma, hcs⟩⟩

theorem nested_filter : Nested d (cs.filter isNesting) ↔ Nested d cs := by
  induction cs generalizing d with
  | nil => rfl
  | cons c cs ih =>
    cases hc : isNesting c with
    | false => rw [List.filter_cons_of_neg (by simp [hc]), ih, nested_cons_of_not_isNesting hc]
    | true => rw [List.filter_cons_of_pos hc, Nested, ih, Nested]

theorem Nested.append (h : Nested d cs) (k : Nested 0 ds) : Nested d (cs ++ ds) := by
  induction cs generalizing d with
  | nil =>
    cases h
    exact k
  | cons c cs ih => exact ⟨h.1, ih h.2⟩

theorem nested_of_not_isNesting (h : ∀ c ∈ cs, isNesting c = false) : Nested 0 cs := by
  induction cs with
  | nil => rfl
  | cons c cs ih =>
    rw [nested_cons_of_not_isNesting (h c List.mem_cons_self)]
    exact ih fun d hd => h d (List.mem_cons_of_mem c hd)

theorem Nested.foldl_depthNext (h : Nested d cs) : cs.foldl depthNext d = 0 := by
  induction cs generalizing d with
  | nil => exact h
  | cons c cs ih => exact ih h.2

end

/-! ### Tokens -/

/-- The character that a token adds to the nesting, if it does. -/
def Token.nesting? (t : Token) : Option Char :=
  if t.kind = .punctuation then t.text.toList.head?.filter isNesting else none

/-- The tokens close what they open, and their commas stand inside brackets. -/
def Enclosed (d : Nat) (ts : List Token) : Prop := Nested d (ts.filterMap Token.nesting?)

namespace Enclosed

variable {d : Nat} {t : Token} {ts : List Token}

theorem plain (h : Enclosed d ts) (ht : t.kind ≠ .punctuation) : Enclosed d (t :: ts) := by
  rw [Enclosed, List.filterMap_cons_none (by rw [Token.nesting?, if_neg ht])]
  exact h

theorem nesting?_of_isMark {symbol : String} (h : t.isMark symbol) :
    t.nesting? = symbol.toList.head?.filter isNesting := by
  simp only [Token.isMark, Bool.and_eq_true, decide_eq_true_eq, beq_iff_eq] at h
  rw [Token.nesting?, if_pos h.1, h.2]

theorem mark {symbol : String} {c : Char} (ht : t.isMark symbol)
    (hc : symbol.toList.head?.filter isNesting = some c) (h : Nested d (c :: ts.filterMap Token.nesting?)) :
    Enclosed d (t :: ts) := by
  rw [Enclosed, List.filterMap_cons_some ((nesting?_of_isMark ht).trans hc)]
  exact h

theorem point (h : Enclosed d ts) (ht : t.isMark ".") : Enclosed d (t :: ts) := by
  rw [Enclosed, List.filterMap_cons_none (nesting?_of_isMark ht)]
  exact h

theorem opening (h : Enclosed (d + 1) ts) (ht : t.isMark "(" ∨ t.isMark "[") : Enclosed d (t :: ts) := by
  rcases ht with ht | ht
  · exact mark (c := '(') ht rfl ⟨fun hc => absurd hc (by decide), h⟩
  · exact mark (c := '[') ht rfl ⟨fun hc => absurd hc (by decide), h⟩

theorem closing (h : Enclosed d ts) (ht : t.isMark ")" ∨ t.isMark "]") :
    Enclosed (d + 1) (t :: ts) := by
  rcases ht with ht | ht
  · exact mark (c := ')') ht rfl ⟨fun hc => absurd hc (by decide), h⟩
  · exact mark (c := ']') ht rfl ⟨fun hc => absurd hc (by decide), h⟩

theorem comma (h : Enclosed (d + 1) ts) (ht : t.isMark ",") : Enclosed (d + 1) (t :: ts) :=
  mark (c := ',') ht rfl ⟨fun _ => Nat.succ_ne_zero d, h⟩

theorem name (h : Enclosed d ts) (ht : t.isName) : Enclosed d (t :: ts) := by
  refine h.plain ?_
  intro hk
  simp [Token.isName, hk] at ht

theorem operator {symbol : String} (h : Enclosed d ts) (ht : t.isOperator symbol) :
    Enclosed d (t :: ts) := by
  refine h.plain ?_
  intro hk
  simp [Token.isOperator, hk] at ht

theorem negation (h : Enclosed d ts) (ht : t.isNegation) : Enclosed d (t :: ts) := by
  refine h.plain ?_
  intro hk
  simp [Token.isNegation, Token.isKeyword, Token.isOperator, hk] at ht

theorem connective {l : Layer} {op : Connective} (h : Enclosed d ts)
    (ht : l.connective? t = some op) : Enclosed d (t :: ts) := by
  refine h.plain ?_
  intro hk
  cases l <;> simp [Layer.connective?, Token.isKeyword, Token.isOperator, hk] at ht

theorem arithmetic {l : Layer} {op : Arithmetic} (h : Enclosed d ts)
    (ht : l.arithmetic? t = some op) : Enclosed d (t :: ts) := by
  refine h.plain ?_
  intro hk
  cases l <;> simp [Layer.arithmetic?, Token.isOperator, hk] at ht

theorem comparison {c : Comparison} (h : Enclosed d ts) (ht : t.comparison? = some c) :
    Enclosed d (t :: ts) := by
  refine h.plain ?_
  intro hk
  simp [Token.comparison?, hk] at ht

theorem literal {v : Literal} (h : Enclosed d ts) (ht : t.literal? = some v) :
    Enclosed d (t :: ts) := by
  refine h.plain ?_
  intro hk
  simp [Token.literal?, hk] at ht

end Enclosed

section
variable {after : List Token → Prop}

mutual

/-- A phrase closes what it opens and has commas inside brackets only, if so has what comes after it. -/
theorem Derives.enclosed {l : Layer} {ts rest : List Token} {e : Expr} {d : Nat}
    (h : Derives after l ts e rest) (hr : Enclosed d rest) : Enclosed d ts := by
  match h with
  | .operand _ h => exact h.enclosed hr
  | .connect ha hop hb => exact ha.enclosed ((hb.enclosed hr).connective hop)
  | .compute ha hop hb => exact ha.enclosed ((hb.enclosed hr).arithmetic hop)
  | .compare ha hc hb => exact ha.enclosed ((hb.enclosed hr).comparison hc)
  | .not ht h => exact (h.enclosed hr).negation ht
  | .minus ht h => exact (h.enclosed hr).operator ht
  | .plus ht h => exact (h.enclosed hr).operator ht
  | .member h ht hx => exact h.enclosed ((hr.name hx).point ht)
  | .fixed h ho hk hc => exact h.enclosed ((hk.enclosed (hr.closing (.inr hc))).opening (.inr ho))
  | .index h ho hk hc _ => exact h.enclosed ((hk.enclosed (hr.closing (.inr hc))).opening (.inr ho))
  | .function hx harrow h _ => exact ((h.enclosed hr).operator harrow).name hx
  | .groupedFunction ho hx hc harrow h _ =>
    exact ((((h.enclosed hr).operator harrow).closing (.inl hc)).name hx).opening (.inl ho)
  | .group ho h hc => exact (h.enclosed (hr.closing (.inl hc))).opening (.inl ho)
  | .literal hv => exact hr.literal hv
  | .callNone hf ho hc => exact ((hr.closing (.inl hc)).opening (.inl ho)).name hf
  | .call hf ho hes hc => exact ((hes.enclosed (hr.closing (.inl hc))).opening (.inl ho)).name hf
  | .name hx => exact hr.name hx

theorem Arguments.enclosed {ts rest : List Token} {es : List Expr} {d : Nat}
    (h : Arguments after ts es rest) (hr : Enclosed (d + 1) rest) : Enclosed (d + 1) ts := by
  match h with
  | .one h => exact h.enclosed hr
  | .more h hcomma hs => exact h.enclosed ((hs.enclosed hr).comma hcomma)

end

end

/-! ### Characters and tokens -/

section
variable {rest cs : List Char} {offset : Nat} {ts : List Token}

theorem isNesting_of_isInner {c : Char} (h : isInner c) : isNesting c = false := by
  simp only [isInner, Bool.not_eq_true', Bool.or_eq_false_iff] at h
  simp only [isNesting, Bool.or_eq_false_iff]
  exact ⟨⟨h.1.1.2, h.1.2⟩, h.2⟩

theorem ofChars_of_isNesting {c : Char} (hc : isNesting c) (operandMayStart : Bool) (cs : List Char) :
    Lexeme.ofChars operandMayStart c cs = ⟨some (.punctuation, String.ofList [c]), 0⟩ := by
  have hplain : c ≠ '-' ∧ isDecimal c = false ∧ Lexeme.isWordStart c = false ∧
      c ∉ ['=', '!', '<', '>', '&', '|'] ∧ Lexeme.singleOperators.contains c = false ∧
        Lexeme.marks.contains c := by
    simp only [isNesting, opensBracket, closesBracket, Bool.or_eq_true, beq_iff_eq] at hc
    rcases hc with ((rfl | rfl) | rfl | rfl) | rfl <;> decide
  obtain ⟨hminus, hdecimal, hword, hfirst, hsingle, hmark⟩ := hplain
  have hdouble : ¬ Lexeme.doubleOperators.contains (Lexeme.leading c cs 1) :=
    fun h => hfirst (mem_of_doubleOperators h)
  rw [Lexeme.ofChars, if_neg fun h => hminus h.1, if_neg (Bool.eq_false_iff.mp hdecimal),
    if_neg (Bool.eq_false_iff.mp hword), Lexeme.operatorOrMark, if_neg hdouble,
    if_neg (Bool.eq_false_iff.mp hsingle), if_pos hmark]
  rfl

theorem text_of_punctuation {operandMayStart : Bool} {c : Char} {text : String} {extra : Nat}
    (h : Lexeme.ofChars operandMayStart c cs = ⟨some (.punctuation, text), extra⟩) :
    text = String.ofList [c] := by
  unfold Lexeme.ofChars Lexeme.word Lexeme.operatorOrMark at h
  simp only at h
  split at h
  · cases h
  · split at h
    · cases h
    · split at h
      · split at h <;> cases h
      · split at h
        · cases h
        · split at h
          · cases h
          · split at h
            · cases h
              rfl
            · cases h

theorem nesting?_ofList (c : Char) (offset : Nat) :
    Token.nesting? ⟨.punctuation, String.ofList [c], offset⟩ = if isNesting c then some c else none := by
  rw [Token.nesting?, if_pos rfl, String.toList_ofList]
  rfl

/-- A lexeme adds its first character to the nesting, or nothing. -/
theorem nesting?_of_lexeme {operandMayStart : Bool} {c : Char} {token? : Option (TokenKind × String)}
    {extra : Nat} (h : Lexeme.ofChars operandMayStart c cs = ⟨token?, extra⟩) (offset : Nat) :
    (token?.map fun t => (⟨t.1, t.2, offset⟩ : Token)).toList.filterMap Token.nesting? =
      [c].filter isNesting := by
  cases hc : isNesting c with
  | true =>
    rw [ofChars_of_isNesting hc] at h
    cases h
    change [(⟨.punctuation, String.ofList [c], offset⟩ : Token)].filterMap Token.nesting? = _
    rw [List.filterMap_cons, nesting?_ofList, if_pos hc, List.filter_cons_of_pos hc]
    rfl
  | false =>
    rw [List.filter_cons_of_neg (by simp [hc]), List.filter_nil]
    rcases token? with _ | ⟨kind, text⟩
    · rfl
    · change [(⟨kind, text, offset⟩ : Token)].filterMap Token.nesting? = _
      have hnone : Token.nesting? ⟨kind, text, offset⟩ = none := by
        by_cases hkind : kind = .punctuation
        · subst hkind
          rw [text_of_punctuation h, nesting?_ofList, hc, if_neg (by decide)]
        · rw [Token.nesting?, if_neg hkind]
      rw [List.filterMap_cons_none hnone, List.filterMap_nil]

theorem filter_isNesting_of_isInner {run : List Char} (h : ∀ d ∈ run, isInner d) :
    run.filter isNesting = [] := by
  refine List.filter_eq_nil_iff.mpr ?_
  intro d hd
  rw [isNesting_of_isInner (h d hd)]
  decide

theorem isNesting_of_isBlank {c : Char} (h : isBlank c) : isNesting c = false :=
  forall_isBlank (p := fun c => isNesting c = false) (by decide +kernel) h

theorem isNesting_of_isQuote {c : Char} (h : Quoting.isQuote c) : isNesting c = false := by
  rcases isQuote_iff.mp h with rfl | rfl <;> decide

theorem filter_isNesting_quoted {quote : Char} (hquote : Quoting.isQuote quote) (n : Nat) :
    (quote :: (List.replicate n Quoting.mask ++ [quote])).filter isNesting = [] := by
  have hnot := isNesting_of_isQuote hquote
  refine List.filter_eq_nil_iff.mpr ?_
  intro d hd
  rcases List.mem_cons.mp hd with rfl | hd
  · simp [hnot]
  · rcases List.mem_append.mp hd with hd | hd
    · rw [List.eq_of_mem_replicate hd]
      decide
    · rw [List.mem_singleton.mp hd]
      simp [hnot]

/-- The nesting that a text shows outside its quotes is that of its tokens. -/
theorem Segmented.filter_isNesting (h : Segmented rest offset cs ts) :
    (maskFrom .outside cs).filter isNesting = ts.filterMap Token.nesting? := by
  induction h with
  | nil => rfl
  | blank hc _ ih =>
    rw [maskFrom_blank hc, List.filter_cons_of_neg (by simp [isNesting_of_isBlank hc])]
    exact ih
  | @quoted offset quote inner body cs ts hquote hinner _ ih =>
    rw [hinner.maskFrom_append hquote, List.filter_append, filter_isNesting_quoted hquote, ih,
      List.filterMap_cons_none]
    · rfl
    · rfl
  | @lexeme offset _ c run cs token? ts _ hc hread _ ih =>
    rw [← List.cons_append, maskFrom_append_of_noQuote (noQuote_of_lexeme hc hread),
      List.filter_append, ih, List.filterMap_append, nesting?_of_lexeme hread,
      ← List.singleton_append, List.filter_append,
      filter_isNesting_of_isInner (isInner_of_lexeme hread), List.append_nil]

end

/-! ### Sealed texts -/

/-- A text that closes its quotes and brackets, with commas inside of them only. -/
structure Sealed (p : List Char) : Prop where
  closed : p.foldl Quoting.next .outside = .outside
  nested : Nested 0 (maskQuoted p)

/-- The quote that is open is one. -/
def Quoting.Sound : Quoting → Prop
  | outside => True
  | inside q => isQuote q
  | escaped q => isQuote q

section
variable {p q lead trail : List Char}

theorem Quoting.Sound.foldl {s : Quoting} (h : s.Sound) (cs : List Char) :
    (cs.foldl Quoting.next s).Sound := by
  induction cs generalizing s with
  | nil => exact h
  | cons c cs ih =>
    apply ih
    cases s with
    | outside =>
      rw [Quoting.next]
      split
      · next hc => exact hc
      · trivial
    | inside q =>
      rw [Quoting.next]
      split
      · exact h
      · split
        · trivial
        · exact h
    | escaped q => exact h

/-- Blanks close no quote. -/
theorem Quoting.Sound.of_blanks {s : Quoting} (h : s.Sound) (htrail : Blanks trail)
    (hend : trail.foldl Quoting.next s = .outside) : s = .outside := by
  induction trail generalizing s with
  | nil => exact hend
  | cons c trail ih =>
    have hc := isQuote_of_isBlank (htrail c List.mem_cons_self)
    have hnext : Quoting.next s c = .outside :=
      ih (h.foldl [c]) (fun d hd => htrail d (List.mem_cons_of_mem c hd)) hend
    cases s with
    | outside => rfl
    | inside q =>
      rw [Quoting.next] at hnext
      split at hnext
      · cases hnext
      · split at hnext
        · next hq =>
          rw [eq_of_beq hq] at hc
          rw [Quoting.Sound, hc] at h
          cases h
        · cases hnext
    | escaped q => cases hnext

namespace Sealed

theorem balanced (h : Sealed p) : Balanced p := ⟨h.closed, h.nested.foldl_depthNext⟩

theorem append (h : Sealed p) (k : Sealed q) : Sealed (p ++ q) where
  closed := by
    rw [List.foldl_append, h.closed]
    exact k.closed
  nested := by
    rw [maskQuoted, maskFrom_append, h.closed]
    exact h.nested.append k.nested

theorem of_isPlain (h : ∀ c ∈ p, Quoting.isQuote c = false ∧ isNesting c = false) : Sealed p where
  closed := foldl_next_of_noQuote fun c hc => (h c hc).1
  nested := by
    rw [maskQuoted, maskFrom_of_noQuote fun c hc => (h c hc).1]
    exact nested_of_not_isNesting fun c hc => (h c hc).2

theorem of_blanks (h : Blanks p) : Sealed p :=
  of_isPlain fun c hc => ⟨isQuote_of_isBlank (h c hc), isNesting_of_isBlank (h c hc)⟩

theorem of_quoted {quote : Char} {inner body : List Char} (hquote : Quoting.isQuote quote)
    (h : Quoted quote inner body) : Sealed (quote :: (inner ++ [quote])) where
  closed := h.foldl_next_outside hquote
  nested := by
    rw [maskQuoted, ← nested_filter, h.maskFrom_outside hquote, filter_isNesting_quoted hquote]
    rfl

theorem maskQuoted_around (hlead : Blanks lead)
    (h : p.foldl Quoting.next .outside = .outside) (htrail : Blanks trail) :
    maskQuoted (lead ++ p ++ trail) = lead ++ maskQuoted p ++ trail := by
  have hblanks {gap : List Char} (hgap : Blanks gap) : ∀ c ∈ gap, Quoting.isQuote c = false :=
    fun c hc => isQuote_of_isBlank (hgap c hc)
  rw [maskQuoted, List.append_assoc, maskFrom_append_of_noQuote (hblanks hlead), maskFrom_append, h,
    maskFrom_of_noQuote (hblanks htrail), ← List.append_assoc, maskQuoted]

/-- A text without the blanks around it is sealed if the whole is. -/
theorem of_around (hlead : Blanks lead) (htrail : Blanks trail) (h : Sealed (lead ++ p ++ trail)) :
    Sealed p := by
  have hclosed : p.foldl Quoting.next .outside = .outside := by
    have hall := h.closed
    rw [List.foldl_append, List.foldl_append, (of_blanks hlead).closed] at hall
    have hsound : Quoting.Sound .outside := trivial
    exact (hsound.foldl p).of_blanks htrail hall
  refine ⟨hclosed, ?_⟩
  have hblanks {gap : List Char} (hgap : Blanks gap) : gap.filter isNesting = [] := by
    refine List.filter_eq_nil_iff.mpr ?_
    intro c hc
    simp [isNesting_of_isBlank (hgap c hc)]
  have hnested := h.nested
  rw [maskQuoted_around hlead hclosed htrail, ← nested_filter, List.filter_append, List.filter_append,
    hblanks hlead, hblanks htrail, List.nil_append, List.append_nil, nested_filter] at hnested
  exact hnested

end Sealed

/-- The text of an expression is sealed. -/
theorem sealed_of_parse {text : String} {e : Expr} (h : Expr.parse text = .ok e) :
    ∃ ts, tokenize text = .ok ts ∧ Sealed text.toList := by
  unfold Expr.parse at h
  cases hts : tokenize text with
  | error fault =>
    rw [hts] at h
    cases h
  | ok ts =>
    rw [hts] at h
    have hsegments := segmented_of_tokenize hts
    have hend : Enclosed 0 [] := rfl
    refine ⟨ts, rfl, hsegments.accounts.closed, ?_⟩
    rw [maskQuoted, ← nested_filter, hsegments.filter_isNesting]
    exact (phrase_of_ofTokens h).enclosed hend

end
end NoteQuery
