import Mathlib
import NoteQuery.Proofs.Expr.Segments

/-! What tokens look like in a text: a word, a numeral, a symbol, a mark, or a text in quotes. A lexeme is the
longest piece of the text that has the form of its token, and the token's text is what the piece says. What
starts no token is a lone half of an operator or a character that no token starts with. -/

namespace NoteQuery
set_option autoImplicit false
open Text

/-! ### Forms -/

namespace Form

/-- Letters, digits and underscores; the first is no digit. -/
def IsWord (cs : List Char) : Prop :=
  ∃ c ds, cs = c :: ds ∧ Lexeme.isWordStart c ∧ ∀ d ∈ ds, Lexeme.isWordPart d

def AreDigits (cs : List Char) : Prop := cs ≠ [] ∧ ∀ c ∈ cs, isDecimal c

/-- Digits, or digits with a point between them. -/
inductive IsNumeral : List Char → Prop
  | whole {ds : List Char} : AreDigits ds → IsNumeral ds
  | fraction {ds es : List Char} : AreDigits ds → AreDigits es → IsNumeral (ds ++ '.' :: es)

def IsSymbol (cs : List Char) : Prop :=
  String.ofList cs ∈ Lexeme.doubleOperators ∨ ∃ c ∈ Lexeme.singleOperators, cs = [c]

def IsMark (cs : List Char) : Prop := ∃ c ∈ Lexeme.marks, cs = [c]

/-- Quotes of one kind, and between them contents that say `body`. -/
def Quotes (cs body : List Char) : Prop :=
  ∃ quote inner, Quoting.isQuote quote ∧ Quoted quote inner body ∧ cs = quote :: (inner ++ [quote])

/-- The same letters, in upper case or in lower case. -/
def SameLetters (cs ds : List Char) : Prop := cs.map Char.toLower = ds.map Char.toLower

end Form

namespace TokenKind
open Form

/-- The pieces of a text that a token of a kind may be read from. -/
def Form : TokenKind → List Char → Prop
  | identifier, cs => IsWord cs
  | keyword, cs => IsWord cs
  | number, cs => IsNumeral cs ∨ ∃ ds, cs = '-' :: ds ∧ IsNumeral ds
  | operator, cs => IsSymbol cs
  | punctuation, cs => IsMark cs
  | text, cs => ∃ body, Quotes cs body

/-- The text of a token of a kind that is read from a piece of a text: for a keyword its usual spelling,
for a text in quotes the contents without escapes, for others the piece itself. -/
def Says : TokenKind → List Char → String → Prop
  | identifier, cs, s => s.toList = cs ∧ ∀ k ∈ connectingWords ++ valueWords, ¬ SameLetters cs k.toList
  | keyword, cs, s => s ∈ connectingWords ++ valueWords ∧ SameLetters cs s.toList
  | text, cs, s => Quotes cs s.toList
  | _, cs, s => s.toList = cs

end TokenKind

/-- A piece of a text has a form, and no longer piece from the same place on has it. -/
structure Longest (form : List Char → Prop) (piece after : List Char) : Prop where
  fits : form piece
  maximal : ∀ p, p <+: piece ++ after → form p → p.length ≤ piece.length

section
variable {c : Char} {cs ds run after : List Char}

/-! ### Words -/

theorem length_le_of_prefix {p : Char → Bool} {piece : List Char} (h : piece <+: cs)
    (hp : ∀ c ∈ piece, p c) : piece.length ≤ (cs.takeWhile p).length := by
  obtain ⟨rest, rfl⟩ := h
  rw [List.takeWhile_append_of_pos hp, List.length_append]
  omega

theorem longest_word (hc : Lexeme.isWordStart c)
    (hrun : (run ++ after).takeWhile Lexeme.isWordPart = run) : Longest Form.IsWord (c :: run) after where
  fits := ⟨c, run, rfl, hc, fun d hd => List.mem_takeWhile_imp (hrun.symm ▸ hd)⟩
  maximal := by
    rintro p hp ⟨d, ds, rfl, _, hds⟩
    rw [List.cons_append, List.cons_prefix_cons] at hp
    have hle := length_le_of_prefix hp.2 hds
    rw [hrun] at hle
    exact Nat.succ_le_succ hle

theorem says_of_keyword? {word : List Char} {k : String} (h : keyword? word = some k) :
    TokenKind.keyword.Says word k := by
  unfold keyword? at h
  simp only at h
  split at h
  · next hup =>
    cases h
    refine ⟨List.mem_append_left _ (List.contains_iff_mem.mp hup), ?_⟩
    simp [Form.SameLetters]
  · split at h
    · next hlow =>
      cases h
      refine ⟨List.mem_append_right _ (List.contains_iff_mem.mp hlow), ?_⟩
      simp [Form.SameLetters]
    · cases h

theorem not_sameLetters_of_keyword? {word : List Char} (h : keyword? word = none) :
    ∀ k ∈ connectingWords ++ valueWords, ¬ Form.SameLetters word k.toList := by
  unfold keyword? at h
  simp only at h
  split at h
  · cases h
  · next hup =>
    split at h
    · cases h
    · next hlow =>
      intro k hk hsame
      rcases List.mem_append.mp hk with hk | hk
      · have hupper : ∀ k ∈ connectingWords, k.toList.map Char.toUpper = k.toList := by decide
        have hword := congrArg (List.map Char.toUpper) hsame
        simp only [List.map_map, Function.comp_def, Char.toUpper_toLower_eq_toUpper, hupper k hk] at hword
        exact hup (List.contains_iff_mem.mpr (by rwa [hword, String.ofList_toList]))
      · have hlower : ∀ k ∈ valueWords, k.toList.map Char.toLower = k.toList := by decide
        rw [Form.SameLetters, hlower k hk] at hsame
        exact hlow (List.contains_iff_mem.mpr (by rwa [hsame, String.ofList_toList]))

/-! ### Numerals -/

theorem areDigits_cons (hc : isDecimal c) (h : ∀ d ∈ ds, isDecimal d) : Form.AreDigits (c :: ds) := by
  refine ⟨by simp, ?_⟩
  rintro d (_ | ⟨_, hd⟩)
  · exact hc
  · exact h d hd

theorem length_takeWhile_le_numberExtra (cs : List Char) :
    (cs.takeWhile isDecimal).length ≤ Lexeme.numberExtra cs := by
  unfold Lexeme.numberExtra
  simp only
  split
  · split <;> omega
  · exact Nat.le_refl _

theorem isNumeral_take (hc : isDecimal c) (cs : List Char) :
    Form.IsNumeral (c :: cs.take (Lexeme.numberExtra cs)) := by
  have hwhole : cs.take (cs.takeWhile isDecimal).length = cs.takeWhile isDecimal :=
    (List.prefix_iff_eq_take.mp (List.takeWhile_prefix isDecimal)).symm
  have hdigits : Form.AreDigits (c :: cs.takeWhile isDecimal) :=
    areDigits_cons hc fun d hd => List.mem_takeWhile_imp hd
  unfold Lexeme.numberExtra
  simp only
  split
  · next rest hrest =>
    split
    · rw [hwhole]
      exact .whole hdigits
    · next hfraction =>
      have hmore : Form.AreDigits (rest.takeWhile isDecimal) :=
        ⟨fun h => hfraction (by rw [h]; rfl), fun d hd => List.mem_takeWhile_imp hd⟩
      rw [Nat.add_assoc, List.take_add, hwhole, hrest, Nat.add_comm 1, List.take_succ_cons,
        ← List.prefix_iff_eq_take.mp (List.takeWhile_prefix isDecimal)]
      exact .fraction hdigits hmore
  · rw [hwhole]
    exact .whole hdigits

theorem isDecimal_point : isDecimal '.' = false := by decide

theorem Form.IsNumeral.head {p : List Char} (h : Form.IsNumeral p) : ∃ d ds, p = d :: ds ∧ isDecimal d := by
  cases h with
  | whole hds =>
    cases p with
    | nil => exact absurd rfl hds.1
    | cons d p => exact ⟨d, p, rfl, hds.2 d List.mem_cons_self⟩
  | @fraction ds es hds _ =>
    cases ds with
    | nil => exact absurd rfl hds.1
    | cons d ds => exact ⟨d, _, rfl, hds.2 d List.mem_cons_self⟩

theorem numeral_length_le {p : List Char} (h : Form.IsNumeral p) (hp : p <+: c :: cs) :
    p.length ≤ Lexeme.numberExtra cs + 1 := by
  cases h with
  | whole hds =>
    cases p with
    | nil => exact absurd rfl hds.1
    | cons d p =>
      have hle := length_le_of_prefix (List.cons_prefix_cons.mp hp).2
        fun c hc => hds.2 c (List.mem_cons_of_mem d hc)
      have hwhole := length_takeWhile_le_numberExtra cs
      simp only [List.length_cons]
      omega
  | @fraction ds es hds hes =>
    cases ds with
    | nil => exact absurd rfl hds.1
    | cons d ds =>
      rw [List.cons_append, List.cons_prefix_cons] at hp
      obtain ⟨after, rfl⟩ := hp.2
      rw [List.append_assoc, List.cons_append, List.cons_append]
      have hwhole : (ds ++ '.' :: (es ++ after)).takeWhile isDecimal = ds :=
        takeWhile_append (fun c hc => hds.2 c (List.mem_cons_of_mem d hc)) (by
          rintro c ⟨⟩
          exact isDecimal_point)
      have hfraction : es.length ≤ ((es ++ after).takeWhile isDecimal).length :=
        length_le_of_prefix (List.prefix_append es after) hes.2
      have hpositive := List.length_pos_iff.mpr hes.1
      unfold Lexeme.numberExtra
      simp only [hwhole, List.drop_left, List.length_cons, List.length_append]
      rw [if_neg (by omega)]
      omega

theorem not_isNumeral_minus (p : List Char) : ¬ Form.IsNumeral ('-' :: p) := by
  intro h
  obtain ⟨d, ds, heq, hd⟩ := h.head
  obtain ⟨rfl, _⟩ := List.cons.inj heq
  exact absurd hd (by decide)

theorem longest_number (hc : isDecimal c) (hrun : Lexeme.numberExtra (run ++ after) = run.length) :
    Longest TokenKind.number.Form (c :: run) after where
  fits := by
    have h := isNumeral_take hc (run ++ after)
    rw [hrun, List.take_left] at h
    exact .inl h
  maximal := by
    rintro p hp (h | ⟨ds, rfl, _⟩)
    · rw [List.cons_append] at hp
      have hle := numeral_length_le h hp
      rwa [hrun] at hle
    · obtain ⟨rfl, _⟩ := List.cons_prefix_cons.mp hp
      exact absurd hc (by decide)

theorem longest_signed (hc : isDecimal c) (hrun : Lexeme.numberExtra (run ++ after) = run.length) :
    Longest TokenKind.number.Form ('-' :: c :: run) after where
  fits := by
    have h := isNumeral_take hc (run ++ after)
    rw [hrun, List.take_left] at h
    exact .inr ⟨_, rfl, h⟩
  maximal := by
    rintro p hp (h | ⟨ds, rfl, h⟩)
    · cases p with
      | nil => exact Nat.zero_le _
      | cons d p =>
        obtain ⟨rfl, _⟩ := List.cons_prefix_cons.mp hp
        exact absurd h (not_isNumeral_minus p)
    · rw [List.cons_append, List.cons_append, List.cons_prefix_cons] at hp
      have hle := numeral_length_le h hp.2
      rw [hrun] at hle
      exact Nat.succ_le_succ hle

/-! ### Symbols and marks -/

theorem longest_double {d : Char} (h : String.ofList [c, d] ∈ Lexeme.doubleOperators) (after : List Char) :
    Longest Form.IsSymbol [c, d] after where
  fits := .inl h
  maximal := by
    rintro p _ (hp | ⟨e, _, rfl⟩)
    · have hlength : ∀ s ∈ Lexeme.doubleOperators, s.toList.length = 2 := by decide
      have htwo := hlength _ hp
      rw [String.toList_ofList] at htwo
      exact Nat.le_of_eq htwo
    · simp

theorem longest_single (hc : c ∈ Lexeme.singleOperators)
    (h : ¬ Lexeme.doubleOperators.contains (Lexeme.leading c after 1)) :
    Longest Form.IsSymbol [c] after where
  fits := .inr ⟨c, hc, rfl⟩
  maximal := by
    rintro p hp (hmem | ⟨e, _, rfl⟩)
    · have hlength : ∀ s ∈ Lexeme.doubleOperators, s.toList.length = 2 := by decide
      have htwo := hlength _ hmem
      rw [String.toList_ofList] at htwo
      refine absurd (List.contains_iff_mem.mpr ?_) h
      rw [List.prefix_iff_eq_take.mp hp, htwo] at hmem
      exact hmem
    · simp

theorem longest_mark (hc : c ∈ Lexeme.marks) (after : List Char) : Longest Form.IsMark [c] after where
  fits := ⟨c, hc, rfl⟩
  maximal := by
    rintro p _ ⟨d, _, rfl⟩
    exact Nat.le_refl _

/-! ### Texts in quotes -/

theorem Quoted.unique {quote : Char} (hquote : quote ≠ '\\') {inner inner' body body' rest rest' : List Char}
    (h : Quoted quote inner body) (h' : Quoted quote inner' body')
    (heq : inner ++ quote :: rest = inner' ++ quote :: rest') : inner = inner' := by
  induction h generalizing inner' body' with
  | nil =>
    cases h' with
    | nil => rfl
    | escape c _ => exact absurd (List.cons.inj heq).1 hquote
    | plain hne _ _ => exact absurd (List.cons.inj heq).1.symm hne
  | escape c _ ih =>
    cases h' with
    | nil => exact absurd (List.cons.inj heq).1.symm hquote
    | escape d h' =>
      obtain ⟨hd, htail⟩ := List.cons.inj (List.cons.inj heq).2
      rw [hd, ih h' htail]
    | plain _ hslash _ => exact absurd (List.cons.inj heq).1.symm hslash
  | plain hne hslash _ ih =>
    cases h' with
    | nil => exact absurd (List.cons.inj heq).1 hne
    | escape d _ => exact absurd (List.cons.inj heq).1 hslash
    | plain _ _ h' =>
      obtain ⟨hd, htail⟩ := List.cons.inj heq
      rw [hd, ih h' htail]

theorem longest_quoted {quote : Char} {inner body : List Char} (hquote : Quoting.isQuote quote)
    (h : Quoted quote inner body) (after : List Char) :
    Longest TokenKind.text.Form (quote :: (inner ++ [quote])) after where
  fits := ⟨body, quote, inner, hquote, h, rfl⟩
  maximal := by
    rintro p ⟨rest, hp⟩ ⟨body', first, inner', _, h', rfl⟩
    obtain ⟨rfl, htail⟩ := List.cons.inj hp
    have heq : inner ++ first :: after = inner' ++ first :: rest := by simpa using htail.symm
    rw [h.unique (ne_backslash_of_isQuote hquote) h' heq]

/-! ### Lexemes -/

theorem longest_of_word {kind : TokenKind} {text : String}
    (hc : Lexeme.isWordStart c)
    (h : Lexeme.word c (run ++ after) = ⟨some (kind, text), run.length⟩) :
    Longest kind.Form (c :: run) after ∧ kind.Says (c :: run) text := by
  have hrun : (run ++ after).takeWhile Lexeme.isWordPart = run := by
    have hextra := congrArg Lexeme.extra h
    rw [extra_word] at hextra
    rw [List.prefix_iff_eq_take.mp (List.takeWhile_prefix Lexeme.isWordPart), hextra, List.take_left]
  unfold Lexeme.word at h
  simp only [hrun, List.take_left] at h
  cases hk : keyword? (c :: run) with
  | some k =>
    rw [hk] at h
    cases h
    exact ⟨longest_word hc hrun, says_of_keyword? hk⟩
  | none =>
    simp only [hk] at h
    cases h
    refine ⟨longest_word hc hrun, ?_, not_sameLetters_of_keyword? hk⟩
    rw [Lexeme.leading, String.toList_ofList, List.take_left]

theorem toList_leading (c : Char) (run after : List Char) :
    (Lexeme.leading c (run ++ after) run.length).toList = c :: run := by
  rw [Lexeme.leading, String.toList_ofList, List.take_left]

theorem longest_of_operatorOrMark {kind : TokenKind} {text : String}
    (h : Lexeme.operatorOrMark c (run ++ after) = ⟨some (kind, text), run.length⟩) :
    Longest kind.Form (c :: run) after ∧ kind.Says (c :: run) text := by
  unfold Lexeme.operatorOrMark at h
  split at h
  · next hdouble =>
    obtain ⟨htoken, hlength⟩ := Lexeme.mk.inj h
    cases htoken
    obtain ⟨d, rfl⟩ := List.length_eq_one_iff.mp hlength.symm
    exact ⟨longest_double (List.contains_iff_mem.mp hdouble) after, toList_leading c [d] after⟩
  · next hdouble =>
    split at h
    · next hsingle =>
      obtain ⟨htoken, hlength⟩ := Lexeme.mk.inj h
      cases htoken
      obtain rfl := List.length_eq_zero_iff.mp hlength.symm
      exact ⟨longest_single (List.contains_iff_mem.mp hsingle) hdouble, toList_leading c [] after⟩
    · split at h
      · next hmark =>
        obtain ⟨htoken, hlength⟩ := Lexeme.mk.inj h
        cases htoken
        obtain rfl := List.length_eq_zero_iff.mp hlength.symm
        exact ⟨longest_mark (List.contains_iff_mem.mp hmark) after, toList_leading c [] after⟩
      · cases h

/-- A lexeme is as long as the form of its token lets it be. -/
theorem longest_of_lexeme {operandMayStart : Bool} {kind : TokenKind} {text : String}
    (h : Lexeme.ofChars operandMayStart c (run ++ after) = ⟨some (kind, text), run.length⟩) :
    Longest kind.Form (c :: run) after ∧ kind.Says (c :: run) text := by
  unfold Lexeme.ofChars at h
  split at h
  · next hminus =>
    obtain ⟨htoken, hlength⟩ := Lexeme.mk.inj h
    rw [hlength] at htoken
    cases htoken
    cases run with
    | nil => simp at hlength
    | cons d run =>
      have hrun : Lexeme.numberExtra (run ++ after) = run.length := by
        simp only [List.cons_append, List.drop_succ_cons, List.drop_zero, List.length_cons] at hlength
        omega
      refine ⟨?_, toList_leading c (d :: run) after⟩
      rw [hminus.1]
      exact longest_signed hminus.2.2 hrun
  · split at h
    · next hdecimal =>
      obtain ⟨htoken, hlength⟩ := Lexeme.mk.inj h
      rw [hlength] at htoken
      cases htoken
      exact ⟨longest_number hdecimal hlength, toList_leading c run after⟩
    · split at h
      · next hword => exact longest_of_word hword h
      · exact longest_of_operatorOrMark h

/-! ### Characters that are passed over -/

/-- No piece of a text from its start on has the form of a token. -/
def StartsNone (cs : List Char) : Prop := ∀ (kind : TokenKind) (p : List Char), p <+: cs → ¬ kind.Form p

/-- A lone half of an operator, or a character with which no word, numeral, operator, mark or text in
quotes starts. -/
def IsStray (c : Char) (after : List Char) : Prop :=
  ((c = '&' ∨ c = '|') ∧ after.head? ≠ some c) ∨
    (c ≠ '&' ∧ c ≠ '|' ∧ Lexeme.isWordStart c = false ∧ isDecimal c = false ∧
      Quoting.isQuote c = false ∧ c ∉ Lexeme.singleOperators ∧ c ∉ Lexeme.marks)

theorem not_isSymbol_cons (hsingle : c ∉ Lexeme.singleOperators)
    (hhalf : c = '&' ∨ c = '|' → after.head? ≠ some c) {p : List Char} (hp : p <+: c :: after) :
    ¬ Form.IsSymbol p := by
  rintro (h | ⟨d, hd, rfl⟩)
  · cases p with
    | nil => exact absurd h (by decide)
    | cons d p =>
      obtain ⟨rfl, hafter⟩ := List.cons_prefix_cons.mp hp
      have hfirst := mem_of_doubleOperators (List.contains_iff_mem.mpr h)
      simp only [Lexeme.singleOperators, List.mem_cons, List.not_mem_nil, or_false, not_or] at hsingle
      simp only [List.mem_cons, List.not_mem_nil, or_false, hsingle, false_or] at hfirst
      have hpair : ∀ s ∈ Lexeme.doubleOperators, ∀ c ∈ ['&', '|'], s.toList.head? = some c →
          s.toList = [c, c] := by decide
      have hsame := hpair _ h d (by simpa using hfirst) (by rw [String.toList_ofList]; rfl)
      rw [String.toList_ofList, List.cons.injEq] at hsame
      obtain ⟨rest, rfl⟩ := hafter
      exact hhalf hfirst (by rw [hsame.2]; rfl)
  · obtain ⟨rfl, _⟩ := List.cons_prefix_cons.mp hp
    exact hsingle hd

theorem IsStray.startsNone (h : IsStray c after) : StartsNone (c :: after) := by
  have hclass : c ∉ Lexeme.singleOperators ∧ c ∉ Lexeme.marks ∧ Lexeme.isWordStart c = false ∧
      isDecimal c = false ∧ Quoting.isQuote c = false ∧
      (c = '&' ∨ c = '|' → after.head? ≠ some c) := by
    rcases h with ⟨rfl | rfl, h⟩ | ⟨hand, hor, hword, hdecimal, hquote, hsingle, hmark⟩
    · exact ⟨by decide, by decide, by decide, by decide, by decide, fun _ => h⟩
    · exact ⟨by decide, by decide, by decide, by decide, by decide, fun _ => h⟩
    · exact ⟨hsingle, hmark, hword, hdecimal, hquote, fun h => absurd h (by simp [hand, hor])⟩
  obtain ⟨hsingle, hmark, hword, hdecimal, hquote, hhalf⟩ := hclass
  have hisWord (p : List Char) (hp : p <+: c :: after) : ¬ Form.IsWord p := by
    rintro ⟨d, ds, rfl, hd, _⟩
    obtain ⟨rfl, _⟩ := List.cons_prefix_cons.mp hp
    simp [hd] at hword
  intro kind p hp
  cases kind with
  | identifier => exact hisWord p hp
  | keyword => exact hisWord p hp
  | operator => exact not_isSymbol_cons hsingle hhalf hp
  | punctuation =>
    rintro ⟨d, hd, rfl⟩
    obtain ⟨rfl, _⟩ := List.cons_prefix_cons.mp hp
    exact hmark hd
  | text =>
    rintro ⟨body, quote, inner, hq, _, rfl⟩
    obtain ⟨rfl, _⟩ := List.cons_prefix_cons.mp hp
    simp [hq] at hquote
  | number =>
    rintro (h | ⟨ds, rfl, _⟩)
    · obtain ⟨d, ds, rfl, hd⟩ := h.head
      obtain ⟨rfl, _⟩ := List.cons_prefix_cons.mp hp
      simp [hd] at hdecimal
    · obtain ⟨rfl, _⟩ := List.cons_prefix_cons.mp hp
      exact hsingle (by decide)

theorem stray_of_skipped {operandMayStart : Bool} {extra : Nat} (hq : Quoting.isQuote c = false)
    (h : Lexeme.ofChars operandMayStart c cs = ⟨none, extra⟩) : extra = 0 ∧ IsStray c cs := by
  unfold Lexeme.ofChars Lexeme.word at h
  simp only at h
  split at h
  · cases h
  · split at h
    · cases h
    · next hdecimal =>
      split at h
      · split at h <;> cases h
      · next hword =>
        unfold Lexeme.operatorOrMark at h
        split at h
        · cases h
        · next hdouble =>
          split at h
          · cases h
          · next hsingle =>
            split at h
            · cases h
            · next hmark =>
              cases h
              refine ⟨rfl, ?_⟩
              rw [List.contains_iff_mem] at hsingle hmark
              by_cases hhalf : c = '&' ∨ c = '|'
              · refine .inl ⟨hhalf, fun hhead => hdouble ?_⟩
                obtain ⟨rest, rfl⟩ := List.head?_eq_some_iff.mp hhead
                rcases hhalf with rfl | rfl <;> rfl
              · rw [not_or] at hhalf
                exact .inr ⟨hhalf.1, hhalf.2, Bool.eq_false_iff.mpr hword,
                  Bool.eq_false_iff.mpr hdecimal, hq, hsingle, hmark⟩

end
end NoteQuery
