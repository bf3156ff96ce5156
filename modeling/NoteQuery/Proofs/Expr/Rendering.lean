import NoteQuery.Proofs.Expr.Forms
import NoteQuery.Proofs.Expr.Respelling

/-! Tokens written out with a blank between each two, and read again. Every token is legible where it stands:
its text has the form of its kind, and a number has a minus of its own only where an operand may start. That
depends on what the token before it is and not on where the two stand, so a token is read from what it is
written as just as it was read before. -/

namespace NoteQuery
set_option autoImplicit false
open Text

namespace Token

/-- A token that may be read after `previous` from a piece of a text. -/
def Legible (previous : Option Token) (t : Token) : Prop :=
  ∃ piece, t.kind.Form piece ∧ t.kind.Says piece t.text ∧
    (t.kind = .number → piece.head? = some '-' → NoteQuery.opensOperand previous)

/-- A token as it may stand in a text: what is between quotes in double quotes, others as they are. -/
def written (t : Token) : String :=
  if t.kind = .text then String.ofList ('"' :: t.text.toList.flatMap escaped ++ ['"']) else t.text

end Token

/-- Each of the tokens is legible after the one before it. -/
inductive LegibleFrom : Option Token → List Token → Prop
  | nil {previous : Option Token} : LegibleFrom previous []
  | cons {previous : Option Token} {t : Token} {ts : List Token} :
    t.Legible previous → LegibleFrom (some t) ts → LegibleFrom previous (t :: ts)

/-- Tokens with a blank between each two. -/
def rendered (ts : List Token) : String := " ".intercalate (ts.map Token.written)

section
variable {previous previous' : Option Token} {offset : Nat} {c : Char} {cs ds rest run : List Char}
  {t : Token} {ts : List Token}

/-! ### Tokens that are read are legible -/

theorem opensOperand_of_minus {operandMayStart : Bool} {text : String} {extra : Nat}
    (h : Lexeme.ofChars operandMayStart '-' cs = ⟨some (.number, text), extra⟩) : operandMayStart := by
  unfold Lexeme.ofChars at h
  split at h
  · next hminus => exact hminus.2.1
  · rw [if_neg (by decide), if_neg (by decide)] at h
    unfold Lexeme.operatorOrMark at h
    split at h
    · cases h
    · split at h
      · cases h
      · split at h <;> cases h

theorem legible_of_lexeme {kind : TokenKind} {text : String} {extra : Nat}
    (h : Lexeme.ofChars (opensOperand previous) c cs = ⟨some (kind, text), extra⟩) :
    Token.Legible previous ⟨kind, text, offset⟩ := by
  have hlexeme : Lexeme.ofChars (opensOperand previous) c (cs.take extra ++ cs.drop extra) =
      ⟨some (kind, text), (cs.take extra).length⟩ := by
    rw [List.take_append_drop, List.length_take_of_le (extra_le_of_ofChars h), h]
  obtain ⟨hlongest, hsaid⟩ := longest_of_lexeme hlexeme
  refine ⟨c :: cs.take extra, hlongest.fits, hsaid, ?_⟩
  rintro rfl hminus
  obtain rfl := Option.some.inj hminus
  exact opensOperand_of_minus h

theorem legible_of_quoted {quote : Char} {body : List Char} {width : Nat} (hquote : Quoting.isQuote quote)
    (h : Lexeme.quotedBody? quote cs = some (body, width)) :
    Token.Legible previous ⟨.text, String.ofList body, offset⟩ := by
  obtain ⟨inner, _, _, hinner, _⟩ := Quoted.of_quotedBody? h
  refine ⟨quote :: (inner ++ [quote]), ⟨body, quote, inner, hquote, hinner, rfl⟩,
    ⟨quote, inner, hquote, ?_, rfl⟩, nofun⟩
  rwa [String.toList_ofList]

theorem Scanned.legible (h : Scanned previous offset cs ts) : LegibleFrom previous ts := by
  induction h with
  | nil => exact .nil
  | blank _ _ ih => exact ih
  | quoted _ hquote hbody _ ih => exact .cons (legible_of_quoted (isQuote_iff.mpr hquote) hbody) ih
  | skipped _ _ _ _ ih => exact ih
  | lexeme _ _ hread _ ih => exact .cons (legible_of_lexeme hread) ih

/-! ### Legible tokens are read from what they are written as -/

/-- Before a character that carries no lexeme on, a numeral is as long as it can be. -/
theorem numberExtra_of_isNumeral (h : Form.IsNumeral (c :: run)) (hr : ∀ d ∈ rest.head?, isInner d = false) :
    Lexeme.numberExtra (run ++ rest) = run.length := by
  have hfront : c :: run <+: c :: (run ++ rest) := List.prefix_append (c :: run) rest
  have hge := numeral_length_le h hfront
  have hle : Lexeme.numberExtra (run ++ rest) ≤ run.length := by
    cases rest with
    | nil =>
      have hlength := Lexeme.numberExtra_le (run ++ [])
      rwa [List.length_append, List.length_nil, Nat.add_zero] at hlength
    | cons d rest =>
      refine Nat.le_of_not_lt fun hlt => ?_
      have hmem : d ∈ (run ++ d :: rest).take (Lexeme.numberExtra (run ++ d :: rest)) := by
        refine List.mem_take_iff_getElem.mpr ⟨run.length, ?_, ?_⟩
        · simp only [List.length_append, List.length_cons]
          omega
        · rw [List.getElem_append_right (Nat.le_refl _)]
          simp
      exact absurd (isInner_of_mem_number hmem) (Bool.eq_false_iff.mp (hr d rfl))
  rw [List.length_cons] at hge
  omega

theorem lexes_numeral (h : Form.IsNumeral cs) (hr : ∀ d ∈ rest.head?, d = ' ') :
    Lexes previous offset cs rest [⟨.number, String.ofList cs, offset⟩] := by
  have hinner : ∀ d ∈ rest.head?, isInner d = false := fun d hd => by rw [hr d hd]; decide
  obtain ⟨d, ds, rfl, hd⟩ := h.head
  exact lexes_unsigned hd (numberExtra_of_isNumeral h hinner)

theorem lexes_minus (hprevious : opensOperand previous) (h : Form.IsNumeral ds)
    (hr : ∀ d ∈ rest.head?, d = ' ') :
    Lexes previous offset ('-' :: ds) rest [⟨.number, String.ofList ('-' :: ds), offset⟩] := by
  have hinner : ∀ d ∈ rest.head?, isInner d = false := fun d hd => by rw [hr d hd]; decide
  obtain ⟨d, ds, rfl, hd⟩ := h.head
  exact lexes_signed hprevious hd (numberExtra_of_isNumeral h hinner)

theorem isPlainName_of_form {name : String} (hform : TokenKind.identifier.Form cs)
    (hsaid : TokenKind.identifier.Says cs name) : isPlainName name := by
  obtain ⟨c, ds, rfl, hc, hds⟩ := hform
  obtain ⟨hname, hkeywords⟩ := hsaid
  have hnone : keyword? (c :: ds) = none := by
    cases hk : keyword? (c :: ds) with
    | none => rfl
    | some k => exact absurd (says_of_keyword? hk).2 (hkeywords k (says_of_keyword? hk).1)
  unfold isPlainName
  rw [hname]
  simp only [hc, List.all_eq_true.mpr hds, hnone, Option.isNone_none, Bool.and_self]

/-- A keyword in its usual spelling. -/
theorem lexes_keyword_text {k : String} (hk : k ∈ connectingWords ++ valueWords)
    (hr : ∀ d ∈ rest.head?, d = ' ') :
    Lexes previous offset k.toList rest [⟨.keyword, k, offset⟩] := by
  have hword : ∀ d ∈ rest.head?, Lexeme.isWordPart d = false := fun d hd => by rw [hr d hd]; decide
  have hspelled : ∀ k ∈ connectingWords ++ valueWords, k.toList.head?.map Lexeme.isWordStart = some true ∧
      (∀ d ∈ k.toList.tail, Lexeme.isWordPart d) ∧ keyword? k.toList = some k := by decide
  obtain ⟨hhead, htail, hkeyword⟩ := hspelled k hk
  cases hchars : k.toList with
  | nil => simp [hchars] at hhead
  | cons c cs =>
    rw [hchars] at hhead htail hkeyword
    exact lexes_keyword (Option.some.inj hhead) htail hkeyword hword

/-- A legible token is read from what it is written as, wherever a token like the one before it comes
before. -/
theorem Token.Legible.lexes (h : t.Legible previous)
    (hprevious : NoteQuery.opensOperand previous' = NoteQuery.opensOperand previous)
    (hr : ∀ d ∈ rest.head?, d = ' ') :
    Lexes previous' offset t.written.toList rest [⟨t.kind, t.text, offset⟩] := by
  obtain ⟨kind, text, place⟩ := t
  obtain ⟨piece, hform, hsaid, hminus⟩ := h
  cases kind with
  | identifier =>
    refine lexes_name (isPlainName_of_form hform hsaid) fun d hd => ?_
    rw [hr d hd]
    decide
  | keyword => exact lexes_keyword_text hsaid.1 hr
  | operator =>
    obtain rfl : text.toList = piece := hsaid
    refine lexes_symbol (List.mem_append.mpr ?_) hr
    rcases hform with hdouble | ⟨c, hc, hsingle⟩
    · rw [String.ofList_toList] at hdouble
      exact .inl hdouble
    · exact .inr (List.mem_map.mpr ⟨c, hc, by rw [← hsingle, String.ofList_toList]; rfl⟩)
  | punctuation =>
    obtain rfl : text.toList = piece := hsaid
    obtain ⟨c, hc, hmark⟩ := hform
    obtain rfl : text = String.ofList [c] := by rw [← hmark, String.ofList_toList]
    have hlexes : Lexes previous' offset [c] rest [markAt c offset] :=
      lexes_mark (List.contains_iff_mem.mpr hc)
    simpa [written, markAt] using hlexes
  | text =>
    have hlexes : Lexes previous' offset _ rest [⟨.text, text, offset⟩] := lexes_quoted text
    simpa [written] using hlexes
  | number =>
    obtain rfl : text.toList = piece := hsaid
    have hlexes : Lexes previous' offset text.toList rest
        [⟨.number, String.ofList text.toList, offset⟩] := by
      rcases hform with hnumeral | ⟨ds, hpiece, hnumeral⟩
      · exact lexes_numeral hnumeral hr
      · rw [hpiece]
        refine lexes_minus ?_ hnumeral hr
        rw [hprevious]
        exact hminus rfl (by rw [hpiece]; rfl)
    rwa [String.ofList_toList] at hlexes

/-- By induction on the tokens: what is written of each ends where the blank after it stands. -/
theorem LegibleFrom.lexes (h : LegibleFrom previous ts) (previous' : Option Token) (offset : Nat)
    (hprevious : opensOperand previous' = opensOperand previous) :
    ∃ us, Lexes previous' offset (rendered ts).toList [] us ∧
      us.map Token.spelling = ts.map Token.spelling := by
  induction h generalizing previous' offset with
  | nil => exact ⟨[], .nil, rfl⟩
  | @cons previous t ts ht hts ih =>
    cases ts with
    | nil =>
      have hlast : Lexes previous' offset t.written.toList [] [⟨t.kind, t.text, offset⟩] :=
        ht.lexes hprevious nofun
      refine ⟨[⟨t.kind, t.text, offset⟩], ?_, rfl⟩
      simpa [rendered] using hlast
    | cons u ts =>
      obtain ⟨us, hus, hspelling⟩ := ih (some ⟨t.kind, t.text, offset⟩)
        (offset + t.written.toList.length + 1) rfl
      have hfirst : Lexes previous' offset t.written.toList (' ' :: (rendered (u :: ts)).toList ++ [])
          [⟨t.kind, t.text, offset⟩] := ht.lexes hprevious (space_head _)
      have hall := hfirst.append (hus.blank (by decide))
      refine ⟨⟨t.kind, t.text, offset⟩ :: us, ?_, congrArg (t.spelling :: ·) hspelling⟩
      simpa [rendered, String.intercalate_cons_cons] using hall

/-- The tokens of a text are read again from the tokens written out with blanks between them. -/
theorem tokenize_rendered {s : String} (h : tokenize s = .ok ts) :
    ∃ us, tokenize (rendered ts) = .ok us ∧ us.map Token.spelling = ts.map Token.spelling := by
  obtain ⟨us, hus, hspelling⟩ := (scanned_of_tokensFrom h).legible.lexes none 0 rfl
  exact ⟨us, hus.tokensFrom_eq, hspelling⟩

end

theorem tokenize_rendered_minus : ∃ us, tokenize "a - 1 + -2" = .ok us ∧
    us.map Token.spelling = [(.identifier, "a"), (.operator, "-"), (.number, "1"), (.operator, "+"),
      (.number, "-2")] := by
  have hread : tokenize "a-1+-2" = .ok [⟨.identifier, "a", 0⟩, ⟨.operator, "-", 1⟩, ⟨.number, "1", 2⟩,
    ⟨.operator, "+", 3⟩, ⟨.number, "-2", 4⟩] := by decide +kernel
  exact tokenize_rendered hread

end NoteQuery
