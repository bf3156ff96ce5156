import NoteQuery.Proofs.Expr.Nesting
import NoteQuery.Proofs.Expr.RoundTrip
import NoteQuery.Proofs.Outcome.Yields

/-! A text has the same tokens where a closing parenthesis comes after it and where it stands further on,
as long as an operand may start there. No lexeme reaches past its text: the parenthesis carries none on.
By induction along the lexer, with the text before the token only as far as it tells whether an operand
may start. -/

namespace NoteQuery
set_option autoImplicit false
open Text

/-! ### Lexemes -/

namespace Lexeme

theorem numberExtra_le (cs : List Char) : numberExtra cs ≤ cs.length := by
  have hwhole := (List.takeWhile_sublist isDecimal (l := cs)).length_le
  unfold numberExtra
  simp only
  split
  · next ds heq =>
    have hfraction := (List.takeWhile_sublist isDecimal (l := ds)).length_le
    have hlength := congrArg List.length heq
    simp only [List.length_drop, List.length_cons] at hlength
    split <;> omega
  · exact hwhole

theorem operatorOrMark_extra_le (c : Char) (cs : List Char) :
    (operatorOrMark c cs).extra ≤ cs.length := by
  unfold operatorOrMark
  split
  · next h =>
    cases cs with
    | nil =>
      have hlength : ∀ s ∈ doubleOperators, s.toList.length = 2 := by decide
      have htwo := hlength _ (List.contains_iff_mem.mp h)
      simp [leading] at htwo
    | cons d ds => simp
  · split
    · exact Nat.zero_le _
    · split <;> exact Nat.zero_le _

theorem ofChars_extra_le (operandMayStart : Bool) (c : Char) (cs : List Char) :
    (ofChars operandMayStart c cs).extra ≤ cs.length := by
  unfold ofChars
  split
  · next h =>
    cases cs with
    | nil => simp at h
    | cons d ds =>
      have hle := numberExtra_le ds
      simp only [List.drop_succ_cons, List.drop_zero, List.length_cons]
      omega
  · split
    · exact numberExtra_le cs
    · split
      · have hle := (List.takeWhile_sublist isWordPart (l := cs)).length_le
        unfold word
        simp only
        split <;> exact hle
      · exact operatorOrMark_extra_le c cs

/-- A quoted text ends with its quote, whatever comes after it. -/
theorem quotedBody?_append {quote : Char} (hquote : quote ≠ '\\') {cs : List Char}
    {r : List Char × Nat} (h : quotedBody? quote cs = some r) (rest : List Char) :
    quotedBody? quote (cs ++ rest) = some r ∧ r.2 ≤ cs.length := by
  induction cs using quotedBody?.induct quote generalizing r with
  | case1 => cases h
  | case2 c cs ih =>
    rw [quotedBody?] at h
    obtain ⟨s, hs, rfl⟩ := Option.map_eq_some_iff.mp h
    obtain ⟨happend, hle⟩ := ih hs
    refine ⟨?_, by simp only [List.length_cons]; omega⟩
    rw [List.cons_append, List.cons_append, quotedBody?, happend]
    rfl
  | case3 cs hcs =>
    rw [quotedBody?.eq_3 quote quote cs hcs, if_pos rfl] at h
    cases h
    rw [List.cons_append, quotedBody?.eq_3 quote quote _ fun _ _ hslash => absurd hslash hquote,
      if_pos rfl]
    exact ⟨rfl, by simp⟩
  | case4 cs hcs hne =>
    rw [quotedBody?.eq_3 quote _ cs hcs, if_neg hne, if_pos rfl] at h
    cases h
  | case5 c cs _ hne hslash ih =>
    have hread (ds : List Char) : quotedBody? quote (c :: ds) =
        (quotedBody? quote ds).map fun r => (c :: r.1, r.2 + 1) := by
      rw [quotedBody?.eq_3 quote c ds fun _ _ h => absurd h hslash, if_neg hne, if_neg hslash]
    rw [hread] at h
    obtain ⟨s, hs, rfl⟩ := Option.map_eq_some_iff.mp h
    obtain ⟨happend, hle⟩ := ih hs
    refine ⟨?_, Nat.succ_le_succ hle⟩
    rw [List.cons_append, hread, happend]
    rfl

end Lexeme

/-! ### Lexemes before a closing parenthesis -/

section
variable {c : Char} {cs rest : List Char} (hr : ∃ ds, rest = ')' :: ds)

namespace Lexeme

include hr

theorem takeWhile_enclosed {p : Char → Bool} (hp : p ')' = false) (cs : List Char) :
    (cs ++ rest).takeWhile p = cs.takeWhile p := by
  obtain ⟨ds, rfl⟩ := hr
  induction cs with
  | nil => rw [List.nil_append, List.takeWhile_cons_of_neg (by simp [hp]), List.takeWhile_nil]
  | cons c cs ih =>
    rw [List.cons_append, List.takeWhile_cons, List.takeWhile_cons, ih]

theorem numberExtra_enclosed (cs : List Char) : numberExtra (cs ++ rest) = numberExtra cs := by
  have hwhole := (List.takeWhile_sublist isDecimal (l := cs)).length_le
  unfold numberExtra
  simp only [takeWhile_enclosed hr (p := isDecimal) (by decide), List.drop_append_of_le_length hwhole]
  cases cs.drop (cs.takeWhile isDecimal).length with
  | nil =>
    obtain ⟨ds, rfl⟩ := hr
    rfl
  | cons d ds =>
    by_cases hd : d = '.'
    · subst hd
      simp only [List.cons_append, takeWhile_enclosed hr (p := isDecimal) (by decide)]
    · simp [hd]

omit hr in
theorem leading_append {extra : Nat} (h : extra ≤ cs.length) :
    leading c (cs ++ rest) extra = leading c cs extra := by
  rw [leading, leading, List.take_append_of_le_length h]

theorem word_enclosed (c : Char) (cs : List Char) : word c (cs ++ rest) = word c cs := by
  have hle := (List.takeWhile_sublist isWordPart (l := cs)).length_le
  unfold word
  simp only [takeWhile_enclosed hr (p := isWordPart) (by decide), List.take_append_of_le_length hle,
    leading_append hle]

theorem operatorOrMark_enclosed (c : Char) (cs : List Char) :
    operatorOrMark c (cs ++ rest) = operatorOrMark c cs := by
  have hzero : leading c (cs ++ rest) 0 = leading c cs 0 := leading_append (Nat.zero_le _)
  cases cs with
  | cons d ds =>
    have hone : leading c (d :: ds ++ rest) 1 = leading c (d :: ds) 1 := leading_append (by simp)
    unfold operatorOrMark
    rw [hzero, hone]
  | nil =>
    obtain ⟨ds, rfl⟩ := hr
    have hclosing : ∀ s ∈ doubleOperators, ')' ∉ s.toList := by decide
    have hlength : ∀ s ∈ doubleOperators, s.toList.length = 2 := by decide
    have hpair : ¬ doubleOperators.contains (leading c ([] ++ ')' :: ds) 1) := by
      intro h
      exact hclosing _ (List.contains_iff_mem.mp h) (by simp [leading])
    have hsingle : ¬ doubleOperators.contains (leading c [] 1) := by
      intro h
      have htwo := hlength _ (List.contains_iff_mem.mp h)
      simp [leading] at htwo
    unfold operatorOrMark
    rw [hzero, if_neg hpair, if_neg hsingle]

theorem ofChars_enclosed (operandMayStart : Bool) (c : Char) (cs : List Char) :
    ofChars operandMayStart c (cs ++ rest) = ofChars operandMayStart c cs := by
  have hhead : ((cs ++ rest).head?.map isDecimal).getD false = (cs.head?.map isDecimal).getD false := by
    cases cs with
    | nil =>
      obtain ⟨ds, rfl⟩ := hr
      rfl
    | cons d ds => rfl
  unfold ofChars
  rw [hhead, numberExtra_enclosed hr, word_enclosed hr, operatorOrMark_enclosed hr]
  split
  · next h =>
    cases cs with
    | nil => simp at h
    | cons d ds =>
      have hle := numberExtra_le ds
      simp only [List.cons_append, List.drop_succ_cons, List.drop_zero, numberExtra_enclosed hr]
      rw [← List.cons_append, leading_append (by simp only [List.length_cons]; omega)]
  · simp only [leading_append (numberExtra_le cs)]

end Lexeme

end

/-! ### The tokens of a text -/

section
variable {previous previous' : Option Token} {offset n : Nat} {c : Char} {cs rest : List Char}

theorem lexes_of_quoted {body : List Char} (hb : ¬ isBlank c) (hq : c = '"' ∨ c = '\'')
    (h : Lexeme.quotedBody? c (cs ++ rest) = some (body, cs.length)) :
    Lexes previous offset (c :: cs) rest [⟨.text, String.ofList body, offset⟩] := by
  have hlength : offset + 1 + cs.length = offset + (c :: cs).length := by
    simp only [List.length_cons]
    omega
  have hlast : [(⟨.text, String.ofList body, offset⟩ : Token)].getLast?.or previous =
      some ⟨.text, String.ofList body, offset⟩ := rfl
  unfold Lexes
  rw [List.cons_append, tokensFrom_quote hb hq]
  simp only [h, List.drop_left, hlength, hlast]
  cases tokensFrom (some ⟨.text, String.ofList body, offset⟩) (offset + (c :: cs).length) rest <;> rfl

/-- Characters that start no lexeme are passed over. -/
theorem lexes_of_skipped (hb : ¬ isBlank c) (hq : ¬(c = '"' ∨ c = '\''))
    (h : Lexeme.ofChars (opensOperand previous) c (cs ++ rest) = ⟨none, cs.length⟩) :
    Lexes previous offset (c :: cs) rest [] := by
  have hlength : offset + 1 + cs.length = offset + (c :: cs).length := by
    simp only [List.length_cons]
    omega
  unfold Lexes
  unfold opensOperand at h
  rw [List.cons_append, tokensFrom_lexeme hb hq]
  simp only [h, List.drop_left, hlength, List.getLast?_nil, Option.none_or]
  cases tokensFrom previous (offset + (c :: cs).length) rest <;> rfl

/-- A lexeme at the front of a text, and then what its further characters become. -/
theorem Lexes.ofFront {extra : Nat} {ts us : List Token} (hle : extra ≤ cs.length)
    (h : Lexes previous offset (c :: cs.take extra) (cs.drop extra ++ rest) ts)
    (k : Lexes (ts.getLast?.or previous) (offset + 1 + extra) (cs.drop extra) rest us) :
    Lexes previous offset (c :: cs) rest (ts ++ us) := by
  have hlength : offset + (c :: cs.take extra).length = offset + 1 + extra := by
    simp only [List.length_cons, List.length_take, Nat.min_eq_left hle]
    omega
  have hboth := h.append (hlength ▸ k)
  rwa [List.cons_append, List.take_append_drop] at hboth

theorem take_append_drop_append (extra : Nat) (cs rest : List Char) :
    cs.take extra ++ (cs.drop extra ++ rest) = cs ++ rest := by
  rw [← List.append_assoc, List.take_append_drop]

/-- The characters of a text fall into the lexemes of its tokens, where a token before them tells whether an
operand may start. -/
inductive Scanned : Option Token → Nat → List Char → List Token → Prop
  | nil {previous : Option Token} {offset : Nat} : Scanned previous offset [] []
  | blank {previous : Option Token} {offset : Nat} {c : Char} {cs : List Char} {ts : List Token} :
    isBlank c → Scanned previous (offset + 1) cs ts → Scanned previous offset (c :: cs) ts
  | quoted {previous : Option Token} {offset width : Nat} {c : Char} {cs body : List Char} {ts : List Token} :
    ¬ isBlank c → c = '"' ∨ c = '\'' → Lexeme.quotedBody? c cs = some (body, width) →
    Scanned (some ⟨.text, String.ofList body, offset⟩) (offset + 1 + width) (cs.drop width) ts →
    Scanned previous offset (c :: cs) (⟨.text, String.ofList body, offset⟩ :: ts)
  | skipped {previous : Option Token} {offset extra : Nat} {c : Char} {cs : List Char} {ts : List Token} :
    ¬ isBlank c → ¬(c = '"' ∨ c = '\'') →
    Lexeme.ofChars (opensOperand previous) c cs = ⟨none, extra⟩ →
    Scanned previous (offset + 1 + extra) (cs.drop extra) ts → Scanned previous offset (c :: cs) ts
  | lexeme {previous : Option Token} {offset extra : Nat} {c : Char} {cs : List Char} {kind : TokenKind}
    {text : String} {ts : List Token} :
    ¬ isBlank c → ¬(c = '"' ∨ c = '\'') →
    Lexeme.ofChars (opensOperand previous) c cs = ⟨some (kind, text), extra⟩ →
    Scanned (some ⟨kind, text, offset⟩) (offset + 1 + extra) (cs.drop extra) ts →
    Scanned previous offset (c :: cs) (⟨kind, text, offset⟩ :: ts)

theorem scanned_of_tokensFrom {ts : List Token} (h : tokensFrom previous offset cs = .ok ts) :
    Scanned previous offset cs ts := by
  induction previous, offset, cs using tokensFrom.induct generalizing ts with
  | case1 previous offset =>
    rw [tokensFrom_nil] at h
    cases h
    exact .nil
  | case2 previous offset c cs hblank ih =>
    rw [tokensFrom_blank hblank] at h
    exact .blank hblank (ih h)
  | case3 previous offset c cs hblank hquote hbody =>
    rw [tokensFrom_quote hblank hquote, hbody] at h
    cases h
  | case4 previous offset c cs hblank hquote body width hbody =>
    rename_i token ih
    rw [tokensFrom_quote hblank hquote] at h
    simp only [hbody] at h
    obtain ⟨us, hus, heq⟩ := bind_eq_ok.mp h
    cases heq
    exact .quoted hblank hquote hbody (ih hus)
  | case5 previous offset c cs hblank hquote lexeme tail hskipped =>
    rename_i ih
    rw [tokensFrom_lexeme hblank hquote] at h
    simp only [show (Lexeme.ofChars _ c cs).token = none from hskipped] at h
    refine .skipped hblank hquote ?_ (ih h)
    rw [← hskipped]
    rfl
  | case6 previous offset c cs hblank hquote lexeme tail kind text hstart =>
    rename_i token ih
    rw [tokensFrom_lexeme hblank hquote] at h
    simp only [show (Lexeme.ofChars _ c cs).token = some (kind, text) from hstart] at h
    obtain ⟨us, hus, heq⟩ := bind_eq_ok.mp h
    cases heq
    refine .lexeme hblank hquote ?_ (ih hus)
    rw [← hstart]
    rfl

theorem extra_le_of_ofChars {operandMayStart : Bool} {token? : Option (TokenKind × String)} {extra : Nat}
    (h : Lexeme.ofChars operandMayStart c cs = ⟨token?, extra⟩) : extra ≤ cs.length := by
  have hle := Lexeme.ofChars_extra_le operandMayStart c cs
  rwa [h] at hle

theorem lexes_enclosed (hr : ∃ ds, rest = ')' :: ds)
    (hprevious : opensOperand previous' = opensOperand previous) {ts : List Token}
    (h : tokensFrom previous offset cs = .ok ts) :
    Lexes previous' (offset + n) cs rest (ts.map (Token.shift n)) := by
  have hscanned := scanned_of_tokensFrom h
  clear h
  induction hscanned generalizing previous' with
  | nil => exact .nil
  | blank hblank _ ih =>
    have hrest := ih hprevious
    rw [Nat.add_right_comm] at hrest
    exact hrest.blank hblank
  | @quoted previous offset width c cs body ts hblank hquote hbody _ ih =>
    have hslash : c ≠ '\\' := by rcases hquote with rfl | rfl <;> decide
    obtain ⟨happend, hle⟩ := Lexeme.quotedBody?_append hslash hbody rest
    have htext : Lexes previous' (offset + n) (c :: cs.take width) (cs.drop width ++ rest)
        [⟨.text, String.ofList body, offset + n⟩] := by
      refine lexes_of_quoted hblank hquote ?_
      rw [take_append_drop_append, happend, List.length_take, Nat.min_eq_left hle]
    have hsame : opensOperand (some ⟨.text, String.ofList body, offset + n⟩) =
        opensOperand (some ⟨.text, String.ofList body, offset⟩) := rfl
    have hmore := ih hsame
    rw [Nat.add_right_comm, Nat.add_right_comm offset] at hmore
    exact htext.ofFront hle hmore
  | @skipped previous offset extra c cs ts hblank hquote hread _ ih =>
    have hle := extra_le_of_ofChars hread
    have hfront : Lexes previous' (offset + n) (c :: cs.take extra) (cs.drop extra ++ rest) [] := by
      refine lexes_of_skipped hblank hquote ?_
      rw [take_append_drop_append, Lexeme.ofChars_enclosed hr, hprevious, List.length_take,
        Nat.min_eq_left hle, hread]
    have hmore := ih hprevious
    rw [Nat.add_right_comm, Nat.add_right_comm offset] at hmore
    exact hfront.ofFront hle hmore
  | @lexeme previous offset extra c cs kind text ts hblank hquote hread _ ih =>
    have hle := extra_le_of_ofChars hread
    have hfront : Lexes previous' (offset + n) (c :: cs.take extra) (cs.drop extra ++ rest)
        [⟨kind, text, offset + n⟩] := by
      refine lexes_of_lexeme (by simpa using hblank) hquote ?_
      rw [take_append_drop_append, Lexeme.ofChars_enclosed hr, hprevious, List.length_take,
        Nat.min_eq_left hle, hread]
    have hsame : opensOperand (some ⟨kind, text, offset + n⟩) = opensOperand (some ⟨kind, text, offset⟩) := rfl
    have hmore := ih hsame
    rw [Nat.add_right_comm, Nat.add_right_comm offset] at hmore
    exact hfront.ofFront hle hmore

end
end NoteQuery
