import Mathlib.Data.List.TakeWhile
import NoteQuery.Proofs.Expr.Relexing
import NoteQuery.Query.Mask

/-! How a text falls into lexemes. Blanks, quoted texts and other lexemes follow one another up to the end
of the text or to a quote that is not closed. What carries a lexeme on is no blank, no quote, no bracket
and no comma, so that these are seen wherever they stand outside quotes. -/

namespace NoteQuery
set_option autoImplicit false
open Text

/-- The contents of quotes and what they say: a quote of the same kind stands there only after a
backslash. -/
inductive Quoted (quote : Char) : List Char → List Char → Prop
  | nil : Quoted quote [] []
  | escape (c : Char) {inner body : List Char} :
    Quoted quote inner body → Quoted quote ('\\' :: c :: inner) (c :: body)
  | plain {c : Char} {inner body : List Char} :
    c ≠ quote → c ≠ '\\' → Quoted quote inner body → Quoted quote (c :: inner) (c :: body)

/-- A character that may carry a lexeme on. -/
def isInner (c : Char) : Bool :=
  !(isBlank c || Quoting.isQuote c || opensBracket c || closesBracket c || c == ',')

/-- The characters up to `rest` fall into lexemes with the tokens `ts`. -/
inductive Segmented (rest : List Char) : Nat → List Char → List Token → Prop
  | nil {offset : Nat} : Segmented rest offset [] []
  | blank {offset : Nat} {c : Char} {cs : List Char} {ts : List Token} : isBlank c →
    Segmented rest (offset + 1) cs ts → Segmented rest offset (c :: cs) ts
  | quoted {offset : Nat} {quote : Char} {inner body cs : List Char} {ts : List Token} :
    Quoting.isQuote quote → Quoted quote inner body →
    Segmented rest (offset + (inner.length + 2)) cs ts →
    Segmented rest offset (quote :: (inner ++ quote :: cs)) (⟨.text, String.ofList body, offset⟩ :: ts)
  | lexeme {offset : Nat} {operandMayStart : Bool} {c : Char} {run cs : List Char}
    {token? : Option (TokenKind × String)} {ts : List Token} :
    isBlank c = false → Quoting.isQuote c = false →
    Lexeme.ofChars operandMayStart c (run ++ (cs ++ rest)) = ⟨token?, run.length⟩ →
    Segmented rest (offset + (run.length + 1)) cs ts →
    Segmented rest offset (c :: (run ++ cs)) ((token?.map fun t => ⟨t.1, t.2, offset⟩).toList ++ ts)

/-! ### Quotes -/

section
variable {quote : Char} {cs inner body : List Char}

theorem isQuote_iff {c : Char} : Quoting.isQuote c ↔ c = '"' ∨ c = '\'' := by
  simp [Quoting.isQuote]

theorem ne_backslash_of_isQuote (h : Quoting.isQuote quote) : quote ≠ '\\' := by
  rintro rfl
  cases h

theorem Quoted.of_quotedBody? {width : Nat} (h : Lexeme.quotedBody? quote cs = some (body, width)) :
    ∃ inner rest, cs = inner ++ quote :: rest ∧ Quoted quote inner body ∧ width = inner.length + 1 := by
  induction cs using Lexeme.quotedBody?.induct quote generalizing body width with
  | case1 => cases h
  | case2 c cs ih =>
    rw [Lexeme.quotedBody?] at h
    obtain ⟨r, hr, heq⟩ := Option.map_eq_some_iff.mp h
    cases heq
    obtain ⟨inner, rest, rfl, hquoted, hwidth⟩ := ih hr
    exact ⟨'\\' :: c :: inner, rest, rfl, .escape c hquoted, congrArg (· + 2) hwidth⟩
  | case3 cs hcs =>
    rw [Lexeme.quotedBody?.eq_3 quote quote cs hcs, if_pos rfl] at h
    cases h
    exact ⟨[], cs, rfl, .nil, rfl⟩
  | case4 cs hcs hne =>
    rw [Lexeme.quotedBody?.eq_3 quote _ cs hcs, if_neg hne, if_pos rfl] at h
    cases h
  | case5 c cs hcs hne hslash ih =>
    rw [Lexeme.quotedBody?.eq_3 quote c cs hcs, if_neg hne, if_neg hslash] at h
    obtain ⟨r, hr, heq⟩ := Option.map_eq_some_iff.mp h
    cases heq
    obtain ⟨inner, rest, rfl, hquoted, hwidth⟩ := ih hr
    exact ⟨c :: inner, rest, rfl, .plain hne hslash hquoted, congrArg (· + 1) hwidth⟩

theorem next_inside_of_ne {c : Char} (hne : c ≠ quote) (hslash : c ≠ '\\') :
    Quoting.next (.inside quote) c = .inside quote := by
  simp [Quoting.next, hne, hslash]

/-- Inside quotes that are not closed every further character leaves them open. -/
theorem foldl_next_of_unclosed (h : Lexeme.quotedBody? quote cs = none) {ds : List Char}
    (hds : ds <+: cs) : ds.foldl Quoting.next (.inside quote) ≠ .outside := by
  induction cs using Lexeme.quotedBody?.induct quote generalizing ds with
  | case1 =>
    rw [List.prefix_nil.mp hds]
    intro he
    cases he
  | case2 c cs ih =>
    rw [Lexeme.quotedBody?] at h
    have hrest := Option.map_eq_none_iff.mp h
    rcases ds with _ | ⟨d, _ | ⟨e, ds⟩⟩
    · intro he
      cases he
    · obtain ⟨rfl, _⟩ := List.cons_prefix_cons.mp hds
      intro he
      cases he
    · obtain ⟨rfl, htail⟩ := List.cons_prefix_cons.mp hds
      change ds.foldl Quoting.next (.inside quote) ≠ .outside
      exact ih hrest (List.cons_prefix_cons.mp htail).2
  | case3 cs hcs =>
    rw [Lexeme.quotedBody?.eq_3 quote quote cs hcs, if_pos rfl] at h
    cases h
  | case4 cs hcs hne =>
    have hnil : cs = [] := by
      cases cs with
      | nil => rfl
      | cons c cs => exact (hcs c cs rfl rfl).elim
    subst hnil
    rcases ds with _ | ⟨d, ds⟩
    · intro he
      cases he
    · obtain ⟨rfl, htail⟩ := List.cons_prefix_cons.mp hds
      rw [List.prefix_nil.mp htail]
      intro he
      cases he
  | case5 c cs hcs hne hslash ih =>
    rw [Lexeme.quotedBody?.eq_3 quote c cs hcs, if_neg hne, if_neg hslash] at h
    have hrest := Option.map_eq_none_iff.mp h
    rcases ds with _ | ⟨d, ds⟩
    · intro he
      cases he
    · obtain ⟨rfl, htail⟩ := List.cons_prefix_cons.mp hds
      rw [List.foldl_cons, next_inside_of_ne hne hslash]
      exact ih hrest htail

end

/-! ### What carries a lexeme on -/

section
variable {c d : Char} {cs : List Char}

theorem isInner_of {p : Char → Bool} (hblanks : ∀ n ∈ blankCodes, p (Char.ofNat n) = false)
    (hmarks : ∀ d ∈ ['"', '\'', '(', '[', ')', ']', ','], p d = false) (h : p c) : isInner c := by
  have hblank : isBlank c = false := by
    cases hc : isBlank c with
    | false => rfl
    | true => exact absurd h (Bool.eq_false_iff.mp (forall_isBlank (p := (p · = false)) hblanks hc))
  have hne : ∀ d ∈ ['"', '\'', '(', '[', ')', ']', ','], c ≠ d := by
    rintro d hd rfl
    exact absurd h (Bool.eq_false_iff.mp (hmarks c hd))
  simp only [List.mem_cons, List.not_mem_nil, or_false, forall_eq_or_imp, forall_eq] at hne
  simp [isInner, Quoting.isQuote, opensBracket, closesBracket, hblank, hne]

theorem isInner_of_isDecimal (h : isDecimal c) : isInner c :=
  isInner_of (p := isDecimal) (by decide +kernel) (by decide) h

theorem isInner_of_isWordPart (h : Lexeme.isWordPart c) : isInner c :=
  isInner_of (p := Lexeme.isWordPart) (by decide +kernel) (by decide) h

theorem of_mem_take_takeWhile {p : Char → Bool} (h : d ∈ cs.take (cs.takeWhile p).length) : p d := by
  rw [← List.prefix_iff_eq_take.mp (List.takeWhile_prefix p)] at h
  exact List.mem_takeWhile_imp h

theorem isInner_of_mem_number (h : d ∈ cs.take (Lexeme.numberExtra cs)) : isInner d := by
  have hwhole (hd : d ∈ cs.take (cs.takeWhile isDecimal).length) : isInner d :=
    isInner_of_isDecimal (of_mem_take_takeWhile hd)
  unfold Lexeme.numberExtra at h
  simp only at h
  split at h
  · next rest hrest =>
    split at h
    · exact hwhole h
    · rw [Nat.add_assoc, List.take_add, hrest, Nat.add_comm 1, List.take_succ_cons] at h
      rcases List.mem_append.mp h with h | h
      · exact hwhole h
      · rcases List.mem_cons.mp h with rfl | h
        · decide
        · exact isInner_of_isDecimal (of_mem_take_takeWhile h)
  · exact hwhole h

theorem extra_word (c : Char) (cs : List Char) :
    (Lexeme.word c cs).extra = (cs.takeWhile Lexeme.isWordPart).length := by
  unfold Lexeme.word
  simp only
  split <;> rfl

theorem isInner_of_mem_operatorOrMark (h : d ∈ cs.take (Lexeme.operatorOrMark c cs).extra) :
    isInner d := by
  unfold Lexeme.operatorOrMark at h
  split at h
  · next hdouble =>
    have hsymbols : ∀ s ∈ Lexeme.doubleOperators, ∀ d ∈ s.toList, isInner d := by decide
    apply hsymbols _ (List.contains_iff_mem.mp hdouble) d
    rw [Lexeme.leading, String.toList_ofList]
    exact List.mem_cons_of_mem c h
  · split at h
    · simp at h
    · split at h <;> simp at h

theorem isInner_of_mem_extra {operandMayStart : Bool}
    (h : d ∈ cs.take (Lexeme.ofChars operandMayStart c cs).extra) : isInner d := by
  unfold Lexeme.ofChars at h
  split at h
  · next hminus =>
    cases cs with
    | nil => simp at h
    | cons e es =>
      simp only [List.drop_succ_cons, List.drop_zero, Nat.add_comm 1, List.take_succ_cons,
        List.mem_cons] at h
      rcases h with rfl | h
      · exact isInner_of_isDecimal hminus.2.2
      · exact isInner_of_mem_number h
  · split at h
    · exact isInner_of_mem_number h
    · split at h
      · rw [extra_word] at h
        exact isInner_of_isWordPart (of_mem_take_takeWhile h)
      · exact isInner_of_mem_operatorOrMark h

theorem isInner_of_lexeme {operandMayStart : Bool} {run more : List Char}
    {token? : Option (TokenKind × String)}
    (h : Lexeme.ofChars operandMayStart c (run ++ more) = ⟨token?, run.length⟩) :
    ∀ d ∈ run, isInner d := by
  intro d hd
  have htake : d ∈ (run ++ more).take (Lexeme.ofChars operandMayStart c (run ++ more)).extra := by
    rw [h, List.take_left]
    exact hd
  exact isInner_of_mem_extra htake

theorem isQuote_of_isInner (h : isInner c) : Quoting.isQuote c = false := by
  simp only [isInner, Bool.not_eq_true', Bool.or_eq_false_iff] at h
  exact h.1.1.1.2

/-- Only quotes make a text token. -/
theorem kind_of_lexeme {operandMayStart : Bool} {kind : TokenKind} {text : String} {extra : Nat}
    (h : Lexeme.ofChars operandMayStart c cs = ⟨some (kind, text), extra⟩) : kind ≠ .text := by
  unfold Lexeme.ofChars Lexeme.word Lexeme.operatorOrMark at h
  rintro rfl
  simp only at h
  split at h
  · cases h
  · split at h
    · cases h
    · split at h
      · split at h <;> cases h
      · split at h
        · cases h
        · split at h
          · cases h
          · split at h <;> cases h

end

/-! ### A text and its lexemes -/

/-- What is left unread of a text: nothing, or a quote that is not closed and what comes after it. -/
def Unread : List Char → Prop
  | [] => True
  | q :: after => Quoting.isQuote q ∧ Lexeme.quotedBody? q after = none

/-- What the tokens `ts` come to before what is left unread. -/
def stoppedAt (ts : List Token) (offset : Nat) : List Char → Except UnclosedText (List Token)
  | [] => .ok ts
  | q :: _ => .error ⟨offset, q⟩

section
variable {rest : List Char}

theorem bind_cons_stoppedAt (t : Token) (us : List Token) (offset : Nat) (rest : List Char) :
    (do return t :: (← stoppedAt us offset rest)) = stoppedAt (t :: us) offset rest := by
  cases rest <;> rfl

theorem cons_take_append {c : Char} {cs front : List Char} {n : Nat} (h : cs.drop n = front ++ rest) :
    c :: cs = c :: (cs.take n ++ front) ++ rest := by
  rw [List.cons_append, List.append_assoc, ← h, List.take_append_drop]

theorem length_cons_take_append {c : Char} {cs : List Char} {offset n : Nat} (h : n ≤ cs.length)
    (front : List Char) :
    offset + (c :: (cs.take n ++ front)).length = offset + 1 + n + front.length := by
  simp only [List.length_cons, List.length_append, List.length_take, Nat.min_eq_left h]
  omega

/-- The lexeme at the front of a text, and then what its further characters fall into. -/
theorem Segmented.front {offset : Nat} {operandMayStart : Bool} {c : Char} {cs front : List Char}
    {token? : Option (TokenKind × String)} {ts : List Token} {extra : Nat} (hblank : ¬ isBlank c)
    (hquote : ¬(c = '"' ∨ c = '\'')) (hle : extra ≤ cs.length) (hdrop : cs.drop extra = front ++ rest)
    (hread : Lexeme.ofChars operandMayStart c cs = ⟨token?, extra⟩)
    (h : Segmented rest (offset + 1 + extra) front ts) :
    Segmented rest offset (c :: (cs.take extra ++ front))
      ((token?.map fun t => ⟨t.1, t.2, offset⟩).toList ++ ts) := by
  have hlength : (cs.take extra).length = extra := List.length_take_of_le hle
  have hlexeme : Lexeme.ofChars operandMayStart c (cs.take extra ++ (front ++ rest)) =
      ⟨token?, (cs.take extra).length⟩ := by
    rw [← hdrop, List.take_append_drop, hlength, hread]
  refine .lexeme (Bool.eq_false_iff.mpr hblank)
    (Bool.eq_false_iff.mpr fun hq => hquote (isQuote_iff.mp hq)) hlexeme ?_
  rw [hlength, Nat.add_comm extra, ← Nat.add_assoc]
  exact h

/-- Every text falls into lexemes up to what is left unread. -/
theorem exists_segmented (previous : Option Token) (offset : Nat) (cs : List Char) :
    ∃ front rest ts, cs = front ++ rest ∧ Unread rest ∧ Segmented rest offset front ts ∧
      tokensFrom previous offset cs = stoppedAt ts (offset + front.length) rest := by
  induction previous, offset, cs using tokensFrom.induct with
  | case1 previous offset =>
    refine ⟨[], [], [], rfl, trivial, .nil, ?_⟩
    rw [tokensFrom_nil]
    rfl
  | case2 previous offset c cs hblank ih =>
    obtain ⟨front, rest, ts, rfl, hunread, hfront, h⟩ := ih
    refine ⟨c :: front, rest, ts, rfl, hunread, .blank hblank hfront, ?_⟩
    rw [tokensFrom_blank hblank, h, List.length_cons, Nat.add_assoc, Nat.add_comm 1]
  | case3 previous offset c cs hblank hquote hbody =>
    refine ⟨[], c :: cs, [], rfl, ⟨isQuote_iff.mpr hquote, hbody⟩, .nil, ?_⟩
    rw [tokensFrom_quote hblank hquote, hbody]
    rfl
  | case4 previous offset c cs hblank hquote body width hbody =>
    rename_i token ih
    obtain ⟨inner, more, rfl, hinner, rfl⟩ := Quoted.of_quotedBody? hbody
    have hdrop : (inner ++ c :: more).drop (inner.length + 1) = more := by
      rw [← List.drop_drop, List.drop_left]
      rfl
    rw [hdrop] at ih
    obtain ⟨front, rest, ts, rfl, hunread, hfront, h⟩ := ih
    have hoffset : offset + 1 + (inner.length + 1) = offset + (inner.length + 2) := by omega
    rw [hoffset] at hfront h
    refine ⟨c :: (inner ++ c :: front), rest, token :: ts, by simp, hunread,
      .quoted (isQuote_iff.mpr hquote) hinner hfront, ?_⟩
    have hlength : offset + (c :: (inner ++ c :: front)).length =
        offset + (inner.length + 2) + front.length := by
      simp only [List.length_cons, List.length_append]
      omega
    rw [tokensFrom_quote hblank hquote]
    simp only [hbody, hdrop, hoffset]
    rw [h, hlength]
    exact bind_cons_stoppedAt token ts _ rest
  | case5 previous offset c cs hblank hquote lexeme tail hskipped =>
    rename_i ih
    have hle : lexeme.extra ≤ cs.length := Lexeme.ofChars_extra_le _ _ _
    obtain ⟨front, rest, ts, hdrop, hunread, hfront, h⟩ := ih
    have hread : lexeme = ⟨none, lexeme.extra⟩ := by rw [← hskipped]
    refine ⟨c :: (cs.take lexeme.extra ++ front), rest, ts, cons_take_append hdrop, hunread,
      .front hblank hquote hle hdrop hread hfront, ?_⟩
    rw [tokensFrom_lexeme hblank hquote]
    simp only [show (Lexeme.ofChars _ c cs).token = none from hskipped]
    rw [length_cons_take_append hle front]
    exact h
  | case6 previous offset c cs hblank hquote lexeme tail kind text hstart =>
    rename_i token ih
    have hle : lexeme.extra ≤ cs.length := Lexeme.ofChars_extra_le _ _ _
    obtain ⟨front, rest, ts, hdrop, hunread, hfront, h⟩ := ih
    have hread : lexeme = ⟨some (kind, text), lexeme.extra⟩ := by rw [← hstart]
    refine ⟨c :: (cs.take lexeme.extra ++ front), rest, token :: ts, cons_take_append hdrop, hunread,
      .front hblank hquote hle hdrop hread hfront, ?_⟩
    rw [tokensFrom_lexeme hblank hquote]
    simp only [show (Lexeme.ofChars _ c cs).token = some (kind, text) from hstart]
    rw [length_cons_take_append hle front]
    change (do return token :: (← tokensFrom (some token) (offset + 1 + lexeme.extra) tail)) = _
    rw [h]
    exact bind_cons_stoppedAt token ts _ rest

theorem segmented_of_tokenize {s : String} {ts : List Token} (h : tokenize s = .ok ts) :
    Segmented [] 0 s.toList ts := by
  obtain ⟨front, rest, us, hcs, hunread, hfront, hus⟩ := exists_segmented none 0 s.toList
  change tokenize s = _ at hus
  rw [h] at hus
  cases rest with
  | nil =>
    cases hus
    rw [List.append_nil] at hcs
    rw [hcs]
    exact hfront
  | cons q rest => cases hus

end
end NoteQuery
