import NoteQuery.Proofs.Expr.Segments
import NoteQuery.Proofs.Query.Cells

/-! What is masked of a text and what its tokens are. The scan of the quotes and the lexer stop at the same
quote, if one is not closed; else the contents of the quoted tokens are what is masked. By induction along
the lexemes, each of which starts and ends outside quotes. -/

namespace NoteQuery
set_option autoImplicit false
open Text

/-! ### The scan of the quotes -/

section
variable {quote : Char} {cs ds inner body : List Char}

theorem maskFrom_append (q : Quoting) (cs ds : List Char) :
    maskFrom q (cs ++ ds) = maskFrom q cs ++ maskFrom (cs.foldl Quoting.next q) ds := by
  induction cs generalizing q with
  | nil => rfl
  | cons c cs ih =>
    rw [List.cons_append, maskFrom, ih, maskFrom, List.cons_append, List.foldl_cons]

theorem next_outside_of_isQuote {c : Char} (h : Quoting.isQuote c) :
    Quoting.next .outside c = .inside c := by
  rw [Quoting.next, if_pos h]

theorem next_outside {c : Char} (h : Quoting.isQuote c = false) :
    Quoting.next .outside c = .outside := by
  rw [Quoting.next, h]
  rfl

theorem foldl_next_of_noQuote (h : ∀ c ∈ cs, Quoting.isQuote c = false) :
    cs.foldl Quoting.next .outside = .outside := by
  induction cs with
  | nil => rfl
  | cons c cs ih =>
    rw [List.foldl_cons, next_outside (h c List.mem_cons_self)]
    exact ih fun d hd => h d (List.mem_cons_of_mem c hd)

theorem maskFrom_of_noQuote (h : ∀ c ∈ cs, Quoting.isQuote c = false) :
    maskFrom .outside cs = cs := by
  induction cs with
  | nil => rfl
  | cons c cs ih =>
    rw [maskFrom, next_outside (h c List.mem_cons_self),
      ih fun d hd => h d (List.mem_cons_of_mem c hd)]
    rfl

theorem maskFrom_append_of_noQuote (h : ∀ c ∈ cs, Quoting.isQuote c = false) (ds : List Char) :
    maskFrom .outside (cs ++ ds) = cs ++ maskFrom .outside ds := by
  rw [maskFrom_append, foldl_next_of_noQuote h, maskFrom_of_noQuote h]

theorem isQuote_of_isBlank {c : Char} (h : isBlank c) : Quoting.isQuote c = false := by
  have hplain := isPlain_of_isBlank h
  simp only [isPlain, Bool.not_eq_true', Bool.or_eq_false_iff] at hplain
  exact hplain.1.1

theorem maskFrom_blank {c : Char} (h : isBlank c) (cs : List Char) :
    maskFrom .outside (c :: cs) = c :: maskFrom .outside cs := by
  rw [maskFrom, next_outside (isQuote_of_isBlank h)]
  rfl

theorem cons_append_cons (quote : Char) (inner cs : List Char) :
    quote :: (inner ++ quote :: cs) = (quote :: (inner ++ [quote])) ++ cs := by
  simp only [List.cons_append, List.append_assoc, List.nil_append]

theorem next_close (h : Quoting.isQuote quote) : Quoting.next (.inside quote) quote = .outside := by
  simp [Quoting.next, ne_backslash_of_isQuote h]

namespace Quoted

theorem foldl_next (h : Quoted quote inner body) :
    inner.foldl Quoting.next (.inside quote) = .inside quote := by
  induction h with
  | nil => rfl
  | escape c _ ih => exact ih
  | plain hne hslash _ ih =>
    rw [List.foldl_cons, next_inside_of_ne hne hslash]
    exact ih

theorem maskFrom_eq (h : Quoted quote inner body) :
    maskFrom (.inside quote) inner = List.replicate inner.length Quoting.mask := by
  induction h with
  | nil => rfl
  | escape c _ ih =>
    simp only [maskFrom, List.length_cons, List.replicate_succ, Quoting.hides]
    exact congrArg (fun cs => _ :: _ :: cs) ih
  | plain hne hslash _ ih =>
    rw [maskFrom, next_inside_of_ne hne hslash, ih, List.length_cons, List.replicate_succ]
    simp [Quoting.hides, hne]

theorem foldl_next_outside (h : Quoted quote inner body) (hquote : Quoting.isQuote quote) :
    (quote :: (inner ++ [quote])).foldl Quoting.next .outside = .outside := by
  rw [List.foldl_cons, next_outside_of_isQuote hquote, List.foldl_append, h.foldl_next]
  exact next_close hquote

/-- Between quotes all is masked, and the quotes themselves are not. -/
theorem maskFrom_outside (h : Quoted quote inner body) (hquote : Quoting.isQuote quote) :
    maskFrom .outside (quote :: (inner ++ [quote])) =
      quote :: (List.replicate inner.length Quoting.mask ++ [quote]) := by
  have hclose : maskFrom (.inside quote) [quote] = [quote] := by
    simp [maskFrom, Quoting.hides, ne_backslash_of_isQuote hquote]
  rw [maskFrom, next_outside_of_isQuote hquote, NoteQuery.maskFrom_append, h.foldl_next, h.maskFrom_eq, hclose]
  rfl

theorem maskFrom_append (h : Quoted quote inner body) (hquote : Quoting.isQuote quote)
    (cs : List Char) : maskFrom .outside (quote :: (inner ++ quote :: cs)) =
      quote :: (List.replicate inner.length Quoting.mask ++ [quote]) ++ maskFrom .outside cs := by
  rw [cons_append_cons, NoteQuery.maskFrom_append, h.foldl_next_outside hquote,
    h.maskFrom_outside hquote]

end Quoted

end

/-! ### Quoted tokens -/

namespace Token

/-- A token stands at quotes with the contents `inner`, where `offset` characters stand before the
text. -/
def Quotes (offset : Nat) (t : Token) (cs inner : List Char) : Prop :=
  ∃ front quote body more, cs = front ++ quote :: (inner ++ quote :: more) ∧
    t.offset = offset + front.length ∧ Quoting.isQuote quote ∧ Quoted quote inner body ∧
      t.text = String.ofList body

/-- The character with `i` characters of the text before it stands between the quotes of a token. -/
def Encloses (offset : Nat) (t : Token) (cs : List Char) (i : Nat) : Prop :=
  ∃ inner, t.Quotes offset cs inner ∧ t.offset < offset + i ∧ offset + i ≤ t.offset + inner.length

section
variable {offset : Nat} {t : Token} {cs inner : List Char}

theorem Quotes.prepend (p : List Char) (h : t.Quotes (offset + p.length) cs inner) :
    t.Quotes offset (p ++ cs) inner := by
  obtain ⟨front, quote, body, more, rfl, hoffset, hquoted⟩ := h
  refine ⟨p ++ front, quote, body, more, (List.append_assoc _ _ _).symm, ?_, hquoted⟩
  rw [hoffset, List.length_append, Nat.add_assoc]

theorem Quotes.append (h : t.Quotes offset cs inner) (ds : List Char) :
    t.Quotes offset (cs ++ ds) inner := by
  obtain ⟨front, quote, body, more, rfl, hquoted⟩ := h
  exact ⟨front, quote, body, more ++ ds, by simp, hquoted⟩

theorem Encloses.prepend {i : Nat} (p : List Char) (h : t.Encloses (offset + p.length) cs i) :
    t.Encloses offset (p ++ cs) (p.length + i) := by
  obtain ⟨inner, hquotes, hlower, hupper⟩ := h
  exact ⟨inner, hquotes.prepend p, by omega, by omega⟩

theorem Encloses.append {i : Nat} (h : t.Encloses offset cs i) (ds : List Char) :
    t.Encloses offset (cs ++ ds) i := by
  obtain ⟨inner, hquotes, hbounds⟩ := h
  exact ⟨inner, hquotes.append ds, hbounds⟩

end

end Token

/-- The tokens of a text, where `offset` characters stand before it, account for what is masked of it. -/
structure Accounts (offset : Nat) (cs : List Char) (ts : List Token) : Prop where
  closed : cs.foldl Quoting.next .outside = .outside
  outside : ∀ t ∈ ts, ∃ k, t.offset = offset + k ∧ k ≤ cs.length ∧
    (cs.take k).foldl Quoting.next .outside = .outside
  quotes : ∀ t ∈ ts, t.kind = .text → ∃ inner, t.Quotes offset cs inner
  shown : ∀ i, (maskFrom .outside cs)[i]? = cs[i]? ∨
    ∃ t ∈ ts, t.kind = .text ∧ t.Encloses offset cs i

namespace Accounts

variable {offset : Nat} {cs ds : List Char} {ts us : List Token}

theorem nil : Accounts offset [] [] where
  closed := rfl
  outside := by
    intro t ht
    cases ht
  quotes := by
    intro t ht
    cases ht
  shown := fun _ => .inl rfl

theorem append (h : Accounts offset cs ts) (k : Accounts (offset + cs.length) ds us) :
    Accounts offset (cs ++ ds) (ts ++ us) where
  closed := by
    rw [List.foldl_append, h.closed]
    exact k.closed
  outside := by
    intro t ht
    rcases List.mem_append.mp ht with ht | ht
    · obtain ⟨n, hoffset, hle, hscan⟩ := h.outside t ht
      refine ⟨n, hoffset, ?_, ?_⟩
      · rw [List.length_append]
        omega
      · rw [List.take_append_of_le_length hle]
        exact hscan
    · obtain ⟨n, hoffset, hle, hscan⟩ := k.outside t ht
      refine ⟨cs.length + n, by omega, ?_, ?_⟩
      · rw [List.length_append]
        omega
      · rw [List.take_length_add_append, List.foldl_append, h.closed]
        exact hscan
  quotes := by
    intro t ht hkind
    rcases List.mem_append.mp ht with ht | ht
    · obtain ⟨inner, hquotes⟩ := h.quotes t ht hkind
      exact ⟨inner, hquotes.append ds⟩
    · obtain ⟨inner, hquotes⟩ := k.quotes t ht hkind
      exact ⟨inner, hquotes.prepend cs⟩
  shown := by
    intro i
    rw [maskFrom_append, h.closed]
    have hlength := length_maskFrom .outside cs
    rcases Nat.lt_or_ge i cs.length with hi | hi
    · rw [List.getElem?_append_left (by omega), List.getElem?_append_left hi]
      rcases h.shown i with hsame | ⟨t, ht, hkind, hencloses⟩
      · exact .inl hsame
      · exact .inr ⟨t, List.mem_append_left us ht, hkind, hencloses.append ds⟩
    · obtain ⟨j, rfl⟩ := Nat.exists_eq_add_of_le hi
      rw [List.getElem?_append_right (by omega), List.getElem?_append_right hi, hlength,
        Nat.add_sub_cancel_left]
      rcases k.shown j with hsame | ⟨t, ht, hkind, hencloses⟩
      · exact .inl hsame
      · exact .inr ⟨t, List.mem_append_right ts ht, hkind, hencloses.prepend cs⟩

/-- A text without quotes shows as it is, and its tokens are no texts. -/
theorem of_noQuote (h : ∀ c ∈ cs, Quoting.isQuote c = false)
    (hts : ∀ t ∈ ts, t.offset = offset ∧ t.kind ≠ .text) : Accounts offset cs ts where
  closed := foldl_next_of_noQuote h
  outside := fun t ht => ⟨0, (hts t ht).1, Nat.zero_le _, rfl⟩
  quotes := fun t ht hkind => absurd hkind (hts t ht).2
  shown := by
    intro i
    rw [maskFrom_of_noQuote h]
    exact .inl rfl

theorem of_quoted {quote : Char} {inner body : List Char} (hquote : Quoting.isQuote quote)
    (h : Quoted quote inner body) :
    Accounts offset (quote :: (inner ++ [quote])) [⟨.text, String.ofList body, offset⟩] where
  closed := h.foldl_next_outside hquote
  outside := by
    intro t ht
    rw [List.mem_singleton.mp ht]
    exact ⟨0, rfl, Nat.zero_le _, rfl⟩
  quotes := by
    intro t ht _
    rw [List.mem_singleton.mp ht]
    exact ⟨inner, [], quote, body, [], rfl, rfl, hquote, h, rfl⟩
  shown := by
    intro i
    rw [h.maskFrom_outside hquote]
    rcases i with _ | i
    · exact .inl rfl
    · rw [List.getElem?_cons_succ, List.getElem?_cons_succ]
      rcases Nat.lt_or_ge i inner.length with hi | hi
      · refine .inr ⟨_, List.mem_singleton_self _, rfl, inner, ?_, ?_, ?_⟩
        · exact ⟨[], quote, body, [], rfl, rfl, hquote, h, rfl⟩
        · simp
        · change offset + (i + 1) ≤ offset + inner.length
          omega
      · left
        rw [List.getElem?_append_right (by rw [List.length_replicate]; exact hi),
          List.getElem?_append_right hi, List.length_replicate]

/-- Between the quotes of a token all is masked. -/
theorem masked (h : Accounts 0 cs ts) {t : Token} (ht : t ∈ ts) {i : Nat} (hi : t.Encloses 0 cs i) :
    (maskFrom .outside cs)[i]? = some Quoting.mask := by
  obtain ⟨inner, ⟨front, quote, body, more, hcs, hoffset, hquote, hinner, -⟩, hlower, hupper⟩ := hi
  obtain ⟨k, hk, -, hfront⟩ := h.outside t ht
  have hfrontLength : k = front.length := by omega
  rw [hfrontLength, hcs, List.take_left] at hfront
  obtain ⟨j, rfl⟩ : ∃ j, i = front.length + (1 + j) := ⟨i - front.length - 1, by omega⟩
  have hj : j < inner.length := by omega
  rw [hcs, maskFrom_append, hfront, ← length_maskFrom .outside front,
    List.getElem?_append_right (Nat.le_add_right _ _), Nat.add_sub_cancel_left, maskFrom,
    next_outside_of_isQuote hquote, maskFrom_append, hinner.maskFrom_eq, Nat.add_comm 1,
    List.getElem?_cons_succ, List.getElem?_append_left (by rw [List.length_replicate]; exact hj),
    List.getElem?_replicate, if_pos hj]

end Accounts

/-! ### Lexemes and quotes -/

section
variable {rest cs : List Char} {offset : Nat} {ts : List Token}

theorem noQuote_of_lexeme {operandMayStart : Bool} {c : Char} {run more : List Char}
    {token? : Option (TokenKind × String)} (hc : Quoting.isQuote c = false)
    (h : Lexeme.ofChars operandMayStart c (run ++ more) = ⟨token?, run.length⟩) :
    ∀ d ∈ c :: run, Quoting.isQuote d = false := by
  intro d hd
  rcases List.mem_cons.mp hd with rfl | hd
  · exact hc
  · exact isQuote_of_isInner (isInner_of_lexeme h d hd)

theorem Segmented.accounts (h : Segmented rest offset cs ts) : Accounts offset cs ts := by
  induction h with
  | nil => exact .nil
  | @blank offset c cs ts hc _ ih =>
    have hfront : Accounts offset [c] [] := by
      apply Accounts.of_noQuote
      · intro d hd
        rw [List.mem_singleton.mp hd]
        exact isQuote_of_isBlank hc
      · intro t ht
        cases ht
    exact hfront.append ih
  | @quoted offset quote inner body cs ts hquote hinner _ ih =>
    have hfront : Accounts offset _ _ := .of_quoted hquote hinner
    have hlength : (quote :: (inner ++ [quote])).length = inner.length + 2 := by simp
    rw [cons_append_cons]
    exact hfront.append (hlength ▸ ih)
  | @lexeme offset _ c run cs token? ts _ hc hread _ ih =>
    have hfront : Accounts offset (c :: run)
        (token?.map fun t => (⟨t.1, t.2, offset⟩ : Token)).toList := by
      apply Accounts.of_noQuote (noQuote_of_lexeme hc hread)
      · intro t ht
        rw [Option.mem_toList] at ht
        obtain ⟨⟨kind, text⟩, rfl, rfl⟩ := Option.map_eq_some_iff.mp ht
        exact ⟨rfl, kind_of_lexeme hread⟩
    rw [← List.cons_append]
    exact hfront.append ih

end

/-- The text has a quote with `offset` characters before it that opens and that nothing closes. -/
def LeavesOpen (cs : List Char) (offset : Nat) (quote : Char) : Prop :=
  ∃ front rest, cs = front ++ quote :: rest ∧ front.length = offset ∧ Quoting.isQuote quote ∧
    front.foldl Quoting.next .outside = .outside ∧
      ∀ inner, inner <+: rest → inner.foldl Quoting.next (.inside quote) ≠ .outside

theorem LeavesOpen.foldl_next {cs : List Char} {offset : Nat} {quote : Char}
    (h : LeavesOpen cs offset quote) : cs.foldl Quoting.next .outside ≠ .outside := by
  obtain ⟨front, rest, rfl, -, hquote, hfront, hrest⟩ := h
  rw [List.foldl_append, hfront, List.foldl_cons, next_outside_of_isQuote hquote]
  exact hrest rest List.prefix_rfl

/-- What the lexer comes to: a quote that the scan leaves open, or tokens that account for the mask. -/
theorem tokenize_cases (s : String) :
    (∃ fault, tokenize s = .error fault ∧ LeavesOpen s.toList fault.offset fault.quote) ∨
      ∃ ts, tokenize s = .ok ts ∧ Accounts 0 s.toList ts := by
  obtain ⟨front, rest, ts, hcs, hunread, hfront, h⟩ := exists_segmented none 0 s.toList
  have haccounts := hfront.accounts
  cases rest with
  | nil =>
    rw [List.append_nil] at hcs
    refine .inr ⟨ts, h, ?_⟩
    rw [hcs]
    exact haccounts
  | cons quote rest =>
    refine .inl ⟨_, h, front, rest, hcs, (Nat.zero_add _).symm, hunread.1, haccounts.closed, ?_⟩
    intro inner hinner
    exact foldl_next_of_unclosed hunread.2 hinner

/-- The lexer stops at a quote exactly where the scan of the quotes ends inside one, and it is the one
that is open there; otherwise what is masked is what stands between the quotes of its text tokens. -/
theorem tokenize_agrees (s : String) :
    ((∃ fault, tokenize s = .error fault) ↔ s.toList.foldl Quoting.next .outside ≠ .outside) ∧
    (∀ fault, tokenize s = .error fault → LeavesOpen s.toList fault.offset fault.quote) ∧
    ∀ ts, tokenize s = .ok ts →
      (∀ t ∈ ts, t.kind = .text → ∃ inner, t.Quotes 0 s.toList inner) ∧
      (maskQuoted s.toList).length = s.toList.length ∧
      ∀ i, ((∃ t ∈ ts, t.kind = .text ∧ t.Encloses 0 s.toList i) →
          (maskQuoted s.toList)[i]? = some Quoting.mask) ∧
        ((¬∃ t ∈ ts, t.kind = .text ∧ t.Encloses 0 s.toList i) →
          (maskQuoted s.toList)[i]? = s.toList[i]?) := by
  rcases tokenize_cases s with ⟨fault, herror, hopen⟩ | ⟨us, hok, haccounts⟩
  · refine ⟨⟨fun _ => hopen.foldl_next, fun _ => ⟨fault, herror⟩⟩, ?_, ?_⟩
    · intro other h
      rw [herror] at h
      cases h
      exact hopen
    · intro ts h
      rw [herror] at h
      cases h
  · refine ⟨⟨?_, fun h => absurd haccounts.closed h⟩, ?_, ?_⟩
    · rintro ⟨fault, h⟩
      rw [hok] at h
      cases h
    · intro fault h
      rw [hok] at h
      cases h
    · intro ts h
      rw [hok] at h
      cases h
      refine ⟨haccounts.quotes, length_maskQuoted _, fun i => ⟨?_, ?_⟩⟩
      · rintro ⟨t, ht, -, hi⟩
        exact haccounts.masked ht hi
      · intro hnone
        exact (haccounts.shown i).resolve_right hnone

/-- An escaped quote closes nothing; the same text with one quote more is closed. -/
theorem tokenize_agrees_escaped :
    LeavesOpen "x '\\'".toList 2 '\'' ∧ ¬∃ fault, tokenize "x '\\''" = .error fault := by
  have hopen : tokenize "x '\\'" = .error ⟨2, '\''⟩ := by decide +kernel
  have hclosed : "x '\\''".toList.foldl Quoting.next .outside = .outside := by decide
  exact ⟨(tokenize_agrees _).2.1 _ hopen, fun h => (tokenize_agrees _).1.mp h hclosed⟩

end NoteQuery
