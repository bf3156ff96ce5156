import NoteQuery.Proofs.Expr.Completeness

/-! What is read on its own is read inside parentheses too. A parser that runs into the end of its tokens
would run into a closing parenthesis in the same way, unless it has a bracket open there; and a parser
takes brackets only in pairs. The nesting that is allowed does not matter if it suffices, and neither does
where in the text the tokens stand. -/

namespace NoteQuery
set_option autoImplicit false
open NoteQuery.Parser NoteQuery.Expr

namespace Token

/-- The token with `n` characters more before it. -/
def shift (n : Nat) (t : Token) : Token := { t with offset := t.offset + n }

@[simp] theorem shift_text (n : Nat) (t : Token) : (t.shift n).text = t.text := rfl

@[simp] theorem isMark_shift (n : Nat) (t : Token) (symbol : String) :
    (t.shift n).isMark symbol = t.isMark symbol := rfl

def opens (t : Token) : Bool := t.isMark "(" || t.isMark "["

def closes (t : Token) : Bool := t.isMark ")" || t.isMark "]"

/-- A token that is a bracket of neither side. -/
def isPlain (t : Token) : Bool := !t.opens && !t.closes

theorem isPlain_of_kind {t : Token} (h : t.kind ≠ .punctuation) : t.isPlain := by
  simp [isPlain, opens, closes, isMark, h]

theorem isPlain_of_mark {t : Token} {symbol : String} (h : t.isMark symbol)
    (hs : symbol ∈ [".", ","]) : t.isPlain := by
  simp only [isMark, Bool.and_eq_true, decide_eq_true_eq, beq_iff_eq] at h
  simp only [List.mem_cons, List.not_mem_nil, or_false] at hs
  rcases hs with rfl | rfl <;> simp [isPlain, opens, closes, isMark, h.1, h.2]

end Token

/-- How many brackets are open after the tokens when `d` are open before them. -/
def openAfter (d : Nat) : List Token → Nat
  | [] => d
  | t :: ts => openAfter (if t.opens then d + 1 else if t.closes then d - 1 else d) ts

section
variable {t : Token} {ts : List Token}

theorem openAfter_cons (d : Nat) (t : Token) (ts : List Token) : openAfter d (t :: ts) =
    openAfter (if t.opens then d + 1 else if t.closes then d - 1 else d) ts := rfl

theorem openAfter_opens (h : t.opens) (d : Nat) (ts : List Token) :
    openAfter d (t :: ts) = openAfter (d + 1) ts := by rw [openAfter_cons, if_pos h]

theorem openAfter_closes (h : t.closes) (d : Nat) (ts : List Token) :
    openAfter (d + 1) (t :: ts) = openAfter d ts := by
  have hopens : t.opens = false := by
    simp only [Token.closes, Token.isMark, Bool.or_eq_true, Bool.and_eq_true, decide_eq_true_eq,
      beq_iff_eq] at h
    rcases h with h | h <;> simp [Token.opens, Token.isMark, h.1, h.2]
  rw [openAfter_cons, hopens, if_neg (by decide), if_pos h, Nat.add_sub_cancel]

theorem openAfter_isPlain (h : t.isPlain) (d : Nat) (ts : List Token) :
    openAfter d (t :: ts) = openAfter d ts := by
  simp only [Token.isPlain, Bool.and_eq_true, Bool.not_eq_true'] at h
  rw [openAfter_cons, h.1, h.2, if_neg (by decide), if_neg (by decide)]

theorem openAfter_mono {d e : Nat} (h : d ≤ e) (ts : List Token) :
    openAfter d ts ≤ openAfter e ts := by
  induction ts generalizing d e with
  | nil => exact h
  | cons t ts ih =>
    rw [openAfter_cons, openAfter_cons]
    refine ih ?_
    split
    · omega
    · split <;> omega

end

section
variable {α β : Type}

/-- A parser that takes at least one token. -/
def Shortens (p : Parser α) : Prop :=
  ∀ {ts a rest}, run p ts = some (a, rest) → rest.length < ts.length

theorem shortens_token (expectation : Expectation) (test : Token → Bool) :
    Shortens (token expectation test) := by
  intro ts t rest h
  obtain ⟨rfl, _⟩ := run_token_eq_some.mp h
  simp

theorem Shortens.orElse {p q : Parser α} (hp : Shortens p) (hq : Shortens q) :
    Shortens (orElse p q) := by
  intro ts a rest h
  rw [run_orElse, Option.or_eq_some_iff] at h
  rcases h with h | ⟨_, h⟩
  · exact hp h
  · exact hq h

theorem shortens_negation : Shortens negation :=
  Shortens.orElse (shortens_token _ _) (shortens_token _ _)

/-- On fewer than `k` tokens the first parser takes brackets only in pairs. If the tokens close all that
they open, the second one answers the same where `us` comes after them and `n` characters more before
them; `g` turns the one answer into the other. -/
structure Carries (n : Nat) (us : List Token) (k : Nat) (g : α → α) (p q : Parser α) : Prop where
  keeps : ∀ {ts : List Token} {a : α} {rest : List Token}, ts.length < k →
    run p ts = some (a, rest) → rest.length ≤ ts.length ∧ ∀ d, openAfter d ts = openAfter d rest
  carries : ∀ ts : List Token, ts.length < k → openAfter 0 ts = 0 →
    run q (ts.map (Token.shift n) ++ us) =
      (run p ts).map fun r => (g r.1, r.2.map (Token.shift n) ++ us)

namespace Carries

variable {n k : Nat} {us : List Token} {g : α → α} {g' : β → β}

/-! ### Combinators -/

theorem pure {a b : α} (h : b = g a) : Carries n us k g (pure a) (pure b) where
  keeps := by
    intro ts c rest _ hrun
    cases hrun
    exact ⟨Nat.le_refl _, fun d => rfl⟩
  carries := by
    intro ts _ _
    rw [h]
    rfl

theorem fail : Carries n us k g (fail : Parser α) Parser.fail where
  keeps := by intro ts a rest _ hrun; cases hrun
  carries := by intro ts _ _; rfl

theorem bindBelow {j : Nat} {p q : Parser α} {f f' : α → Parser β} (h : Carries n us k g p q)
    (hj : ∀ {ts a rest}, ts.length < k → run p ts = some (a, rest) → rest.length < j)
    (hf : ∀ a, Carries n us j g' (f a) (f' (g a))) :
    Carries n us k g' (p >>= f) (q >>= f') where
  keeps := by
    intro ts b rest hlt hrun
    obtain ⟨a, vs, ha, hb⟩ := run_bind_eq_some.mp hrun
    obtain ⟨hle, hopen⟩ := h.keeps hlt ha
    obtain ⟨hle', hopen'⟩ := (hf a).keeps (hj hlt ha) hb
    exact ⟨Nat.le_trans hle' hle, fun d => (hopen d).trans (hopen' d)⟩
  carries := by
    intro ts hlt hclosed
    rw [run_bind, run_bind, h.carries ts hlt hclosed]
    cases ha : run p ts with
    | none => rfl
    | some r =>
      obtain ⟨a, vs⟩ := r
      obtain ⟨_, hopen⟩ := h.keeps hlt ha
      exact (hf a).carries vs (hj hlt ha) (hopen 0 ▸ hclosed)

theorem bind {p q : Parser α} {f f' : α → Parser β} (h : Carries n us k g p q)
    (hf : ∀ a, Carries n us k g' (f a) (f' (g a))) : Carries n us k g' (p >>= f) (q >>= f') :=
  h.bindBelow (fun hlt ha => Nat.lt_of_le_of_lt (h.keeps hlt ha).1 hlt) hf

/-- After a parser that takes a token there are fewer. -/
theorem bindShorter {p q : Parser α} {f f' : α → Parser β} (h : Carries n us (k + 1) g p q)
    (hp : Shortens p) (hf : ∀ a, Carries n us k g' (f a) (f' (g a))) :
    Carries n us (k + 1) g' (p >>= f) (q >>= f') :=
  h.bindBelow (fun hlt ha => Nat.lt_of_lt_of_le (hp ha) (Nat.le_of_lt_succ hlt)) hf

theorem map {p q : Parser α} {f : α → β} (h : Carries n us k g p q)
    (hf : ∀ a, f (g a) = g' (f a)) : Carries n us k g' (f <$> p) (f <$> q) :=
  h.bind fun a => .pure (hf a)

theorem orElse {p q p' q' : Parser α} (h : Carries n us k g p q) (h' : Carries n us k g p' q') :
    Carries n us k g (orElse p p') (orElse q q') where
  keeps := by
    intro ts a rest hlt hrun
    rw [run_orElse, Option.or_eq_some_iff] at hrun
    rcases hrun with hrun | ⟨_, hrun⟩
    · exact h.keeps hlt hrun
    · exact h'.keeps hlt hrun
  carries := by
    intro ts hlt hclosed
    rw [run_orElse, run_orElse, h.carries ts hlt hclosed, h'.carries ts hlt hclosed]
    cases run p ts <;> rfl

theorem firstOf {p q : Parser α} {ps qs : List (Parser α)} (h : Carries n us k g p q)
    (hs : Carries n us k g (firstOf ps) (firstOf qs)) :
    Carries n us k g (Parser.firstOf (p :: ps)) (Parser.firstOf (q :: qs)) where
  keeps := by
    intro ts a rest hlt hrun
    rw [run_firstOf_cons, ← run_orElse] at hrun
    exact (h.orElse hs).keeps hlt hrun
  carries := by
    intro ts hlt hclosed
    rw [run_firstOf_cons, run_firstOf_cons, ← run_orElse, ← run_orElse]
    exact (h.orElse hs).carries ts hlt hclosed

theorem optional {p q : Parser α} (h : Carries n us k g p q) :
    Carries n us k (Option.map g) (optional p) (optional q) := by
  have hsome : Carries n us k (Option.map g) (some <$> p) (some <$> q) := h.map fun _ => rfl
  exact hsome.orElse (.pure rfl)

theorem repeated {p q : Parser α} (h : Carries n us k g p q) :
    Carries n us k (List.map g) (repeated p) (repeated q) where
  keeps := by
    intro ts as rest hlt hrun
    induction ts using repeated_induction p generalizing as with
    | none ts ha =>
      rw [run_repeated_none ha] at hrun
      cases hrun
      exact ⟨Nat.le_refl _, fun d => rfl⟩
    | more ts a vs ha hshorter ih =>
      rw [run_repeated_some ha hshorter] at hrun
      obtain ⟨⟨bs, ws⟩, hbs, heq⟩ := Option.map_eq_some_iff.mp hrun
      cases heq
      obtain ⟨hle, hopen⟩ := h.keeps hlt ha
      obtain ⟨hle', hopen'⟩ := ih (Nat.lt_trans hshorter hlt) hbs
      exact ⟨Nat.le_trans hle' hle, fun d => (hopen d).trans (hopen' d)⟩
    | stuck ts a vs ha hstuck =>
      rw [run_repeated_stuck ha hstuck] at hrun
      cases hrun
      exact h.keeps hlt ha
  carries := by
    intro ts hlt hclosed
    induction ts using repeated_induction p with
    | none ts ha =>
      have hcarried := h.carries ts hlt hclosed
      rw [ha] at hcarried
      rw [run_repeated_none ha, run_repeated_none hcarried]
      rfl
    | more ts a vs ha hshorter ih =>
      have hcarried := h.carries ts hlt hclosed
      rw [ha] at hcarried
      obtain ⟨_, hopen⟩ := h.keeps hlt ha
      have hshorter' : (vs.map (Token.shift n) ++ us).length <
          (ts.map (Token.shift n) ++ us).length := by simpa using hshorter
      rw [run_repeated_some ha hshorter, run_repeated_some hcarried hshorter',
        ih (Nat.lt_trans hshorter hlt) (hopen 0 ▸ hclosed)]
      cases Parser.run (Parser.repeated p) vs <;> rfl
    | stuck ts a vs ha hstuck =>
      have hcarried := h.carries ts hlt hclosed
      rw [ha] at hcarried
      have hstuck' : ¬ (vs.map (Token.shift n) ++ us).length <
          (ts.map (Token.shift n) ++ us).length := by simpa using hstuck
      rw [run_repeated_stuck ha hstuck, run_repeated_stuck hcarried hstuck']
      rfl

theorem separated {s s' : Parser β} {p q : Parser α} (hs : Carries n us k g' s s')
    (h : Carries n us k g p q) :
    Carries n us k (List.map g) (separated s p) (separated s' q) := by
  have hmore : Carries n us k g (s >>= fun _ => p) (s' >>= fun _ => q) := hs.bind fun _ => h
  have hlist : Carries n us k (List.map g)
      (p >>= fun a => Parser.repeated (s >>= fun _ => p) >>= fun as => Pure.pure (a :: as))
      (q >>= fun a => Parser.repeated (s' >>= fun _ => q) >>= fun as => Pure.pure (a :: as)) :=
    h.bind fun a => hmore.repeated.bind fun as => .pure rfl
  exact hlist.orElse (.pure rfl)

end Carries

/-! ### Tokens -/

namespace Carries

variable {n k : Nat} {us : List Token} (hus : ∀ t ∈ us.head?, t.isMark ")")
include hus

/-- The parser of a token that is no bracket, whatever its place is. -/
theorem token {test : Token → Bool} (hplain : ∀ t, test t → t.isPlain)
    (hshift : ∀ t, test (t.shift n) = test t) (expectation : Expectation) :
    Carries n us k (Token.shift n) (Parser.token expectation test)
      (Parser.token expectation test) where
  keeps := by
    intro ts t rest _ hrun
    obtain ⟨rfl, ht⟩ := run_token_eq_some.mp hrun
    exact ⟨by simp, fun d => openAfter_isPlain (hplain t ht) d rest⟩
  carries := by
    intro ts _ _
    cases ts with
    | cons t ts =>
      rw [List.map_cons, List.cons_append, run_token, run_token, hshift]
      split <;> rfl
    | nil =>
      cases us with
      | nil => rfl
      | cons u us =>
        have hclosing : u.closes := by rw [Token.closes, hus u rfl, Bool.true_or]
        have hfails : test u = false := by
          cases hu : test u with
          | false => rfl
          | true =>
            have := hplain u hu
            simp [Token.isPlain, hclosing] at this
        rw [List.map_nil, List.nil_append, run_token, hfails]
        rfl

theorem ofKind {kind : TokenKind} (hkind : kind ≠ .punctuation) :
    Carries n us k (Token.shift n) (ofKind kind) (ofKind kind) := by
  refine token hus ?_ (fun _ => rfl) _
  intro t ht
  exact Token.isPlain_of_kind (by simp_all)

theorem keyword (word : String) :
    Carries n us k (Token.shift n) (keyword word) (keyword word) := by
  refine token hus ?_ (fun _ => rfl) _
  intro t ht
  refine Token.isPlain_of_kind ?_
  simp only [Token.isKeyword, Bool.and_eq_true, decide_eq_true_eq] at ht
  simp [ht.1]

theorem operator (symbols : List String) :
    Carries n us k (Token.shift n) (operator symbols) (operator symbols) := by
  refine token hus ?_ (fun _ => rfl) _
  intro t ht
  refine Token.isPlain_of_kind ?_
  simp only [Bool.and_eq_true, decide_eq_true_eq] at ht
  simp [ht.1]

theorem mark {symbol : String} (hs : symbol ∈ [".", ","]) :
    Carries n us k (Token.shift n) (mark symbol) (mark symbol) := by
  refine token hus ?_ (fun _ => rfl) _
  intro t ht
  exact Token.isPlain_of_mark ht hs

/-- What stands between brackets has fewer tokens, and is closed before anything else. -/
theorem between {opening closing : String} (hopening : opening = "(" ∧ closing = ")" ∨
      opening = "[" ∧ closing = "]") {g : α → α} {p q : Parser α} (h : Carries n us k g p q) :
    Carries n us (k + 1) g (between opening closing p) (between opening closing q) := by
  have hopens (t : Token) (ht : t.isMark opening) : t.opens := by
    rcases hopening with ⟨rfl, _⟩ | ⟨rfl, _⟩ <;> simp [Token.opens, ht]
  have hcloses (t : Token) (ht : t.isMark closing) : t.closes := by
    rcases hopening with ⟨_, rfl⟩ | ⟨_, rfl⟩ <;> simp [Token.closes, ht]
  constructor
  case keeps =>
    intro ts a rest hlt hrun
    obtain ⟨o, vs, c, rfl, ho, ha, hc⟩ := run_between_eq_some.mp hrun
    obtain ⟨hle, hopen⟩ := h.keeps (Nat.lt_of_succ_lt_succ hlt) ha
    rw [List.length_cons] at hle
    refine ⟨by rw [List.length_cons]; omega, fun d => ?_⟩
    rw [openAfter_opens (hopens o ho), hopen, openAfter_closes (hcloses c hc)]
  case carries =>
    intro ts hlt hclosed
    cases ts with
    | nil =>
      have hfails : run (Parser.mark opening) us = none := by
        cases us with
        | nil => rfl
        | cons u us =>
          have hu := hus u rfl
          simp only [Token.isMark, Bool.and_eq_true, decide_eq_true_eq, beq_iff_eq] at hu
          rcases hopening with ⟨rfl, _⟩ | ⟨rfl, _⟩ <;>
            simp [Parser.mark, run_token, Token.isMark, hu.2]
      exact run_bind_none hfails _
    | cons t ts =>
      rw [List.map_cons, List.cons_append, Expr.between, Expr.between, Parser.mark, run_bind,
        run_token, run_bind, run_token, Token.isMark_shift]
      cases ht : t.isMark opening with
      | false => rfl
      | true =>
        rw [openAfter_opens (hopens t ht)] at hclosed
        have hinside : openAfter 0 ts = 0 :=
          Nat.le_zero.mp (hclosed ▸ openAfter_mono (Nat.zero_le 1) ts)
        simp only [if_true, Option.bind_some, run_bind,
          h.carries ts (Nat.lt_of_succ_lt_succ hlt) hinside]
        cases ha : run p ts with
        | none => rfl
        | some r =>
          obtain ⟨a, vs⟩ := r
          obtain ⟨_, hopen⟩ := h.keeps (Nat.lt_of_succ_lt_succ hlt) ha
          -- The bracket is still open, so there is a token left to close it.
          cases vs with
          | nil => rw [hopen] at hclosed; cases hclosed
          | cons c vs =>
            simp only [Option.map_some, Option.bind_some, List.map_cons, List.cons_append,
              Parser.mark, run_token, Token.isMark_shift]
            by_cases hc : c.isMark closing <;> simp [hc]

end Carries

end

/-! ### The grammar -/

section
variable {n k : Nat} {us : List Token} (hus : ∀ t ∈ us.head?, t.isMark ")")
include hus

theorem carries_identifier : Carries n us k (Token.shift n) identifier identifier :=
  .ofKind hus (by decide)

theorem carries_literalParser : Carries n us k id literalParser literalParser :=
  .firstOf ((Carries.ofKind hus (by decide)).bind fun _ => .pure rfl) <|
  .firstOf ((Carries.ofKind hus (by decide)).bind fun _ => .pure rfl) <|
  .firstOf ((Carries.keyword hus "true").bind fun _ => .pure rfl) <|
  .firstOf ((Carries.keyword hus "false").bind fun _ => .pure rfl) <|
  .firstOf ((Carries.keyword hus "null").bind fun _ => .pure rfl) .fail

theorem carries_arithmetic (symbols : List String) :
    Carries n us k id (arithmetic symbols) (arithmetic symbols) :=
  (Carries.operator hus symbols).bind fun _ => .pure rfl

theorem carries_connective (op : Connective) (word symbol : String) :
    Carries n us k id (connective op word symbol) (connective op word symbol) :=
  ((Carries.keyword hus word).orElse (.operator hus [symbol])).bind fun _ => .pure rfl

section
variable {p q : Parser Expr} (h : Carries n us k id p q)
include h

theorem carries_lambdaParser : Carries n us (k + 1) id (lambdaParser p) (lambdaParser q) :=
  ((Carries.between hus (.inl ⟨rfl, rfl⟩) (carries_identifier hus)).orElse
      (carries_identifier hus)).bind fun _ =>
    (Carries.operator hus ["=>"]).bindShorter (shortens_token _ _) fun _ =>
      h.bind fun _ => .pure rfl

theorem carries_callParser : Carries n us (k + 1) id (callParser p) (callParser q) :=
  (carries_identifier hus).bind fun _ =>
    (Carries.between hus (.inl ⟨rfl, rfl⟩) (.separated (.mark hus (by simp)) h)).bind fun _ =>
      .pure (by simp)

theorem carries_primary : Carries n us (k + 1) id (primary p) (primary q) :=
  .firstOf (carries_lambdaParser hus h) <|
  .firstOf (.between hus (.inl ⟨rfl, rfl⟩) h) <|
  .firstOf ((carries_literalParser hus).map fun _ => rfl) <|
  .firstOf (carries_callParser hus h) <|
  .firstOf ((carries_identifier hus).bind fun _ => .pure rfl) .fail

theorem carries_member : Carries n us (k + 1) id (member p) (member q) :=
  .firstOf ((Carries.mark hus (by simp)).bind fun _ =>
    (carries_identifier hus).bind fun _ => .pure rfl) <|
  .firstOf ((Carries.between hus (.inr ⟨rfl, rfl⟩) h).bind fun _ => .pure rfl) .fail

theorem carries_postfixed : Carries n us (k + 1) id (postfixed p) (postfixed q) :=
  (carries_primary hus h).bind fun _ =>
    (carries_member hus h).repeated.bind fun _ => .pure (by simp)

omit hus in
theorem carries_chain {op : Parser (Expr → Expr → Expr)} (hop : Carries n us k id op op) :
    Carries n us k id (chain p op) (chain q op) := by
  have hoperand (f : Expr → Expr → Expr) : Carries n us k id (p >>= fun e => pure (f, e))
      (q >>= fun e => pure (f, e)) := h.bind fun _ => .pure rfl
  have hitem : Carries n us k id (op >>= fun f => p >>= fun e => pure (f, e))
      (op >>= fun f => q >>= fun e => pure (f, e)) := hop.bind hoperand
  exact h.bind fun _ => hitem.repeated.bind fun _ => .pure (by simp)

theorem carries_disjunctions : Carries n us k id (disjunctions p) (disjunctions q) := by
  have hsums := carries_chain (carries_chain h (carries_arithmetic hus ["*", "/", "%"]))
    (carries_arithmetic hus ["+", "-"])
  have hcompared : Carries n us k (Prod.map (Token.shift n) id) (compared p) (compared q) :=
    (Carries.operator hus comparisonSymbols).bind fun _ => hsums.bind fun _ => .pure rfl
  have hcomparison : Carries n us k id (comparison p) (comparison q) := by
    refine hsums.bind fun _ => hcompared.optional.bind fun r? => ?_
    cases r? <;> exact .pure rfl
  have hconjunctions := carries_chain hcomparison
    (carries_connective hus .and "AND" "&&")
  exact carries_chain hconjunctions (carries_connective hus .or "OR" "||")

end

/-- Any two nestings that suffice for the tokens will do. -/
theorem carries_prefixed (k : Nat) : ∀ {l m : Nat}, k ≤ l → k ≤ m →
    Carries n us k id (prefixed l) (prefixed m) := by
  induction k with
  | zero =>
    intro l m _ _
    exact ⟨fun hlt => absurd hlt (Nat.not_lt_zero _), fun _ hlt => absurd hlt (Nat.not_lt_zero _)⟩
  | succ k ih =>
    intro l m hl hm
    obtain ⟨l, rfl⟩ := Nat.exists_eq_add_of_le' (Nat.lt_of_lt_of_le (Nat.succ_pos k) hl)
    obtain ⟨m, rfl⟩ := Nat.exists_eq_add_of_le' (Nat.lt_of_lt_of_le (Nat.succ_pos k) hm)
    have h := ih (Nat.le_of_succ_le_succ hl) (Nat.le_of_succ_le_succ hm)
    have hnegation : Carries n us (k + 1) (Token.shift n) negation negation :=
      (Carries.keyword hus "NOT").orElse (.operator hus ["!"])
    exact .firstOf (hnegation.bindShorter shortens_negation fun _ => h.bind fun _ => .pure rfl) <|
      .firstOf ((Carries.operator hus ["-"]).bindShorter (shortens_token _ _) fun _ =>
        h.bind fun _ => .pure rfl) <|
      .firstOf ((Carries.operator hus ["+"]).bindShorter (shortens_token _ _) fun _ => h) <|
      .firstOf (carries_postfixed hus (carries_disjunctions hus h)) .fail

/-- What is read to its end is read as far where a parenthesis closes it. -/
theorem reads_of_run {ts : List Token} {e : Expr}
    (h : run (disjunctions (prefixed (ts.length + 1))) ts = some (e, [])) :
    Layer.disjunction.Reads (ts.map (Token.shift n) ++ us) e us := by
  intro m hm _
  simp only [List.length_append, List.length_map, Layer.slack] at hm
  have hcarries := carries_disjunctions hus
    (carries_prefixed hus (n := n) (ts.length + 1) (Nat.le_refl _) (by omega : ts.length + 1 ≤ m))
  have hclosed : openAfter 0 ts = 0 := (hcarries.keeps (Nat.lt_succ_self _) h).2 0
  have hrun := hcarries.carries ts (Nat.lt_succ_self _) hclosed
  rw [h] at hrun
  rw [Layer.run_goOn (.of_closing hus .disjunction)]
  exact hrun

end

end NoteQuery
