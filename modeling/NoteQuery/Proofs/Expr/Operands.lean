import NoteQuery.Proofs.Expr.Soundness
import NoteQuery.Proofs.Expr.Stopping

/-! How operands, members and arguments are read when what they contain is read. An alternative is reached
only if the ones before it fail: a name could start a function or a call, and a parenthesis the
parameter of a function. -/

namespace NoteQuery
set_option autoImplicit false
open NoteQuery.Parser NoteQuery.Expr

/-- A token that a phrase with a prefix starts with. -/
def Token.isPrefix (t : Token) : Bool := t.isNegation || t.isOperator "-" || t.isOperator "+"

theorem not_isPrefix_of_mark {t : Token} {symbol : String} (h : t.isMark symbol) :
    t.isPrefix = false := by
  simp only [Token.isMark, Bool.and_eq_true, decide_eq_true_eq] at h
  simp [Token.isPrefix, Token.isNegation, Token.isKeyword, Token.isOperator, h.1]

theorem not_isPrefix_of_name {t : Token} (h : t.isName) : t.isPrefix = false := by
  simp only [Token.isName, decide_eq_true_eq] at h
  simp [Token.isPrefix, Token.isNegation, Token.isKeyword, Token.isOperator, h]

theorem not_isPrefix_of_literal? {t : Token} {v : Literal} (h : t.literal? = some v) :
    t.isPrefix = false := by
  unfold Token.literal? at h
  split at h
  case h_3 hk =>
    have hnot : t.text ≠ "NOT" := by
      intro ht
      simp [ht] at h
    simp [Token.isPrefix, Token.isNegation, Token.isKeyword, Token.isOperator, hk, hnot]
  case h_4 => cases h
  all_goals simp [Token.isPrefix, Token.isNegation, Token.isKeyword, Token.isOperator, *]

/-- No phrase without a prefix starts like one with a prefix. -/
theorem Derives.head_not_isPrefix {after : List Token → Prop} {l : Layer} {ts rest : List Token}
    {e : Expr} (h : Derives after l ts e rest) (hl : l = .postfixed ∨ l = .primary) :
    ∃ t us, ts = t :: us ∧ t.isPrefix = false := by
  match h with
  | .operand hne h =>
    refine h.head_not_isPrefix ?_
    rcases hl with rfl | rfl
    · exact .inr rfl
    · exact absurd rfl hne
  | .connect _ hop _ => rcases hl with rfl | rfl <;> cases hop
  | .compute _ hop _ => rcases hl with rfl | rfl <;> cases hop
  | .compare _ _ _ => simp at hl
  | .not _ _ => simp at hl
  | .minus _ _ => simp at hl
  | .plus _ _ => simp at hl
  | .member h _ _ => exact h.head_not_isPrefix (.inl rfl)
  | .fixed h _ _ _ => exact h.head_not_isPrefix (.inl rfl)
  | .index h _ _ _ _ => exact h.head_not_isPrefix (.inl rfl)
  | .function hx _ _ _ => exact ⟨_, _, rfl, not_isPrefix_of_name hx⟩
  | .groupedFunction ho _ _ _ _ _ => exact ⟨_, _, rfl, not_isPrefix_of_mark ho⟩
  | .group ho _ _ => exact ⟨_, _, rfl, not_isPrefix_of_mark ho⟩
  | .literal hv => exact ⟨_, _, rfl, not_isPrefix_of_literal? hv⟩
  | .callNone hf _ _ => exact ⟨_, _, rfl, not_isPrefix_of_name hf⟩
  | .call hf _ _ _ => exact ⟨_, _, rfl, not_isPrefix_of_name hf⟩
  | .name hx => exact ⟨_, _, rfl, not_isPrefix_of_name hx⟩

theorem run_prefixed_of_not_isPrefix {t : Token} (ht : t.isPrefix = false) (n : Nat)
    (ts : List Token) :
    run (prefixed (n + 1)) (t :: ts) =
      run (postfixed (disjunctions (prefixed n))) (t :: ts) := by
  simp only [Token.isPrefix, Bool.or_eq_false_iff] at ht
  simp [run_prefixed_succ, ht.1.1, ht.1.2, ht.2]

theorem not_isNegation_of_sign {t : Token} {symbol : String} (ht : t.isOperator symbol)
    (hsymbol : symbol ≠ "!") : t.isNegation = false := by
  simp only [Token.isOperator, Bool.and_eq_true, decide_eq_true_eq, beq_iff_eq] at ht
  simp [Token.isNegation, Token.isKeyword, Token.isOperator, ht.1, ht.2, hsymbol]

section
variable {expr : Parser Expr} {x t opening closing : Token} {ts us rest : List Token} {e : Expr}

theorem isMark_of_isName (hx : x.isName) (symbol : String) : x.isMark symbol = false := by
  simp only [Token.isName, decide_eq_true_eq] at hx
  simp [Token.isMark, hx]

theorem run_identifier (hx : x.isName) : run identifier (x :: ts) = some (x, ts) :=
  run_token_eq_some.mpr ⟨rfl, hx⟩

theorem run_parameter_of_isName (hx : x.isName) :
    run (orElse (between "(" ")" identifier) identifier) (x :: ts) = some (x, ts) := by
  have hnone : run (between "(" ")" identifier) (x :: ts) = none := by
    rw [between, mark, run_bind_none]
    simp [run_token, isMark_of_isName hx]
  rw [run_orElse, hnone, run_identifier hx]
  rfl

theorem run_lambda_of_isName (hx : x.isName) :
    run (lambdaParser expr) (x :: ts) =
      run (operator ["=>"] >>= fun _ => expr >>= fun b => pure (lambda x.text b)) ts :=
  run_bind_some (run_parameter_of_isName hx) _

/-- A function needs an arrow behind its parameter. -/
theorem run_lambda_eq_none (hx : x.isName) (h : ∀ t ∈ ts.head?, t.isOperator "=>" = false) :
    run (lambdaParser expr) (x :: ts) = none := by
  rw [run_lambda_of_isName hx]
  cases ts with
  | nil => rfl
  | cons t ts => rw [run_bind_none (by rw [run_operator_cons, h t rfl]; rfl)]

theorem run_group_of_isName (hx : x.isName) : run (between "(" ")" expr) (x :: ts) = none := by
  rw [between, mark, run_bind_none]
  simp [run_token, isMark_of_isName hx]

theorem run_literal_of_isName (hx : x.isName) :
    run (literal <$> literalParser) (x :: ts) = none := by
  simp only [Token.isName, decide_eq_true_eq] at hx
  rw [run_map, run_literalParser_cons (by simp [hx])]
  simp [Token.literal?, hx]

theorem run_primary_of_name (hx : x.isName) (h : Stops .primary rest) :
    run (primary expr) (x :: rest) = some (.name x.text, rest) := by
  have harrow : ∀ t ∈ rest.head?, t.isOperator "=>" = false := by
    intro t ht
    cases rest with
    | nil => cases ht
    | cons s ss => cases ht; exact h.isOperator_eq_false rfl (Nat.le_refl _)
  have hcall : run (callParser expr) (x :: rest) = none := by
    rw [callParser, run_bind_some (run_identifier hx), between, mark]
    cases rest with
    | nil => rfl
    | cons s ss =>
      have hopening : s.isMark "(" = false := h.isMark_eq_false rfl (Nat.le_refl _)
      simp [run_bind, run_token, hopening]
  have hname : run (identifier >>= fun t => pure (Expr.name t.text)) (x :: rest) =
      some (.name x.text, rest) := run_bind_some (run_identifier hx) _
  simp only [primary, run_firstOf_cons, run_lambda_eq_none hx harrow, run_group_of_isName hx,
    run_literal_of_isName hx, hcall, hname, Option.none_or, Option.some_or]

theorem run_primary_of_literal {v : Literal} (h : t.literal? = some v) :
    run (primary expr) (t :: rest) = some (.literal v, rest) := by
  have hmark : t.isMark "(" = false := by
    unfold Token.literal? at h
    split at h
    case h_4 => cases h
    all_goals simp [Token.isMark, *]
  have hname : t.kind ≠ .identifier := by
    intro hk
    simp [Token.literal?, hk] at h
  have hnumber : t.kind = .number → (numeral? t.text).isSome := by
    intro hk
    simp only [Token.literal?, hk, Option.map_eq_some_iff] at h
    obtain ⟨n, hn, _⟩ := h
    simp [hn]
  have hgroup : run (between "(" ")" expr) (t :: rest) = none := by
    simp [between, mark, run_bind, run_token, hmark]
  have hlambda : run (lambdaParser expr) (t :: rest) = none := by
    simp [lambdaParser, run_bind, run_orElse, between, mark, identifier, ofKind, run_token, hmark,
      hname]
  have hliteral : run (literal <$> literalParser) (t :: rest) = some (.literal v, rest) := by
    rw [run_map, run_literalParser_cons hnumber, h]
    rfl
  simp only [primary, run_firstOf_cons, hlambda, hgroup, hliteral, Option.none_or, Option.some_or]

theorem run_primary_of_function {arrow : Token} (hx : x.isName) (harrow : arrow.isOperator "=>")
    (h : run expr ts = some (e, rest)) :
    run (primary expr) (x :: arrow :: ts) = some (.lambda x.text e, rest) := by
  have hlambda : run (lambdaParser expr) (x :: arrow :: ts) = some (.lambda x.text e, rest) := by
    rw [run_lambda_of_isName hx, run_bind_some (by rw [run_operator_cons, if_pos harrow]),
      run_bind_some h]
    rfl
  simp only [primary, run_firstOf_cons, hlambda, Option.some_or]

theorem run_between {α : Type} {p : Parser α} {a : α} {opener closer : String}
    (ho : opening.isMark opener) (h : run p ts = some (a, closing :: rest))
    (hc : closing.isMark closer) :
    run (between opener closer p) (opening :: ts) = some (a, rest) :=
  run_between_eq_some.mpr ⟨opening, ts, closing, rfl, ho, h, hc⟩

theorem run_primary_of_groupedFunction {arrow : Token} (ho : opening.isMark "(") (hx : x.isName)
    (hc : closing.isMark ")") (harrow : arrow.isOperator "=>") (h : run expr ts = some (e, rest)) :
    run (primary expr) (opening :: x :: closing :: arrow :: ts) = some (.lambda x.text e, rest) := by
  have hparameter : run (orElse (between "(" ")" identifier) identifier)
      (opening :: x :: closing :: arrow :: ts) = some (x, arrow :: ts) := by
    rw [run_orElse, run_between ho (run_identifier hx) hc]
    rfl
  have hlambda : run (lambdaParser expr) (opening :: x :: closing :: arrow :: ts) =
      some (.lambda x.text e, rest) := by
    rw [lambdaParser, run_bind_some hparameter,
      run_bind_some (by rw [run_operator_cons, if_pos harrow]), run_bind_some h]
    rfl
  simp only [primary, run_firstOf_cons, hlambda, Option.some_or]

/-- A group could be the parameter of a function only if an arrow came after it. -/
theorem run_primary_of_group (ho : opening.isMark "(")
    (h : run expr ts = some (e, closing :: rest)) (hc : closing.isMark ")")
    (hname : ∀ y c us, ts = y :: c :: us → y.isName → c.isMark ")" →
      run expr ts = some (.name y.text, c :: us)) (hs : Stops .primary rest) :
    run (primary expr) (opening :: ts) = some (e, rest) := by
  have hlambda : run (lambdaParser expr) (opening :: ts) = none := by
    rw [Option.eq_none_iff_forall_ne_some]
    rintro ⟨f, us⟩ hf
    obtain ⟨y, vs, hy, harrow⟩ := run_bind_eq_some.mp hf
    obtain ⟨arrow, ws, rfl, ⟨hk, ht⟩, _⟩ := run_operator_bind_eq_some.mp harrow
    rw [run_orElse, Option.or_eq_some_iff] at hy
    rcases hy with hy | ⟨_, hy⟩
    · obtain ⟨o, xs, c, heq, _, hy, hclose⟩ := run_between_eq_some.mp hy
      cases heq
      obtain ⟨rfl, hparameter⟩ := run_token_eq_some.mp hy
      rw [hname y c (arrow :: ws) rfl hparameter hclose] at h
      cases h
      have harrow : arrow.isOperator "=>" = false := hs.isOperator_eq_false rfl (Nat.le_refl _)
      simp_all [Token.isOperator]
    · obtain ⟨heq, hparameter⟩ := run_token_eq_some.mp hy
      cases heq
      have := isMark_of_isName hparameter "("
      simp [ho] at this
  have hgroup := run_between ho h hc
  simp only [primary, run_firstOf_cons, hlambda, hgroup, Option.none_or, Option.some_or]

theorem run_primary_of_call {es : List Expr} (hx : x.isName) (ho : opening.isMark "(")
    (h : run (separated (mark ",") expr) ts = some (es, closing :: rest)) (hc : closing.isMark ")") :
    run (primary expr) (x :: opening :: ts) = some (.call x.text es, rest) := by
  have harrow : ∀ t ∈ (opening :: ts).head?, t.isOperator "=>" = false := by
    intro t ht
    cases ht
    simp only [Token.isMark, Bool.and_eq_true, decide_eq_true_eq] at ho
    simp [Token.isOperator, ho.1]
  have hcall : run (callParser expr) (x :: opening :: ts) = some (.call x.text es, rest) := by
    rw [callParser, run_bind_some (run_identifier hx), run_bind_some (run_between ho h hc)]
    rfl
  simp only [primary, run_firstOf_cons, run_lambda_eq_none hx harrow, run_group_of_isName hx,
    run_literal_of_isName hx, hcall, Option.none_or, Option.some_or]

end

section
variable {expr : Parser Expr} {opening closing point x : Token} {ts us rest : List Token}

theorem run_member_named (ht : point.isMark ".") (hx : x.isName) :
    run (member expr) (point :: x :: rest) = some (.named x.text, rest) := by
  have hfirst : run (mark "." >>= fun _ => identifier >>= fun t => pure (Member.named t.text))
      (point :: x :: rest) = some (.named x.text, rest) :=
    run_mark_bind_eq_some.mpr ⟨point, x :: rest, rfl, ht, run_bind_some (run_identifier hx) _⟩
  simp only [member, run_firstOf_cons, hfirst, Option.some_or]

theorem run_member_indexed {key : Expr} (ho : opening.isMark "[")
    (h : run expr ts = some (key, closing :: rest)) (hc : closing.isMark "]") :
    run (member expr) (opening :: ts) = some (.indexed key, rest) := by
  have hfirst : run (mark "." >>= fun _ => identifier >>= fun t => pure (Member.named t.text))
      (opening :: ts) = none := by
    rw [run_bind_none]
    simp only [Token.isMark, Bool.and_eq_true, decide_eq_true_eq, beq_iff_eq] at ho
    simp [mark, run_token, Token.isMark, ho.2]
  have hsecond : run (between "[" "]" expr >>= fun key => pure (Member.indexed key))
      (opening :: ts) = some (.indexed key, rest) := run_bind_some (run_between ho h hc) _
  simp only [member, run_firstOf_cons, hfirst, hsecond, Option.none_or, Option.some_or]

theorem of_indexed {key : Expr} (h : ∀ v, key ≠ .literal v) (base : Expr) :
    Member.of base (.indexed key) = .index base key := by
  cases key with
  | literal v => exact absurd rfl (h v)
  | _ => rfl

theorem run_disjunctions_none {operand : Parser Expr} (h : run operand ts = none) :
    run (disjunctions operand) ts = none := by
  have hproducts : run (products operand) ts = none := run_bind_none h _
  have hsums : run (sums operand) ts = none := run_bind_none hproducts _
  have hcomparison : run (comparison operand) ts = none := run_bind_none hsums _
  have hconjunctions : run (conjunctions operand) ts = none := run_bind_none hcomparison _
  exact run_bind_none hconjunctions _

/-- No phrase starts with what closes a call. -/
theorem run_disjunctions_of_closing (hc : closing.isMark ")") (n : Nat) :
    run (disjunctions (prefixed n)) (closing :: ts) = none := by
  refine run_disjunctions_none ?_
  cases n with
  | zero => rfl
  | succ n =>
    rw [run_prefixed_of_not_isPrefix (not_isPrefix_of_mark hc), postfixed, run_bind_none]
    simp only [Token.isMark, Bool.and_eq_true, decide_eq_true_eq, beq_iff_eq] at hc
    rw [primary, run_firstOf_cons, run_firstOf_cons, run_firstOf_cons, run_map,
      run_literalParser_cons (by simp [hc.1])]
    simp [lambdaParser, callParser, between, mark, identifier, ofKind, run_firstOf_cons,
      run_firstOf_nil, run_bind, run_orElse, run_token, Token.isMark, Token.literal?, hc.1, hc.2]

/-- What a call reads between its parentheses: one argument, and then others behind commas. -/
def Listed (expr : Parser Expr) (ts : List Token) (es : List Expr) (rest : List Token) : Prop :=
  ∃ e us more, es = e :: more ∧ run expr ts = some (e, us) ∧ us.length < ts.length ∧
    run (repeated (mark "," >>= fun _ => expr)) us = some (more, rest)

theorem Listed.one {e : Expr} (h : run expr ts = some (e, rest)) (hlt : rest.length < ts.length)
    (hc : ∀ t ∈ rest.head?, t.isMark ")") : Listed expr ts [e] rest := by
  refine ⟨e, rest, [], rfl, h, hlt, run_repeated_none ?_⟩
  cases rest with
  | nil => rfl
  | cons t ts =>
    have ht := hc t rfl
    simp only [Token.isMark, Bool.and_eq_true, decide_eq_true_eq, beq_iff_eq] at ht
    simp [mark, run_bind, run_token, Token.isMark, ht.2]

theorem Listed.more {e : Expr} {es : List Expr} {comma : Token}
    (h : run expr ts = some (e, comma :: us)) (hlt : (comma :: us).length < ts.length)
    (hcomma : comma.isMark ",") (hs : Listed expr us es rest) : Listed expr ts (e :: es) rest := by
  obtain ⟨a, vs, as, rfl, ha, hshorter, has⟩ := hs
  have hitem : run (mark "," >>= fun _ => expr) (comma :: us) = some (a, vs) :=
    run_mark_bind_eq_some.mpr ⟨comma, us, rfl, hcomma, ha⟩
  refine ⟨e, comma :: us, a :: as, rfl, h, hlt, ?_⟩
  rw [run_repeated_some hitem (Nat.lt_succ_of_lt hshorter), has]
  rfl

theorem Listed.run_separated {es : List Expr} (h : Listed expr ts es rest) :
    run (separated (mark ",") expr) ts = some (es, rest) := by
  obtain ⟨e, us, more, rfl, he, _, hmore⟩ := h
  have hlist : run (expr >>= fun first => repeated (mark "," >>= fun _ => expr) >>= fun rest =>
      pure (first :: rest)) ts = some (e :: more, rest) := by
    rw [run_bind_some he, run_bind_some hmore]
    rfl
  change run (orElse (expr >>= fun first => repeated (mark "," >>= fun _ => expr) >>= fun rest =>
    pure (first :: rest)) _) ts = _
  rw [run_orElse, hlist]
  rfl

theorem run_separated_none (h : run expr ts = none) :
    run (separated (mark ",") expr) ts = some ([], ts) := by
  rw [separated, run_orElse, run_bind_none h]
  rfl

end

end NoteQuery
