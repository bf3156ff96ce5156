import NoteQuery.Proofs.Expr.Combinators
import NoteQuery.Proofs.Expr.Grammar

/-! Each layer of the grammar has a parser, made from the parser of operands with prefixes. In the
layers that repeat it reads one operand and then as many joined ones as there are. -/

namespace NoteQuery
set_option autoImplicit false
open NoteQuery.Parser

/-- The parser of a layer. -/
def Layer.parser (operand : Parser Expr) : Layer → Parser Expr
  | disjunction => Expr.disjunctions operand
  | conjunction => Expr.conjunctions operand
  | comparison => Expr.comparison operand
  | sum => Expr.sums operand
  | product => Expr.products operand
  | prefixed => operand
  | postfixed => Expr.postfixed (Expr.disjunctions operand)
  | primary => Expr.primary (Expr.disjunctions operand)

namespace Layer

/-- Whether a layer repeats its operand. -/
def repeats : Layer → Bool
  | disjunction => true
  | conjunction => true
  | sum => true
  | product => true
  | _ => false

/-- How a token between two operands of a layer joins them. -/
def join? (l : Layer) (t : Token) : Option (Expr → Expr → Expr) :=
  ((l.connective? t).map .connect).or ((l.arithmetic? t).map fun op => .binary (.compute op))

/-- The parser of the token that joins two operands of a layer. -/
def joiner : Layer → Parser (Expr → Expr → Expr)
  | disjunction => Expr.connective .or "OR" "||"
  | conjunction => Expr.connective .and "AND" "&&"
  | sum => Expr.arithmetic ["+", "-"]
  | product => Expr.arithmetic ["*", "/", "%"]
  | _ => fail

theorem run_connective (op : Connective) (word symbol : String) (t : Token) (ts : List Token) :
    run (Expr.connective op word symbol) (t :: ts) =
      if t.isKeyword word || t.isOperator symbol then some (.connect op, ts) else none := by
  rw [Expr.connective, run_bind, run_orElse, keyword, run_operator_cons, run_token]
  cases t.isKeyword word <;> cases t.isOperator symbol <;> rfl

theorem run_arithmetic (symbols : List String) (t : Token) (ts : List Token) :
    run (Expr.arithmetic symbols) (t :: ts) =
      if t.kind = .operator && symbols.contains t.text then
        some (.binary (.compute ((Arithmetic.ofSymbol? t.text).getD .add)), ts)
      else none := by
  rw [Expr.arithmetic, run_bind, operator, run_token]
  split <;> rfl

theorem run_joiner_cons (l : Layer) (hl : l.repeats) (t : Token) (ts : List Token) :
    run l.joiner (t :: ts) = (l.join? t).map fun f => (f, ts) := by
  cases l with
  | disjunction =>
    rw [joiner, run_connective]
    by_cases h : t.isKeyword "OR" || t.isOperator "||" <;>
      simp [join?, connective?, arithmetic?, h]
  | conjunction =>
    rw [joiner, run_connective]
    by_cases h : t.isKeyword "AND" || t.isOperator "&&" <;>
      simp [join?, connective?, arithmetic?, h]
  | sum =>
    rw [joiner, run_arithmetic]
    simp only [join?, connective?, arithmetic?, Token.isOperator]
    by_cases hk : t.kind = .operator
    · by_cases hp : t.text = "+"
      · simp [hk, hp, Arithmetic.ofSymbol?]
      · by_cases hm : t.text = "-" <;> simp [hk, hp, hm, Arithmetic.ofSymbol?]
    · simp [hk]
  | product =>
    rw [joiner, run_arithmetic]
    simp only [join?, connective?, arithmetic?, Token.isOperator]
    by_cases hk : t.kind = .operator
    · by_cases ht : t.text = "*"
      · simp [hk, ht, Arithmetic.ofSymbol?]
      · by_cases hd : t.text = "/"
        · simp [hk, hd, Arithmetic.ofSymbol?]
        · by_cases hr : t.text = "%" <;> simp [hk, ht, hd, hr, Arithmetic.ofSymbol?]
    · simp [hk]
  | _ => simp [repeats] at hl

theorem run_joiner_nil (l : Layer) : run l.joiner [] = none := by cases l <;> rfl

/-- A joining token with the operand after it. -/
def joined (l : Layer) (operand : Parser Expr) : Parser ((Expr → Expr → Expr) × Expr) :=
  l.joiner >>= fun f => l.operand.parser operand >>= fun e => pure (f, e)

/-- What follows the first operand of a layer that repeats. -/
def tail (l : Layer) (operand : Parser Expr) (e : Expr) : Parser Expr :=
  folded (l.joined operand) (fun left r => r.1 left r.2) e

theorem parser_of_repeats {l : Layer} (hl : l.repeats) (operand : Parser Expr) :
    l.parser operand = l.operand.parser operand >>= l.tail operand := by
  cases l <;> first | rfl | simp [repeats] at hl

theorem run_joined_eq_some {l : Layer} (hl : l.repeats) {operand : Parser Expr}
    {ts rest : List Token} {f : Expr → Expr → Expr} {e : Expr} :
    run (l.joined operand) ts = some ((f, e), rest) ↔
      ∃ t us, ts = t :: us ∧ l.join? t = some f ∧
        run (l.operand.parser operand) us = some (e, rest) := by
  rw [joined, run_bind_eq_some]
  constructor
  · rintro ⟨g, us, hg, h⟩
    obtain ⟨b, vs, hb, h⟩ := run_bind_eq_some.mp h
    cases h
    cases ts with
    | nil => simp [run_joiner_nil] at hg
    | cons t ts =>
      rw [run_joiner_cons l hl] at hg
      obtain ⟨k, hk, he⟩ := Option.map_eq_some_iff.mp hg
      cases he
      exact ⟨t, us, rfl, hk, hb⟩
  · rintro ⟨t, us, rfl, hf, he⟩
    refine ⟨f, us, ?_, ?_⟩
    · rw [run_joiner_cons l hl, hf]
      rfl
    · rw [run_bind_some he]
      rfl

/-- A joining token that can be read means that the layer goes on. -/
theorem run_joined_none {l : Layer} (hl : l.repeats) {operand : Parser Expr} {ts : List Token}
    (h : ∀ t ∈ ts.head?, l.join? t = none) : run (l.joined operand) ts = none := by
  cases ts with
  | nil => rw [joined, run_bind_none (run_joiner_nil l)]
  | cons t ts =>
    rw [joined, run_bind_none]
    rw [run_joiner_cons l hl, h t (by simp)]
    rfl

end Layer

/-- The parser of a negation. -/
def negation : Parser Token := orElse (keyword "NOT") (operator ["!"])

theorem run_negation_cons (t : Token) (ts : List Token) :
    run negation (t :: ts) = if t.isNegation then some (t, ts) else none := by
  rw [negation, run_orElse, keyword, run_token, run_operator_cons, Token.isNegation]
  cases t.isKeyword "NOT" <;> cases t.isOperator "!" <;> rfl

/-- Phrases with a prefix and phrases without one, where `operand` reads what follows a prefix. -/
def withPrefix (operand : Parser Expr) : Parser Expr :=
  firstOf [
    negation >>= fun _ => operand >>= fun e => pure (.unary .not e),
    operator ["-"] >>= fun _ => operand >>= fun e => pure (.unary .negate e),
    operator ["+"] >>= fun _ => operand,
    Expr.postfixed (Expr.disjunctions operand)]

theorem prefixed_succ (n : Nat) : Expr.prefixed (n + 1) = withPrefix (Expr.prefixed n) := rfl

/-- Prefixes are tried one after the other, and then a phrase without one. -/
theorem run_prefixed_succ (n : Nat) (t : Token) (ts : List Token) :
    run (Expr.prefixed (n + 1)) (t :: ts) =
      (if t.isNegation then
        (run (Expr.prefixed n) ts).map fun r => (.unary .not r.1, r.2) else none).or
      ((if t.isOperator "-" then
        (run (Expr.prefixed n) ts).map fun r => (.unary .negate r.1, r.2) else none).or
      ((if t.isOperator "+" then run (Expr.prefixed n) ts else none).or
        (run (Expr.postfixed (Expr.disjunctions (Expr.prefixed n))) (t :: ts)))) := by
  have hread (test : Bool) (op : UnaryOp) :
      ((if test then some (t, ts) else none).bind fun r =>
        run (Expr.prefixed n >>= fun e => pure (Expr.unary op e)) r.2) =
        if test then (run (Expr.prefixed n) ts).map fun r => (Expr.unary op r.1, r.2) else none := by
    cases test with
    | false => rfl
    | true =>
      simp only [if_true, Option.bind_some, run_bind]
      cases run (Expr.prefixed n) ts <;> rfl
  rw [prefixed_succ, withPrefix]
  simp only [run_firstOf_cons, run_firstOf_nil, Option.or_none]
  rw [run_bind negation, run_negation_cons, hread, run_bind (operator ["-"]), run_operator_cons,
    hread, run_bind (operator ["+"]), run_operator_cons]
  cases t.isOperator "+" <;> rfl

section
variable {p : Parser Expr} {ts us rest : List Token} {a b : Expr}

/-- A comparing token with the operand after it. -/
def compared (operand : Parser Expr) : Parser (Token × Expr) :=
  operator Expr.comparisonSymbols >>= fun t => Expr.sums operand >>= fun e => pure (t, e)

theorem comparison?_eq_some {t : Token} {c : Comparison} :
    t.comparison? = some c ↔ (t.kind = .operator ∧ Expr.comparisonSymbols.contains t.text) ∧
      (Comparison.ofSymbol? t.text).getD .eq = c := by
  rw [Token.comparison?]
  by_cases hk : t.kind = .operator
  · simp only [hk, if_true, true_and]
    constructor
    · intro h
      refine ⟨?_, by rw [h]; rfl⟩
      unfold Comparison.ofSymbol? at h
      split at h
      case h_8 => cases h
      all_goals simp [Expr.comparisonSymbols, *]
    · rintro ⟨h, rfl⟩
      simp only [Expr.comparisonSymbols, List.contains_cons, List.contains_nil, Bool.or_false,
        Bool.or_eq_true, beq_iff_eq] at h
      rcases h with h | h | h | h | h | h | h <;> rw [h] <;> rfl
  · simp [hk]

theorem run_compared_eq_some {t : Token} :
    run (compared p) ts = some ((t, b), rest) ↔
      ∃ us c, ts = t :: us ∧ t.comparison? = some c ∧ run (Expr.sums p) us = some (b, rest) := by
  rw [compared, run_operator_bind_eq_some]
  constructor
  · rintro ⟨s, us, rfl, hs, h⟩
    obtain ⟨e, he, heq⟩ := run_bind_pure_eq_some.mp h
    cases heq
    exact ⟨us, _, rfl, comparison?_eq_some.mpr ⟨hs, rfl⟩, he⟩
  · rintro ⟨us, c, rfl, hc, hb⟩
    exact ⟨t, us, rfl, (comparison?_eq_some.mp hc).1, run_bind_pure_eq_some.mpr ⟨b, hb, rfl⟩⟩

theorem run_comparison (h : run (Expr.sums p) ts = some (a, us)) :
    run (Expr.comparison p) ts = some (match run (compared p) us with
      | none => (a, us)
      | some ((t, b), rest) =>
        (.binary (.compare ((Comparison.ofSymbol? t.text).getD .eq)) a b, rest)) := by
  change run (Expr.sums p >>= fun left => optional (compared p) >>= fun r => _) ts = _
  rw [run_bind_some h, run_bind, run_optional]
  cases run (compared p) us with
  | none => rfl
  | some r => rfl

end

namespace Derives

variable {after : List Token → Prop}

theorem join {l : Layer} {ts us rest : List Token} {t : Token} {a b : Expr}
    {f : Expr → Expr → Expr} (ha : Derives after l ts a (t :: us)) (hf : l.join? t = some f)
    (hb : Derives after l.operand us b rest) : Derives after l ts (f a b) rest := by
  rcases Option.or_eq_some_iff.mp hf with h | ⟨_, h⟩
  · obtain ⟨op, hop, rfl⟩ := Option.map_eq_some_iff.mp h
    exact .connect ha hop hb
  · obtain ⟨op, hop, rfl⟩ := Option.map_eq_some_iff.mp h
    exact .compute ha hop hb

end Derives

end NoteQuery
