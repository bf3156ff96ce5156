import NoteQuery.Expr.Parser

/-! The grammar of expressions, one layer for each strength of an operator:

    disjunction := conjunction (("OR" | "||") conjunction)*
    conjunction := comparison (("AND" | "&&") comparison)*
    comparison  := sum (("=" | "==" | "!=" | "<" | ">" | "<=" | ">=") sum)?
    sum         := product (("+" | "-") product)*
    product     := prefixed (("*" | "/" | "%") prefixed)*
    prefixed    := ("NOT" | "!" | "-" | "+") prefixed | postfixed
    postfixed   := primary ("." identifier | "[" disjunction "]")*
    primary     := function | "(" disjunction ")" | literal | call | identifier

Repetitions nest to the left. A condition on what may come after the body of a function is left open:
without one this is the grammar above, and the condition that nothing there can carry the body on
makes it unambiguous. -/

namespace NoteQuery
set_option autoImplicit false

/-- The layers of the grammar, from the weakest to the strongest. -/
inductive Layer where
  | disjunction
  | conjunction
  | comparison
  | sum
  | product
  | prefixed
  | postfixed
  | primary
  deriving DecidableEq

namespace Layer

/-- The layer of which the phrases of a layer are made. -/
def operand : Layer → Layer
  | disjunction => conjunction
  | conjunction => comparison
  | comparison => sum
  | sum => product
  | product => prefixed
  | prefixed => postfixed
  | postfixed => primary
  | primary => primary

/-- The connective that a token between two operands of a layer stands for. -/
def connective? : Layer → Token → Option Connective
  | disjunction, t => if t.isKeyword "OR" || t.isOperator "||" then some .or else none
  | conjunction, t => if t.isKeyword "AND" || t.isOperator "&&" then some .and else none
  | _, _ => none

/-- The arithmetic that a token between two operands of a layer stands for. -/
def arithmetic? : Layer → Token → Option Arithmetic
  | sum, t =>
    if t.isOperator "+" then some .add
    else if t.isOperator "-" then some .sub
    else none
  | product, t =>
    if t.isOperator "*" then some .mul
    else if t.isOperator "/" then some .div
    else if t.isOperator "%" then some .rem
    else none
  | _, _ => none

end Layer

namespace Token

def comparison? (t : Token) : Option Comparison :=
  if t.kind = .operator then Comparison.ofSymbol? t.text else none

def isNegation (t : Token) : Bool := t.isKeyword "NOT" || t.isOperator "!"

def isName (t : Token) : Bool := t.kind = .identifier

def literal? (t : Token) : Option Literal :=
  match t.kind with
  | .text => some (.text t.text)
  | .number => (Expr.numeral? t.text).map .number
  | .keyword =>
    if t.text = "true" then some (.bool true)
    else if t.text = "false" then some (.bool false)
    else if t.text = "null" then some .null
    else none
  | _ => none

end Token

mutual

/-- `Derives after l ts e rest`: the tokens of `ts` before `rest` are a phrase of the layer `l` that
stands for `e`, and `after` holds of what comes after the body of each function in it. -/
inductive Derives (after : List Token → Prop) : Layer → List Token → Expr → List Token → Prop
  | operand {l : Layer} {ts rest : List Token} {e : Expr} :
    l ≠ .primary → Derives after l.operand ts e rest → Derives after l ts e rest
  | connect {l : Layer} {ts us rest : List Token} {t : Token} {a b : Expr} {op : Connective} :
    Derives after l ts a (t :: us) → l.connective? t = some op → Derives after l.operand us b rest →
      Derives after l ts (.connect op a b) rest
  | compute {l : Layer} {ts us rest : List Token} {t : Token} {a b : Expr} {op : Arithmetic} :
    Derives after l ts a (t :: us) → l.arithmetic? t = some op → Derives after l.operand us b rest →
      Derives after l ts (.binary (.compute op) a b) rest
  | compare {ts us rest : List Token} {t : Token} {a b : Expr} {c : Comparison} :
    Derives after .sum ts a (t :: us) → t.comparison? = some c → Derives after .sum us b rest →
      Derives after .comparison ts (.binary (.compare c) a b) rest
  | not {ts rest : List Token} {t : Token} {e : Expr} :
    t.isNegation → Derives after .prefixed ts e rest →
      Derives after .prefixed (t :: ts) (.unary .not e) rest
  | minus {ts rest : List Token} {t : Token} {e : Expr} :
    t.isOperator "-" → Derives after .prefixed ts e rest →
      Derives after .prefixed (t :: ts) (.unary .negate e) rest
  | plus {ts rest : List Token} {t : Token} {e : Expr} :
    t.isOperator "+" → Derives after .prefixed ts e rest → Derives after .prefixed (t :: ts) e rest
  | member {ts rest : List Token} {point name : Token} {e : Expr} :
    Derives after .postfixed ts e (point :: name :: rest) → point.isMark "." → name.isName →
      Derives after .postfixed ts (.property e (.text name.text)) rest
  | fixed {ts us rest : List Token} {opening closing : Token} {e : Expr} {key : Literal} :
    Derives after .postfixed ts e (opening :: us) → opening.isMark "[" →
      Derives after .disjunction us (.literal key) (closing :: rest) → closing.isMark "]" →
        Derives after .postfixed ts (.property e key) rest
  | index {ts us rest : List Token} {opening closing : Token} {e key : Expr} :
    Derives after .postfixed ts e (opening :: us) → opening.isMark "[" →
      Derives after .disjunction us key (closing :: rest) → closing.isMark "]" →
        (∀ v, key ≠ .literal v) → Derives after .postfixed ts (.index e key) rest
  | function {ts rest : List Token} {x arrow : Token} {e : Expr} :
    x.isName → arrow.isOperator "=>" → Derives after .disjunction ts e rest → after rest →
      Derives after .primary (x :: arrow :: ts) (.lambda x.text e) rest
  | groupedFunction {ts rest : List Token} {opening x closing arrow : Token} {e : Expr} :
    opening.isMark "(" → x.isName → closing.isMark ")" → arrow.isOperator "=>" →
      Derives after .disjunction ts e rest → after rest →
        Derives after .primary (opening :: x :: closing :: arrow :: ts) (.lambda x.text e) rest
  | group {ts rest : List Token} {opening closing : Token} {e : Expr} :
    opening.isMark "(" → Derives after .disjunction ts e (closing :: rest) → closing.isMark ")" →
      Derives after .primary (opening :: ts) e rest
  | literal {rest : List Token} {t : Token} {v : Literal} :
    t.literal? = some v → Derives after .primary (t :: rest) (.literal v) rest
  | callNone {rest : List Token} {f opening closing : Token} :
    f.isName → opening.isMark "(" → closing.isMark ")" →
      Derives after .primary (f :: opening :: closing :: rest) (.call f.text []) rest
  | call {ts rest : List Token} {f opening closing : Token} {es : List Expr} :
    f.isName → opening.isMark "(" → Arguments after ts es (closing :: rest) → closing.isMark ")" →
      Derives after .primary (f :: opening :: ts) (.call f.text es) rest
  | name {rest : List Token} {x : Token} :
    x.isName → Derives after .primary (x :: rest) (.name x.text) rest

inductive Arguments (after : List Token → Prop) : List Token → List Expr → List Token → Prop
  | one {ts rest : List Token} {e : Expr} :
    Derives after .disjunction ts e rest → Arguments after ts [e] rest
  | more {ts us rest : List Token} {comma : Token} {e : Expr} {es : List Expr} :
    Derives after .disjunction ts e (comma :: us) → comma.isMark "," → Arguments after us es rest →
      Arguments after ts (e :: es) rest

end

/-- The phrases of the grammar, with nothing asked of what comes after the body of a function. -/
abbrev Phrase := Derives fun _ => True

/-- Some tokens were taken from the front of a list to leave another one. -/
def Consumed (ts rest : List Token) : Prop := ∃ us, us ≠ [] ∧ ts = us ++ rest

namespace Consumed

variable {ts us rest : List Token}

theorem one (t : Token) (rest : List Token) : Consumed (t :: rest) rest := ⟨[t], by simp, rfl⟩

theorem trans (h : Consumed ts us) (k : Consumed us rest) : Consumed ts rest := by
  obtain ⟨vs, hne, rfl⟩ := h
  obtain ⟨ws, _, rfl⟩ := k
  exact ⟨vs ++ ws, by simp [hne], by simp⟩

theorem cons (t : Token) (h : Consumed ts rest) : Consumed (t :: ts) rest := (one t ts).trans h

theorem skip {t : Token} (h : Consumed ts (t :: rest)) : Consumed ts rest := h.trans (one t rest)

theorem length_lt (h : Consumed ts rest) : rest.length < ts.length := by
  obtain ⟨us, hne, rfl⟩ := h
  have := List.length_pos_iff.mpr hne
  simp only [List.length_append]
  omega

theorem suffix (h : Consumed ts rest) : rest <:+ ts := by
  obtain ⟨us, _, rfl⟩ := h
  exact List.suffix_append us rest

end Consumed

section
variable {after : List Token → Prop}

mutual

theorem Derives.consumed {l : Layer} {ts rest : List Token} {e : Expr}
    (h : Derives after l ts e rest) : Consumed ts rest := by
  match h with
  | .operand _ h => exact h.consumed
  | .connect ha _ hb => exact ha.consumed.skip.trans hb.consumed
  | .compute ha _ hb => exact ha.consumed.skip.trans hb.consumed
  | .compare ha _ hb => exact ha.consumed.skip.trans hb.consumed
  | .not _ h => exact h.consumed.cons _
  | .minus _ h => exact h.consumed.cons _
  | .plus _ h => exact h.consumed.cons _
  | .member h _ _ => exact h.consumed.skip.skip
  | .fixed h _ hk _ => exact h.consumed.skip.trans hk.consumed.skip
  | .index h _ hk _ _ => exact h.consumed.skip.trans hk.consumed.skip
  | .function _ _ h _ => exact (h.consumed.cons _).cons _
  | .groupedFunction _ _ _ _ h _ => exact (((h.consumed.cons _).cons _).cons _).cons _
  | .group _ h _ => exact h.consumed.skip.cons _
  | .literal _ => exact .one _ _
  | .callNone _ _ _ => exact ((Consumed.one _ _).cons _).cons _
  | .call _ _ h _ => exact (h.consumed.skip.cons _).cons _
  | .name _ => exact .one _ _

theorem Arguments.consumed {ts rest : List Token} {es : List Expr}
    (h : Arguments after ts es rest) : Consumed ts rest := by
  match h with
  | .one h => exact h.consumed
  | .more h _ hs => exact h.consumed.skip.trans hs.consumed

end

end

end NoteQuery
