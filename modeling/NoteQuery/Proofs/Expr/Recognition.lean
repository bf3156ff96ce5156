import NoteQuery.Proofs.Expr.Completeness

/-! The parser recognizes its grammar: whatever it answers is a phrase, and without functions every phrase
is answered. A function is left out because its body reaches as far as it can, where the grammar lets it
end earlier. -/

namespace NoteQuery
set_option autoImplicit false
open NoteQuery.Expr

/-- No token is an arrow. -/
def Arrowless (ts : List Token) : Prop := ∀ t ∈ ts, t.isOperator "=>" = false

namespace Arrowless

variable {ts us : List Token} {t : Token}

theorem consumed (h : Arrowless ts) (hc : Consumed ts us) : Arrowless us :=
  fun s hs => h s (hc.suffix.subset hs)

theorem tail (h : Arrowless (t :: ts)) : Arrowless ts := h.consumed (.one t ts)

end Arrowless

section
variable {after : List Token → Prop}

mutual

/-- Without functions a phrase asks nothing of what comes after their bodies. -/
theorem Derives.of_arrowless (after' : List Token → Prop) {l : Layer} {ts rest : List Token}
    {e : Expr} (h : Derives after l ts e rest) (ha : Arrowless ts) : Derives after' l ts e rest := by
  match h with
  | .operand hne h => exact .operand hne (h.of_arrowless after' ha)
  | .connect h hop hb =>
    exact .connect (h.of_arrowless after' ha) hop (hb.of_arrowless after' (ha.consumed h.consumed.skip))
  | .compute h hop hb =>
    exact .compute (h.of_arrowless after' ha) hop (hb.of_arrowless after' (ha.consumed h.consumed.skip))
  | .compare h hc hb =>
    exact .compare (h.of_arrowless after' ha) hc (hb.of_arrowless after' (ha.consumed h.consumed.skip))
  | .not ht h => exact .not ht (h.of_arrowless after' ha.tail)
  | .minus ht h => exact .minus ht (h.of_arrowless after' ha.tail)
  | .plus ht h => exact .plus ht (h.of_arrowless after' ha.tail)
  | .member h ht hx => exact .member (h.of_arrowless after' ha) ht hx
  | .fixed h ho hk hc =>
    exact .fixed (h.of_arrowless after' ha) ho
      (hk.of_arrowless after' (ha.consumed h.consumed.skip)) hc
  | .index h ho hk hc hkey =>
    exact .index (h.of_arrowless after' ha) ho
      (hk.of_arrowless after' (ha.consumed h.consumed.skip)) hc hkey
  | .function _ harrow _ _ => exact absurd harrow (by simp [ha _ (.tail _ (.head _))])
  | .groupedFunction _ _ _ harrow _ _ =>
    exact absurd harrow (by simp [ha _ (.tail _ (.tail _ (.tail _ (.head _))))])
  | .group ho h hc => exact .group ho (h.of_arrowless after' ha.tail) hc
  | .literal hv => exact .literal hv
  | .callNone hf ho hc => exact .callNone hf ho hc
  | .call hf ho hes hc => exact .call hf ho (hes.of_arrowless after' ha.tail.tail) hc
  | .name hx => exact .name hx

theorem Arguments.of_arrowless (after' : List Token → Prop) {ts rest : List Token} {es : List Expr}
    (h : Arguments after ts es rest) (ha : Arrowless ts) : Arguments after' ts es rest := by
  match h with
  | .one h => exact .one (h.of_arrowless after' ha)
  | .more h hcomma hs =>
    exact .more (h.of_arrowless after' ha) hcomma (hs.of_arrowless after' (ha.consumed h.consumed.skip))

end

end

theorem Numerals.cons {t : Token} {ts : List Token} (h : Numerals ts)
    (ht : t.kind = .number → (numeral? t.text).isSome) : Numerals (t :: ts) := by
  intro s hs
  cases hs with
  | head => exact ht
  | tail _ hs => exact h s hs

theorem Numerals.mark {t : Token} {ts : List Token} {symbol : String} (h : Numerals ts)
    (ht : t.isMark symbol) : Numerals (t :: ts) := by
  refine h.cons ?_
  intro hk
  simp [Token.isMark, hk] at ht

theorem Numerals.operator {t : Token} {ts : List Token} {symbol : String} (h : Numerals ts)
    (ht : t.isOperator symbol) : Numerals (t :: ts) := by
  refine h.cons ?_
  intro hk
  simp [Token.isOperator, hk] at ht

theorem Numerals.name {t : Token} {ts : List Token} (h : Numerals ts) (ht : t.isName) :
    Numerals (t :: ts) := by
  refine h.cons ?_
  intro hk
  simp [Token.isName, hk] at ht

theorem Numerals.layer {t : Token} {ts : List Token} {l : Layer} (h : Numerals ts)
    (ht : t.layer? = some l) : Numerals (t :: ts) := by
  refine h.cons ?_
  intro hk
  simp [Token.layer?, hk] at ht

theorem Numerals.negation {t : Token} {ts : List Token} (h : Numerals ts) (ht : t.isNegation) :
    Numerals (t :: ts) := by
  refine h.cons ?_
  intro hk
  simp [Token.isNegation, Token.isKeyword, Token.isOperator, hk] at ht

theorem Numerals.literal {t : Token} {ts : List Token} {v : Literal} (h : Numerals ts)
    (ht : t.literal? = some v) : Numerals (t :: ts) := by
  refine h.cons ?_
  intro hk
  simp only [Token.literal?, hk, Option.map_eq_some_iff] at ht
  obtain ⟨n, hn, _⟩ := ht
  simp [hn]

section
variable {after : List Token → Prop}

mutual

/-- A phrase has no number token that denotes no number. -/
theorem Derives.numerals {l : Layer} {ts rest : List Token} {e : Expr}
    (h : Derives after l ts e rest) (hn : Numerals rest) : Numerals ts := by
  match h with
  | .operand _ h => exact h.numerals hn
  | .connect ha hop hb => exact ha.numerals ((hb.numerals hn).layer (layer?_of_connective? hop))
  | .compute ha hop hb => exact ha.numerals ((hb.numerals hn).layer (layer?_of_arithmetic? hop))
  | .compare ha hc hb => exact ha.numerals ((hb.numerals hn).layer (layer?_of_comparison? hc))
  | .not ht h => exact (h.numerals hn).negation ht
  | .minus ht h => exact (h.numerals hn).operator ht
  | .plus ht h => exact (h.numerals hn).operator ht
  | .member h ht hx => exact h.numerals ((hn.name hx).mark ht)
  | .fixed h ho hk hc => exact h.numerals ((hk.numerals (hn.mark hc)).mark ho)
  | .index h ho hk hc _ => exact h.numerals ((hk.numerals (hn.mark hc)).mark ho)
  | .function hx harrow h _ => exact ((h.numerals hn).operator harrow).name hx
  | .groupedFunction ho hx hc harrow h _ =>
    exact ((((h.numerals hn).operator harrow).mark hc).name hx).mark ho
  | .group ho h hc => exact (h.numerals (hn.mark hc)).mark ho
  | .literal hv => exact hn.literal hv
  | .callNone hf ho hc => exact ((hn.mark hc).mark ho).name hf
  | .call hf ho hes hc => exact ((hes.numerals (hn.mark hc)).mark ho).name hf
  | .name hx => exact hn.name hx

theorem Arguments.numerals {ts rest : List Token} {es : List Expr}
    (h : Arguments after ts es rest) (hn : Numerals rest) : Numerals ts := by
  match h with
  | .one h => exact h.numerals hn
  | .more h hcomma hs => exact h.numerals ((hs.numerals hn).mark hcomma)

end

end

/-- A phrase in which the body of each function reaches as far as it can is what the parser answers. -/
theorem ofTokens_of_derives {ts : List Token} {e : Expr}
    (h : Derives (Stops .disjunction) .disjunction ts e []) (text : String) :
    ofTokens ts text = .ok e := by
  refine ofTokens_eq_ok.mpr ⟨?_, h.numerals (by intro t ht; cases ht)⟩
  exact h.reads.run_eq (Nat.le_refl _) (.nil _)

end NoteQuery
