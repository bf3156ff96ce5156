import NoteQuery.Proofs.Expr.Soundness
import NoteQuery.Proofs.Number.Rounded

/-! The numbers that are written in an expression. Reading a numeral rounds it, so they all are rounded,
whatever the text. -/

namespace NoteQuery
set_option autoImplicit false

def Literal.IsRounded : Literal → Prop
  | number n => n.IsRounded
  | _ => True

namespace Expr

mutual

/-- Every number in an expression is rounded. -/
def IsRounded : Expr → Prop
  | literal v => v.IsRounded
  | name _ => True
  | property base key => base.IsRounded ∧ key.IsRounded
  | index base key => base.IsRounded ∧ key.IsRounded
  | binary _ left right => left.IsRounded ∧ right.IsRounded
  | connect _ left right => left.IsRounded ∧ right.IsRounded
  | unary _ operand => operand.IsRounded
  | call _ args => AllRounded args
  | lambda _ body => body.IsRounded

def AllRounded : List Expr → Prop
  | [] => True
  | e :: es => e.IsRounded ∧ AllRounded es

end

theorem rounded_numeral? (text : String) : ∀ n ∈ numeral? text, n.IsRounded := by
  intro n hn
  unfold numeral? at hn
  split at hn
  · obtain ⟨x, hx, rfl⟩ := Option.map_eq_some_iff.mp hn
    exact Numeral.canonical_real? _ x hx
  · obtain ⟨k, -, rfl⟩ := Option.map_eq_some_iff.mp hn
    trivial

end Expr

theorem Token.rounded_literal? {t : Token} {v : Literal} (h : t.literal? = some v) : v.IsRounded := by
  unfold literal? at h
  split at h
  · cases h
    trivial
  · obtain ⟨n, hn, rfl⟩ := Option.map_eq_some_iff.mp h
    exact Expr.rounded_numeral? t.text n hn
  · split_ifs at h <;> cases h <;> trivial
  · cases h

section
variable {after : List Token → Prop}

mutual

theorem Derives.rounded {l : Layer} {ts rest : List Token} {e : Expr}
    (h : Derives after l ts e rest) : e.IsRounded := by
  match h with
  | .operand _ h => exact h.rounded
  | .connect ha _ hb => exact ⟨ha.rounded, hb.rounded⟩
  | .compute ha _ hb => exact ⟨ha.rounded, hb.rounded⟩
  | .compare ha _ hb => exact ⟨ha.rounded, hb.rounded⟩
  | .not _ h => exact h.rounded
  | .minus _ h => exact h.rounded
  | .plus _ h => exact h.rounded
  | .member h _ _ => exact ⟨h.rounded, trivial⟩
  | .fixed h _ hk _ => exact ⟨h.rounded, hk.rounded⟩
  | .index h _ hk _ _ => exact ⟨h.rounded, hk.rounded⟩
  | .function _ _ h _ => exact h.rounded
  | .groupedFunction _ _ _ _ h _ => exact h.rounded
  | .group _ h _ => exact h.rounded
  | .literal h => exact Token.rounded_literal? h
  | .callNone _ _ _ => trivial
  | .call _ _ h _ => exact h.rounded
  | .name _ => trivial

theorem Arguments.rounded {ts rest : List Token} {es : List Expr}
    (h : Arguments after ts es rest) : Expr.AllRounded es := by
  match h with
  | .one h => exact ⟨h.rounded, trivial⟩
  | .more h _ hs => exact ⟨h.rounded, hs.rounded⟩

end

end

theorem Expr.rounded_parse {text : String} {e : Expr} (h : Expr.parse text = .ok e) : e.IsRounded := by
  unfold parse at h
  split at h
  · cases h
  · exact (phrase_of_ofTokens h).rounded

end NoteQuery
