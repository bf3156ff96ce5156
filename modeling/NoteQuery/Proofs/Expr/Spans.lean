import NoteQuery.Proofs.Expr.Forms

/-! Where the tokens of a text stand in it. Each token has a span of its own, the spans follow one another
without overlap, and a character outside of them is a blank or one that starts no token. -/

namespace NoteQuery
set_option autoImplicit false
open Text

/-- Some of the places of a text: those from `start` on that are before `stop`. -/
structure Span where
  start : Nat
  stop : Nat
  nonempty : start < stop

namespace Span

def Holds (p : Span) (i : Nat) : Prop := p.start ≤ i ∧ i < p.stop

def chars (p : Span) (text : List Char) : List Char := (text.take p.stop).drop p.start

/-- The places that `piece` has behind `before`. -/
def behind (before piece : List Char) (h : piece ≠ []) : Span where
  start := before.length
  stop := before.length + piece.length
  nonempty := Nat.lt_add_of_pos_right (List.length_pos_iff.mpr h)

theorem take_behind (before piece after : List Char) (h : piece ≠ []) :
    (before ++ (piece ++ after)).take (behind before piece h).stop = before ++ piece := by
  rw [← List.append_assoc]
  exact List.take_left' List.length_append

theorem drop_behind (before piece after : List Char) (h : piece ≠ []) :
    (before ++ (piece ++ after)).drop (behind before piece h).stop = after := by
  rw [← List.append_assoc]
  exact List.drop_left' List.length_append

theorem chars_behind (before piece after : List Char) (h : piece ≠ []) :
    (behind before piece h).chars (before ++ (piece ++ after)) = piece := by
  rw [chars, take_behind]
  exact List.drop_left

end Span

/-- A token is read from a span of a text: the span starts where the token does, is as long as the form of
the token lets it be, and says the text of the token. -/
structure Token.Spans (text : List Char) (t : Token) (p : Span) : Prop where
  starts : p.start = t.offset
  inside : p.stop ≤ text.length
  longest : Longest t.kind.Form (p.chars text) (text.drop p.stop)
  reads : t.kind.Says (p.chars text) t.text

/-- The spans of the tokens of a text from a place on, and what they leave out. -/
structure Covers (text : List Char) (offset : Nat) (ts : List Token) (spans : List Span) : Prop where
  spelled : List.Forall₂ (Token.Spans text) ts spans
  ahead : ∀ p ∈ spans, offset ≤ p.start
  apart : spans.Pairwise fun p q => p.start < q.start ∧ p.stop ≤ q.start
  outside : ∀ i c after, offset ≤ i → text.drop i = c :: after → (∀ p ∈ spans, ¬ p.Holds i) →
    isBlank c ∨ IsStray c after

section
variable {text before piece after cs : List Char} {offset : Nat} {t : Token} {ts : List Token}
  {spans : List Span}

theorem Token.spans_behind (hpiece : piece ≠ []) (hoffset : t.offset = before.length)
    (h : Longest t.kind.Form piece after) (hsaid : t.kind.Says piece t.text) :
    t.Spans (before ++ (piece ++ after)) (.behind before piece hpiece) where
  starts := hoffset.symm
  inside := by
    simp only [Span.behind, List.length_append]
    omega
  longest := by rwa [Span.chars_behind, Span.drop_behind]
  reads := by rwa [Span.chars_behind]

namespace Covers

theorem nil (text : List Char) : Covers text text.length [] [] where
  spelled := .nil
  ahead := nofun
  apart := .nil
  outside := by
    intro i c after hi hdrop
    rw [List.drop_of_length_le hi] at hdrop
    cases hdrop

/-- A character that is passed over. -/
theorem skip {c : Char} (hdrop : text.drop offset = c :: after) (hc : isBlank c ∨ IsStray c after)
    (h : Covers text (offset + 1) ts spans) : Covers text offset ts spans where
  spelled := h.spelled
  ahead p hp := Nat.le_of_succ_le (h.ahead p hp)
  apart := h.apart
  outside := by
    intro i d more hi hmore hnone
    rcases Nat.eq_or_lt_of_le hi with rfl | hlt
    · obtain ⟨rfl, rfl⟩ := List.cons.inj (hdrop.symm.trans hmore)
      exact hc
    · exact h.outside i d more hlt hmore hnone

theorem cons {p : Span} (ht : t.Spans text p) (h : Covers text p.stop ts spans) :
    Covers text p.start (t :: ts) (p :: spans) where
  spelled := .cons ht h.spelled
  ahead := by
    rintro q (_ | ⟨_, hq⟩)
    · exact Nat.le_refl _
    · exact Nat.le_trans (Nat.le_of_lt p.nonempty) (h.ahead q hq)
  apart := .cons (fun q hq => ⟨Nat.lt_of_lt_of_le p.nonempty (h.ahead q hq), h.ahead q hq⟩) h.apart
  outside := by
    intro i c after hi hdrop hnone
    have hstop : p.stop ≤ i := Nat.le_of_not_lt fun hlt => hnone p List.mem_cons_self ⟨hi, hlt⟩
    exact h.outside i c after hstop hdrop fun q hq => hnone q (List.mem_cons_of_mem p hq)

end Covers

/-- A token and then what the rest of the text comes to. -/
theorem exists_covers_cons (hpiece : piece ≠ []) (hoffset : t.offset = before.length)
    (hlongest : Longest t.kind.Form piece after) (hsaid : t.kind.Says piece t.text)
    (h : ∃ spans, Covers ((before ++ piece) ++ after) (before.length + piece.length) ts spans) :
    ∃ spans, Covers (before ++ (piece ++ after)) before.length (t :: ts) spans := by
  obtain ⟨spans, h⟩ := h
  rw [List.append_assoc] at h
  exact ⟨_, .cons (t.spans_behind hpiece hoffset hlongest hsaid) h⟩

theorem exists_covers_skip {c : Char} (hc : isBlank c ∨ IsStray c cs)
    (h : ∃ spans, Covers ((before ++ [c]) ++ cs) (before.length + 1) ts spans) :
    ∃ spans, Covers (before ++ c :: cs) before.length ts spans := by
  obtain ⟨spans, h⟩ := h
  rw [List.append_assoc] at h
  exact ⟨spans, .skip List.drop_left hc h⟩

/-- By induction on the lexemes: each takes the text one span further, or passes over one character. -/
theorem Segmented.covers (h : Segmented [] offset cs ts) (before : List Char)
    (hbefore : offset = before.length) : ∃ spans, Covers (before ++ cs) offset ts spans := by
  induction h generalizing before with
  | nil =>
    rw [hbefore, List.append_nil]
    exact ⟨[], .nil before⟩
  | @blank offset c cs ts hc _ ih =>
    subst hbefore
    exact exists_covers_skip (.inl hc) (ih (before ++ [c]) (by simp))
  | @quoted offset quote inner body cs ts hquote hinner _ ih =>
    subst hbefore
    have hpiece : quote :: (inner ++ [quote]) ≠ [] := List.cons_ne_nil _ _
    have hrest := ih (before ++ (quote :: (inner ++ [quote]))) (by simp)
    have hlength : inner.length + 2 = (quote :: (inner ++ [quote])).length := by simp
    have hsaid : TokenKind.text.Says (quote :: (inner ++ [quote])) (String.ofList body) :=
      ⟨quote, inner, hquote, by rwa [String.toList_ofList], rfl⟩
    rw [hlength] at hrest
    have h := exists_covers_cons (t := ⟨.text, String.ofList body, before.length⟩) hpiece rfl
      (longest_quoted hquote hinner cs) hsaid hrest
    simpa using h
  | @lexeme offset operandMayStart c run cs token? ts hblank hquote hread _ ih =>
    subst hbefore
    rw [List.append_nil] at hread
    cases token? with
    | none =>
      obtain ⟨hrun, hstray⟩ := stray_of_skipped hquote hread
      obtain rfl := List.length_eq_zero_iff.mp hrun
      exact exists_covers_skip (.inr hstray) (ih (before ++ [c]) (by simp))
    | some token =>
      obtain ⟨kind, word⟩ := token
      have hpiece : c :: run ≠ [] := List.cons_ne_nil _ _
      obtain ⟨hlongest, hsaid⟩ := longest_of_lexeme hread
      have hrest := ih (before ++ (c :: run)) (by simp)
      exact exists_covers_cons (t := ⟨kind, word, before.length⟩) hpiece rfl hlongest hsaid hrest

/-- The tokens of a text have spans in it, one for each, that follow one another without overlap, and what
is outside of the spans is a blank or starts no token. -/
theorem tokenize_spans {s : String} (h : tokenize s = .ok ts) :
    ∃ spans : List Span, List.Forall₂ (Token.Spans s.toList) ts spans ∧
      spans.Pairwise (fun p q => p.start < q.start ∧ p.stop ≤ q.start) ∧
      ∀ i c after, s.toList.drop i = c :: after → (∀ p ∈ spans, ¬ p.Holds i) →
        isBlank c ∨ (IsStray c after ∧ StartsNone (c :: after)) := by
  obtain ⟨spans, hspans⟩ := (segmented_of_tokenize h).covers [] rfl
  refine ⟨spans, hspans.spelled, hspans.apart, ?_⟩
  intro i c after hdrop hnone
  rcases hspans.outside i c after (Nat.zero_le i) hdrop hnone with hblank | hstray
  · exact .inl hblank
  · exact .inr ⟨hstray, hstray.startsNone⟩

end

theorem tokenize_spans_stray : ∃ spans : List Span,
    List.Forall₂ (Token.Spans "a & 1.5".toList) [⟨.identifier, "a", 0⟩, ⟨.number, "1.5", 4⟩] spans ∧
      spans.Pairwise (fun p q => p.start < q.start ∧ p.stop ≤ q.start) ∧
      ∀ i c after, "a & 1.5".toList.drop i = c :: after → (∀ p ∈ spans, ¬ p.Holds i) →
        isBlank c ∨ (IsStray c after ∧ StartsNone (c :: after)) :=
  tokenize_spans (s := "a & 1.5") (by decide +kernel)

end NoteQuery
