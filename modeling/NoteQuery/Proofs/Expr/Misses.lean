import NoteQuery.Proofs.Expr.Combinators

/-! What parsers miss on the way to their results. What was missed furthest on is what counts, so it is
known of a composed parser when it is known of its parts. -/

namespace NoteQuery
set_option autoImplicit false

namespace Misses

/-- Nothing is missed at the last `n` tokens or behind them. -/
def Before (m : Misses) (n : Nat) : Prop := m.expected ≠ [] → n < m.left

/-- What was missed furthest on was missed with `n` tokens left. -/
def At (m : Misses) (n : Nat) : Prop := m.expected ≠ [] ∧ m.left = n

variable {a b : Misses} {n : Nat}

/-- Joined misses are those that lie further on, or both. -/
theorem join_cases (a b : Misses) :
    (b.expected = [] ∧ a.join b = a) ∨ (a.expected = [] ∧ a.join b = b) ∨
      (a.expected ≠ [] ∧ b.expected ≠ [] ∧ (a.join b).expected ≠ [] ∧
        (a.join b).left = min a.left b.left) := by
  unfold join
  simp only [List.isEmpty_iff]
  split
  · next hb => exact .inl ⟨hb, rfl⟩
  · next hb =>
    split
    · next ha => exact .inr (.inl ⟨ha, rfl⟩)
    · next ha =>
      refine .inr (.inr ⟨ha, hb, ?_⟩)
      split
      · exact ⟨ha, by omega⟩
      · split
        · exact ⟨hb, by omega⟩
        · exact ⟨by simp [ha], by simp only; omega⟩

theorem expected_join (a b : Misses) :
    (a.join b).expected ≠ [] ↔ a.expected ≠ [] ∨ b.expected ≠ [] := by
  rcases join_cases a b with ⟨hb, h⟩ | ⟨ha, h⟩ | ⟨ha, hb, hne, _⟩
  · simp [h, hb]
  · simp [h, ha]
  · simp [ha, hne]

theorem left_join_le (ha : a.left ≤ n) (hb : b.left ≤ n) : (a.join b).left ≤ n := by
  rcases join_cases a b with ⟨_, h⟩ | ⟨_, h⟩ | ⟨_, _, _, h⟩ <;> rw [h] <;> omega

theorem before_join (h : (a.join b).Before n) : a.Before n ∧ b.Before n := by
  unfold Before at h ⊢
  rcases join_cases a b with ⟨hb, heq⟩ | ⟨ha, heq⟩ | ⟨_, _, hne, heq⟩
  · exact ⟨heq ▸ h, fun hne => absurd hb hne⟩
  · exact ⟨fun hne => absurd ha hne, heq ▸ h⟩
  · have hlt := h hne
    rw [heq] at hlt
    exact ⟨fun _ => by omega, fun _ => by omega⟩

theorem at_join (h : (a.join b).At n) : b.At n ∨ (a.At n ∧ b.Before n) := by
  rcases join_cases a b with ⟨hb, heq⟩ | ⟨_, heq⟩ | ⟨ha, hb, hne, heq⟩
  · exact .inr ⟨heq ▸ h, fun hne => absurd hb hne⟩
  · exact .inl (heq ▸ h)
  · have hn := h.2
    rw [heq] at hn
    by_cases hlt : n < b.left
    · exact .inr ⟨⟨ha, by omega⟩, fun _ => hlt⟩
    · exact .inl ⟨hb, by omega⟩

end Misses

namespace Parser

variable {α β : Type} {p q : Parser α} {ts us : List Token} {a : α}

/-- What a parser looks for in vain at the furthest point. -/
def misses (p : Parser α) (ts : List Token) : Misses := (p ts).misses

theorem misses_bind_none (h : run p ts = none) (f : α → Parser β) :
    misses (p >>= f) ts = misses p ts := by
  change (andThen p f ts).misses = _
  unfold run at h
  simp [andThen, h, misses]

theorem misses_bind_some (h : run p ts = some (a, us)) (f : α → Parser β) :
    misses (p >>= f) ts = (misses (f a) us).join (misses p ts) := by
  change (andThen p f ts).misses = _
  unfold run at h
  simp [andThen, h, misses]

theorem misses_orElse_none (h : run p ts = none) :
    misses (orElse p q) ts = (misses q ts).join (misses p ts) := by
  unfold run at h
  simp [orElse, h, misses]

theorem misses_orElse_some (h : run p ts ≠ none) : misses (orElse p q) ts = misses p ts := by
  unfold run at h
  obtain ⟨r, hr⟩ := Option.ne_none_iff_exists'.mp h
  simp [orElse, hr, misses]

theorem misses_repeated_none (h : run p ts = none) : misses (repeated p) ts = misses p ts := by
  unfold run at h
  unfold misses repeated
  rw [many]
  simp [h]

theorem misses_repeated_some (h : run p ts = some (a, us)) (hlt : us.length < ts.length) :
    misses (repeated p) ts = (misses (repeated p) us).join (misses p ts) := by
  unfold run at h
  unfold misses repeated
  rw [many]
  simp [h, hlt]

theorem misses_repeated_stuck (h : run p ts = some (a, us)) (hlt : ¬ us.length < ts.length) :
    misses (repeated p) ts = misses p ts := by
  unfold run at h
  unfold misses repeated
  rw [many]
  simp [h, hlt]

theorem misses_token (expectation : Expectation) (test : Token → Bool) (ts : List Token) :
    misses (token expectation test) ts =
      if run (token expectation test) ts = none then ⟨ts.length, [expectation]⟩ else .none := by
  cases ts with
  | nil => rfl
  | cons t ts =>
    unfold misses run
    by_cases h : test t <;> simp [token, h]

end Parser
end NoteQuery
