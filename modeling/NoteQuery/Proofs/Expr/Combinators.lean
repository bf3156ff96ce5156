import NoteQuery.Expr.Parser

/-! Results of parsers, the misses left aside. A repetition whose items are folded into a value moves
on by one item where the item parser succeeds, and keeps whatever its items keep. -/

namespace NoteQuery.Parser
set_option autoImplicit false

variable {α β : Type}

/-- What a parser answers, and the tokens left. -/
def run (p : Parser α) (ts : List Token) : Option (α × List Token) := (p ts).result

@[simp] theorem run_pure (a : α) (ts : List Token) : run (pure a) ts = some (a, ts) := rfl

theorem run_bind (p : Parser α) (f : α → Parser β) (ts : List Token) :
    run (p >>= f) ts = (run p ts).bind fun r => run (f r.1) r.2 := by
  change (andThen p f ts).result = _
  unfold run
  cases h : (p ts).result with
  | none => simp [andThen, h]
  | some r => simp [andThen, h]

theorem run_bind_some {p : Parser α} {ts us : List Token} {a : α} (h : run p ts = some (a, us))
    (f : α → Parser β) : run (p >>= f) ts = run (f a) us := by rw [run_bind, h]; rfl

theorem run_bind_none {p : Parser α} {ts : List Token} (h : run p ts = none) (f : α → Parser β) :
    run (p >>= f) ts = none := by rw [run_bind, h]; rfl

theorem run_bind_eq_some {p : Parser α} {f : α → Parser β} {ts rest : List Token} {b : β} :
    run (p >>= f) ts = some (b, rest) ↔
      ∃ a us, run p ts = some (a, us) ∧ run (f a) us = some (b, rest) := by
  rw [run_bind, Option.bind_eq_some_iff]
  exact ⟨fun ⟨⟨a, us⟩, h, k⟩ => ⟨a, us, h, k⟩, fun ⟨a, us, h, k⟩ => ⟨⟨a, us⟩, h, k⟩⟩

theorem run_bind_pure_eq_some {p : Parser α} {g : α → β} {ts rest : List Token} {b : β} :
    run (p >>= fun a => pure (g a)) ts = some (b, rest) ↔
      ∃ a, run p ts = some (a, rest) ∧ b = g a := by
  rw [run_bind_eq_some]
  constructor
  · rintro ⟨a, us, h, k⟩
    simp only [run_pure, Option.some.injEq, Prod.mk.injEq] at k
    exact ⟨a, k.2 ▸ h, k.1.symm⟩
  · rintro ⟨a, h, rfl⟩
    exact ⟨a, rest, h, rfl⟩

theorem run_map (f : α → β) (p : Parser α) (ts : List Token) :
    run (f <$> p) ts = (run p ts).map fun r => (f r.1, r.2) := by
  change run (p >>= fun a => pure (f a)) ts = _
  rw [run_bind]
  cases run p ts <;> rfl

theorem run_orElse (p q : Parser α) (ts : List Token) :
    run (orElse p q) ts = (run p ts).or (run q ts) := by
  unfold run
  cases h : (p ts).result with
  | none => simp [orElse, h]
  | some r => simp [orElse, h]

theorem run_firstOf_nil (ts : List Token) : run (firstOf ([] : List (Parser α))) ts = none := rfl

theorem run_firstOf_cons (p : Parser α) (ps : List (Parser α)) (ts : List Token) :
    run (firstOf (p :: ps)) ts = (run p ts).or (run (firstOf ps) ts) := by
  cases ps with
  | nil =>
    rw [run_firstOf_nil, Option.or_none]
    rfl
  | cons q ps => rw [firstOf, run_orElse]

theorem run_token (expectation : Expectation) (test : Token → Bool) (t : Token) (ts : List Token) :
    run (token expectation test) (t :: ts) = if test t then some (t, ts) else none := by
  unfold run
  by_cases h : test t <;> simp [token, h]

theorem run_token_nil (expectation : Expectation) (test : Token → Bool) :
    run (token expectation test) [] = none := rfl

theorem run_token_eq_some {expectation : Expectation} {test : Token → Bool} {ts us : List Token}
    {t : Token} : run (token expectation test) ts = some (t, us) ↔ ts = t :: us ∧ test t := by
  cases ts with
  | nil => simp [run_token_nil]
  | cons s ss =>
    rw [run_token]
    split
    · next h =>
      simp only [Option.some.injEq, Prod.mk.injEq, List.cons.injEq]
      constructor
      · rintro ⟨rfl, rfl⟩
        exact ⟨⟨rfl, rfl⟩, h⟩
      · exact And.left
    · next h =>
      simp only [List.cons.injEq, reduceCtorEq, false_iff]
      rintro ⟨⟨rfl, rfl⟩, k⟩
      exact h k

theorem run_token_bind_eq_some {expectation : Expectation} {test : Token → Bool}
    {f : Token → Parser β} {ts rest : List Token} {b : β} :
    run (token expectation test >>= f) ts = some (b, rest) ↔
      ∃ t us, ts = t :: us ∧ test t ∧ run (f t) us = some (b, rest) := by
  rw [run_bind_eq_some]
  constructor
  · rintro ⟨t, us, h, k⟩
    obtain ⟨rfl, ht⟩ := run_token_eq_some.mp h
    exact ⟨t, us, rfl, ht, k⟩
  · rintro ⟨t, us, rfl, ht, k⟩
    exact ⟨t, us, run_token_eq_some.mpr ⟨rfl, ht⟩, k⟩

theorem run_mark_bind_eq_some {symbol : String} {f : Token → Parser β} {ts rest : List Token}
    {b : β} : run (mark symbol >>= f) ts = some (b, rest) ↔
      ∃ t us, ts = t :: us ∧ t.isMark symbol ∧ run (f t) us = some (b, rest) :=
  run_token_bind_eq_some

theorem run_operator_bind_eq_some {symbols : List String} {f : Token → Parser β}
    {ts rest : List Token} {b : β} : run (operator symbols >>= f) ts = some (b, rest) ↔
      ∃ t us, ts = t :: us ∧ (t.kind = .operator ∧ symbols.contains t.text) ∧
        run (f t) us = some (b, rest) := by
  rw [operator, run_token_bind_eq_some]
  simp

theorem run_operator_cons (symbol : String) (t : Token) (ts : List Token) :
    run (operator [symbol]) (t :: ts) = if t.isOperator symbol then some (t, ts) else none := by
  rw [operator, run_token]
  simp [Token.isOperator]

theorem run_optional (p : Parser α) (ts : List Token) :
    run (optional p) ts = ((run p ts).map fun r => (some r.1, r.2)).or (some (none, ts)) := by
  rw [optional, run_orElse, run_map]
  rfl

def repeated (p : Parser α) : Parser (List α) := many p

section
variable {p : Parser α} {ts us : List Token} {a : α}

theorem run_repeated_none (h : run p ts = none) : run (repeated p) ts = some ([], ts) := by
  unfold run at h
  unfold run repeated
  rw [many]
  simp [h]

theorem run_repeated_some (h : run p ts = some (a, us)) (hlt : us.length < ts.length) :
    run (repeated p) ts = (run (repeated p) us).map fun r => (a :: r.1, r.2) := by
  unfold run at h
  unfold run repeated
  rw [many]
  simp [h, hlt]

theorem run_repeated_stuck (h : run p ts = some (a, us)) (hlt : ¬ us.length < ts.length) :
    run (repeated p) ts = some ([a], us) := by
  unfold run at h
  unfold run repeated
  rw [many]
  simp [h, hlt]

end

/-- What holds where no item starts, and where one takes nothing, and passes over an item that takes something,
holds of every repetition. -/
theorem repeated_induction (p : Parser α) {motive : List Token → Prop}
    (none : ∀ ts, run p ts = none → motive ts)
    (more : ∀ ts a us, run p ts = some (a, us) → us.length < ts.length → motive us → motive ts)
    (stuck : ∀ ts a us, run p ts = some (a, us) → ¬ us.length < ts.length → motive ts)
    (ts : List Token) : motive ts := by
  induction hlength : ts.length using Nat.strongRecOn generalizing ts with
  | ind n ih =>
    cases ha : run p ts with
    | none => exact none ts ha
    | some r =>
      obtain ⟨a, us⟩ := r
      by_cases hlt : us.length < ts.length
      · exact more ts a us ha hlt (ih us.length (hlength ▸ hlt) us rfl)
      · exact stuck ts a us ha hlt

/-- As many items as there are, folded into a value from the left. -/
def folded (item : Parser β) (step : α → β → α) (a : α) : Parser α :=
  repeated item >>= fun items => pure (items.foldl step a)

section
variable {item : Parser β} {step : α → β → α} {ts us : List Token} {a : α} {b : β}

theorem run_folded_none (h : run item ts = none) : run (folded item step a) ts = some (a, ts) := by
  rw [folded, run_bind_some (run_repeated_none h)]
  rfl

theorem run_folded_some (h : run item ts = some (b, us)) (hlt : us.length < ts.length) :
    run (folded item step a) ts = run (folded item step (step a b)) us := by
  rw [folded, run_bind, run_repeated_some h hlt, folded, run_bind]
  cases run (repeated item) us <;> rfl

/-- What each item keeps the whole repetition keeps. -/
theorem folded_keeps {motive : α → List Token → Prop} {e : α} {rest : List Token}
    (hitem : ∀ a ts b us, motive a ts → run item ts = some (b, us) → motive (step a b) us)
    (ha : motive a ts) (h : run (folded item step a) ts = some (e, rest)) : motive e rest := by
  induction ts using repeated_induction item generalizing a with
  | none ts hb =>
    rw [run_folded_none hb] at h
    cases h
    exact ha
  | more ts b us hb hlt ih =>
    rw [run_folded_some hb hlt] at h
    exact ih (hitem a ts b us ha hb) h
  | stuck ts b us hb hlt =>
    rw [folded, run_bind_some (run_repeated_stuck hb hlt)] at h
    cases h
    exact hitem a ts b _ ha hb

end

end NoteQuery.Parser
