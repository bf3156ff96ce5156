import NoteQuery.Proofs.Expr.Layers

/-! What the parser answers the grammar derives. By induction on the nesting that is allowed: each
layer is sound as soon as the layers that it is made of are. -/

namespace NoteQuery
set_option autoImplicit false
open NoteQuery.Parser NoteQuery.Expr

/-- Every number token denotes a number. -/
def Numerals (ts : List Token) : Prop := ∀ t ∈ ts, t.kind = .number → (numeral? t.text).isSome

theorem Numerals.suffix {ts us : List Token} (h : Numerals ts) (hs : us <:+ ts) : Numerals us :=
  fun t ht => h t (hs.subset ht)

theorem Numerals.tail {t : Token} {ts : List Token} (h : Numerals (t :: ts)) : Numerals ts :=
  h.suffix (List.suffix_cons t ts)

theorem Numerals.consumed {ts us : List Token} (h : Numerals ts) (hc : Consumed ts us) :
    Numerals us := h.suffix hc.suffix

section
variable {α : Type} {ts rest : List Token}

theorem run_between_eq_some {opening closing : String} {p : Parser α} {a : α} :
    run (between opening closing p) ts = some (a, rest) ↔
      ∃ o us c, ts = o :: us ∧ o.isMark opening ∧ run p us = some (a, c :: rest) ∧
        c.isMark closing := by
  constructor
  · intro h
    obtain ⟨o, us, rfl, ho, hp⟩ := run_mark_bind_eq_some.mp h
    obtain ⟨b, vs, hb, hq⟩ := run_bind_eq_some.mp hp
    obtain ⟨c, ws, rfl, hc, hr⟩ := run_mark_bind_eq_some.mp hq
    cases hr
    exact ⟨o, us, c, rfl, ho, hb, hc⟩
  · rintro ⟨o, us, c, rfl, ho, hp, hc⟩
    exact run_mark_bind_eq_some.mpr ⟨o, us, rfl, ho, run_bind_eq_some.mpr
      ⟨a, _, hp, run_mark_bind_eq_some.mpr ⟨c, rest, rfl, hc, rfl⟩⟩⟩

theorem run_literalParser_cons {t : Token} (ht : t.kind = .number → (numeral? t.text).isSome) :
    run literalParser (t :: ts) = t.literal?.map fun v => (v, ts) := by
  simp only [literalParser, run_firstOf_cons, run_bind, ofKind, keyword, run_token,
    Token.isKeyword, Token.literal?]
  cases hk : t.kind with
  | number =>
    obtain ⟨n, hn⟩ := Option.isSome_iff_exists.mp (ht hk)
    simp [hn]
  | keyword =>
    by_cases htrue : t.text = "true"
    · simp [htrue]
    · by_cases hfalse : t.text = "false"
      · simp [hfalse]
      · by_cases hnull : t.text = "null"
        · simp [hnull]
        · simp [htrue, hfalse, hnull, run_firstOf_nil]
  | _ => simp [run_firstOf_nil]

theorem run_literalParser_nil : run literalParser [] = none := rfl

/-- A parser answers phrases of a layer only. -/
def Sound (p : Parser Expr) (l : Layer) : Prop :=
  ∀ ts e rest, Numerals ts → run p ts = some (e, rest) → Phrase l ts e rest

end

section
variable {p : Parser Expr}

theorem Sound.of_repeats {l : Layer} (hl : l.repeats) (h : Sound (l.operand.parser p) l.operand) :
    Sound (l.parser p) l := by
  intro ts e rest hn hr
  rw [Layer.parser_of_repeats hl] at hr
  obtain ⟨a, us, ha, hr⟩ := run_bind_eq_some.mp hr
  have hfirst : Phrase l ts a us := .operand (by rintro rfl; cases hl) (h ts a us hn ha)
  refine folded_keeps (motive := Phrase l ts) ?_ hfirst hr
  rintro b vs ⟨f, c⟩ ws hb hj
  obtain ⟨t, xs, rfl, hf, hc⟩ := (Layer.run_joined_eq_some hl).mp hj
  exact hb.join hf (h xs c ws (hn.consumed hb.consumed.skip) hc)

theorem Sound.comparison (h : Sound (sums p) .sum) : Sound (comparison p) .comparison := by
  intro ts e rest hn hr
  cases ha : run (sums p) ts with
  | none =>
    rw [Expr.comparison, run_bind_none ha] at hr
    cases hr
  | some r =>
    obtain ⟨a, us⟩ := r
    have hfirst := h ts a us hn ha
    rw [run_comparison ha] at hr
    cases hc : run (compared p) us with
    | none =>
      rw [hc] at hr
      cases hr
      exact .operand (by simp) hfirst
    | some r =>
      obtain ⟨⟨t, b⟩, vs⟩ := r
      rw [hc] at hr
      cases hr
      obtain ⟨ws, c, rfl, ht, hb⟩ := run_compared_eq_some.mp hc
      rw [(comparison?_eq_some.mp ht).2]
      exact .compare hfirst ht (h ws b rest (hn.consumed hfirst.consumed.skip) hb)

theorem Sound.member {expr : Parser Expr} (h : Sound expr .disjunction) {ts us rest : List Token}
    {a : Expr} {m : Member} (hn : Numerals us) (ha : Phrase .postfixed ts a us)
    (hm : run (member expr) us = some (m, rest)) : Phrase .postfixed ts (Member.of a m) rest := by
  simp only [Expr.member, run_firstOf_cons, run_firstOf_nil, Option.or_none,
    Option.or_eq_some_iff] at hm
  rcases hm with hm | ⟨_, hm⟩
  · obtain ⟨t, vs, rfl, ht, hname⟩ := run_mark_bind_eq_some.mp hm
    obtain ⟨x, ws, rfl, hx, hend⟩ := run_token_bind_eq_some.mp hname
    cases hend
    exact .member ha ht hx
  · obtain ⟨key, hb, rfl⟩ := run_bind_pure_eq_some.mp hm
    obtain ⟨o, ws, c, rfl, ho, hk, hc⟩ := run_between_eq_some.mp hb
    have hkey := h ws key _ hn.tail hk
    cases key with
    | literal v => exact .fixed ha ho hkey hc
    | _ => exact .index ha ho hkey hc (by simp)

theorem Sound.postfixed {expr : Parser Expr} (h : Sound expr .disjunction)
    (hp : Sound (primary expr) .primary) : Sound (postfixed expr) .postfixed := by
  intro ts e rest hn hr
  obtain ⟨a, us, ha, hr⟩ := run_bind_eq_some.mp hr
  have hfirst : Phrase .postfixed ts a us := .operand (by simp) (hp ts a us hn ha)
  refine folded_keeps (motive := Phrase .postfixed ts) ?_ hfirst hr
  intro b vs m ws hb hm
  exact h.member (hn.consumed hb.consumed) hb hm

/-- What is repeated after the first argument. -/
theorem Sound.arguments {expr : Parser Expr} (h : Sound expr .disjunction)
    {ts us rest : List Token} {e : Expr} {es : List Expr} (hn : Numerals ts)
    (he : Phrase .disjunction ts e us)
    (hes : run (repeated (mark "," >>= fun _ => expr)) us = some (es, rest)) :
    Arguments (fun _ => True) ts (e :: es) rest := by
  induction hlen : us.length using Nat.strongRecOn generalizing ts us e es with
  | ind n ih =>
    cases hc : run (mark "," >>= fun _ => expr) us with
    | none =>
      rw [run_repeated_none hc] at hes
      cases hes
      exact .one he
    | some r =>
      obtain ⟨a, vs⟩ := r
      obtain ⟨comma, ws, rfl, hcomma, ha⟩ := run_mark_bind_eq_some.mp hc
      have hws := hn.consumed he.consumed.skip
      have hnext := h ws a vs hws ha
      have hlt : vs.length < (comma :: ws).length := (hnext.consumed.cons comma).length_lt
      rw [run_repeated_some hc hlt] at hes
      obtain ⟨⟨as, xs⟩, has, heq⟩ := Option.map_eq_some_iff.mp hes
      cases heq
      exact .more he hcomma (ih vs.length (hlen ▸ hlt) hws hnext has rfl)

theorem Sound.call {expr : Parser Expr} (h : Sound expr .disjunction) :
    Sound (callParser expr) .primary := by
  intro ts e rest hn hr
  obtain ⟨f, us, rfl, hf, hargs⟩ := run_token_bind_eq_some.mp hr
  obtain ⟨es, hes, rfl⟩ := run_bind_pure_eq_some.mp hargs
  obtain ⟨o, vs, c, rfl, ho, hsep, hc⟩ := run_between_eq_some.mp hes
  rw [separated, run_orElse, Option.or_eq_some_iff] at hsep
  rcases hsep with hsep | ⟨_, hsep⟩
  · obtain ⟨a, ws, ha, hmore⟩ := run_bind_eq_some.mp hsep
    obtain ⟨as, has, rfl⟩ := run_bind_pure_eq_some.mp hmore
    have hn' := hn.tail.tail
    exact .call hf ho (h.arguments hn' (h vs a ws hn' ha) has) hc
  · cases hsep
    exact .callNone hf ho hc

theorem Sound.lambda {expr : Parser Expr} (h : Sound expr .disjunction) :
    Sound (lambdaParser expr) .primary := by
  intro ts e rest hn hr
  obtain ⟨x, us, hx, harrow⟩ := run_bind_eq_some.mp hr
  obtain ⟨arrow, vs, rfl, ⟨hk, ht⟩, hbody⟩ := run_operator_bind_eq_some.mp harrow
  obtain ⟨body, hb, rfl⟩ := run_bind_pure_eq_some.mp hbody
  have harrow : arrow.isOperator "=>" := by
    simp only [List.contains_cons, List.contains_nil, Bool.or_false, beq_iff_eq] at ht
    simp [Token.isOperator, hk, ht]
  rw [run_orElse, Option.or_eq_some_iff] at hx
  rcases hx with hx | ⟨_, hx⟩
  · obtain ⟨o, ws, c, rfl, ho, hname, hc⟩ := run_between_eq_some.mp hx
    obtain ⟨rfl, hparameter⟩ := run_token_eq_some.mp hname
    exact .groupedFunction ho hparameter hc harrow (h vs body rest hn.tail.tail.tail.tail hb) trivial
  · obtain ⟨rfl, hname⟩ := run_token_eq_some.mp hx
    exact .function hname harrow (h vs body rest hn.tail.tail hb) trivial

theorem Sound.primary {expr : Parser Expr} (h : Sound expr .disjunction) :
    Sound (primary expr) .primary := by
  intro ts e rest hn hr
  simp only [Expr.primary, run_firstOf_cons, run_firstOf_nil, Option.or_none,
    Option.or_eq_some_iff] at hr
  rcases hr with hr | ⟨_, hr | ⟨_, hr | ⟨_, hr | ⟨_, hr⟩⟩⟩⟩
  · exact h.lambda ts e rest hn hr
  · obtain ⟨o, us, c, rfl, ho, he, hc⟩ := run_between_eq_some.mp hr
    exact .group ho (h us e _ hn.tail he) hc
  · rw [run_map] at hr
    obtain ⟨⟨v, us⟩, hv, heq⟩ := Option.map_eq_some_iff.mp hr
    cases heq
    cases ts with
    | nil => simp [run_literalParser_nil] at hv
    | cons t ts =>
      rw [run_literalParser_cons (hn t List.mem_cons_self)] at hv
      obtain ⟨w, hw, heq⟩ := Option.map_eq_some_iff.mp hv
      cases heq
      exact .literal hw
  · exact h.call ts e rest hn hr
  · obtain ⟨x, us, rfl, hx, hend⟩ := run_token_bind_eq_some.mp hr
    cases hend
    exact .name hx

theorem Sound.layers (h : Sound p .prefixed) : Sound (disjunctions p) .disjunction := by
  have hproduct : Sound (products p) .product := .of_repeats (l := .product) rfl h
  have hsum : Sound (sums p) .sum := .of_repeats (l := .sum) rfl hproduct
  have hconjunction : Sound (conjunctions p) .conjunction :=
    .of_repeats (l := .conjunction) rfl hsum.comparison
  exact .of_repeats (l := .disjunction) rfl hconjunction

theorem sound_prefixed (n : Nat) : Sound (prefixed n) .prefixed := by
  induction n with
  | zero => intro ts e rest _ hr; cases hr
  | succ n ih =>
    have hpostfixed := ih.layers.postfixed ih.layers.primary
    intro ts e rest hn hr
    cases ts with
    | nil =>
      have hshorter := (hpostfixed [] e rest hn hr).consumed.length_lt
      simp at hshorter
    | cons t ts =>
      rw [run_prefixed_succ] at hr
      simp only [Option.or_eq_some_iff, Option.ite_none_right_eq_some, Option.map_eq_some_iff] at hr
      rcases hr with ⟨ht, ⟨a, us⟩, ha, heq⟩ | ⟨_, ⟨ht, ⟨a, us⟩, ha, heq⟩ | ⟨_, ⟨ht, ha⟩ | ⟨_, hr⟩⟩⟩
      · cases heq
        exact .not ht (ih ts a us hn.tail ha)
      · cases heq
        exact .minus ht (ih ts a us hn.tail ha)
      · exact .plus ht (ih ts e rest hn.tail ha)
      · exact .operand (by simp) (hpostfixed (t :: ts) e rest hn hr)

end

theorem numerals_iff (ts : List Token) : badNumeral? ts = none ↔ Numerals ts := by
  rw [badNumeral?, Option.map_eq_none_iff, List.find?_eq_none]
  constructor
  · intro h t ht hk
    have := h t ht
    simpa [hk, Option.isNone_iff_eq_none, Option.isSome_iff_ne_none] using this
  · intro h t ht hk
    simp only [Bool.and_eq_true, decide_eq_true_eq] at hk
    have := h t ht hk.1
    simp_all

/-- The whole of a list of tokens is read where one expression takes all of it. -/
theorem result_whole_eq_some {ts : List Token} {r : Expr × List Token} :
    (whole ts).result = some r ↔
      run (disjunctions (prefixed (ts.length + 1))) ts = some (r.1, []) ∧ r.2 = [] := by
  obtain ⟨e, rest⟩ := r
  have hwhole : (whole ts).result =
      run (disjunctions (prefixed (ts.length + 1)) >>= fun e => theEnd >>= fun _ => pure e) ts := by
    rw [whole, run]
  rw [hwhole, run_bind_eq_some]
  constructor
  · rintro ⟨a, us, ha, h⟩
    cases us with
    | nil => cases h; exact ⟨ha, rfl⟩
    | cons t us => cases h
  · rintro ⟨h, hrest⟩
    cases hrest
    exact ⟨e, [], h, rfl⟩

theorem ofTokens_eq_ok {ts : List Token} {text : String} {e : Expr} :
    ofTokens ts text = .ok e ↔
      run (disjunctions (prefixed (ts.length + 1))) ts = some (e, []) ∧ Numerals ts := by
  rw [← numerals_iff]
  cases h : (whole ts).result with
  | none =>
    have hnone : run (disjunctions (prefixed (ts.length + 1))) ts ≠ some (e, []) := by
      intro he
      have := (result_whole_eq_some (r := (e, []))).mpr ⟨he, rfl⟩
      simp [h] at this
    simp only [ofTokens, h, hnone, false_and, iff_false]
    split <;> simp
  | some r =>
    obtain ⟨hr, _⟩ := result_whole_eq_some.mp h
    simp only [ofTokens, h, hr]
    split <;> simp_all

/-- What the parser answers is an expression of the grammar. -/
theorem phrase_of_ofTokens {ts : List Token} {text : String} {e : Expr}
    (h : ofTokens ts text = .ok e) : Phrase .disjunction ts e [] := by
  obtain ⟨hr, hn⟩ := ofTokens_eq_ok.mp h
  exact (sound_prefixed (ts.length + 1)).layers ts e [] hn hr

end NoteQuery
