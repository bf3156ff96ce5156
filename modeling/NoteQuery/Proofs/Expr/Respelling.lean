import Mathlib.Data.List.Forall2
import NoteQuery.Proofs.Expr.Misses
import NoteQuery.Proofs.Expr.Nesting
import NoteQuery.Proofs.Expr.Recognition

/-! The spelling of an operator does not matter: AND may be written as &&, OR as ||, NOT as ! and a comparison for
equality with one sign or two, in any mixture. The parser goes through two lists of tokens in step as
long as their tokens stand for the same, one by one; each combinator keeps that. So it also does when it is
run twice on one list with different limits to the nesting, and then what it misses is the same too. -/

namespace NoteQuery
set_option autoImplicit false
open NoteQuery.Parser NoteQuery.Expr

/-! ### Spellings -/

/-- The two spellings of an operator. -/
def synonyms : List ((TokenKind × String) × (TokenKind × String)) := [
  ((.operator, "&&"), (.keyword, "AND")),
  ((.operator, "||"), (.keyword, "OR")),
  ((.operator, "!"), (.keyword, "NOT")),
  ((.operator, "=="), (.operator, "="))]

namespace Token

def spelling (t : Token) : TokenKind × String := (t.kind, t.text)

/-- Two tokens read the same or are the two spellings of an operator, wherever they stand. -/
def Alike (t u : Token) : Prop :=
  t.spelling = u.spelling ∨ (t.spelling, u.spelling) ∈ synonyms ∨ (u.spelling, t.spelling) ∈ synonyms

namespace Alike

variable {t u : Token}

/-- What does not tell the two spellings of an operator apart does not tell alike tokens apart. -/
theorem congr {γ : Type} (f : TokenKind → String → γ)
    (hf : ∀ s ∈ synonyms, f s.1.1 s.1.2 = f s.2.1 s.2.2) (h : t.Alike u) :
    f t.kind t.text = f u.kind u.text := by
  rcases h with h | h | h
  · obtain ⟨hkind, htext⟩ := Prod.mk.inj h
    rw [hkind, htext]
  · exact hf _ h
  · exact (hf _ h).symm

theorem isMark (h : t.Alike u) (symbol : String) : t.isMark symbol = u.isMark symbol :=
  h.congr (fun kind text => decide (kind = .punctuation) && text == symbol) (by simp [synonyms])

theorem isNegation (h : t.Alike u) : t.isNegation = u.isNegation :=
  h.congr (fun kind text => decide (kind = .keyword) && text == "NOT" ||
    decide (kind = .operator) && text == "!") (by decide)

/-- Names, texts and numbers have one spelling each. -/
theorem textOf? (h : t.Alike u) {kind : TokenKind} (hk : kind ∈ [.identifier, .text, .number]) :
    (if t.kind = kind then some t.text else none) = if u.kind = kind then some u.text else none := by
  refine h.congr (fun k text => if k = kind then some text else none) ?_
  simp only [List.mem_cons, List.not_mem_nil, or_false] at hk
  rcases hk with rfl | rfl | rfl <;> decide

theorem isKeyword (h : t.Alike u) {word : String} (hw : word ∈ valueWords) :
    t.isKeyword word = u.isKeyword word := by
  refine h.congr (fun kind text => decide (kind = .keyword) && text == word) ?_
  simp only [valueWords, List.mem_cons, List.not_mem_nil, or_false] at hw
  rcases hw with rfl | rfl | rfl <;> decide

theorem isOperator (h : t.Alike u) {symbol : String} (hs : symbol ∈ ["=>", "-", "+"]) :
    t.isOperator symbol = u.isOperator symbol := by
  refine h.congr (fun kind text => decide (kind = .operator) && text == symbol) ?_
  simp only [List.mem_cons, List.not_mem_nil, or_false] at hs
  rcases hs with rfl | rfl | rfl <;> decide

theorem comparison? (h : t.Alike u) : t.comparison? = u.comparison? :=
  h.congr (fun kind text => if kind = .operator then Comparison.ofSymbol? text else none) (by decide)

theorem connective? (h : t.Alike u) (l : Layer) : l.connective? t = l.connective? u := by
  cases l with
  | disjunction => exact h.congr (fun kind text => Layer.disjunction.connective? ⟨kind, text, 0⟩) (by decide)
  | conjunction => exact h.congr (fun kind text => Layer.conjunction.connective? ⟨kind, text, 0⟩) (by decide)
  | _ => rfl

theorem arithmetic? (h : t.Alike u) (l : Layer) : l.arithmetic? t = l.arithmetic? u := by
  cases l with
  | sum => exact h.congr (fun kind text => Layer.sum.arithmetic? ⟨kind, text, 0⟩) (by decide)
  | product => exact h.congr (fun kind text => Layer.product.arithmetic? ⟨kind, text, 0⟩) (by decide)
  | _ => rfl

theorem join? (h : t.Alike u) (l : Layer) : l.join? t = l.join? u := by
  rw [Layer.join?, Layer.join?, h.connective? l, h.arithmetic? l]

end Alike
end Token

/-! ### Two runs in step -/

section
variable {α β γ δ : Type}

/-- Two answers of parsers: none both times, or related results before related tokens, of which there
are at most `n`. -/
inductive Answers (T : Token → Token → Prop) (R : α → β → Prop) (n : Nat) :
    Option (α × List Token) → Option (β × List Token) → Prop
  | none : Answers T R n none none
  | some {a : α} {b : β} {ts us : List Token} : R a b → List.Forall₂ T ts us → ts.length ≤ n →
      Answers T R n (some (a, ts)) (some (b, us))

/-- On fewer than `k` tokens two parsers give related answers where they find related tokens, and, if
`exact` holds, they also miss the same. -/
structure Agrees (T : Token → Token → Prop) (exact : Prop) (k : Nat) (R : α → β → Prop)
    (p : Parser α) (q : Parser β) : Prop where
  answers : ∀ {ts us : List Token}, List.Forall₂ T ts us → ts.length < k →
    Answers T R ts.length (run p ts) (run q us)
  misses : ∀ {ts us : List Token}, List.Forall₂ T ts us → ts.length < k → exact →
    misses p ts = misses q us

/-- A relation of tokens that stand for the same, or are even the same. -/
structure Spelling (T : Token → Token → Prop) (exact : Prop) : Prop where
  alike : ∀ {t u : Token}, T t u → t.Alike u
  same : exact → ∀ {t u : Token}, T t u → t = u

theorem Answers.weaken {T : Token → Token → Prop} {R : α → β → Prop} {m n : Nat}
    {x : Option (α × List Token)} {y : Option (β × List Token)} (h : Answers T R m x y) (hle : m ≤ n) :
    Answers T R n x y := by
  cases h with
  | none => exact .none
  | some hr hts hm => exact .some hr hts (Nat.le_trans hm hle)

variable {T : Token → Token → Prop} {exact : Prop} {k : Nat} {R : α → β → Prop} {S : γ → δ → Prop}

theorem eq_of_forall₂_eq {as bs : List α} (h : List.Forall₂ Eq as bs) : as = bs :=
  (congrFun₂ List.forall₂_eq_eq_eq as bs).mp h

theorem Spelling.eq_of_forall₂ (hs : Spelling T exact) (hexact : exact) {ts us : List Token}
    (h : List.Forall₂ T ts us) : ts = us := by
  induction h with
  | nil => rfl
  | cons ht _ ih => rw [hs.same hexact ht, ih]

namespace Agrees

/-- A parser that does not depend on the spelling; run twice on one list it misses the same. -/
theorem of_answers (hs : Spelling T exact) {R : α → α → Prop} {p : Parser α}
    (h : ∀ {ts us : List Token}, List.Forall₂ T ts us → Answers T R ts.length (run p ts) (run p us)) :
    Agrees T exact k R p p where
  answers hts _ := h hts
  misses hts _ hexact := by rw [hs.eq_of_forall₂ hexact hts]

theorem pure {a : α} {b : β} (h : R a b) : Agrees T exact k R (pure a) (pure b) where
  answers hts _ := .some h hts (Nat.le_refl _)
  misses _ _ _ := rfl

theorem fail : Agrees T exact k R (fail : Parser α) (Parser.fail : Parser β) where
  answers _ _ := .none
  misses _ _ _ := rfl

theorem run_eq_none {p : Parser α} {q : Parser β} (h : Agrees T exact k R p q) {ts us : List Token}
    (hts : List.Forall₂ T ts us) (hlt : ts.length < k) (hp : run p ts = none) : run q us = none := by
  have hanswers := h.answers hts hlt
  rw [hp] at hanswers
  generalize run q us = y at hanswers ⊢
  cases hanswers
  rfl

theorem exists_run {p : Parser α} {q : Parser β} (h : Agrees T exact k R p q) {ts us : List Token}
    (hts : List.Forall₂ T ts us) (hlt : ts.length < k) {a : α} {rest : List Token}
    (hp : run p ts = some (a, rest)) :
    ∃ b us', run q us = some (b, us') ∧ R a b ∧ List.Forall₂ T rest us' ∧ rest.length ≤ ts.length := by
  have hanswers := h.answers hts hlt
  rw [hp] at hanswers
  generalize run q us = y at hanswers ⊢
  cases hanswers with
  | some hr hrest hle => exact ⟨_, _, rfl, hr, hrest, hle⟩

theorem cases {p : Parser α} {q : Parser β} (h : Agrees T exact k R p q) {ts us : List Token}
    (hts : List.Forall₂ T ts us) (hlt : ts.length < k) : (run p ts = none ∧ run q us = none) ∨
      ∃ a ts' b us', run p ts = some (a, ts') ∧ run q us = some (b, us') ∧ R a b ∧
        List.Forall₂ T ts' us' ∧ ts'.length ≤ ts.length := by
  cases hp : run p ts with
  | none => exact .inl ⟨rfl, h.run_eq_none hts hlt hp⟩
  | some r =>
    obtain ⟨b, us', hq, hanswer⟩ := h.exists_run hts hlt hp
    exact .inr ⟨r.1, r.2, b, us', rfl, hq, hanswer⟩

theorem bindBelow {j : Nat} {p : Parser α} {q : Parser β} {f : α → Parser γ} {g : β → Parser δ}
    (h : Agrees T exact k R p q)
    (hj : ∀ {ts a rest}, ts.length < k → run p ts = some (a, rest) → rest.length ≤ ts.length →
      rest.length < j) (hf : ∀ a b, R a b → Agrees T exact j S (f a) (g b)) :
    Agrees T exact k S (p >>= f) (q >>= g) where
  answers := by
    intro ts us hts hlt
    rcases h.cases hts hlt with ⟨hp, hq⟩ | ⟨a, ts', b, us', hp, hq, hr, hrest, hle⟩
    · rw [run_bind_none hp, run_bind_none hq]
      exact .none
    · rw [run_bind_some hp, run_bind_some hq]
      exact ((hf a b hr).answers hrest (hj hlt hp hle)).weaken hle
  misses := by
    intro ts us hts hlt hexact
    have hmisses := h.misses hts hlt hexact
    rcases h.cases hts hlt with ⟨hp, hq⟩ | ⟨a, ts', b, us', hp, hq, hr, hrest, hle⟩
    · rw [misses_bind_none hp, misses_bind_none hq, hmisses]
    · rw [misses_bind_some hp, misses_bind_some hq, hmisses,
        (hf a b hr).misses hrest (hj hlt hp hle) hexact]

theorem bind {p : Parser α} {q : Parser β} {f : α → Parser γ} {g : β → Parser δ}
    (h : Agrees T exact k R p q) (hf : ∀ a b, R a b → Agrees T exact k S (f a) (g b)) :
    Agrees T exact k S (p >>= f) (q >>= g) :=
  h.bindBelow (fun hlt _ hle => Nat.lt_of_le_of_lt hle hlt) hf

/-- After a parser that takes a token there are fewer. -/
theorem bindShorter {p : Parser α} {q : Parser β} {f : α → Parser γ} {g : β → Parser δ}
    (h : Agrees T exact (k + 1) R p q) (hp : Shortens p)
    (hf : ∀ a b, R a b → Agrees T exact k S (f a) (g b)) :
    Agrees T exact (k + 1) S (p >>= f) (q >>= g) :=
  h.bindBelow (fun hlt ha _ => Nat.lt_of_lt_of_le (hp ha) (Nat.le_of_lt_succ hlt)) hf

theorem map {p : Parser α} {q : Parser β} {f : α → γ} {g : β → δ} (h : Agrees T exact k R p q)
    (hf : ∀ a b, R a b → S (f a) (g b)) : Agrees T exact k S (f <$> p) (g <$> q) :=
  h.bind fun a b hr => .pure (hf a b hr)

theorem orElse {p p' : Parser α} {q q' : Parser β} (h : Agrees T exact k R p q)
    (h' : Agrees T exact k R p' q') : Agrees T exact k R (orElse p p') (orElse q q') where
  answers := by
    intro ts us hts hlt
    rw [run_orElse, run_orElse]
    rcases h.cases hts hlt with ⟨hp, hq⟩ | ⟨a, ts', b, us', hp, hq, hr, hrest, hle⟩
    · rw [hp, hq]
      exact h'.answers hts hlt
    · rw [hp, hq]
      exact .some hr hrest hle
  misses := by
    intro ts us hts hlt hexact
    have hmisses := h.misses hts hlt hexact
    rcases h.cases hts hlt with ⟨hp, hq⟩ | ⟨a, ts', b, us', hp, hq, _⟩
    · rw [misses_orElse_none hp, misses_orElse_none hq, hmisses, h'.misses hts hlt hexact]
    · rw [misses_orElse_some (by simp [hp]), misses_orElse_some (by simp [hq]), hmisses]

theorem optional {p : Parser α} {q : Parser β} (h : Agrees T exact k R p q) :
    Agrees T exact k (Option.Rel R) (optional p) (optional q) := by
  have hsome : Agrees T exact k (Option.Rel R) (some <$> p) (some <$> q) :=
    h.map fun _ _ => Option.Rel.some
  exact hsome.orElse (.pure .none)

theorem repeated {p : Parser α} {q : Parser β} (h : Agrees T exact k R p q) :
    Agrees T exact k (List.Forall₂ R) (repeated p) (repeated q) where
  answers := by
    intro ts us hts hlt
    induction ts using repeated_induction p generalizing us with
    | none ts hp =>
      rw [run_repeated_none hp, run_repeated_none (h.run_eq_none hts hlt hp)]
      exact .some .nil hts (Nat.le_refl _)
    | more ts a ts' hp hshorter ih =>
      obtain ⟨b, us', hq, hr, hrest, hle⟩ := h.exists_run hts hlt hp
      have hshorter' : us'.length < us.length := by rwa [← hrest.length_eq, ← hts.length_eq]
      rw [run_repeated_some hp hshorter, run_repeated_some hq hshorter']
      have hmore := ih hrest (Nat.lt_trans hshorter hlt)
      generalize run (Parser.repeated p) ts' = x at hmore
      generalize run (Parser.repeated q) us' = y at hmore
      cases hmore with
      | none => exact .none
      | some hrs hend hend' => exact .some (.cons hr hrs) hend (Nat.le_trans hend' hle)
    | stuck ts a ts' hp hstuck =>
      obtain ⟨b, us', hq, hr, hrest, hle⟩ := h.exists_run hts hlt hp
      have hstuck' : ¬ us'.length < us.length := by rwa [← hrest.length_eq, ← hts.length_eq]
      rw [run_repeated_stuck hp hstuck, run_repeated_stuck hq hstuck']
      exact .some (.cons hr .nil) hrest hle
  misses := by
    intro ts us hts hlt hexact
    induction ts using repeated_induction p generalizing us with
    | none ts hp =>
      rw [misses_repeated_none hp, misses_repeated_none (h.run_eq_none hts hlt hp), h.misses hts hlt hexact]
    | more ts a ts' hp hshorter ih =>
      obtain ⟨b, us', hq, _, hrest, _⟩ := h.exists_run hts hlt hp
      have hshorter' : us'.length < us.length := by rwa [← hrest.length_eq, ← hts.length_eq]
      rw [misses_repeated_some hp hshorter, misses_repeated_some hq hshorter', h.misses hts hlt hexact,
        ih hrest (Nat.lt_trans hshorter hlt)]
    | stuck ts a ts' hp hstuck =>
      obtain ⟨b, us', hq, _, hrest, _⟩ := h.exists_run hts hlt hp
      have hstuck' : ¬ us'.length < us.length := by rwa [← hrest.length_eq, ← hts.length_eq]
      rw [misses_repeated_stuck hp hstuck, misses_repeated_stuck hq hstuck', h.misses hts hlt hexact]

theorem separated {s : Parser γ} {s' : Parser δ} {p : Parser α} {q : Parser β}
    (hs : Agrees T exact k S s s') (h : Agrees T exact k R p q) :
    Agrees T exact k (List.Forall₂ R) (separated s p) (separated s' q) := by
  have hmore : Agrees T exact k R (s >>= fun _ => p) (s' >>= fun _ => q) := hs.bind fun _ _ _ => h
  have hlist : Agrees T exact k (List.Forall₂ R)
      (p >>= fun a => Parser.repeated (s >>= fun _ => p) >>= fun as => Pure.pure (a :: as))
      (q >>= fun a => Parser.repeated (s' >>= fun _ => q) >>= fun as => Pure.pure (a :: as)) :=
    h.bind fun _ _ hr => hmore.repeated.bind fun _ _ hrs => .pure (.cons hr hrs)
  exact hlist.orElse (.pure .nil)

end Agrees

/-! ### Parsers that do not depend on the spelling -/

variable (hs : Spelling T exact)
include hs

theorem agrees_token {R : Token → Token → Prop} {test : Token → Bool} (expectation : Expectation)
    (htest : ∀ {t u : Token}, t.Alike u → test t = test u)
    (hr : ∀ {t u : Token}, t.Alike u → test t → R t u) :
    Agrees T exact k R (token expectation test) (token expectation test) := by
  refine .of_answers hs ?_
  intro ts us hts
  cases hts with
  | nil => exact .none
  | @cons t u ts us ht hts =>
    have halike := hs.alike ht
    rw [run_token, run_token, ← htest halike]
    split
    · next h => exact .some (hr halike h) hts (by simp)
    · exact .none

theorem agrees_mark (symbol : String) :
    Agrees T exact k (fun _ _ => True) (mark symbol) (mark symbol) :=
  agrees_token hs _ (fun h => h.isMark symbol) fun _ _ => trivial

theorem agrees_ofKind {kind : TokenKind} (hk : kind ∈ [.identifier, .text, .number]) :
    Agrees T exact k (fun t u => t.text = u.text) (ofKind kind) (ofKind kind) := by
  refine agrees_token hs _ ?_ ?_
  · intro t u h
    have htext := h.textOf? hk
    by_cases ht : t.kind = kind <;> by_cases hu : u.kind = kind <;> simp_all
  · intro t u h ht
    have htext := h.textOf? hk
    by_cases hu : u.kind = kind <;> simp_all

theorem agrees_identifier : Agrees T exact k (fun t u => t.text = u.text) identifier identifier :=
  agrees_ofKind hs (by simp)

theorem agrees_word {word : String} (hw : word ∈ valueWords) :
    Agrees T exact k (fun _ _ => True) (keyword word) (keyword word) :=
  agrees_token hs _ (fun h => h.isKeyword hw) fun _ _ => trivial

theorem agrees_operator {symbol : String} (hsymbol : symbol ∈ ["=>", "-", "+"]) :
    Agrees T exact k (fun _ _ => True) (operator [symbol]) (operator [symbol]) := by
  refine agrees_token hs _ ?_ fun _ _ => trivial
  intro t u h
  simp only [List.contains_cons, List.contains_nil, Bool.or_false]
  exact h.isOperator hsymbol

theorem agrees_comparing : Agrees T exact k
    (fun t u => (Comparison.ofSymbol? t.text).getD .eq = (Comparison.ofSymbol? u.text).getD .eq)
    (operator comparisonSymbols) (operator comparisonSymbols) :=
  agrees_token hs _
    (fun h => h.congr (fun kind text => decide (kind = .operator) && comparisonSymbols.contains text)
      (by decide))
    fun h _ => h.congr (fun _ text => (Comparison.ofSymbol? text).getD .eq) (by decide)

theorem agrees_negation : Agrees T exact k (fun _ _ => True) negation negation := by
  refine .of_answers hs ?_
  intro ts us hts
  cases hts with
  | nil => exact .none
  | @cons t u ts us ht hts =>
    rw [run_negation_cons, run_negation_cons, ← (hs.alike ht).isNegation]
    split
    · exact .some trivial hts (by simp)
    · exact .none

theorem agrees_joiner {l : Layer} (hl : l.repeats) : Agrees T exact k Eq l.joiner l.joiner := by
  refine .of_answers hs ?_
  intro ts us hts
  cases hts with
  | nil => rw [Layer.run_joiner_nil]; exact .none
  | @cons t u ts us ht hts =>
    rw [Layer.run_joiner_cons l hl, Layer.run_joiner_cons l hl, ← (hs.alike ht).join? l]
    cases l.join? t with
    | none => exact .none
    | some f => exact .some rfl hts (by simp)

theorem agrees_literalParser : Agrees T exact k Eq literalParser literalParser :=
  .orElse ((agrees_ofKind hs (by simp)).bind fun _ _ h => .pure (by rw [h])) <|
  .orElse ((agrees_ofKind hs (by simp)).bind fun _ _ h => .pure (by rw [h])) <|
  .orElse ((agrees_word hs (by decide)).bind fun _ _ _ => .pure rfl) <|
  .orElse ((agrees_word hs (by decide)).bind fun _ _ _ => .pure rfl) <|
  (agrees_word hs (by decide)).bind fun _ _ _ => .pure rfl

/-! ### The grammar -/

theorem agrees_between {p : Parser α} {q : Parser β} (opening closing : String)
    (h : Agrees T exact k R p q) :
    Agrees T exact (k + 1) R (between opening closing p) (between opening closing q) :=
  (agrees_mark hs opening).bindShorter (shortens_token _ _) fun _ _ _ =>
    h.bind fun _ _ hr => (agrees_mark hs closing).bind fun _ _ _ => .pure hr

section
variable {p q : Parser Expr} (h : Agrees T exact k Eq p q)
include h

theorem agrees_lambdaParser : Agrees T exact (k + 1) Eq (lambdaParser p) (lambdaParser q) := by
  have hparameter : Agrees T exact (k + 1) (fun t u => t.text = u.text)
      (orElse (between "(" ")" identifier) identifier)
      (orElse (between "(" ")" identifier) identifier) :=
    (agrees_between hs "(" ")" (agrees_identifier hs)).orElse (agrees_identifier hs)
  refine hparameter.bind fun _ _ hx => ?_
  refine (agrees_operator hs (by simp)).bindShorter (shortens_token _ _) fun _ _ _ => ?_
  exact h.bind fun _ _ he => .pure (by rw [hx, he])

theorem agrees_callParser : Agrees T exact (k + 1) Eq (callParser p) (callParser q) := by
  refine (agrees_identifier hs).bind fun _ _ hf => ?_
  refine (agrees_between hs "(" ")" ((agrees_mark hs ",").separated h)).bind fun _ _ hes => .pure ?_
  rw [hf, eq_of_forall₂_eq hes]

theorem agrees_primary : Agrees T exact (k + 1) Eq (primary p) (primary q) :=
  .orElse (agrees_lambdaParser hs h) <|
  .orElse (agrees_between hs "(" ")" h) <|
  .orElse ((agrees_literalParser hs).map fun _ _ hv => by rw [hv]) <|
  .orElse (agrees_callParser hs h) <|
  (agrees_identifier hs).bind fun _ _ hx => .pure (by rw [hx])

theorem agrees_member : Agrees T exact (k + 1) Eq (member p) (member q) :=
  .orElse ((agrees_mark hs ".").bind fun _ _ _ =>
    (agrees_identifier hs).bind fun _ _ hx => .pure (by rw [hx])) <|
  (agrees_between hs "[" "]" h).bind fun _ _ hkey => .pure (by rw [hkey])

theorem agrees_postfixed : Agrees T exact (k + 1) Eq (postfixed p) (postfixed q) := by
  refine (agrees_primary hs h).bind fun _ _ he => ?_
  refine (agrees_member hs h).repeated.bind fun _ _ hms => .pure ?_
  rw [he, eq_of_forall₂_eq hms]

omit h in
theorem agrees_repeats {l : Layer} (hl : l.repeats)
    (h : Agrees T exact k Eq (l.operand.parser p) (l.operand.parser q)) :
    Agrees T exact k Eq (l.parser p) (l.parser q) := by
  have hjoined : Agrees T exact k Eq (l.joined p) (l.joined q) :=
    (agrees_joiner hs hl).bind fun _ _ hf => h.bind fun _ _ he => .pure (by rw [hf, he])
  rw [Layer.parser_of_repeats hl, Layer.parser_of_repeats hl]
  refine h.bind fun _ _ he => hjoined.repeated.bind fun _ _ hrs => .pure ?_
  rw [he, eq_of_forall₂_eq hrs]

omit h in
theorem agrees_comparison (h : Agrees T exact k Eq (sums p) (sums q)) :
    Agrees T exact k Eq (comparison p) (comparison q) := by
  have hcompared : Agrees T exact k
      (fun r s => (Comparison.ofSymbol? r.1.text).getD .eq = (Comparison.ofSymbol? s.1.text).getD .eq ∧
        r.2 = s.2) (compared p) (compared q) :=
    (agrees_comparing hs).bind fun _ _ ht => h.bind fun _ _ he => .pure ⟨ht, he⟩
  refine h.bind fun _ _ he => hcompared.optional.bind fun _ _ hr => ?_
  cases hr with
  | none => exact .pure he
  | some hr => exact .pure (by rw [he, hr.1, hr.2])

theorem agrees_disjunctions : Agrees T exact k Eq (disjunctions p) (disjunctions q) := by
  have hproducts := agrees_repeats hs (l := .product) rfl h
  have hsums := agrees_repeats hs (l := .sum) rfl hproducts
  have hconjunctions := agrees_repeats hs (l := .conjunction) rfl (agrees_comparison hs hsums)
  exact agrees_repeats hs (l := .disjunction) rfl hconjunctions

theorem agrees_withPrefix : Agrees T exact (k + 1) Eq (withPrefix p) (withPrefix q) :=
  .orElse ((agrees_negation hs).bindShorter shortens_negation fun _ _ _ =>
    h.bind fun _ _ he => .pure (by rw [he])) <|
  .orElse ((agrees_operator hs (by simp)).bindShorter (shortens_token _ _) fun _ _ _ =>
    h.bind fun _ _ he => .pure (by rw [he])) <|
  .orElse ((agrees_operator hs (by simp)).bindShorter (shortens_token _ _) fun _ _ _ => h) <|
  agrees_postfixed hs (agrees_disjunctions hs h)

end

/-- With the same limit to the nesting, or with any two that suffice for the tokens. -/
theorem agrees_prefixed (n : Nat) : ∀ {m k : Nat}, n = m ∨ k ≤ n ∧ k ≤ m →
    Agrees T exact k Eq (prefixed n) (prefixed m) := by
  induction n with
  | zero =>
    intro m k hnest
    rcases hnest with rfl | ⟨hn, _⟩
    · exact .fail
    · exact ⟨fun _ hlt => absurd hlt (by omega), fun _ hlt => absurd hlt (by omega)⟩
  | succ n ih =>
    intro m k hnest
    cases k with
    | zero => exact ⟨fun _ hlt => absurd hlt (by omega), fun _ hlt => absurd hlt (by omega)⟩
    | succ k =>
      obtain ⟨m, rfl⟩ : ∃ l, m = l + 1 := ⟨m - 1, by omega⟩
      exact agrees_withPrefix hs (ih (by omega))

end

/-! ### The whole of a list -/

theorem spelling_alike : Spelling Token.Alike False where
  alike h := h
  same := False.elim

theorem Token.Alike.symm {t u : Token} (h : t.Alike u) : u.Alike t := by
  rcases h with h | h | h
  · exact .inl h.symm
  · exact .inr (.inr h)
  · exact .inr (.inl h)

theorem Numerals.respelled {ts us : List Token} (h : List.Forall₂ Token.Alike ts us)
    (hn : Numerals ts) : Numerals us := by
  induction h with
  | nil => exact hn
  | @cons t u ts us ht _ ih =>
    refine (ih hn.tail).cons ?_
    intro hk
    have hnumber : TokenKind.number ∈ [TokenKind.identifier, .text, .number] := by simp
    have htext := ht.textOf? hnumber
    rw [if_pos hk] at htext
    by_cases hkind : t.kind = .number
    · rw [if_pos hkind, Option.some.injEq] at htext
      rw [← htext]
      exact hn t List.mem_cons_self hkind
    · rw [if_neg hkind] at htext
      cases htext

theorem ofTokens_ok_respelled {ts us : List Token} (h : List.Forall₂ Token.Alike ts us)
    {text text' : String} {e : Expr} (he : ofTokens ts text = .ok e) : ofTokens us text' = .ok e := by
  obtain ⟨hrun, hn⟩ := ofTokens_eq_ok.mp he
  have hagrees := agrees_disjunctions spelling_alike
    (agrees_prefixed spelling_alike (ts.length + 1) (k := ts.length + 1) (.inl rfl))
  have hanswers := hagrees.answers h (Nat.lt_succ_self _)
  rw [hrun] at hanswers
  refine ofTokens_eq_ok.mpr ⟨?_, hn.respelled h⟩
  rw [← h.length_eq]
  generalize run (disjunctions (prefixed (ts.length + 1))) us = y at hanswers
  cases hanswers with
  | some heq hrest _ => cases hrest; rw [heq]

/-- Respelling operators changes nothing about the expression, nor about whether there is one. -/
theorem ofTokens_respelled {ts us : List Token} (h : List.Forall₂ Token.Alike ts us)
    (text text' : String) (e : Expr) : ofTokens ts text = .ok e ↔ ofTokens us text' = .ok e :=
  ⟨ofTokens_ok_respelled h, ofTokens_ok_respelled (h.flip.imp fun _ _ => Token.Alike.symm)⟩

theorem ofTokens_respelled_negation :
    List.Forall₂ Token.Alike
        [⟨.identifier, "a", 0⟩, ⟨.operator, "&&", 2⟩, ⟨.operator, "!", 5⟩, ⟨.identifier, "b", 6⟩]
        [⟨.identifier, "a", 0⟩, ⟨.keyword, "AND", 2⟩, ⟨.keyword, "NOT", 6⟩, ⟨.identifier, "b", 10⟩] ∧
      ofTokens [⟨.identifier, "a", 0⟩, ⟨.keyword, "AND", 2⟩, ⟨.keyword, "NOT", 6⟩,
          ⟨.identifier, "b", 10⟩] "a AND NOT b" =
        .ok (.connect .and (.name "a") (.unary .not (.name "b"))) := by
  have halike : List.Forall₂ Token.Alike
      [⟨.identifier, "a", 0⟩, ⟨.operator, "&&", 2⟩, ⟨.operator, "!", 5⟩, ⟨.identifier, "b", 6⟩]
      [⟨.identifier, "a", 0⟩, ⟨.keyword, "AND", 2⟩, ⟨.keyword, "NOT", 6⟩, ⟨.identifier, "b", 10⟩] :=
    .cons (.inl rfl) (.cons (.inr (.inl (by decide))) (.cons (.inr (.inl (by decide)))
      (.cons (.inl rfl) .nil)))
  have hname (l : Layer) (s : String) (offset : Nat) (rest : List Token) :
      Derives (Stops .disjunction) l (⟨.identifier, s, offset⟩ :: rest) (.name s) rest :=
    (Derives.name rfl).of_primary l
  have hphrase : Derives (Stops .disjunction) .disjunction
      [⟨.identifier, "a", 0⟩, ⟨.operator, "&&", 2⟩, ⟨.operator, "!", 5⟩, ⟨.identifier, "b", 6⟩]
      (.connect .and (.name "a") (.unary .not (.name "b"))) [] := by
    have hnegated : Derives (Stops .disjunction) .prefixed
        [⟨.operator, "!", 5⟩, ⟨.identifier, "b", 6⟩] (.unary .not (.name "b")) [] :=
      .not rfl (hname _ "b" 6 [])
    exact Derives.expression (l := .conjunction)
      (.connect (hname _ "a" 0 _) rfl (hnegated.weaken (by decide)))
  exact ⟨halike, (ofTokens_respelled halike "a && !b" "a AND NOT b" _).mp
    (ofTokens_of_derives hphrase "a && !b")⟩

end NoteQuery
