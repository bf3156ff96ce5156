import NoteQuery.Proofs.Expr.Lexical
import NoteQuery.Proofs.Expr.Locality

/-! Where a parser gets stuck. The tokens before the furthest point at which it missed something can be continued
to what it reads, by tokens that it looks for there; with the token at that point they cannot. The first is
carried through each combinator from what it is made of: a part that can be continued is followed by what the
other parts need. The second holds since the parser looks no further. -/

namespace NoteQuery
set_option autoImplicit false
open NoteQuery.Parser NoteQuery.Expr

section
variable {α β : Type}

/-- No condition on what comes after. -/
def Anything (_ : List Token) : Prop := True

/-- Some tokens that texts have complete `xs` to what a parser reads, whatever comes after them that `follow`
allows. -/
def Finishes (follow : List Token → Prop) (p : Parser α) (xs : List Token) : Prop :=
  ∃ vs a, (∀ v ∈ vs, v.Lexical) ∧ ∀ rest, follow rest → run p (xs ++ (vs ++ rest)) = some (a, rest)

/-- Some tokens that texts have are read by a parser and may come where `after` is asked for. -/
def Leads (after follow : List Token → Prop) (p : Parser α) : Prop :=
  ∃ vs a, (∀ v ∈ vs, v.Lexical) ∧
    ∀ rest, follow rest → after (vs ++ rest) ∧ run p (vs ++ rest) = some (a, rest)

/-- On fewer than `k` tokens, what comes before the furthest point at which a parser misses something can be
completed to what it reads. -/
structure Viable (k : Nat) (follow : List Token → Prop) (p : Parser α) : Prop extends Local k p where
  starts : Finishes follow p []
  completes : ∀ {xs tail : List Token}, (xs ++ tail).length < k →
    (misses p (xs ++ tail)).At tail.length → Finishes follow p xs

namespace Leads

variable {after follow : List Token → Prop} {p : Parser α}

/-- A parser that takes nothing where it stops. -/
theorem of_stop {a : α} (h : ∀ rest, follow rest → after rest ∧ run p rest = some (a, rest)) :
    Leads after follow p := ⟨[], a, nofun, h⟩

theorem pure (a : α) : Leads follow follow (Pure.pure a : Parser α) := of_stop fun _ hrest => ⟨hrest, rfl⟩

theorem repeated (hstop : ∀ rest, follow rest → run p rest = none) (g : List α → β) :
    Leads follow follow (repeated p >>= fun as => Pure.pure (g as)) :=
  of_stop fun rest hrest => ⟨hrest, run_bind_some (run_repeated_none (hstop rest hrest)) _⟩

end Leads

namespace Finishes

variable {after follow : List Token → Prop} {p q : Parser α} {xs : List Token}

theorem bind {f : α → Parser β} (h : Finishes after p xs) (hf : ∀ a, Leads after follow (f a)) :
    Finishes follow (p >>= f) xs := by
  obtain ⟨vs, a, hvs, hread⟩ := h
  obtain ⟨ws, b, hws, hlead⟩ := hf a
  refine ⟨vs ++ ws, b, List.forall_mem_append.mpr ⟨hvs, hws⟩, ?_⟩
  intro rest hrest
  obtain ⟨hafter, hmore⟩ := hlead rest hrest
  rw [List.append_assoc, run_bind_some (hread (ws ++ rest) hafter), hmore]

theorem orElse (h : Finishes follow p xs) (q : Parser α) : Finishes follow (orElse p q) xs := by
  obtain ⟨vs, a, hvs, hread⟩ := h
  refine ⟨vs, a, hvs, fun rest hrest => ?_⟩
  rw [run_orElse, hread rest hrest, Option.some_or]

end Finishes

namespace Viable

variable {k : Nat} {after follow : List Token → Prop} {p q : Parser α}

/-! ### Combinators -/

/-- On no tokens there is nothing to complete but the start. -/
theorem zero (h : Finishes follow p []) : Viable 0 follow p where
  suffix hlt := absurd hlt (Nat.not_lt_zero _)
  left_le hlt := absurd hlt (Nat.not_lt_zero _)
  missed hlt := absurd hlt (Nat.not_lt_zero _)
  keepsNone hlt := absurd hlt (Nat.not_lt_zero _)
  keepsSome hlt := absurd hlt (Nat.not_lt_zero _)
  starts := h
  completes hlt := absurd hlt (Nat.not_lt_zero _)

theorem pure (a : α) : Viable k follow (Pure.pure a : Parser α) where
  toLocal := .pure a
  starts := ⟨[], a, nofun, fun _ _ => rfl⟩
  completes := by
    rintro xs tail _ ⟨hne, _⟩
    exact absurd rfl hne

theorem token {expectation : Expectation} {test : Token → Bool} {t : Token} (ht : t.Lexical) (htest : test t) :
    Viable k follow (Parser.token expectation test) := by
  have hread : Finishes follow (Parser.token expectation test) [] := by
    refine ⟨[t], t, by simpa using ht, fun rest _ => ?_⟩
    exact run_token_eq_some.mpr ⟨rfl, htest⟩
  refine ⟨.token expectation test, hread, ?_⟩
  rintro xs tail _ ⟨hne, hleft⟩
  rw [misses_token] at hne hleft
  split at hleft
  · have hlength : (xs ++ tail).length = tail.length := hleft
    rw [List.length_append] at hlength
    obtain rfl := List.length_eq_zero_iff.mp (by omega : xs.length = 0)
    exact hread
  · next hnone =>
    rw [if_neg hnone] at hne
    exact absurd rfl hne

theorem weaken {follow' : List Token → Prop} (h : Viable k follow p)
    (hfollow : ∀ rest, follow' rest → follow rest) : Viable k follow' p := by
  have hfinishes {xs : List Token} : Finishes follow p xs → Finishes follow' p xs := by
    rintro ⟨vs, a, hvs, hread⟩
    exact ⟨vs, a, hvs, fun rest hrest => hread rest (hfollow rest hrest)⟩
  exact ⟨h.toLocal, hfinishes h.starts, fun hlt hat => hfinishes (h.completes hlt hat)⟩

theorem bindBelow {j : Nat} {f : α → Parser β} (h : Viable k after p)
    (hj : ∀ {ts a rest}, ts.length < k → run p ts = some (a, rest) → rest.length < j)
    (hf : ∀ a, Viable j follow (f a)) (hlead : ∀ a, Leads after follow (f a)) :
    Viable k follow (p >>= f) where
  toLocal := h.toLocal.bindBelow hj fun a => (hf a).toLocal
  starts := h.starts.bind hlead
  completes := by
    intro xs tail hlt hat
    cases ha : run p (xs ++ tail) with
    | none =>
      rw [misses_bind_none ha] at hat
      exact (h.completes hlt hat).bind hlead
    | some r =>
      obtain ⟨a, us⟩ := r
      rw [misses_bind_some ha] at hat
      rcases Misses.at_join hat with hfirst | ⟨hsecond, hbefore⟩
      · exact (h.completes hlt hfirst).bind hlead
      · have hj' := hj hlt ha
        have hle := (hf a).left_le hj'
        rw [hsecond.2] at hle
        obtain ⟨ys, rfl⟩ := exists_append_of_suffix (h.suffix hlt ha) hle
        obtain ⟨vs, b, hvs, hread⟩ := (hf a).completes hj' hsecond
        refine ⟨vs, b, hvs, fun rest hrest => ?_⟩
        rw [run_bind_some (h.keepsSome hlt hbefore ha (vs ++ rest)), hread rest hrest]

theorem followedBy {f : α → Parser β} (h : Viable k after p) (hf : ∀ a, Viable k follow (f a))
    (hlead : ∀ a, Leads after follow (f a)) : Viable k follow (p >>= f) :=
  h.bindBelow (fun hlt ha => Nat.lt_of_le_of_lt (h.suffix hlt ha).length_le hlt) hf hlead

theorem leads (h : Viable k follow p) : Leads Anything follow p := by
  obtain ⟨vs, a, hvs, hread⟩ := h.starts
  exact ⟨vs, a, hvs, fun rest hrest => ⟨trivial, hread rest hrest⟩⟩

theorem bind {f : α → Parser β} (h : Viable k Anything p) (hf : ∀ a, Viable k follow (f a)) :
    Viable k follow (p >>= f) := h.followedBy hf fun a => (hf a).leads

/-- After a parser that takes a token there are fewer. -/
theorem bindShorter {f : α → Parser β} (h : Viable (k + 1) Anything p) (hp : Shortens p)
    (hf : ∀ a, Viable k follow (f a)) : Viable (k + 1) follow (p >>= f) :=
  h.bindBelow (fun hlt ha => Nat.lt_of_lt_of_le (hp ha) (Nat.le_of_lt_succ hlt)) hf fun a => (hf a).leads

theorem map (h : Viable k follow p) (g : α → β) : Viable k follow (p >>= fun a => Pure.pure (g a)) :=
  h.followedBy (fun a => .pure (g a)) fun a => .pure (g a)

theorem orElse (h : Viable k follow p) (h' : Viable k follow q) : Viable k follow (orElse p q) where
  toLocal := h.toLocal.orElse h'.toLocal
  starts := h.starts.orElse q
  completes := by
    intro xs tail hlt hat
    by_cases hp : run p (xs ++ tail) = none
    · rw [misses_orElse_none hp] at hat
      rcases Misses.at_join hat with hfirst | ⟨hsecond, hbefore⟩
      · exact (h.completes hlt hfirst).orElse q
      · obtain ⟨vs, a, hvs, hread⟩ := h'.completes hlt hsecond
        refine ⟨vs, a, hvs, fun rest hrest => ?_⟩
        rw [run_orElse, h.keepsNone hlt hbefore hp (vs ++ rest), hread rest hrest, Option.none_or]
    · rw [misses_orElse_some hp] at hat
      exact (h.completes hlt hat).orElse q

theorem optional (h : Viable k follow p) : Viable k follow (optional p) := (h.map some).orElse (.pure none)

/-- An item that is completed ends a repetition where no further one can start. -/
theorem finishes_repeated {xs : List Token} (hstop : ∀ rest, follow rest → run p rest = none)
    (h : Finishes follow p xs) : Finishes follow (repeated p) xs := by
  obtain ⟨vs, a, hvs, hread⟩ := h
  refine ⟨vs, [a], hvs, fun rest hrest => ?_⟩
  have hitem := hread rest hrest
  have hshorter : rest.length < (xs ++ (vs ++ rest)).length := by
    rcases Nat.eq_zero_or_pos (xs ++ vs).length with hzero | hpos
    · rw [← List.append_assoc, List.length_eq_zero_iff.mp hzero, List.nil_append, hstop rest hrest] at hitem
      cases hitem
    · simp only [List.length_append] at hpos ⊢
      omega
  rw [run_repeated_some hitem hshorter, run_repeated_none (hstop rest hrest)]
  rfl

theorem repeated (h : Viable k follow p) (hstop : ∀ rest, follow rest → run p rest = none) :
    Viable k follow (repeated p) where
  toLocal := h.toLocal.repeated
  starts := ⟨[], [], nofun, fun rest hrest => run_repeated_none (hstop rest hrest)⟩
  completes := by
    intro xs tail hlt hat
    generalize hts : xs ++ tail = ts at hlt hat
    induction ts using repeated_induction p generalizing xs with
    | none ts ha =>
      subst hts
      rw [misses_repeated_none ha] at hat
      exact finishes_repeated hstop (h.completes hlt hat)
    | more ts a us ha hshorter ih =>
      subst hts
      rw [misses_repeated_some ha hshorter] at hat
      rcases Misses.at_join hat with hfirst | ⟨hmore, hbefore⟩
      · exact finishes_repeated hstop (h.completes hlt hfirst)
      · have hle := h.toLocal.repeated.left_le (Nat.lt_trans hshorter hlt)
        rw [hmore.2] at hle
        obtain ⟨ys, rfl⟩ := exists_append_of_suffix (h.suffix hlt ha) hle
        obtain ⟨vs, as, hvs, hread⟩ := ih rfl (Nat.lt_trans hshorter hlt) hmore
        refine ⟨vs, a :: as, hvs, fun rest hrest => ?_⟩
        have hshorter' : (ys ++ (vs ++ rest)).length < (xs ++ (vs ++ rest)).length := by
          simp only [List.length_append] at hshorter ⊢
          omega
        rw [run_repeated_some (h.keepsSome hlt hbefore ha (vs ++ rest)) hshorter', hread rest hrest]
        rfl
    | stuck ts a us ha hshorter =>
      subst hts
      rw [misses_repeated_stuck ha hshorter] at hat
      exact finishes_repeated hstop (h.completes hlt hat)

end Viable

/-! ### Tokens and operands -/

variable {k : Nat} {follow : List Token → Prop}

theorem viable_mark {symbol : String} (h : symbol ∈ Lexeme.marks.map fun c => String.ofList [c]) :
    Viable k follow (mark symbol) :=
  .token (lexical_mark 0 h) (by simp [Token.isMark])

theorem viable_keyword {word : String} (h : word ∈ connectingWords ++ valueWords) :
    Viable k follow (keyword word) :=
  .token (lexical_keyword 0 h) (by simp [Token.isKeyword])

theorem viable_operator {symbol : String} (symbols : List String)
    (h : symbol ∈ Lexeme.doubleOperators ++ Lexeme.singleOperators.map fun c => String.ofList [c]) :
    Viable k follow (operator (symbol :: symbols)) :=
  .token (lexical_symbol 0 h) (by simp)

theorem viable_identifier : Viable k follow identifier := .token (lexical_name 0 (x := "x") rfl) rfl

theorem viable_negation : Viable k follow negation :=
  (viable_keyword (by decide)).orElse (viable_operator [] (by decide))

theorem viable_joiner {l : Layer} (hl : l.repeats) : Viable k follow l.joiner := by
  cases l with
  | disjunction =>
    exact ((viable_keyword (by decide)).orElse (viable_operator [] (by decide))).map _
  | conjunction =>
    exact ((viable_keyword (by decide)).orElse (viable_operator [] (by decide))).map _
  | sum => exact (viable_operator ["-"] (by decide)).map _
  | product => exact (viable_operator ["/", "%"] (by decide)).map _
  | _ => cases hl

theorem viable_literalParser : Viable k follow literalParser := by
  have htext : Viable k follow (ofKind .text) :=
    .token (lexical_text 0 "") rfl
  have hnumber : Viable k follow (ofKind .number) :=
    .token (lexical_integer 0 0) rfl
  exact .orElse (htext.map _) <| .orElse (hnumber.map _) <|
    .orElse ((viable_keyword (by decide)).map _) <|
    .orElse ((viable_keyword (by decide)).map _) <| (viable_keyword (by decide)).map _

/-! ### The grammar -/

theorem Stops.expression {ts : List Token} (h : Stops .disjunction ts) (l : Layer) : Stops l ts :=
  fun t ht m hm => absurd (h t ht m hm) (Nat.not_lt_zero _)

/-- Something between brackets has fewer tokens, and the closing bracket may come after it. -/
theorem viable_between {after : List Token → Prop} {opening closing : String}
    (hopening : opening ∈ Lexeme.marks.map fun c => String.ofList [c])
    (hclosing : closing ∈ Lexeme.marks.map fun c => String.ofList [c]) {p : Parser α} (h : Viable k after p)
    (hafter : ∀ c rest, c.isMark closing → after (c :: rest)) :
    Viable (k + 1) follow (between opening closing p) := by
  refine (viable_mark hopening).bindShorter (shortens_token _ _) fun _ => ?_
  refine h.followedBy (fun a => (viable_mark hclosing).map fun _ => a) fun a => ?_
  have hc : (⟨.punctuation, closing, 0⟩ : Token).isMark closing := by simp [Token.isMark]
  refine ⟨[⟨.punctuation, closing, 0⟩], a, by simpa using lexical_mark 0 hclosing, ?_⟩
  intro rest _
  refine ⟨hafter _ rest hc, ?_⟩
  exact run_mark_bind_eq_some.mpr ⟨_, rest, rfl, hc, rfl⟩

/-- A closing parenthesis comes next. -/
def Closed (rest : List Token) : Prop := ∃ c us, rest = c :: us ∧ c.isMark ")"

theorem Closed.stops {rest : List Token} (h : Closed rest) : Stops .disjunction rest := by
  obtain ⟨c, us, rfl, hc⟩ := h
  exact .of_mark hc (by simp) .disjunction us

section
variable {p : Parser Expr} (h : Viable k (Stops .disjunction) p)
include h

theorem viable_group {opening closing : String}
    (hbrackets : opening = "(" ∧ closing = ")" ∨ opening = "[" ∧ closing = "]") :
    Viable (k + 1) follow (between opening closing p) := by
  rcases hbrackets with ⟨rfl, rfl⟩ | ⟨rfl, rfl⟩
  · exact viable_between (by decide) (by decide) h
      fun c rest hc => .of_mark hc (by simp) .disjunction rest
  · exact viable_between (by decide) (by decide) h
      fun c rest hc => .of_mark hc (by simp) .disjunction rest

theorem viable_lambdaParser : Viable (k + 1) (Stops .disjunction) (lambdaParser p) := by
  have hname : Viable k Anything identifier := viable_identifier
  have hparameter : Viable (k + 1) Anything (orElse (between "(" ")" identifier) identifier) :=
    (viable_between (by decide) (by decide) hname fun _ _ _ => trivial).orElse viable_identifier
  refine hparameter.bind fun _ => ?_
  refine (viable_operator [] (by decide)).bindShorter (shortens_token _ _) fun _ => ?_
  exact h.map _

theorem viable_arguments : Viable k Closed (separated (mark ",") p) := by
  have hmore : Viable k (Stops .disjunction) (mark "," >>= fun _ => p) :=
    (viable_mark (by decide)).bind fun _ => h
  have hstop (rest : List Token) (hrest : Closed rest) : run (mark "," >>= fun _ => p) rest = none := by
    obtain ⟨c, us, rfl, hc⟩ := hrest
    simp only [Token.isMark, Bool.and_eq_true, decide_eq_true_eq, beq_iff_eq] at hc
    simp [mark, run_bind, run_token, Token.isMark, hc.2]
  have hrepeated := (hmore.weaken fun _ => Closed.stops).repeated hstop
  have hlist : Viable k Closed
      (p >>= fun e => Parser.repeated (mark "," >>= fun _ => p) >>= fun es => pure (e :: es)) := by
    refine h.followedBy (fun e => hrepeated.map (e :: ·)) fun e => .of_stop (a := [e]) fun rest hrest => ?_
    exact ⟨hrest.stops, run_bind_some (run_repeated_none (hstop rest hrest)) _⟩
  exact hlist.orElse (.pure [])

theorem viable_callParser : Viable (k + 1) follow (callParser p) := by
  refine viable_identifier.bind fun _ => .map ?_ _
  exact viable_between (by decide) (by decide) (viable_arguments h) fun c rest hc => ⟨c, rest, rfl, hc⟩

theorem viable_primary : Viable (k + 1) (Stops .disjunction) (primary p) :=
  .orElse (viable_lambdaParser h) <|
  .orElse (viable_group h (.inl ⟨rfl, rfl⟩)) <|
  .orElse (viable_literalParser.map _) <|
  .orElse (viable_callParser h) <|
  viable_identifier.map _

theorem viable_member : Viable (k + 1) (Stops .disjunction) (member p) :=
  .orElse ((viable_mark (by decide)).bind fun _ => viable_identifier.map _) <|
  (viable_group h (.inr ⟨rfl, rfl⟩)).map _

theorem viable_postfixed : Viable (k + 1) (Stops .disjunction) (postfixed p) := by
  have hstop (rest : List Token) (hrest : Stops .disjunction rest) : run (member p) rest = none :=
    run_member_eq_none (hrest.expression .postfixed) p
  exact (viable_primary h).followedBy (fun _ => ((viable_member h).repeated hstop).map _)
    fun _ => .repeated hstop _

omit h in
theorem viable_repeats {l : Layer} (hl : l.repeats)
    (h : Viable k (Stops .disjunction) (l.operand.parser p)) :
    Viable k (Stops .disjunction) (l.parser p) := by
  have hjoined : Viable k (Stops .disjunction) (l.joined p) :=
    (viable_joiner hl).bind fun _ => h.map _
  have hstop (rest : List Token) (hrest : Stops .disjunction rest) : run (l.joined p) rest = none :=
    Layer.run_joined_none hl (hrest.expression l).join?_eq_none
  rw [Layer.parser_of_repeats hl]
  exact h.followedBy (fun _ => (hjoined.repeated hstop).map _) fun _ => .repeated hstop _

omit h in
theorem viable_comparison (h : Viable k (Stops .disjunction) (sums p)) :
    Viable k (Stops .disjunction) (comparison p) := by
  have hcompared : Viable k (Stops .disjunction) (compared p) :=
    (viable_operator _ (by decide)).bind fun _ => h.map _
  have hstop (rest : List Token) (hrest : Stops .disjunction rest) :
      run (Parser.optional (compared p)) rest = some (none, rest) := by
    rw [run_optional, run_compared_eq_none (hrest.expression .comparison)]
    rfl
  refine h.followedBy (fun left => ?_) fun left => .of_stop (a := left) fun rest hrest => ⟨hrest, ?_⟩
  · refine hcompared.optional.followedBy (fun r => ?_) fun r => ?_
    · cases r <;> exact .pure _
    · cases r <;> exact .pure _
  · exact run_bind_some (hstop rest hrest) _

theorem viable_disjunctions : Viable k (Stops .disjunction) (disjunctions p) := by
  have hproducts := viable_repeats (l := .product) rfl h
  have hsums := viable_repeats (l := .sum) rfl hproducts
  have hconjunctions := viable_repeats (l := .conjunction) rfl (viable_comparison hsums)
  exact viable_repeats (l := .disjunction) rfl hconjunctions

theorem viable_withPrefix : Viable (k + 1) (Stops .disjunction) (withPrefix p) :=
  .orElse (viable_negation.bindShorter shortens_negation fun _ => h.map _) <|
  .orElse ((viable_operator [] (by decide)).bindShorter (shortens_token _ _) fun _ => h.map _) <|
  .orElse ((viable_operator [] (by decide)).bindShorter (shortens_token _ _) fun _ => h) <|
  viable_postfixed (viable_disjunctions h)

end
end

/-! ### Nesting without a limit -/

/-- An operand with its prefix operators, nested as deep as its tokens allow. -/
def unlimited : Parser Expr := fun ts => prefixed (ts.length + 1) ts

theorem spelling_eq : Spelling Eq True where
  alike := by
    rintro t _ rfl
    exact .inl rfl
  same _ := by
    rintro t _ rfl
    rfl

theorem unlimited_apply (ts : List Token) : unlimited ts = prefixed (ts.length + 1) ts := by rw [unlimited]

theorem run_unlimited (ts : List Token) : run unlimited ts = run (prefixed (ts.length + 1)) ts := by
  rw [run, run, unlimited_apply]

theorem misses_unlimited (ts : List Token) :
    misses unlimited ts = misses (prefixed (ts.length + 1)) ts := by
  rw [misses, misses, unlimited_apply]

theorem agrees_unlimited {n k : Nat} (h : k ≤ n) : Agrees Eq True k Eq (prefixed n) unlimited where
  answers := by
    intro ts us hts hlt
    rw [run_unlimited, ← hts.length_eq]
    exact (agrees_prefixed spelling_eq n (.inr ⟨by omega, Nat.le_refl _⟩)).answers hts (Nat.lt_succ_self _)
  misses := by
    intro ts us hts hlt hexact
    rw [misses_unlimited, ← hts.length_eq]
    exact (agrees_prefixed spelling_eq n (.inr ⟨by omega, Nat.le_refl _⟩)).misses hts (Nat.lt_succ_self _) hexact

theorem Agrees.parsed_eq {α : Type} {k : Nat} {p q : Parser α} (h : Agrees Eq True k Eq p q)
    {ts : List Token} (hlt : ts.length < k) : p ts = q ts := by
  have hsame : List.Forall₂ Eq ts ts := List.forall₂_refl ts
  have hmisses : (p ts).misses = (q ts).misses := h.misses hsame hlt trivial
  have hresult : (p ts).result = (q ts).result := by
    rcases h.cases hsame hlt with ⟨hp, hq⟩ | ⟨a, us, b, vs, hp, hq, rfl, hrest, _⟩
    · exact hp.trans hq.symm
    · rw [eq_of_forall₂_eq hrest] at hp
      exact hp.trans hq.symm
  cases hp : p ts
  cases hq : q ts
  simp_all

theorem unlimited_eq : unlimited = withPrefix unlimited := by
  funext ts
  have hwith := agrees_withPrefix spelling_eq (agrees_unlimited (n := ts.length) (Nat.le_refl _))
  rw [unlimited_apply, prefixed_succ]
  exact hwith.parsed_eq (Nat.lt_succ_self _)

theorem disjunctions_unlimited (ts : List Token) :
    disjunctions (prefixed (ts.length + 1)) ts = disjunctions unlimited ts :=
  (agrees_disjunctions spelling_eq (agrees_unlimited (Nat.le_refl _))).parsed_eq (Nat.lt_succ_self _)

theorem run_prefixed_name {n : Nat} {rest : List Token} (hrest : Stops .disjunction rest)
    (hn : rest.length + 2 ≤ n) :
    run (prefixed n) (⟨.identifier, "x", 0⟩ :: rest) = some (.name "x", rest) := by
  have hphrase : Derives (Stops .disjunction) .prefixed (⟨.identifier, "x", 0⟩ :: rest) (.name "x") rest :=
    (Derives.name rfl).of_primary .prefixed
  exact hphrase.reads.run_eq (by simp only [Layer.slack, List.length_cons]; omega) (hrest.expression .prefixed)

theorem finishes_unlimited : Finishes (Stops .disjunction) unlimited [] := by
  have hname : Token.Lexical ⟨.identifier, "x", 0⟩ := lexical_name 0 rfl
  refine ⟨[⟨.identifier, "x", 0⟩], .name "x", by simpa using hname, fun rest hrest => ?_⟩
  rw [List.nil_append, List.singleton_append, run_unlimited]
  exact run_prefixed_name hrest (Nat.le_refl _)

/-- By induction on the number of tokens: what follows a prefix or stands between brackets has fewer. -/
theorem viable_unlimited (k : Nat) : Viable k (Stops .disjunction) unlimited := by
  induction k with
  | zero => exact .zero finishes_unlimited
  | succ k ih =>
    rw [unlimited_eq]
    exact viable_withPrefix ih

/-! ### The whole of a list -/

/-- The place of the token that a syntax error reports, or the number of tokens where it reports none. -/
def faultAt (ts : List Token) : Nat := ts.length - (whole ts).misses.left

section
variable {ts : List Token} {text : String}

theorem misses_whole (hnone : (whole ts).result = none) :
    (run (disjunctions unlimited) ts = none ∧ (whole ts).misses = misses (disjunctions unlimited) ts) ∨
      ∃ e us, run (disjunctions unlimited) ts = some (e, us) ∧ us ≠ [] ∧
        (whole ts).misses = (⟨us.length, [.theEnd]⟩ : Misses).join (misses (disjunctions unlimited) ts) := by
  have hwhole : whole ts = (disjunctions unlimited >>= fun e => theEnd >>= fun _ => pure e : Parser Expr) ts := by
    unfold whole
    change andThen (disjunctions (prefixed (ts.length + 1))) _ ts = andThen (disjunctions unlimited) _ ts
    unfold andThen
    rw [disjunctions_unlimited]
  rw [hwhole] at hnone ⊢
  change run _ ts = none at hnone
  cases he : run (disjunctions unlimited) ts with
  | none => exact .inl ⟨rfl, misses_bind_none he _⟩
  | some r =>
    obtain ⟨e, us⟩ := r
    rw [run_bind_some he] at hnone
    refine .inr ⟨e, us, rfl, ?_, ?_⟩
    · rintro rfl
      cases hnone
    · refine (misses_bind_some he _).trans ?_
      cases us with
      | nil => cases hnone
      | cons u us => rfl

theorem viable_whole (ts : List Token) :
    Viable (ts.length + 1) (Stops .disjunction) (disjunctions unlimited) :=
  viable_disjunctions (viable_unlimited (ts.length + 1))

theorem left_whole_le (hnone : (whole ts).result = none) :
    (whole ts).misses.expected ≠ [] ∧ (whole ts).misses.left ≤ ts.length := by
  have hviable := viable_whole ts
  have hlt := Nat.lt_succ_self ts.length
  rcases misses_whole hnone with ⟨hrun, hmisses⟩ | ⟨e, us, hrun, _, hmisses⟩
  · rw [hmisses]
    exact ⟨hviable.missed hlt hrun, hviable.left_le hlt⟩
  · rw [hmisses, Misses.expected_join]
    exact ⟨.inl (by simp), Misses.left_join_le (hviable.suffix hlt hrun).length_le (hviable.left_le hlt)⟩

/-- The tokens before the furthest miss can be completed. -/
theorem exists_completion (xs tail : List Token) (hnone : (whole (xs ++ tail)).result = none)
    (hleft : (whole (xs ++ tail)).misses.left = tail.length) : ∃ us e, (∀ u ∈ us, u.Lexical) ∧
      run (disjunctions unlimited) (xs ++ us) = some (e, []) := by
  have hviable := viable_whole (xs ++ tail)
  have hlt := Nat.lt_succ_self (xs ++ tail).length
  have hat : (whole (xs ++ tail)).misses.At tail.length := ⟨(left_whole_le hnone).1, hleft⟩
  have hfinish (hmissed : (misses (disjunctions unlimited) (xs ++ tail)).At tail.length) :
      ∃ us e, (∀ u ∈ us, u.Lexical) ∧ run (disjunctions unlimited) (xs ++ us) = some (e, []) := by
    obtain ⟨us, e, hus, hread⟩ := hviable.completes hlt hmissed
    have hend := hread [] (.nil _)
    rw [List.append_nil] at hend
    exact ⟨us, e, hus, hend⟩
  rcases misses_whole hnone with ⟨_, hmisses⟩ | ⟨e, us, hrun, _, hmisses⟩
  · exact hfinish (hmisses ▸ hat)
  · rw [hmisses] at hat
    rcases Misses.at_join hat with hmissed | ⟨hend, hbefore⟩
    · exact hfinish hmissed
    · -- An expression was read, and behind it the end was missed.
      obtain ⟨ys, rfl⟩ := exists_append_of_suffix (hviable.suffix hlt hrun) (Nat.le_of_eq hend.2.symm)
      have hys : ys.length + tail.length = tail.length := List.length_append.symm.trans hend.2
      obtain rfl := List.length_eq_zero_iff.mp (by omega : ys.length = 0)
      exact ⟨[], e, nofun, hviable.keepsSome hlt hbefore hrun []⟩

/-- With the token at the furthest miss they cannot. -/
theorem run_of_missed (xs tail : List Token) (hnone : (whole (xs ++ tail)).result = none)
    (hleft : tail.length < (whole (xs ++ tail)).misses.left) (us : List Token) (e : Expr) :
    run (disjunctions unlimited) (xs ++ us) ≠ some (e, []) := by
  have hviable := viable_whole (xs ++ tail)
  have hlt := Nat.lt_succ_self (xs ++ tail).length
  have hbefore : (whole (xs ++ tail)).misses.Before tail.length := fun _ => hleft
  rcases misses_whole hnone with ⟨hrun, hmisses⟩ | ⟨a, vs, hrun, _, hmisses⟩
  · rw [hmisses] at hbefore
    simp [hviable.keepsNone hlt hbefore hrun us]
  · rw [hmisses] at hbefore
    obtain ⟨hend, hmissed⟩ := Misses.before_join hbefore
    have hlonger : tail.length < vs.length := hend (by simp)
    obtain ⟨ys, rfl⟩ := exists_append_of_suffix (hviable.suffix hlt hrun) (Nat.le_of_lt hlonger)
    rw [hviable.keepsSome hlt hmissed hrun us]
    intro heq
    obtain ⟨rfl, _⟩ := List.append_eq_nil_iff.mp (Prod.mk.inj (Option.some.inj heq)).2
    exact absurd hlonger (by simp)

theorem ofTokens_of_run {zs : List Token} {e : Expr} (hzs : ∀ z ∈ zs, z.Lexical)
    (h : run (disjunctions unlimited) zs = some (e, [])) (text : String) : ofTokens zs text = .ok e := by
  refine ofTokens_eq_ok.mpr ⟨?_, numerals_of_lexical hzs⟩
  rw [← h, run, run, disjunctions_unlimited]

theorem run_of_ofTokens {zs : List Token} {e : Expr} (h : ofTokens zs text = .ok e) :
    run (disjunctions unlimited) zs = some (e, []) := by
  rw [← (ofTokens_eq_ok.mp h).1, run, run, disjunctions_unlimited]

/-- A syntax error is about the place of the fault, since no number among the tokens is at fault. -/
theorem error_of_ofTokens {fault : SyntaxFault} (hts : ∀ t ∈ ts, t.Lexical)
    (h : ofTokens ts text = .error fault) : (whole ts).result = none ∧
      ∃ expected, fault = .unexpected text ts[faultAt ts]? expected := by
  have hnumerals (zs : List Token) (hzs : ∀ z ∈ zs, z ∈ ts) : badNumeral? zs = none :=
    (numerals_iff zs).mpr (numerals_of_lexical fun z hz => hts z (hzs z hz))
  have hall := hnumerals ts fun _ => id
  have htake := hnumerals (ts.take (faultAt ts)) fun _ => List.mem_of_mem_take
  cases hr : (whole ts).result with
  | some r =>
    simp only [ofTokens, hr, hall] at h
    cases h
  | none =>
    unfold faultAt at htake ⊢
    simp only [ofTokens, hr, htake, Except.error.injEq] at h
    exact ⟨rfl, _, h.symm⟩

end

end NoteQuery
