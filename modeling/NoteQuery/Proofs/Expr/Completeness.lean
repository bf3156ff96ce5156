import NoteQuery.Proofs.Expr.Operands

/-! What the grammar derives the parser reads, if the body of each function in it reaches as far as it
can. The parser takes a phrase and stops in front of a token that cannot carry the phrase on; in a
layer that repeats, the invariant is that reading from the start comes to the same as going on after
the phrase. -/

namespace NoteQuery
set_option autoImplicit false
open NoteQuery.Parser NoteQuery.Expr

/-- No member comes where nothing carries an operand on. -/
theorem run_member_eq_none {rest : List Token} (h : Stops .postfixed rest) (expr : Parser Expr) :
    run (Expr.member expr) rest = none := by
  cases rest with
  | nil => rfl
  | cons t ts =>
    have hpoint : t.isMark "." = false := h.isMark_eq_false rfl (Nat.le_refl _)
    have hopening : t.isMark "[" = false := h.isMark_eq_false rfl (Nat.le_refl _)
    simp [Expr.member, run_firstOf_cons, run_firstOf_nil, run_bind, between, mark, run_token,
      hpoint, hopening]

theorem run_compared_eq_none {rest : List Token} (h : Stops .comparison rest) (operand : Parser Expr) :
    run (compared operand) rest = none := by
  rw [Option.eq_none_iff_forall_ne_some]
  rintro ⟨⟨t, b⟩, us⟩ hrun
  obtain ⟨vs, c, rfl, hc, _⟩ := run_compared_eq_some.mp hrun
  exact absurd (h t rfl _ (layer?_of_comparison? hc)) (Nat.lt_irrefl _)

namespace Layer

/-- The layer in front of whose operators a phrase may stand when the layer goes on after it. -/
def inner (l : Layer) : Layer := if l.repeats || l = postfixed then l.operand else l

/-- What a layer goes on with after a phrase of it. -/
def goOn (l : Layer) (operand : Parser Expr) (e : Expr) : Parser Expr :=
  if l.repeats then l.tail operand e
  else if l = postfixed then folded (Expr.member (disjunctions operand)) Member.of e
  else pure e

/-- How many tokens more than it takes a layer has to be allowed as nesting. -/
def slack : Layer → Nat
  | postfixed => 0
  | primary => 0
  | _ => 1

/-- To read a phrase from the start comes to the same as to go on after it. -/
def Reads (l : Layer) (ts : List Token) (e : Expr) (rest : List Token) : Prop :=
  ∀ n, ts.length + l.slack ≤ n → Stops l.inner rest →
    run (l.parser (Expr.prefixed n)) ts = run (l.goOn (Expr.prefixed n) e) rest

variable {l : Layer} {ts rest : List Token} {e : Expr}

theorem run_goOn (h : Stops l rest) (operand : Parser Expr) :
    run (l.goOn operand e) rest = some (e, rest) := by
  unfold goOn
  split
  · next hl => exact run_folded_none (run_joined_none hl h.join?_eq_none)
  · split
    · next hl =>
      subst hl
      exact run_folded_none (run_member_eq_none h _)
    · rfl

theorem stops_inner (h : Stops l rest) : Stops l.inner rest := by
  unfold inner
  split
  · exact h.operand
  · exact h

/-- A phrase is read and the rest left where nothing carries it on. -/
theorem Reads.run_eq (h : l.Reads ts e rest) {n : Nat} (hn : ts.length + l.slack ≤ n)
    (hs : Stops l rest) : run (l.parser (Expr.prefixed n)) ts = some (e, rest) := by
  rw [h n hn (stops_inner hs), run_goOn hs]

theorem slack_le (l : Layer) : l.slack ≤ 1 := by cases l <;> simp [slack]

end Layer

namespace Layer

section
variable {after : List Token → Prop} {l : Layer} {ts us rest : List Token} {t : Token} {a b e : Expr}

theorem reads_of_operand (hne : l ≠ primary) (h : Derives after l.operand ts e rest)
    (ih : l.operand.Reads ts e rest) : l.Reads ts e rest := by
  have hrepeats (hl : l.repeats) : l.Reads ts e rest := by
    intro n hn hs
    have hinner : l.inner = l.operand := by simp [inner, hl]
    have hslack : l.slack = 1 := by cases l <;> first | rfl | cases hl
    have hle := slack_le l.operand
    rw [parser_of_repeats hl, run_bind_some (ih.run_eq (by omega) (hinner ▸ hs)), goOn, if_pos hl]
  cases l with
  | comparison =>
    intro n hn hs
    have hfirst : run (sums (Expr.prefixed n)) ts = some (e, rest) := ih.run_eq hn hs.operand
    change run (Expr.comparison (Expr.prefixed n)) ts = some (e, rest)
    rw [run_comparison hfirst, run_compared_eq_none hs]
  | prefixed =>
    intro n hn hs
    obtain ⟨m, rfl⟩ : ∃ m, n = m + 1 := ⟨n - 1, by simp only [slack] at hn; omega⟩
    obtain ⟨t, us, rfl, ht⟩ := h.head_not_isPrefix (.inl rfl)
    change run (Expr.prefixed (m + 1)) _ = some (e, rest)
    rw [run_prefixed_of_not_isPrefix ht]
    exact ih.run_eq (by simp only [slack, operand] at hn ⊢; omega) hs.operand
  | postfixed =>
    intro n hn hs
    have hfirst : run (Expr.primary (disjunctions (Expr.prefixed n))) ts = some (e, rest) :=
      ih.run_eq hn hs
    change run (Expr.primary (disjunctions (Expr.prefixed n)) >>= _) ts = _
    rw [run_bind_some hfirst]
    rfl
  | primary => exact absurd rfl hne
  | _ => exact hrepeats rfl

theorem reads_of_join {f : Expr → Expr → Expr} (hl : l.repeats) (ha : l.Reads ts a (t :: us))
    (hf : l.join? t = some f) (hb : l.operand.Reads us b rest) (htake : Consumed ts us)
    (hrest : Consumed us rest) : l.Reads ts (f a b) rest := by
  intro n hn hs
  have hinner : l.inner = l.operand := by simp [inner, hl]
  have hslack : l.slack = 1 := by cases l <;> first | rfl | cases hl
  have hrank : l.rank < l.operand.rank := by cases l <;> first | decide | cases hl
  have hlt := htake.length_lt
  have hle := slack_le l.operand
  have hitem := (run_joined_eq_some hl).mpr
    ⟨t, us, rfl, hf, hb.run_eq (n := n) (by omega) (hinner ▸ hs)⟩
  rw [ha n hn (hinner ▸ .of_layer? (layer?_of_join? hf) hrank us), goOn, if_pos hl, goOn, if_pos hl]
  exact run_folded_some hitem (hrest.cons t).length_lt

theorem reads_of_compare {c : Comparison} (ha : sum.Reads ts a (t :: us))
    (hc : t.comparison? = some c) (hb : sum.Reads us b rest) (htake : Consumed ts us) :
    comparison.Reads ts (.binary (.compare c) a b) rest := by
  intro n hn hs
  have hlt := htake.length_lt
  have hfirst : run (sums (Expr.prefixed n)) ts = some (a, t :: us) :=
    ha.run_eq hn (.of_layer? (layer?_of_comparison? hc) (by simp [rank]) us)
  have hsecond : run (sums (Expr.prefixed n)) us = some (b, rest) :=
    hb.run_eq (by simp only [slack] at hn ⊢; omega) hs.operand
  change run (Expr.comparison (Expr.prefixed n)) ts = some (_, rest)
  rw [run_comparison hfirst, run_compared_eq_some.mpr ⟨us, c, rfl, hc, hsecond⟩]
  simp only [(comparison?_eq_some.mp hc).2]

/-- Reading below a prefix, where one token and one level of nesting are spent. -/
theorem Reads.run_below (h : prefixed.Reads ts e rest) {n : Nat}
    (hn : (t :: ts).length + prefixed.slack ≤ n) (hs : Stops prefixed rest) :
    ∃ m, n = m + 1 ∧ run (Expr.prefixed m) ts = some (e, rest) := by
  simp only [slack, List.length_cons] at hn
  refine ⟨n - 1, by omega, ?_⟩
  exact h.run_eq (by simp only [slack]; omega) hs

theorem reads_of_not (ht : t.isNegation) (h : prefixed.Reads ts e rest) :
    prefixed.Reads (t :: ts) (.unary .not e) rest := by
  intro n hn hs
  obtain ⟨m, rfl, hoperand⟩ := h.run_below hn hs
  change run (Expr.prefixed (m + 1)) (t :: ts) = some (.unary .not e, rest)
  simp [run_prefixed_succ, ht, hoperand]

theorem reads_of_minus (ht : t.isOperator "-") (h : prefixed.Reads ts e rest) :
    prefixed.Reads (t :: ts) (.unary .negate e) rest := by
  intro n hn hs
  obtain ⟨m, rfl, hoperand⟩ := h.run_below hn hs
  change run (Expr.prefixed (m + 1)) (t :: ts) = some (.unary .negate e, rest)
  simp [run_prefixed_succ, not_isNegation_of_sign ht (by decide), ht, hoperand]

theorem reads_of_plus (ht : t.isOperator "+") (h : prefixed.Reads ts e rest) :
    prefixed.Reads (t :: ts) e rest := by
  intro n hn hs
  obtain ⟨m, rfl, hoperand⟩ := h.run_below hn hs
  have hminus : t.isOperator "-" = false := by
    simp only [Token.isOperator, Bool.and_eq_true, decide_eq_true_eq, beq_iff_eq] at ht
    simp [Token.isOperator, ht.2]
  change run (Expr.prefixed (m + 1)) (t :: ts) = some (e, rest)
  simp [run_prefixed_succ, not_isNegation_of_sign ht (by decide), hminus, ht, hoperand]

theorem reads_of_member {m : Member} (ha : postfixed.Reads ts a us)
    (hm : ∀ n, us.length ≤ n → run (Expr.member (disjunctions (Expr.prefixed n))) us = some (m, rest))
    (hfirst : ∀ t ∈ us.head?, t.layer? = some .postfixed) (htake : Consumed ts us)
    (hrest : Consumed us rest) : postfixed.Reads ts (Member.of a m) rest := by
  intro n hn _
  have hstops : Stops postfixed.inner us := by
    intro t ht k hk
    rw [hfirst t ht] at hk
    cases hk
    decide
  rw [ha n hn hstops]
  exact run_folded_some (hm n (by simp only [slack] at hn; have := htake.length_lt; omega))
    hrest.length_lt

end

end Layer

namespace Layer

section
variable {after : List Token → Prop} {l : Layer} {ts rest : List Token} {e : Expr}

/-- What a layer reads every weaker layer reads. -/
theorem reads_of_stronger {m : Layer} (h : Derives after m ts e rest) (ih : m.Reads ts e rest)
    (hle : l.rank ≤ m.rank) : l.Reads ts e rest := by
  have hboth : Derives after l ts e rest ∧ l.Reads ts e rest := by
    refine descend (motive := fun k => Derives after k ts e rest ∧ k.Reads ts e rest) (m := m)
      ?_ ⟨h, ih⟩ hle
    intro l hne ⟨hoperand, hreads⟩
    exact ⟨.operand hne hoperand, reads_of_operand hne hoperand hreads⟩
  exact hboth.2

theorem reads_of_primary (h : Derives after .primary ts e rest) (ih : primary.Reads ts e rest)
    (l : Layer) : l.Reads ts e rest :=
  reads_of_stronger h ih (by cases l <;> decide)

theorem reads_name {x : Token} (hx : x.isName) : primary.Reads (x :: rest) (.name x.text) rest := by
  intro n _ hs
  exact run_primary_of_name hx hs

end

end Layer

section
variable {l : Layer} {t : Token}

theorem repeats_of_join? {f : Expr → Expr → Expr} (h : l.join? t = some f) : l.repeats := by
  cases l with
  | disjunction => rfl
  | conjunction => rfl
  | sum => rfl
  | product => rfl
  | _ => cases h

theorem join?_of_connective? {op : Connective} (h : l.connective? t = some op) :
    l.join? t = some (.connect op) := by
  rw [Layer.join?, h]
  rfl

theorem join?_of_arithmetic? {op : Arithmetic} (h : l.arithmetic? t = some op) :
    l.join? t = some (.binary (.compute op)) := by
  have hnone : l.connective? t = none := by
    cases l with
    | sum => rfl
    | product => rfl
    | _ => cases h
  rw [Layer.join?, h, hnone]
  rfl

end

namespace Layer

section
variable {ts us rest : List Token} {a e : Expr} {opening closing : Token}

theorem reads_of_named {point x : Token} (h : postfixed.Reads ts a (point :: x :: rest))
    (ht : point.isMark ".") (hx : x.isName) (htake : Consumed ts (point :: x :: rest)) :
    postfixed.Reads ts (.property a (.text x.text)) rest := by
  refine reads_of_member h (fun _ _ => run_member_named ht hx) ?_ htake
    ((Consumed.one x rest).cons point)
  intro t hhead
  cases hhead
  exact layer?_of_mark ht

theorem reads_of_indexed {key : Expr} (h : postfixed.Reads ts a (opening :: us))
    (ho : opening.isMark "[") (hk : disjunction.Reads us key (closing :: rest))
    (hc : closing.isMark "]") (htake : Consumed ts (opening :: us))
    (hkey : Consumed us (closing :: rest)) :
    postfixed.Reads ts (Member.of a (.indexed key)) rest := by
  refine reads_of_member h ?_ ?_ htake (hkey.skip.cons opening)
  · intro n hn
    exact run_member_indexed ho (hk.run_eq hn (.of_mark hc (by simp) _ _)) hc
  · intro t hhead
    cases hhead
    exact layer?_of_mark ho

theorem reads_of_group (ho : opening.isMark "(") (h : disjunction.Reads ts e (closing :: rest))
    (hc : closing.isMark ")") : primary.Reads (opening :: ts) e rest := by
  intro n hn hs
  simp only [slack, List.length_cons] at hn
  refine run_primary_of_group ho (h.run_eq hn (.of_mark hc (by simp) _ _)) hc ?_ hs
  -- A lone name in parentheses is read as a group too.
  rintro y c us rfl hy hclose
  have hname : disjunction.Reads (y :: c :: us) (.name y.text) (c :: us) :=
    reads_of_primary (Derives.name hy : Phrase _ _ _ _) (reads_name hy) disjunction
  exact hname.run_eq hn (.of_mark hclose (by simp) _ _)

theorem reads_of_callNone {x : Token} (hx : x.isName) (ho : opening.isMark "(")
    (hc : closing.isMark ")") :
    primary.Reads (x :: opening :: closing :: rest) (.call x.text []) rest := by
  intro n _ _
  exact run_primary_of_call hx ho (run_separated_none (run_disjunctions_of_closing hc n)) hc

end

end Layer

mutual

/-- The grammar's phrases are read, each function in them with the longest body. -/
theorem Derives.reads {l : Layer} {ts rest : List Token} {e : Expr}
    (h : Derives (Stops .disjunction) l ts e rest) : l.Reads ts e rest := by
  match h with
  | .operand hne h => exact Layer.reads_of_operand hne h h.reads
  | .connect ha hop hb =>
    have hf := join?_of_connective? hop
    exact Layer.reads_of_join (repeats_of_join? hf) ha.reads hf hb.reads ha.consumed.skip hb.consumed
  | .compute ha hop hb =>
    have hf := join?_of_arithmetic? hop
    exact Layer.reads_of_join (repeats_of_join? hf) ha.reads hf hb.reads ha.consumed.skip hb.consumed
  | .compare ha hc hb => exact Layer.reads_of_compare ha.reads hc hb.reads ha.consumed.skip
  | .not ht h => exact Layer.reads_of_not ht h.reads
  | .minus ht h => exact Layer.reads_of_minus ht h.reads
  | .plus ht h => exact Layer.reads_of_plus ht h.reads
  | .member h ht hx => exact Layer.reads_of_named h.reads ht hx h.consumed
  | .fixed h ho hk hc => exact Layer.reads_of_indexed h.reads ho hk.reads hc h.consumed hk.consumed
  | .index h ho hk hc hkey =>
    have hindexed := Layer.reads_of_indexed h.reads ho hk.reads hc h.consumed hk.consumed
    rw [of_indexed hkey] at hindexed
    exact hindexed
  | .function hx harrow h hafter =>
    intro n hn _
    simp only [Layer.slack, List.length_cons] at hn
    exact run_primary_of_function hx harrow
      (h.reads.run_eq (by simp only [Layer.slack]; omega) hafter)
  | .groupedFunction ho hx hc harrow h hafter =>
    intro n hn _
    simp only [Layer.slack, List.length_cons] at hn
    exact run_primary_of_groupedFunction ho hx hc harrow
      (h.reads.run_eq (by simp only [Layer.slack]; omega) hafter)
  | .group ho h hc => exact Layer.reads_of_group ho h.reads hc
  | .literal hv => intro n _ _; exact run_primary_of_literal hv
  | .callNone hx ho hc => exact Layer.reads_of_callNone hx ho hc
  | .call hx ho hes hc =>
    intro n hn _
    simp only [Layer.slack, List.length_cons] at hn
    exact run_primary_of_call hx ho (hes.listed (by rintro t ⟨⟩; exact hc) n (by omega)).run_separated hc
  | .name hx => exact Layer.reads_name hx

theorem Arguments.listed {ts rest : List Token} {es : List Expr}
    (h : Arguments (Stops .disjunction) ts es rest) (hc : ∀ t ∈ rest.head?, t.isMark ")") (n : Nat)
    (hn : ts.length + 1 ≤ n) : Listed (disjunctions (prefixed n)) ts es rest := by
  match h with
  | .one h =>
    have hs := Stops.of_closing hc .disjunction
    exact .one (h.reads.run_eq hn hs) h.consumed.length_lt hc
  | .more h hcomma hs =>
    have hlt := h.consumed.length_lt
    simp only [List.length_cons] at hlt
    exact .more (h.reads.run_eq hn (.of_mark hcomma (by simp) _ _)) h.consumed.length_lt hcomma
      (hs.listed hc n (by omega))

end

end NoteQuery
