import Mathlib
import NoteQuery.Proofs.Eval.Sites
import NoteQuery.Proofs.Expr.Connected
import NoteQuery.Proofs.Query.Partition
import NoteQuery.Proofs.Query.Stages

/-! Filters that are made of others. A row passes a filter if the expression holds of it, and where the
expression fails it does not hold, so that a negation need not hold where an expression does not. Each
operand of a connective has its own site, but the rows come from outside and cannot tell. -/

namespace NoteQuery
set_option autoImplicit false
open NoteQuery.Expr

/-! ### What holds of a row -/

namespace Expr

/-- Whether the value of an expression counts as true. -/
def truth (now : Moment) (c : Context) (e : Expr) : Outcome Bool := Value.isTrue <$> e.evaluate now c

/-- An expression holds if its value counts as true; where it fails it does not hold. -/
def holds (now : Moment) (c : Context) (e : Expr) : Bool := (truth now c e).toOption.getD false

/-- An expression has a value, or it fails in a way that leaves out the row only. -/
abbrev FailsLocally (now : Moment) (c : Context) (e : Expr) : Prop :=
  FailsOnly (fun f => f.isLocal = true) (e.evaluate now c)

section
variable {now : Moment} {c : Context}

theorem truth_at_site (hc : c.IsGiven) (site : List Nat) (e : Expr) :
    Value.isTrue <$> e.evaluateWith now (applyUpTo now deepest) site c = truth now c e := by
  rw [evaluateWith_site now hc site e, truth, Functor.map_map]
  simp only [Value.isTrue_relabel]

theorem truth_connect (hc : c.IsGiven) (op : Connective) (a b : Expr) :
    truth now c (.connect op a b) = (do
      match op, ← truth now c a with
      | .and, false => return false
      | .or, true => return true
      | _, _ => truth now c b) := by
  have hright : Value.isTrue <$> (do
      let v ← b.evaluateWith now (applyUpTo now deepest) [1] c
      return Value.bool v.isTrue : Outcome Value) = truth now c b := by
    rw [← truth_at_site hc [1] b, map_bind, ← bind_pure_comp]
    rfl
  rw [← truth_at_site hc [0] a, truth, evaluate, evaluateWith, map_bind, bind_map_left]
  refine bind_congr fun v => ?_
  cases op with
  | and =>
    cases v.isTrue with
    | false => rfl
    | true => exact hright
  | or =>
    cases v.isTrue with
    | false => exact hright
    | true => rfl

theorem truth_not (hc : c.IsGiven) (e : Expr) :
    truth now c (.unary .not e) = (! ·) <$> truth now c e := by
  rw [← truth_at_site hc [0] e, truth, evaluate, evaluateWith, Functor.map_map, map_bind,
    ← bind_pure_comp]
  rfl

theorem truth_isSome (e : Expr) :
    (truth now c e).toOption.isSome ↔ ∃ v, e.evaluate now c = .ok v := by
  unfold truth
  cases e.evaluate now c with
  | ok v => exact ⟨fun _ => ⟨v, rfl⟩, fun _ => rfl⟩
  | error f => exact ⟨nofun, nofun⟩

theorem holds_and (hc : c.IsGiven) (a b : Expr) :
    holds now c (.connect .and a b) = (holds now c a && holds now c b) := by
  simp only [holds, truth_connect hc]
  cases truth now c a with
  | error f => rfl
  | ok x => cases x <;> rfl

theorem holds_or (hc : c.IsGiven) (a b : Expr) :
    holds now c (.connect .or a b) =
      (holds now c a || holds now c (.unary .not a) && holds now c b) := by
  simp only [holds, truth_connect hc, truth_not hc]
  cases truth now c a with
  | error f => rfl
  | ok x => cases x <;> rfl

/-- A negation holds where the expression has a value and does not hold. -/
theorem holds_not (hc : c.IsGiven) (e : Expr) :
    holds now c (.unary .not e) = ((truth now c e).toOption.isSome && !holds now c e) := by
  simp only [holds, truth_not hc]
  cases truth now c e with
  | error f => rfl
  | ok x => cases x <;> rfl

theorem not_holds_and_not (hc : c.IsGiven) (e : Expr) :
    ¬(holds now c e ∧ holds now c (.unary .not e)) := by
  rw [holds_not hc]
  rintro ⟨hholds, hnot⟩
  simp [hholds] at hnot

theorem holds_or_not_iff (hc : c.IsGiven) (e : Expr) :
    holds now c e ∨ holds now c (.unary .not e) ↔ ∃ v, e.evaluate now c = .ok v := by
  rw [holds_not hc, ← truth_isSome, holds]
  cases (truth now c e).toOption with
  | none => simp
  | some b => cases b <;> simp

theorem failsLocally_iff (e : Expr) :
    FailsLocally now c e ↔ FailsOnly (fun f => f.isLocal = true) (truth now c e) := by
  unfold FailsLocally truth
  cases e.evaluate now c <;> rfl

theorem FailsLocally.connect (hc : c.IsGiven) {a b : Expr} (ha : FailsLocally now c a)
    (hb : FailsLocally now c b) (op : Connective) : FailsLocally now c (.connect op a b) := by
  rw [failsLocally_iff] at ha hb ⊢
  rw [truth_connect hc]
  refine ha.andThen fun x => ?_
  cases op <;> cases x <;> first | exact hb | trivial

theorem FailsLocally.not (hc : c.IsGiven) {e : Expr} (h : FailsLocally now c e) :
    FailsLocally now c (.unary .not e) := by
  rw [failsLocally_iff] at h ⊢
  rw [truth_not hc]
  exact h.mapped _

end

end Expr

namespace Query

/-! ### The rows that survive -/

/-- The rows that survive a filter. -/
def keep (now : Moment) (w : String) (rows : List Row) : Except QueryFault (List Row) :=
  (do
    let filter? ← run.liftExcept ((nonempty? w).mapM Compiled.read)
    rows.filterM fun r => Plan.passes now filter? r.context : Running (List Row)).result.1

theorem keep_eq (now : Moment) (w : String) (rows : List Row) :
    keep now w rows =
      (nonempty? w).mapM Compiled.read >>= fun filter? => Plan.kept now filter? rows := by
  unfold keep
  cases (nonempty? w).mapM Compiled.read with
  | error f => exact (Logged.comesTo_throw f).bind_error.result_fst
  | ok filter? =>
    have hpasses := Logged.comesTo_filterM
      (fun r : Row => Plan.passes_comesTo now filter? r.context) rows
    exact ((Logged.comesTo_pure filter?).bind hpasses).result_fst

/-- The query without its source and its filter. -/
def unfiltered (q : Query) : Query := { q with source? := none, filter? := none }

/-- A table has its filter before everything else: the rest of the query sees what the filter keeps. -/
theorem run_filtered {now : Moment} {q : Query} {w : String} {rows kept : List Row}
    (hfilter : q.filter? = some w) (htable : q.statement ≠ .task)
    (hkept : keep now w (q.candidates rows) = .ok kept) :
    (q.run now rows).result.1 =
      (fun x => { x with query := q }) <$> (q.unfiltered.run now kept).result.1 := by
  rw [keep_eq] at hkept
  obtain ⟨filter?, hread, hkept⟩ := bind_eq_ok.mp hkept
  have hready : q.ready = .inr <$> Plan.ofTable q filter? := by
    unfold ready
    rw [hfilter, Option.bind_some, hread]
    exact if_neg htable
  have hplan : Plan.ofTable q filter? = _ <$> Plan.ofTable q.unfiltered none :=
    Plan.ofTable_congr q q.unfiltered rfl rfl rfl filter? none
  have hrest : q.unfiltered.ready = .inr <$> Plan.ofTable q.unfiltered none := if_neg htable
  rw [(run_comesTo now q rows).result_fst, (run_comesTo now q.unfiltered kept).result_fst, hready,
    hplan, hrest]
  cases hp : Plan.ofTable q.unfiltered none with
  | error f => rfl
  | ok p =>
    have hquery := (Plan.ofTable_isFor hp).query
    have htables : Plan.table now { p with query := q, filter? := filter? } (q.candidates rows) =
        Plan.table now p kept := by
      rw [Plan.table_of_kept hkept (Plan.ofTable_isFor hp).filter]
      obtain ⟨query, other, aggregates, projections, columns, sortKey?⟩ := p
      cases hquery
      rfl
    change (do return ⟨q.statement, p.columns, ← Plan.table now _ _, [], q⟩ :
        Except QueryFault QueryResult) =
      _ <$> (do return ⟨q.statement, p.columns, ← Plan.table now p kept, [], q.unfiltered⟩ :
        Except QueryFault QueryResult)
    rw [htables]
    cases Plan.table now p kept <;> rfl

/-- Whether a row survives a filter. -/
def survives (now : Moment) (w : String) (r : Row) : Bool :=
  match keep now w [r] with
  | .ok kept => !kept.isEmpty
  | .error _ => false

section
variable {now : Moment} {w : String} {e : Expr}

theorem read_of_parse (h : parse w = .ok e) :
    (nonempty? w).mapM Compiled.read = .ok (some ⟨w, e⟩) := by
  have hread : Compiled.read w = .ok ⟨w, e⟩ := by rw [Compiled.read, h]
  have hnonempty : w.isEmpty = false := by
    cases hw : w.isEmpty with
    | false => rfl
    | true =>
      have htokens : tokenize "" = .ok [] := tokensFrom_nil none 0
      rw [String.isEmpty_iff.mp hw, parse, htokens] at h
      exact absurd (phrase_of_ofTokens h).consumed.length_lt (Nat.lt_irrefl _)
  rw [nonempty?, hnonempty]
  change some <$> Compiled.read w = _
  rw [hread]
  rfl

theorem keep_of_parse {rows : List Row} (h : parse w = .ok e)
    (hlocal : ∀ r ∈ rows, FailsLocally now r.context e) :
    keep now w rows = .ok (rows.filter fun r => holds now r.context e) := by
  have hanswer (r : Row) (hr : r ∈ rows) :
      Plan.answer now (some ⟨w, e⟩) r.context = .ok (holds now r.context e) := by
    have hr := (failsLocally_iff e).mp (hlocal r hr)
    change Running.orElse (truth now r.context e) false = _
    unfold holds
    cases ht : truth now r.context e with
    | ok b => rfl
    | error f =>
      rw [ht] at hr
      exact if_pos hr
  rw [keep_eq, read_of_parse h]
  exact filterM_eq_ok hanswer

theorem survives_of_parse {r : Row} (h : parse w = .ok e) (hlocal : FailsLocally now r.context e) :
    survives now w r = holds now r.context e := by
  have hkeep : keep now w [r] = _ := keep_of_parse h (by simpa using hlocal)
  unfold survives
  rw [hkeep]
  by_cases hr : holds now r.context e <;> simp [hr]

theorem keep_eq_filter_survives {rows : List Row} (h : parse w = .ok e)
    (hlocal : ∀ r ∈ rows, FailsLocally now r.context e) :
    keep now w rows = .ok (rows.filter (survives now w)) := by
  rw [keep_of_parse h hlocal]
  refine congrArg Except.ok (List.filter_congr fun r hr => ?_)
  rw [survives_of_parse h (hlocal r hr)]

end

/-- What the filters made of two texts keep of rows, told by what the two keep; `a` is what the first
text stands for. -/
structure FiltersCombine (now : Moment) (p q : String) (a : Expr) (rows : List Row) : Prop where
  each : ∀ w ∈ [p, q, connected .and p q, negated p, connected .or p q],
    keep now w rows = .ok (rows.filter (survives now w))
  both : ∀ r ∈ rows, survives now (connected .and p q) r = (survives now p r && survives now q r)
  apart : ∀ r ∈ rows, ¬(survives now p r ∧ survives now (negated p) r)
  together : ∀ r ∈ rows, survives now p r ∨ survives now (negated p) r ↔
    ∃ v, a.evaluate now r.context = .ok v
  either : ∀ r ∈ rows, survives now (connected .or p q) r =
    (survives now p r || survives now (negated p) r && survives now q r)

/-- Of the rows on which they fail only locally, filters connected by AND keep those that both keep, a
negated filter those on which it has a value and that it does not keep, and filters connected by OR those
that the first keeps with those that its negation and the second keep. -/
theorem keep_connected {now : Moment} {p q : String} {a b : Expr} {rows : List Row}
    (hp : parse p = .ok a) (hq : parse q = .ok b) (hgiven : ∀ r ∈ rows, r.context.IsGiven)
    (ha : ∀ r ∈ rows, FailsLocally now r.context a)
    (hb : ∀ r ∈ rows, FailsLocally now r.context b) : FiltersCombine now p q a rows := by
  have hconnect (op : Connective) (r : Row) (hr : r ∈ rows) :=
    (ha r hr).connect (hgiven r hr) (hb r hr) op
  have hnot (r : Row) (hr : r ∈ rows) := (ha r hr).not (hgiven r hr)
  have hfirst (r : Row) (hr : r ∈ rows) := survives_of_parse hp (ha r hr)
  have hsecond (r : Row) (hr : r ∈ rows) := survives_of_parse hq (hb r hr)
  have hnegated (r : Row) (hr : r ∈ rows) := survives_of_parse (parse_negated hp) (hnot r hr)
  have hconnected (op : Connective) (r : Row) (hr : r ∈ rows) :=
    survives_of_parse (parse_connected op hp hq) (hconnect op r hr)
  constructor
  case each =>
    simp only [List.forall_mem_cons, List.not_mem_nil, false_implies, implies_true, and_true]
    exact ⟨keep_eq_filter_survives hp ha, keep_eq_filter_survives hq hb,
      keep_eq_filter_survives (parse_connected .and hp hq) (hconnect .and),
      keep_eq_filter_survives (parse_negated hp) hnot,
      keep_eq_filter_survives (parse_connected .or hp hq) (hconnect .or)⟩
  case both =>
    intro r hr
    rw [hconnected .and r hr, hfirst r hr, hsecond r hr, holds_and (hgiven r hr)]
  case apart =>
    intro r hr
    rw [hfirst r hr, hnegated r hr]
    exact not_holds_and_not (hgiven r hr) a
  case together =>
    intro r hr
    rw [hfirst r hr, hnegated r hr]
    exact holds_or_not_iff (hgiven r hr) a
  case either =>
    intro r hr
    rw [hconnected .or r hr, hfirst r hr, hnegated r hr, hsecond r hr, holds_or (hgiven r hr)]

/-- Negation has a value on numbers only, so the row with a text survives neither filter. -/
theorem keep_connected_minus :
    let rows := [Group.oneField "n" (.int 1), Group.oneField "n" (.text "x"),
      Group.oneField "n" (.int 0)]
    let a := Expr.unary .negate (.name "n")
    parse "-n" = .ok a ∧ parse "n" = .ok (.name "n") ∧ (∀ r ∈ rows, r.context.IsGiven) ∧
      (∀ r ∈ rows, FailsLocally default r.context a) ∧
      (∀ r ∈ rows, FailsLocally default r.context (.name "n")) ∧
      FiltersCombine default "-n" "n" a rows := by
  intro rows a
  have hminus : Lexes none 0 ['-'] (['n'] ++ []) [⟨.operator, "-", 0⟩] := by
    refine lexes_operatorOrMark (by decide) ?_ rfl
    rintro - d ⟨⟩
    decide
  have hname (previous : Option Token) (offset : Nat) :
      Lexes previous offset ['n'] [] [⟨.identifier, "n", offset⟩] := lexes_name (s := "n") rfl nofun
  have hp : parse "-n" = .ok a := by
    have hlexes := hminus.append (hname _ _)
    have htokens : tokenize "-n" = .ok [⟨.operator, "-", 0⟩, ⟨.identifier, "n", 1⟩] := hlexes.tokensFrom_eq
    rw [parse, htokens]
    cbv
  have hq : parse "n" = .ok (.name "n") := by
    have htokens : tokenize "n" = .ok [⟨.identifier, "n", 0⟩] := (hname none 0).tokensFrom_eq
    rw [parse, htokens]
    cbv
  have hgiven : ∀ r ∈ rows, r.context.IsGiven := by
    simp only [rows, List.forall_mem_cons, List.not_mem_nil, false_implies, implies_true, and_true]
    exact ⟨rfl, rfl, rfl⟩
  have ha : ∀ r ∈ rows, FailsLocally default r.context a := by
    simp only [rows, List.forall_mem_cons, List.not_mem_nil, false_implies, implies_true, and_true]
    exact ⟨trivial, rfl, trivial⟩
  have hb : ∀ r ∈ rows, FailsLocally default r.context (.name "n") := fun _ _ => trivial
  exact ⟨hp, hq, hgiven, ha, hb, keep_connected hp hq hgiven ha hb⟩

end Query
end NoteQuery
