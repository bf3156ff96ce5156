import NoteQuery.Proofs.Outcome.Logged
import NoteQuery.Proofs.Value.Dates
import NoteQuery.Query.Run

/-! Evaluation without calls of functions. Its failures are local ones, except that comparing dates, or
using one as a key, ends everything where a date has no moment in universal time. Where all dates have
one, a filter, a field or a key for sorting leaves out a row or gives null, and never ends a query. -/

namespace NoteQuery
set_option autoImplicit false

namespace Expr

/-- Whether no function is called in an expression. -/
def isCallFree : Expr → Bool
  | literal _ => true
  | name _ => true
  | property base _ => base.isCallFree
  | index base key => base.isCallFree && key.isCallFree
  | binary _ left right => left.isCallFree && right.isCallFree
  | connect _ left right => left.isCallFree && right.isCallFree
  | unary _ operand => operand.isCallFree
  | lambda _ body => body.isCallFree
  | call .. => false

/-- The texts that an expression holds and that are read as dates have moments, or fail to as `bad`
says. -/
def Dated (bad : RangeError → Prop) : Expr → Prop
  | literal v => (Value.ofLiteral v).Dated bad
  | property base _ => base.Dated bad
  | index base key => base.Dated bad ∧ key.Dated bad
  | binary _ left right => left.Dated bad ∧ right.Dated bad
  | connect _ left right => left.Dated bad ∧ right.Dated bad
  | unary _ operand => operand.Dated bad
  | _ => True

def InCalendar (e : Expr) : Prop := e.Dated fun _ => False

theorem dated_of_any (e : Expr) : e.Dated (· = .dateOutOfRange) := by
  fun_induction Dated with
  | case1 v => exact Value.dated_of_any _
  | case2 base key ih => exact ih
  | case3 base key ihbase ihkey => exact ⟨ihbase, ihkey⟩
  | case4 op left right ihleft ihright => exact ⟨ihleft, ihright⟩
  | case5 op left right ihleft ihright => exact ⟨ihleft, ihright⟩
  | case6 op operand ih => exact ih
  | case7 => trivial

end Expr

namespace Context

structure Dated (bad : RangeError → Prop) (c : Context) : Prop where
  fields : Value.EntriesDated bad c.fields
  file : Value.EntriesDated bad c.file
  scope : Value.EntriesDated bad c.scope

/-- Every date that an expression can meet in a context has a moment in universal time. -/
def InCalendar (c : Context) : Prop := c.Dated fun _ => False

theorem dated_of_any (c : Context) : c.Dated (· = .dateOutOfRange) :=
  ⟨Value.entriesDated_of_any _, Value.entriesDated_of_any _, Value.entriesDated_of_any _⟩

theorem Dated.resolve {bad : RangeError → Prop} {c : Context} (h : c.Dated bad) (x : String) :
    (c.resolve x).Dated bad := by
  unfold Context.resolve
  split
  · next v hv =>
    have hget := Value.holds_get h.scope x
    rw [Record.get, hv] at hget
    exact hget
  · split
    · rw [Value.Dated, Value.Holds]
      exact h.file
    · exact Value.holds_get h.fields x

end Context

section
variable {bad : RangeError → Prop} {a b : Value}

theorem failsOnly_holds (op : Comparison) (ha : a.Dated bad) (hb : b.Dated bad) :
    FailsOnly bad (op.holds a b) := by
  have hequal := Value.failsOnly_equal ha hb
  cases op with
  | eq => exact hequal
  | ne => exact hequal.bind fun _ _ => trivial
  | lt => exact Value.failsOnly_less ha hb
  | gt => exact Value.failsOnly_less hb ha
  | le =>
    refine hequal.bind fun same _ => ?_
    split
    · trivial
    · exact Value.failsOnly_less ha hb
  | ge =>
    refine hequal.bind fun same _ => ?_
    split
    · trivial
    · exact Value.failsOnly_less hb ha

theorem failsOnly_asOperand (symbol : String) (v : Value) :
    FailsOnly (Failure.IsLocalOr bad) (v.asOperand symbol) := by
  cases v with
  | number n => trivial
  | _ => exact .inl rfl

theorem failsOnly_result (op : Arithmetic) (m n : Number) :
    FailsOnly (Failure.IsLocalOr bad) (op.result m n) :=
  failsOnly_iff.mpr fun _ h => .inl (Arithmetic.isLocal_of_result h)

theorem yields_binary (op : BinaryOp) (ha : a.Dated bad) (hb : b.Dated bad) :
    Yields (Value.Dated bad) (Failure.IsLocalOr bad) (op.apply a b) := by
  cases op with
  | compare op =>
    refine (failsOnly_holds op ha hb).orLocal.bind fun _ _ => ?_
    simp [Yields, pure, Except.pure, Value.Holds]
  | compute op =>
    refine (failsOnly_asOperand op.symbol a).bind fun m _ => ?_
    refine (failsOnly_asOperand op.symbol b).bind fun n _ => ?_
    refine (failsOnly_result op m n).bind fun _ _ => ?_
    simp [Yields, pure, Except.pure, Value.Holds]

theorem yields_unary (op : UnaryOp) (a : Value) :
    Yields (Value.Dated bad) (Failure.IsLocalOr bad) (op.apply a) := by
  cases op with
  | not => simp [UnaryOp.apply, Yields, pure, Except.pure, Value.Holds]
  | negate =>
    refine (failsOnly_asOperand _ a).bind fun _ _ => ?_
    simp [Yields, pure, Except.pure, Value.Holds]

end

section
variable {bad : RangeError → Prop} {now : Moment} {apply : Application} {c : Context}

/-- Dates stay what they are under evaluation: an expression without calls makes no new text and no
new date, so what its operators compare is found in the context or written in it. -/
theorem yields_evaluateWith (hc : c.Dated bad) : (e : Expr) → e.isCallFree → e.Dated bad →
    (site : List Nat) →
    Yields (Value.Dated bad) (Failure.IsLocalOr bad) (e.evaluateWith now apply site c)
  | .literal v, _, hdated, site => by
    rw [Expr.evaluateWith]
    exact hdated
  | .name x, _, _, site => by
    rw [Expr.evaluateWith]
    exact hc.resolve x
  | .property base key, hfree, hdated, site => by
    rw [Expr.evaluateWith]
    refine (yields_evaluateWith hc base hfree hdated _).bind fun v hv => ?_
    exact (Value.yields_member hv (Value.failsOnly_display_ofLiteral key)).orLocal
  | .index base key, hfree, hdated, site => by
    rw [Expr.isCallFree, Bool.and_eq_true] at hfree
    rw [Expr.evaluateWith]
    refine (yields_evaluateWith hc base hfree.1 hdated.1 _).bind fun v hv => ?_
    refine (yields_evaluateWith hc key hfree.2 hdated.2 _).bind fun k hk => ?_
    exact (Value.yields_member hv (Value.failsOnly_display k hk)).orLocal
  | .binary op left right, hfree, hdated, site => by
    rw [Expr.isCallFree, Bool.and_eq_true] at hfree
    rw [Expr.evaluateWith]
    refine (yields_evaluateWith hc left hfree.1 hdated.1 _).bind fun a ha => ?_
    refine (yields_evaluateWith hc right hfree.2 hdated.2 _).bind fun b hb => ?_
    exact yields_binary op ha hb
  | .connect op left right, hfree, hdated, site => by
    rw [Expr.isCallFree, Bool.and_eq_true] at hfree
    rw [Expr.evaluateWith]
    refine (yields_evaluateWith hc left hfree.1 hdated.1 _).bind fun a _ => ?_
    split
    · simp [Yields, pure, Except.pure, Value.Holds]
    · simp [Yields, pure, Except.pure, Value.Holds]
    · refine (yields_evaluateWith hc right hfree.2 hdated.2 _).bind fun b _ => ?_
      simp [Yields, pure, Except.pure, Value.Holds]
  | .unary op operand, hfree, hdated, site => by
    rw [Expr.evaluateWith]
    exact (yields_evaluateWith hc operand hfree hdated _).bind fun a _ => yields_unary op a
  | .lambda x body, _, _, site => by
    rw [Expr.evaluateWith]
    simp [Yields, Value.Holds]
  | .call f args, hfree, _, site => by
    simp [Expr.isCallFree] at hfree

end

section
variable {α : Type} {o : Outcome α} {now : Moment} {e : Expr} {c : Context}

theorem isLocal_of_evaluate (he : e.isCallFree) (hdated : e.InCalendar) (hc : c.InCalendar) :
    FailsOnly (fun f => f.isLocal = true) (e.evaluate now c) :=
  (yields_evaluateWith hc e he hdated []).imp (fun _ _ => trivial) fun _ hf =>
    hf.resolve_right fun ⟨_, _, h⟩ => h

theorem isLocal_or_dateOutOfRange (he : e.isCallFree) :
    FailsOnly (fun f => f.isLocal = true ∨ f = .outOfRange .dateOutOfRange) (e.evaluate now c) :=
  (yields_evaluateWith c.dated_of_any e he e.dated_of_any []).imp (fun _ _ => trivial) fun _ hf =>
    hf.imp_right fun ⟨_, hf, hout⟩ => hout ▸ hf

theorem comesTo_recover (h : FailsOnly (fun f => f.isLocal = true) o) (text : Failure → String)
    (default : α) : (Running.recover o text default).ComesTo (.ok (o.toOption.getD default)) := by
  cases o with
  | ok a => exact Logged.comesTo_pure a
  | error f =>
    have hlocal : f.isLocal = true := h
    rw [Running.recover]
    simp only [hlocal, if_true]
    exact (Logged.comesTo_note _ _).bind (Logged.comesTo_pure default)

end

end NoteQuery
