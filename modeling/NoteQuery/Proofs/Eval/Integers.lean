import Mathlib.Algebra.Order.Ring.Int
import NoteQuery.Eval.Evaluate

/-! Expressions over integers alone. What they come to is what the integers come to, of whatever size, and
a comparison tells how the integers on its two sides lie. An evaluation fails exactly where somewhere in the
expression a remainder by zero is taken. -/

namespace NoteQuery
set_option autoImplicit false

/-! ### Remainders -/

/-- What is left of `a` in a division by `b`: less than `b` in size, and of the sign of `a`. -/
structure IsRemainder (a b r : Int) : Prop where
  small : r.natAbs < b.natAbs
  divides : b ∣ a - r
  sign : r = 0 ∨ r.sign = a.sign

section
variable {a b r : Int}

theorem isRemainder_tmod (a : Int) (hb : b ≠ 0) : IsRemainder a b (a.tmod b) := by
  have hquotient : a - a.tmod b = b * a.tdiv b := by
    have hdef := Int.tmod_def a b
    omega
  refine ⟨?_, ⟨a.tdiv b, hquotient⟩, ?_⟩
  · rw [Int.natAbs_tmod]
    exact Nat.mod_lt _ (Int.natAbs_pos.mpr hb)
  · rcases Int.lt_trichotomy (a.tmod b) 0 with hneg | hzero | hpos
    · have ha : a < 0 := by
        by_contra ha
        exact absurd (Int.tmod_nonneg b (not_lt.mp ha)) (not_le.mpr hneg)
      exact .inr (by rw [Int.sign_eq_neg_one_of_neg hneg, Int.sign_eq_neg_one_of_neg ha])
    · exact .inl hzero
    · have ha : 0 < a := by
        by_contra ha
        have hnonneg := Int.tmod_nonneg b (Int.neg_nonneg_of_nonpos (not_lt.mp ha))
        rw [Int.neg_tmod] at hnonneg
        omega
      exact .inr (by rw [Int.sign_eq_one_of_pos hpos, Int.sign_eq_one_of_pos ha])

theorem IsRemainder.nonneg (h : IsRemainder a b r) (ha : 0 ≤ a) : 0 ≤ r := by
  rcases h.sign with hr | hr
  · exact hr.ge
  · exact Int.sign_nonneg_iff.mp (hr ▸ Int.sign_nonneg_iff.mpr ha)

theorem IsRemainder.neg (h : IsRemainder a b r) : IsRemainder (-a) b (-r) := by
  refine ⟨by rw [Int.natAbs_neg]; exact h.small, ?_, ?_⟩
  · rw [← neg_sub', Int.dvd_neg]
    exact h.divides
  · rw [Int.sign_neg, Int.sign_neg, neg_eq_zero, neg_inj]
    exact h.sign

/-- There is one remainder only. -/
theorem IsRemainder.unique {s : Int} (hr : IsRemainder a b r) (hs : IsRemainder a b s) : r = s := by
  wlog ha : 0 ≤ a generalizing a r s
  · exact neg_inj.mp (this hr.neg hs.neg (by omega))
  · have hdvd : b ∣ r - s := by
      have hdiff := Int.dvd_sub hs.divides hr.divides
      rwa [sub_sub_sub_cancel_left] at hdiff
    have hrpos := hr.nonneg ha
    have hspos := hs.nonneg ha
    have hrsmall := hr.small
    have hssmall := hs.small
    have hsmall : (r - s).natAbs < b.natAbs := by omega
    exact sub_eq_zero.mp (Int.eq_zero_of_dvd_of_natAbs_lt_natAbs hdvd hsmall)

end

/-! ### Integers as values -/

theorem Binary64.unitsPerOne_pos : 0 < Binary64.unitsPerOne := by decide

namespace Number

theorem eq_int (m n : Int) : (int m).eq (int n) = decide (m = n) := by
  have hunits := mul_left_inj' (c := Binary64.unitsPerOne) (a := m) (b := n) Binary64.unitsPerOne_pos.ne'
  simp only [eq, place?, Place.point.injEq, hunits]

theorem lt_int (m n : Int) : (int m).lt (int n) = decide (m < n) := by
  simp only [lt, place?, Place.lt, Int.mul_lt_mul_right Binary64.unitsPerOne_pos]

end Number

namespace Comparison

/-- How two integers lie. -/
def Relates : Comparison → Int → Int → Prop
  | eq, m, n => m = n
  | ne, m, n => m ≠ n
  | lt, m, n => m < n
  | gt, m, n => n < m
  | le, m, n => m ≤ n
  | ge, m, n => n ≤ m

instance : (op : Comparison) → (m n : Int) → Decidable (op.Relates m n)
  | eq, m, n => inferInstanceAs (Decidable (m = n))
  | ne, m, n => inferInstanceAs (Decidable (m ≠ n))
  | lt, m, n => inferInstanceAs (Decidable (m < n))
  | gt, m, n => inferInstanceAs (Decidable (n < m))
  | le, m, n => inferInstanceAs (Decidable (m ≤ n))
  | ge, m, n => inferInstanceAs (Decidable (n ≤ m))

theorem holds_int (op : Comparison) (m n : Int) :
    op.holds (.int m) (.int n) = .ok (decide (op.Relates m n)) := by
  have hequal (m n : Int) : (Value.int m).equal (.int n) = .ok (decide (m = n)) :=
    congrArg Except.ok (Number.eq_int m n)
  have hless (m n : Int) : (Value.int m).less (.int n) = .ok (decide (m < n)) :=
    congrArg Except.ok (Number.lt_int m n)
  have hor (k : Bool) : (do if ← (.ok (decide (m = n)) : Except RangeError Bool) then return true else .ok k) =
      .ok (decide (m = n) || k) := by
    cases decide (m = n) <;> rfl
  cases op with
  | eq => exact hequal m n
  | ne =>
    rw [holds, hequal]
    exact congrArg Except.ok decide_not.symm
  | lt => exact hless m n
  | gt => exact hless n m
  | le =>
    have hle : m = n ∨ m < n ↔ m ≤ n := by omega
    rw [holds, hequal, hless, hor, ← Bool.decide_or]
    exact congrArg Except.ok (decide_eq_decide.mpr hle)
  | ge =>
    have hge : m = n ∨ n < m ↔ n ≤ m := by omega
    rw [holds, hequal, hless, hor, ← Bool.decide_or]
    exact congrArg Except.ok (decide_eq_decide.mpr hge)

end Comparison

/-! ### Expressions -/

namespace Expr

/-- Integers under `+`, `-`, `*`, `%` and the minus sign. -/
inductive IsIntegral : Expr → Prop
  | literal (n : Int) : IsIntegral (.literal (.number (.int n)))
  | negate {e : Expr} : IsIntegral e → IsIntegral (.unary .negate e)
  | compute {op : Arithmetic} {a b : Expr} : op ≠ .div → IsIntegral a → IsIntegral b →
    IsIntegral (.binary (.compute op) a b)

/-- The integer that an expression comes to. -/
inductive Denotes : Expr → Int → Prop
  | literal (n : Int) : Denotes (.literal (.number (.int n))) n
  | negate {e : Expr} {n : Int} : Denotes e n → Denotes (.unary .negate e) (-n)
  | add {a b : Expr} {m n : Int} : Denotes a m → Denotes b n →
    Denotes (.binary (.compute .add) a b) (m + n)
  | sub {a b : Expr} {m n : Int} : Denotes a m → Denotes b n →
    Denotes (.binary (.compute .sub) a b) (m - n)
  | mul {a b : Expr} {m n : Int} : Denotes a m → Denotes b n →
    Denotes (.binary (.compute .mul) a b) (m * n)
  | rem {a b : Expr} {m n r : Int} : Denotes a m → Denotes b n → IsRemainder m n r →
    Denotes (.binary (.compute .rem) a b) r

/-- Somewhere in an expression a remainder by zero is taken. -/
inductive DividesByZero : Expr → Prop
  | zero {a b : Expr} : Denotes b 0 → DividesByZero (.binary (.compute .rem) a b)
  | negate {e : Expr} : DividesByZero e → DividesByZero (.unary .negate e)
  | left {op : BinaryOp} {a b : Expr} : DividesByZero a → DividesByZero (.binary op a b)
  | right {op : BinaryOp} {a b : Expr} : DividesByZero b → DividesByZero (.binary op a b)

/-- An expression over integers, or a comparison of two. -/
inductive IsOverIntegers : Expr → Prop
  | integral {e : Expr} : IsIntegral e → IsOverIntegers e
  | compare {op : Comparison} {a b : Expr} : IsIntegral a → IsIntegral b →
    IsOverIntegers (.binary (.compare op) a b)

/-- The value that an expression over integers comes to. -/
inductive Answers : Expr → Value → Prop
  | integer {e : Expr} {n : Int} : Denotes e n → Answers e (.int n)
  | comparison {op : Comparison} {a b : Expr} {m n : Int} : Denotes a m → Denotes b n →
    Answers (.binary (.compare op) a b) (.bool (decide (op.Relates m n)))

section
variable {now : Moment} {apply : Application} {c : Context} {e : Expr}

theorem evaluateWith_of_denotes {n : Int} (h : e.Denotes n) (site : List Nat) :
    e.evaluateWith now apply site c = .ok (.int n) := by
  induction h generalizing site with
  | literal n => rfl
  | negate _ ih =>
    rw [evaluateWith, ih]
    rfl
  | add _ _ iha ihb | sub _ _ iha ihb | mul _ _ iha ihb =>
    rw [evaluateWith, iha, ihb]
    rfl
  | @rem a b m n r _ _ hr iha ihb =>
    have hn : n ≠ 0 := by
      rintro rfl
      exact absurd hr.small (Nat.not_lt_zero _)
    have hresult : Arithmetic.rem.result (.int m) (.int n) = .ok (.int (m.tmod n)) :=
      if_neg (decide_eq_true_iff.not.mpr hn)
    rw [evaluateWith, iha, ihb, hr.unique (isRemainder_tmod m hn)]
    change (do return Value.number (← Arithmetic.rem.result (.int m) (.int n))) = _
    rw [hresult]
    rfl

/-- An expression comes to an integer unless a remainder by zero is taken in it. -/
theorem IsIntegral.denotes_or (h : e.IsIntegral) : (∃ n, e.Denotes n) ∨ e.DividesByZero := by
  induction h with
  | literal n => exact .inl ⟨n, .literal n⟩
  | negate _ ih =>
    rcases ih with ⟨n, hn⟩ | hzero
    · exact .inl ⟨-n, .negate hn⟩
    · exact .inr (.negate hzero)
  | @compute op a b hop _ _ iha ihb =>
    rcases iha with ⟨m, hm⟩ | hzero
    · rcases ihb with ⟨n, hn⟩ | hzero
      · cases op with
        | add => exact .inl ⟨_, .add hm hn⟩
        | sub => exact .inl ⟨_, .sub hm hn⟩
        | mul => exact .inl ⟨_, .mul hm hn⟩
        | div => exact absurd rfl hop
        | rem =>
          by_cases h0 : n = 0
          · exact .inr (.zero (h0 ▸ hn))
          · exact .inl ⟨_, .rem hm hn (isRemainder_tmod m h0)⟩
      · exact .inr (.right hzero)
    · exact .inr (.left hzero)

/-- Where a remainder by zero is taken on either side, the whole fails, whatever stands between the sides. -/
theorem evaluateWith_binary_of_dividesByZero {op : BinaryOp} {a b : Expr} {site : List Nat}
    (ha : a.IsIntegral)
    (hleft : a.DividesByZero → a.evaluateWith now apply (0 :: site) c = .error .remainderByZero)
    (hright : b.DividesByZero → b.evaluateWith now apply (1 :: site) c = .error .remainderByZero)
    (hzero : a.DividesByZero ∨ b.DividesByZero) :
    (binary op a b).evaluateWith now apply site c = .error .remainderByZero := by
  by_cases h : a.DividesByZero
  · rw [evaluateWith, hleft h]
    rfl
  · obtain ⟨m, hm⟩ := ha.denotes_or.resolve_right h
    rw [evaluateWith, evaluateWith_of_denotes hm, hright (hzero.resolve_left h)]
    rfl

theorem evaluateWith_of_dividesByZero (h : e.IsIntegral) (hzero : e.DividesByZero) (site : List Nat) :
    e.evaluateWith now apply site c = .error .remainderByZero := by
  induction h generalizing site with
  | literal n => cases hzero
  | negate _ ih =>
    cases hzero with
    | negate hzero =>
      rw [evaluateWith, ih hzero]
      rfl
  | @compute op a b _ ha _ iha ihb =>
    by_cases hsides : a.DividesByZero ∨ b.DividesByZero
    · exact evaluateWith_binary_of_dividesByZero ha (iha · _) (ihb · _) hsides
    · obtain ⟨hleft, hright⟩ := not_or.mp hsides
      obtain ⟨m, hm⟩ := ha.denotes_or.resolve_right hleft
      cases hzero with
      | zero hb =>
        rw [evaluateWith, evaluateWith_of_denotes hm, evaluateWith_of_denotes hb]
        rfl
      | left hzero => exact absurd hzero hleft
      | right hzero => exact absurd hzero hright

/-! ### Comparisons -/

theorem Answers.evaluateWith {v : Value} (h : e.Answers v) (site : List Nat) :
    e.evaluateWith now apply site c = .ok v := by
  cases h with
  | integer h => exact evaluateWith_of_denotes h site
  | @comparison op a b m n ha hb =>
    rw [Expr.evaluateWith, evaluateWith_of_denotes ha, evaluateWith_of_denotes hb]
    change (do return Value.bool (← liftM (op.holds (.int m) (.int n)))) = (_ : Outcome Value)
    rw [op.holds_int]
    rfl

theorem IsOverIntegers.answers_or (h : e.IsOverIntegers) : (∃ v, e.Answers v) ∨ e.DividesByZero := by
  cases h with
  | integral h => exact h.denotes_or.imp_left fun ⟨n, hn⟩ => ⟨_, .integer hn⟩
  | compare ha hb =>
    rcases ha.denotes_or with ⟨m, hm⟩ | hzero
    · rcases hb.denotes_or with ⟨n, hn⟩ | hzero
      · exact .inl ⟨_, .comparison hm hn⟩
      · exact .inr (.right hzero)
    · exact .inr (.left hzero)

theorem IsOverIntegers.evaluateWith (h : e.IsOverIntegers) (hzero : e.DividesByZero) (site : List Nat) :
    e.evaluateWith now apply site c = .error .remainderByZero := by
  cases h with
  | integral h => exact evaluateWith_of_dividesByZero h hzero site
  | compare ha hb =>
    refine evaluateWith_binary_of_dividesByZero ha (evaluateWith_of_dividesByZero ha · _)
      (evaluateWith_of_dividesByZero hb · _) ?_
    cases hzero with
    | left hzero => exact .inl hzero
    | right hzero => exact .inr hzero

end

/-- An expression over integers comes to the value that the integers give it. It fails exactly where some
remainder in it is taken by zero, and then as that. -/
theorem evaluate_overIntegers (now : Moment) (c : Context) {e : Expr} (h : e.IsOverIntegers) :
    (∀ v, e.evaluate now c = .ok v ↔ e.Answers v) ∧
      (∀ f, e.evaluate now c = .error f ↔ e.DividesByZero ∧ f = .remainderByZero) ∧
        Failure.isLocal .remainderByZero = true := by
  have hanswers (v : Value) (hv : e.Answers v) : e.evaluate now c = .ok v := hv.evaluateWith []
  have hfails (hzero : e.DividesByZero) : e.evaluate now c = .error .remainderByZero :=
    h.evaluateWith hzero []
  refine ⟨fun v => ⟨fun hv => ?_, hanswers v⟩, fun f => ⟨fun hf => ?_, fun hf => hf.2 ▸ hfails hf.1⟩, rfl⟩
  · rcases h.answers_or with ⟨w, hw⟩ | hzero
    · rw [hanswers w hw] at hv
      cases hv
      exact hw
    · rw [hfails hzero] at hv
      cases hv
  · rcases h.answers_or with ⟨w, hw⟩ | hzero
    · rw [hanswers w hw] at hf
      cases hf
    · rw [hfails hzero] at hf
      cases hf
      exact ⟨hzero, rfl⟩

/-- `-(10 ^ 30) % 7 <= -1` holds, and `1 - 5 % (2 - 2)` has no value. -/
theorem evaluate_overIntegers_large :
    let number (n : Int) : Expr := .literal (.number (.int n))
    let e : Expr := .binary (.compare .le)
      (.binary (.compute .rem) (.unary .negate (number (10 ^ 30))) (number 7)) (number (-1))
    let e' : Expr := .binary (.compute .sub) (number 1)
      (.binary (.compute .rem) (number 5) (.binary (.compute .sub) (number 2) (number 2)))
    e.IsOverIntegers ∧ e'.IsOverIntegers ∧ e.evaluate default ⟨[], [], []⟩ = .ok (.bool true) ∧
      e'.evaluate default ⟨[], [], []⟩ = .error .remainderByZero := by
  intro number e e'
  have he : e.IsOverIntegers :=
    .compare (.compute (by decide) (.negate (.literal _)) (.literal _)) (.literal _)
  have he' : e'.IsOverIntegers := .integral (.compute (by decide) (.literal _)
    (.compute (by decide) (.literal _) (.compute (by decide) (.literal _) (.literal _))))
  have hrem : IsRemainder (-(10 ^ 30)) 7 (-1) := ⟨by decide, by decide, by decide⟩
  have hvalue : e.Answers (.bool true) :=
    @Answers.comparison .le _ _ _ _ (.rem (.negate (.literal _)) (.literal _) hrem) (.literal (-1))
  have hzero : e'.DividesByZero := .right (.zero (.sub (.literal 2) (.literal 2)))
  exact ⟨he, he', ((evaluate_overIntegers default _ he).1 _).mpr hvalue,
    ((evaluate_overIntegers default _ he').2.1 _).mpr ⟨hzero, rfl⟩⟩

end Expr
end NoteQuery
