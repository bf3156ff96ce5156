import NoteQuery.Eval.Operator
import NoteQuery.Proofs.Value.Keys
import NoteQuery.Proofs.Value.Ranks

/-! Equality and order of values go together. Equality is symmetric; of two values at most one is less than
the other, and then they are not equal. Numbers, texts, and what denotes dates beside a date, always stand
in one of the three ways. Among values that are no dates less is a strict partial order. -/

namespace NoteQuery
set_option autoImplicit false

/-! ### Trees -/

theorem Literal.same_comm (a b : Literal) : a.same b = b.same a := by
  unfold same
  cases a.number? with
  | none =>
    cases b.number? with
    | none => exact decide_eq_decide.mpr eq_comm
    | some n => rfl
  | some m =>
    cases b.number? with
    | none => rfl
    | some n => exact m.eq_comm n

namespace Expr

mutual

theorem same_comm : (a b : Expr) → a.same b = b.same a
  | literal a, b => by
    cases b with
    | literal b => exact a.same_comm b
    | _ => rfl
  | name a, b => by
    cases b with
    | name b => exact Bool.beq_comm
    | _ => rfl
  | property a k, b => by
    cases b with
    | property b l => rw [same, same, same_comm a b, k.same_comm l]
    | _ => rfl
  | index a k, b => by
    cases b with
    | index b l => rw [same, same, same_comm a b, same_comm k l]
    | _ => rfl
  | binary o a k, b => by
    cases b with
    | binary p b l => rw [same, same, same_comm a b, same_comm k l, Bool.beq_comm]
    | _ => rfl
  | connect o a k, b => by
    cases b with
    | connect p b l => rw [same, same, same_comm a b, same_comm k l, Bool.beq_comm]
    | _ => rfl
  | unary o a, b => by
    cases b with
    | unary p b => rw [same, same, same_comm a b, Bool.beq_comm]
    | _ => rfl
  | call f as, b => by
    cases b with
    | call g bs => rw [same, same, sameAll_comm as bs, Bool.beq_comm]
    | _ => rfl
  | lambda x a, b => by
    cases b with
    | lambda y b => rw [same, same, same_comm a b, Bool.beq_comm]
    | _ => rfl

theorem sameAll_comm : (as bs : List Expr) → sameAll as bs = sameAll bs as
  | [], [] | [], _ :: _ | _ :: _, [] => rfl
  | a :: as, b :: bs => by rw [sameAll, sameAll, same_comm a b, sameAll_comm as bs]

end

end Expr

namespace Value

/-! ### Equality in depth -/

mutual

/-- Each name of an object stands once in it, at any depth. -/
def Keyed : Value → Prop
  | array items => AllKeyed items
  | object entries => (Record.keys entries).Nodup ∧ EntriesKeyed entries
  | _ => True

def AllKeyed : List Value → Prop
  | [] => True
  | v :: vs => v.Keyed ∧ AllKeyed vs

def EntriesKeyed : List (String × Value) → Prop
  | [] => True
  | (_, v) :: es => v.Keyed ∧ EntriesKeyed es

end

variable {a b c : Value}

theorem entriesKeyed_iff {es : List (String × Value)} : EntriesKeyed es ↔ ∀ e ∈ es, e.2.Keyed := by
  induction es with
  | nil => simp [EntriesKeyed]
  | cons e es ih => rw [EntriesKeyed, ih, List.forall_mem_cons]

theorem itemsEqual_cons_iff {as bs : List Value} : itemsEqual (a :: as) (b :: bs) = .ok true ↔
    a.deepEqual b = .ok true ∧ itemsEqual as bs = .ok true := by
  rw [itemsEqual]
  cases a.deepEqual b with
  | error e => exact ⟨nofun, nofun⟩
  | ok same =>
    cases same with
    | true => exact ⟨fun h => ⟨rfl, h⟩, And.right⟩
    | false => exact ⟨nofun, nofun⟩

theorem entriesEqual_iff {as bs : Record} : entriesEqual as bs = .ok true ↔
    ∀ e ∈ as, e.2.deepEqual (Record.get bs e.1) = .ok true := by
  induction as with
  | nil => simp [entriesEqual]
  | cons e as ih =>
    rw [entriesEqual, List.forall_mem_cons, ← ih]
    cases e.2.deepEqual (Record.get bs e.1) with
    | error e => exact ⟨nofun, nofun⟩
    | ok same =>
      cases same with
      | true => exact ⟨fun h => ⟨rfl, h⟩, And.right⟩
      | false => exact ⟨nofun, nofun⟩

/-- Objects are equal when they have the same names and equal values under them. -/
theorem deepEqual_object_iff {as bs : Record} : (object as).deepEqual (object bs) = .ok true ↔
    ((∀ e ∈ as, e.1 ∈ Record.keys bs) ∧ ∀ e ∈ bs, e.1 ∈ Record.keys as) ∧
      ∀ e ∈ as, e.2.deepEqual (Record.get bs e.1) = .ok true := by
  rw [deepEqual, ← entriesEqual_iff]
  simp only [Bool.and_eq_true, List.all_eq_true, has_iff]
  split
  · next hnames => exact ⟨fun h => ⟨hnames, h⟩, And.right⟩
  · next hnames => exact ⟨nofun, fun h => (hnames h.1).elim⟩

theorem mem_get_of_mem_keys {es : Record} {n : String} (h : n ∈ Record.keys es) :
    (n, Record.get es n) ∈ es := by
  obtain ⟨v, hv⟩ := Option.isSome_iff_exists.mp (has_iff.mpr h)
  rw [Record.get, hv, Option.getD_some]
  exact Record.mem_of_lookup hv

theorem get_of_mem {es : Record} {e : String × Value} (h : (Record.keys es).Nodup) (he : e ∈ es) :
    Record.get es e.1 = e.2 := by
  rw [Record.get, Record.get?, Record.lookup_of_mem h he, Option.getD_some]

mutual

theorem deepEqual_symm : (a : Value) → ∀ {b : Value}, b.Keyed → a.deepEqual b = .ok true →
    b.deepEqual a = .ok true
  | null, b, _, h => by cases b <;> exact h
  | bool x, b, _, h => by
    cases b <;> first | cases h | skip
    rwa [deepEqual, Bool.beq_comm]
  | number x, b, _, h => by
    cases b <;> first | cases h | skip
    rwa [deepEqual, Number.eq_comm]
  | text x, b, _, h => by
    cases b <;> first | cases h | skip
    rwa [deepEqual, Bool.beq_comm]
  | date d, b, _, h => by
    cases b <;> first | cases h | skip
    rw [deepEqual] at h ⊢
    obtain ⟨m, hm, h⟩ := bind_eq_ok.mp h
    obtain ⟨n, hn, h⟩ := bind_eq_ok.mp h
    rw [hn, hm]
    exact (congrArg Except.ok (decide_eq_decide.mpr eq_comm)).trans h
  | array as, b, hb, h => by
    cases b <;> first | cases h | skip
    next bs =>
    rw [deepEqual] at h ⊢
    split at h
    · next hlength =>
      rw [if_pos hlength.symm]
      exact itemsEqual_symm as hb h
    · cases h
  | object as, b, hb, h => by
    cases b <;> first | cases h | skip
    next bs =>
    rw [deepEqual_object_iff] at h ⊢
    obtain ⟨hnames, hequal⟩ := h
    refine ⟨hnames.symm, fun e he => ?_⟩
    -- the value under the same name on the left was compared with this one
    obtain ⟨hmem, hsame⟩ : (e.1, Record.get as e.1) ∈ as ∧
        (Record.get as e.1).deepEqual (Record.get bs e.1) = .ok true := by
      have hmem := mem_get_of_mem_keys (hnames.2 e he)
      exact ⟨hmem, hequal _ hmem⟩
    rw [get_of_mem hb.1 he] at hsame
    exact entry_symm as _ hmem (entriesKeyed_iff.mp hb.2 e he) hsame
  | function o x e, b, _, h => by
    cases b <;> first | cases h | skip
    rwa [deepEqual, Bool.beq_comm, Expr.same_comm]

theorem itemsEqual_symm : (as : List Value) → ∀ {bs : List Value}, AllKeyed bs →
    itemsEqual as bs = .ok true → itemsEqual bs as = .ok true
  | [], bs, _, h => by cases bs <;> exact h
  | a :: as, bs, hb, h => by
    cases bs with
    | nil => cases h
    | cons b bs =>
      rw [itemsEqual_cons_iff] at h ⊢
      exact ⟨deepEqual_symm a hb.1 h.1, itemsEqual_symm as hb.2 h.2⟩

theorem entry_symm : (as : List (String × Value)) → ∀ e ∈ as, ∀ {b : Value}, b.Keyed →
    e.2.deepEqual b = .ok true → b.deepEqual e.2 = .ok true
  | [], _, he => absurd he List.not_mem_nil
  | (n, a) :: as, e, he => fun hb h => by
    rcases List.mem_cons.mp he with rfl | he
    · exact deepEqual_symm a hb h
    · exact entry_symm as e he hb h

end

/-! ### Comparisons in range -/

/-- Comparing two values meets no date beyond the calendar: the dates in them have moments, and beside a
date so does a text that is read as one. -/
structure ComparesInRange (a b : Value) : Prop where
  left : a.Holds (fun _ => True) Stamp.InCalendar
  right : b.Holds (fun _ => True) Stamp.InCalendar
  coerced : (a.isDate || b.isDate) = true →
    FailsOnly (fun _ => False) a.moment? ∧ FailsOnly (fun _ => False) b.moment?

theorem ComparesInRange.symm (h : ComparesInRange a b) : ComparesInRange b a where
  left := h.right
  right := h.left
  coerced hdate := (h.coerced (by rwa [Bool.or_comm])).symm

theorem exists_onMoments {test : Moment → Moment → Bool} (ha : FailsOnly (fun _ => False) a.moment?)
    (hb : FailsOnly (fun _ => False) b.moment?) : ∃ holds, onMoments test a b = .ok holds := by
  obtain ⟨m?, hm, -⟩ := ha.exists_ok
  obtain ⟨n?, hn, -⟩ := hb.exists_ok
  unfold onMoments
  rw [hm, hn]
  cases m? with
  | none => exact ⟨false, rfl⟩
  | some m => cases n? <;> exact ⟨_, rfl⟩

theorem ComparesInRange.exists_less (h : ComparesInRange a b) : ∃ less, a.less b = .ok less := by
  unfold Value.less
  split
  · next hdate => exact exists_onMoments (h.coerced hdate).1 (h.coerced hdate).2
  · split <;> exact ⟨_, rfl⟩

theorem ComparesInRange.exists_equal (h : ComparesInRange a b) : ∃ same, a.equal b = .ok same := by
  unfold equal
  split
  · next hdate => exact exists_onMoments (h.coerced hdate).1 (h.coerced hdate).2
  · split
    · exact ⟨_, rfl⟩
    · have hdeep : FailsOnly (fun _ => False) (deepEqual a b) :=
        failsOnly_deepEqual (fun _ hd => hd) a b h.left h.right
      obtain ⟨same, hsame, -⟩ := hdeep.exists_ok
      exact ⟨same, hsame⟩

/-! ### Equality -/

theorem onMoments_iff {test : Moment → Moment → Bool} : onMoments test a b = .ok true ↔
    ∃ m n, a.moment? = .ok (some m) ∧ b.moment? = .ok (some n) ∧ test m n = true := by
  unfold onMoments
  constructor
  · intro h
    obtain ⟨m?, hm, h⟩ := bind_eq_ok.mp h
    obtain ⟨n?, hn, h⟩ := bind_eq_ok.mp h
    cases m? <;> cases n? <;> first | cases h | skip
    exact ⟨_, _, hm, hn, Except.ok.inj h⟩
  · rintro ⟨m, n, hm, hn, htest⟩
    rw [hm, hn, ← htest]
    rfl

theorem equal_symm (hb : b.Keyed) (h : a.equal b = .ok true) : b.equal a = .ok true := by
  unfold equal at h ⊢
  rw [Bool.or_comm]
  split at h
  · next hdate =>
    rw [if_pos hdate]
    obtain ⟨m, n, hm, hn, hsame⟩ := onMoments_iff.mp h
    exact onMoments_iff.mpr ⟨n, m, hn, hm, decide_eq_true (of_decide_eq_true hsame).symm⟩
  · next hdate =>
    rw [if_neg hdate]
    cases a with
    | function o x e =>
      cases b <;> first | cases h | skip
      dsimp only at h ⊢
      rwa [Bool.beq_comm]
    | _ =>
      have hdeep := deepEqual_symm _ hb h
      cases b <;> exact hdeep

theorem ComparesInRange.equal_comm (h : ComparesInRange a b) (ha : a.Keyed) (hb : b.Keyed) :
    b.equal a = a.equal b := by
  obtain ⟨same, hsame⟩ := h.exists_equal
  obtain ⟨same', hsame'⟩ := h.symm.exists_equal
  rw [hsame, hsame']
  refine congrArg Except.ok (Bool.eq_iff_iff.mpr ⟨?_, ?_⟩)
  · rintro rfl
    exact Except.ok.inj (hsame.symm.trans (equal_symm ha hsame'))
  · rintro rfl
    exact Except.ok.inj (hsame'.symm.trans (equal_symm hb hsame))

/-! ### Order -/

/-- Values that are no dates are always compared. -/
theorem exists_less_of_isDate (ha : a.isDate = false) (hb : b.isDate = false) :
    ∃ less, a.less b = .ok less := by
  unfold Value.less
  rw [ha, hb]
  cases a <;> cases b <;> exact ⟨_, rfl⟩

/-- Why one value is less than another. -/
inductive IsLess : Value → Value → Prop where
  | dates {a b : Value} {m n : Moment} (hdate : (a.isDate || b.isDate) = true)
      (hm : a.moment? = .ok (some m)) (hn : b.moment? = .ok (some n)) (h : m.micros < n.micros) :
      IsLess a b
  | numbers {m n : Number} (h : m.lt n = true) : IsLess (number m) (number n)
  | texts {s t : String} (h : s < t) : IsLess (text s) (text t)

theorem less_iff : a.less b = .ok true ↔ IsLess a b := by
  unfold Value.less
  constructor
  · intro h
    split at h
    · next hdate =>
      obtain ⟨m, n, hm, hn, hlt⟩ := onMoments_iff.mp h
      exact .dates hdate hm hn (of_decide_eq_true hlt)
    · split at h
      · exact .numbers (Except.ok.inj h)
      · exact .texts (of_decide_eq_true (Except.ok.inj h))
      · cases h
  · intro h
    cases h with
    | dates hdate hm hn h =>
      rw [if_pos hdate]
      exact onMoments_iff.mpr ⟨_, _, hm, hn, decide_eq_true h⟩
    | numbers h => exact congrArg Except.ok h
    | texts h => exact congrArg Except.ok (decide_eq_true h)

namespace IsLess

theorem irrefl : ¬IsLess a a := by
  intro h
  cases h with
  | dates _ hm hn h =>
    cases hm.symm.trans hn
    exact Nat.lt_irrefl _ h
  | numbers h => exact lt_irrefl _ (Number.lt_iff.mp h).2.2
  | texts h => exact String.lt_irrefl _ h

theorem asymm (h : IsLess a b) : ¬IsLess b a := by
  intro h'
  cases h with
  | dates hdate hm hn h =>
    cases h' with
    | dates _ hn' hm' h' =>
      cases hm.symm.trans hm'
      cases hn.symm.trans hn'
      exact Nat.lt_asymm h h'
    | numbers => cases hdate
    | texts => cases hdate
  | numbers h =>
    cases h' with
    | dates hdate => cases hdate
    | numbers h' => exact lt_asymm (Number.lt_iff.mp h).2.2 (Number.lt_iff.mp h').2.2
  | texts h =>
    cases h' with
    | dates hdate => cases hdate
    | texts h' => exact String.lt_asymm h h'

theorem not_equal (h : IsLess a b) : ¬a.equal b = .ok true := by
  intro hequal
  unfold equal at hequal
  cases h with
  | dates hdate hm hn h =>
    rw [if_pos hdate] at hequal
    obtain ⟨m', n', hm', hn', hsame⟩ := onMoments_iff.mp hequal
    cases hm.symm.trans hm'
    cases hn.symm.trans hn'
    rw [of_decide_eq_true hsame] at h
    exact Nat.lt_irrefl _ h
  | numbers h =>
    have hsame := (Number.eq_iff.mp (Except.ok.inj hequal)).2.2
    exact (Number.lt_iff.mp h).2.2.ne hsame
  | texts h =>
    rw [eq_of_beq (Except.ok.inj hequal)] at h
    exact String.lt_irrefl _ h

/-- Away from dates less chains only numbers to numbers and texts to texts. -/
theorem trans (ha : a.isDate = false) (hb : b.isDate = false) (hc : c.isDate = false)
    (hab : IsLess a b) (hbc : IsLess b c) : IsLess a c := by
  cases hab with
  | dates hdate => simp [ha, hb] at hdate
  | numbers hmn =>
    cases hbc with
    | dates hdate => simp [hb, hc] at hdate
    | numbers hnk =>
      obtain ⟨hm, -, hmn⟩ := Number.lt_iff.mp hmn
      obtain ⟨-, hk, hnk⟩ := Number.lt_iff.mp hnk
      exact .numbers (Number.lt_iff.mpr ⟨hm, hk, hmn.trans hnk⟩)
  | texts hst =>
    cases hbc with
    | dates hdate => simp [hb, hc] at hdate
    | texts htu => exact .texts (String.lt_trans hst htu)

end IsLess

theorem eq_number_of_equal {n : Number} (ha : a.isDate = false) (h : a.equal (number n) = .ok true) :
    ∃ m, a = number m ∧ m.eq n = true := by
  have hdeep : a.deepEqual (number n) = .ok true := by
    cases a <;> first | exact h | cases ha
  cases a <;> first | cases hdeep | skip
  exact ⟨_, rfl, Except.ok.inj hdeep⟩

theorem eq_text_of_equal {s : String} (ha : a.isDate = false) (h : a.equal (text s) = .ok true) :
    a = text s := by
  have hdeep : a.deepEqual (text s) = .ok true := by
    cases a <;> first | exact h | cases ha
  cases a <;> first | cases hdeep | skip
  rw [eq_of_beq (Except.ok.inj hdeep)]

namespace IsLess

variable (ha : a.isDate = false) (hb : b.isDate = false) (hc : c.isDate = false)
  (hequal : a.equal b = .ok true)
include ha hb hc hequal

/-- What is equal to a lesser value is less itself. -/
theorem of_equal_left (h : IsLess b c) : IsLess a c := by
  cases h with
  | dates hdate => simp [hb, hc] at hdate
  | numbers h =>
    obtain ⟨m, rfl, hsame⟩ := eq_number_of_equal ha hequal
    obtain ⟨hm, -, hsame⟩ := Number.eq_iff.mp hsame
    obtain ⟨-, hn, h⟩ := Number.lt_iff.mp h
    exact .numbers (Number.lt_iff.mpr ⟨hm, hn, hsame ▸ h⟩)
  | texts h =>
    cases eq_text_of_equal ha hequal
    exact .texts h

theorem of_equal_right (h : IsLess c b) : IsLess c a := by
  cases h with
  | dates hdate => simp [hb, hc] at hdate
  | numbers h =>
    obtain ⟨m, rfl, hsame⟩ := eq_number_of_equal ha hequal
    obtain ⟨hm, -, hsame⟩ := Number.eq_iff.mp hsame
    obtain ⟨hn, -, h⟩ := Number.lt_iff.mp h
    exact .numbers (Number.lt_iff.mpr ⟨hn, hm, hsame ▸ h⟩)
  | texts h =>
    cases eq_text_of_equal ha hequal
    exact .texts h

end IsLess

/-! ### How two values stand -/

/-- What comparisons of two values answer: they stand in one order, or in none. -/
structure Relates (a b : Value) (order? : Option Ordering) : Prop where
  less : a.less b = .ok (order? == some .lt)
  equal : a.equal b = .ok (order? == some .eq)
  greater : b.less a = .ok (order? == some .gt)

theorem ComparesInRange.exists_relates (h : ComparesInRange a b) (hb : b.Keyed) :
    ∃ order?, Relates a b order? := by
  obtain ⟨less, hless⟩ := h.exists_less
  obtain ⟨same, hsame⟩ := h.exists_equal
  obtain ⟨greater, hgreater⟩ := h.symm.exists_less
  cases less with
  | true =>
    have hlt := less_iff.mp hless
    cases same with
    | true => exact (hlt.not_equal hsame).elim
    | false =>
      cases greater with
      | true => exact (hlt.asymm (less_iff.mp hgreater)).elim
      | false => exact ⟨some .lt, hless, hsame, hgreater⟩
  | false =>
    cases greater with
    | true =>
      have hgt := less_iff.mp hgreater
      cases same with
      | true => exact (hgt.not_equal (equal_symm hb hsame)).elim
      | false => exact ⟨some .gt, hless, hsame, hgreater⟩
    | false =>
      cases same with
      | true => exact ⟨some .eq, hless, hsame, hgreater⟩
      | false => exact ⟨none, hless, hsame, hgreater⟩

namespace Relates

variable {order? : Option Ordering}

theorem compare_eq (h : Relates a b order?) : a.compare b = .ok (order?.getD .eq) := by
  unfold Value.compare
  rw [h.less, h.greater]
  rcases order? with _ | _ | _ | _ <;> rfl

theorem holds_le (h : Relates a b order?) :
    Comparison.le.holds a b = .ok (order? == some .lt || order? == some .eq) := by
  unfold Comparison.holds
  dsimp only
  rw [h.less, h.equal]
  rcases order? with _ | _ | _ | _ <;> rfl

theorem swap (h : Relates a b order?) (hequal : b.equal a = a.equal b) :
    Relates b a (order?.map Ordering.swap) := by
  refine ⟨?_, ?_, ?_⟩
  · rw [h.greater]
    rcases order? with _ | _ | _ | _ <;> rfl
  · rw [hequal, h.equal]
    rcases order? with _ | _ | _ | _ <;> rfl
  · rw [h.less]
    rcases order? with _ | _ | _ | _ <;> rfl

end Relates

/-- Two values of which one is less unless they are equal: two numbers, two texts, or a date and what
denotes one. -/
inductive AreOrdered : Value → Value → Prop where
  | numbers {a b : Value} (ha : a.IsNumber) (hb : b.IsNumber) : AreOrdered a b
  | texts {a b : Value} (ha : a.IsText) (hb : b.IsText) : AreOrdered a b
  | dates {a b : Value} {m n : Moment} (hdate : (a.isDate || b.isDate) = true)
      (hm : a.moment? = .ok (some m)) (hn : b.moment? = .ok (some n)) : AreOrdered a b

/-- Answers that compare ranks are those of one order. -/
theorem relates_of_rank {β : Type} [LinearOrder β] {x y : β}
    (hless : a.less b = .ok (decide (x < y))) (hequal : a.equal b = .ok (decide (x = y)))
    (hgreater : b.less a = .ok (decide (y < x))) : ∃ order, Relates a b (some order) := by
  rcases lt_trichotomy x y with h | h | h
  · refine ⟨.lt, hless.trans ?_, hequal.trans ?_, hgreater.trans ?_⟩
    · rw [decide_eq_true h]; rfl
    · rw [decide_eq_false h.ne]; rfl
    · rw [decide_eq_false h.asymm]; rfl
  · subst h
    refine ⟨.eq, hless.trans ?_, hequal.trans ?_, hgreater.trans ?_⟩
    · rw [decide_eq_false (lt_irrefl x)]; rfl
    · rw [decide_eq_true rfl]; rfl
    · rw [decide_eq_false (lt_irrefl x)]; rfl
  · refine ⟨.gt, hless.trans ?_, hequal.trans ?_, hgreater.trans ?_⟩
    · rw [decide_eq_false h.asymm]; rfl
    · rw [decide_eq_false h.ne']; rfl
    · rw [decide_eq_true h]; rfl

theorem RankedBy.relates {β : Type} [LinearOrder β] {good : Value → Prop} {rank : Value → β}
    (h : RankedBy good rank) (ha : good a) (hb : good b) : ∃ order, Relates a b (some order) :=
  relates_of_rank (h.less a b ha hb) (h.equal a b ha hb) (h.less b a hb ha)

theorem AreOrdered.exists_relates (h : AreOrdered a b) : ∃ order, Relates a b (some order) := by
  cases h with
  | numbers ha hb => exact numbers_ranked.relates ha hb
  | texts ha hb => exact texts_ranked.relates ha hb
  | @dates m n hdate hm hn =>
    have hdate' : (b.isDate || a.isDate) = true := by rwa [Bool.or_comm]
    refine relates_of_rank (x := m.micros) (y := n.micros) ?_ ?_ ?_
    · unfold Value.less
      rw [if_pos hdate, onMoments, hm, hn]
      rfl
    · unfold equal
      rw [if_pos hdate, onMoments, hm, hn]
      exact congrArg Except.ok (decide_eq_decide.mpr ⟨congrArg Moment.micros, Moment.micros_injective⟩)
    · unfold Value.less
      rw [if_pos hdate', onMoments, hn, hm]
      rfl

/-! ### The laws -/

/-- Equality is symmetric, two values stand in at most one order, and in just one where they are ordered;
comparing them the other way round turns the order. Among values that are no dates less is a strict
partial order. -/
theorem comparison_laws :
    (∀ a b : Value, a.Keyed → b.Keyed → ComparesInRange a b →
      (∃ same, a.equal b = .ok same ∧ b.equal a = .ok same) ∧
      (∃ order?, Relates a b order? ∧ a.compare b = .ok (order?.getD .eq) ∧
        b.compare a = .ok (order?.getD .eq).swap) ∧
      (Comparison.le.holds a b = .ok true → Comparison.le.holds b a = .ok true →
        a.equal b = .ok true)) ∧
    (∀ a b : Value, AreOrdered a b → ∃ order, Relates a b (some order)) ∧
    (∀ a : Value, a.isDate = false → a.less a = .ok false) ∧
    ∀ a b c : Value, a.isDate = false → b.isDate = false → c.isDate = false →
      a.less b = .ok true → b.less c = .ok true → a.less c = .ok true := by
  refine ⟨fun a b ha hb h => ?_, fun a b h => h.exists_relates, fun a ha => ?_, ?_⟩
  · obtain ⟨order?, hrelates⟩ := h.exists_relates hb
    have hequal : b.equal a = a.equal b := h.equal_comm ha hb
    have hturned := hrelates.swap hequal
    refine ⟨⟨_, hrelates.equal, hequal.trans hrelates.equal⟩, ⟨order?, hrelates, hrelates.compare_eq, ?_⟩,
      fun hle hge => ?_⟩
    · rw [hturned.compare_eq]
      rcases order? with _ | _ | _ | _ <;> rfl
    · have hle := Except.ok.inj (hrelates.holds_le.symm.trans hle)
      have hge := Except.ok.inj (hturned.holds_le.symm.trans hge)
      rw [hrelates.equal]
      rcases order? with _ | _ | _ | _
      · exact absurd hle (by decide)
      · exact absurd hge (by decide)
      · rfl
      · exact absurd hle (by decide)
  · obtain ⟨less, hless⟩ := exists_less_of_isDate ha ha
    cases less with
    | true => exact (IsLess.irrefl (less_iff.mp hless)).elim
    | false => exact hless
  · intro a b c ha hb hc hab hbc
    exact less_iff.mpr ((less_iff.mp hab).trans ha hb hc (less_iff.mp hbc))

/-- A moment with an offset and a text that names the same moment in another way. -/
theorem comparison_laws_offset :
    let a := date (.zoned ⟨⟨2024, 3, 1, by decide⟩, ⟨1, 30, 0, 0, by decide⟩⟩ 7200000000)
    let b := text "2024/02/29 23:30"
    a.Keyed ∧ b.Keyed ∧ ComparesInRange a b ∧ AreOrdered a b ∧
      (∃ same, a.equal b = .ok same ∧ b.equal a = .ok same) ∧ ∃ order, Relates a b (some order) := by
  intro a b
  have ha : a.moment? = .ok (some ⟨⟨2024, 2, 29, by decide⟩, ⟨23, 30, 0, 0, by decide⟩⟩) :=
    toOption_eq_some.mp (by decide +kernel)
  have hb : b.moment? = .ok (some ⟨⟨2024, 2, 29, by decide⟩, ⟨23, 30, 0, 0, by decide⟩⟩) :=
    toOption_eq_some.mp (by decide +kernel)
  have hrange : ComparesInRange a b := by
    refine ⟨?_, ?_, fun _ => ?_⟩
    · have hdate : a.InCalendar := inCalendar_zoned (by decide +kernel)
      rw [InCalendar, Dated, Holds] at hdate
      rw [Holds]
      exact hdate
    · rw [Holds]
      trivial
    · rw [ha, hb]
      exact ⟨trivial, trivial⟩
  have hordered : AreOrdered a b := .dates rfl ha hb
  obtain ⟨hequal, -, -⟩ := comparison_laws.1 a b trivial trivial hrange
  exact ⟨trivial, trivial, hrange, hordered, hequal, comparison_laws.2.1 a b hordered⟩

end Value

end NoteQuery
