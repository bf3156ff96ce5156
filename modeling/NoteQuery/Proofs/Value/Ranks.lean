import Mathlib.Data.Char
import Mathlib.Data.Int.Order.Basic
import Mathlib.Data.List.Lex
import Mathlib.Data.Prod.Lex
import NoteQuery.Eval.Library
import NoteQuery.Proofs.Calendar.Order
import NoteQuery.Proofs.Order.Stability
import NoteQuery.Proofs.Value.Dates

/-! Numbers, texts and dates without a zone are put in a linear order by what they denote, each kind for
itself. -/

namespace NoteQuery
set_option autoImplicit false

namespace Number

namespace Place

/-- Places in their order: the part of the line, then the units. -/
def height : Place → Int ×ₗ Int
  | bottom => toLex (-1, 0)
  | point units => toLex (0, units)
  | top => toLex (1, 0)

theorem lt_eq (p q : Place) : p.lt q = decide (p.height < q.height) := by
  cases p <;> cases q <;> simp [lt, height, Prod.Lex.toLex_lt_toLex]

theorem height_injective {p q : Place} (h : p.height = q.height) : p = q := by
  cases p <;> cases q <;> simp_all [height]

end Place

/-- The height of a number; what is none is put with zero. -/
def height (n : Number) : Int ×ₗ Int := (n.place?.map Place.height).getD (toLex (0, 0))

theorem exists_place {n : Number} (h : n.isNaN = false) : ∃ p, n.place? = some p := by
  cases n with
  | int n => exact ⟨_, rfl⟩
  | real x =>
    cases x with
    | nan => cases h
    | infinite s => exact ⟨_, rfl⟩
    | finite s m e => exact ⟨_, rfl⟩

variable {m n : Number}

theorem lt_eq (hm : m.isNaN = false) (hn : n.isNaN = false) :
    m.lt n = decide (m.height < n.height) := by
  obtain ⟨p, hp⟩ := exists_place hm
  obtain ⟨q, hq⟩ := exists_place hn
  simp only [lt, height, hp, hq]
  exact p.lt_eq q

theorem eq_eq (hm : m.isNaN = false) (hn : n.isNaN = false) :
    m.eq n = decide (m.height = n.height) := by
  obtain ⟨p, hp⟩ := exists_place hm
  obtain ⟨q, hq⟩ := exists_place hn
  simp only [eq, height, hp, hq]
  exact decide_eq_decide.mpr ⟨congrArg Place.height, Place.height_injective⟩

theorem place?_of_isNaN (h : n.isNaN = true) : n.place? = none := by
  cases n with
  | int n => cases h
  | real x =>
    cases x with
    | nan => rfl
    | _ => cases h

/-- Only numbers that are some are less than others. -/
theorem lt_iff : m.lt n = true ↔ m.isNaN = false ∧ n.isNaN = false ∧ m.height < n.height := by
  cases hm : m.isNaN with
  | true => simp [lt, place?_of_isNaN hm]
  | false =>
    cases hn : n.isNaN with
    | true => cases hp : m.place? <;> simp [lt, hp, place?_of_isNaN hn]
    | false => simp [lt_eq hm hn]

theorem eq_iff : m.eq n = true ↔ m.isNaN = false ∧ n.isNaN = false ∧ m.height = n.height := by
  cases hm : m.isNaN with
  | true => simp [eq, place?_of_isNaN hm]
  | false =>
    cases hn : n.isNaN with
    | true => cases hp : m.place? <;> simp [eq, hp, place?_of_isNaN hn]
    | false => simp [eq_eq hm hn]

end Number

namespace Value

/-- A number that is one. -/
def IsNumber : Value → Prop
  | number n => n.isNaN = false
  | _ => False

def IsText : Value → Prop
  | text _ => True
  | _ => False

/-- A date without a zone. -/
def IsNaive : Value → Prop
  | date (.day _) => True
  | date (.clock _) => True
  | _ => False

/-- Whether a value goes before another: as it is less, or as it is greater. -/
def goesBefore (descending : Bool) (a b : Value) : Outcome Bool :=
  liftM (if descending then b.less a else a.less b)

/-- Values that sort in one order: numbers, texts, or dates without a zone. -/
def AreComparable (vs : List Value) : Prop :=
  (∀ v ∈ vs, v.IsNumber) ∨ (∀ v ∈ vs, v.IsText) ∨ ∀ v ∈ vs, v.IsNaive

section
variable {β : Type} [LinearOrder β] {good : Value → Prop} {rank : Value → β}

/-- Ranks of some values that tell how they compare. Null compares with none of them. -/
structure RankedBy (good : Value → Prop) (rank : Value → β) : Prop where
  less : ∀ a b, good a → good b → a.less b = .ok (decide (rank a < rank b))
  equal : ∀ a b, good a → good b → a.equal b = .ok (decide (rank a = rank b))
  null_less : ∀ a, good a → null.less a = .ok false
  less_null : ∀ a, good a → a.less null = .ok false
  not_null : ∀ a, good a → a.isNull = false

namespace RankedBy

variable (h : RankedBy good rank) {a b : Value}
include h

theorem less_eq (ha : a = null ∨ good a) (hb : b = null ∨ good b) :
    a.less b = .ok (decide (a.isNull = false ∧ b.isNull = false ∧ rank a < rank b)) := by
  rcases ha with rfl | ha
  · rcases hb with rfl | hb
    · rfl
    · simp [h.null_less b hb, isNull]
  · rcases hb with rfl | hb
    · simp [h.less_null a ha, isNull]
    · simp [h.less a b ha hb, h.not_null a ha, h.not_null b hb]

/-- Only one of two values is less, so the comparison is the sign of their ranks. -/
theorem stands_eq_goesBefore (ha : a = null ∨ good a) (hb : b = null ∨ good b) (descending : Bool) :
    ArrayFunction.stands (if descending then .gt else .lt) a b = goesBefore descending a b := by
  unfold ArrayFunction.stands compare goesBefore
  rw [h.less_eq ha hb, h.less_eq hb ha]
  by_cases hab : a.isNull = false ∧ b.isNull = false ∧ rank a < rank b
  · have hba : ¬(b.isNull = false ∧ a.isNull = false ∧ rank b < rank a) :=
      fun hba => lt_asymm hab.2.2 hba.2.2
    rw [decide_eq_true hab, decide_eq_false hba]
    cases descending <;> rfl
  · rw [decide_eq_false hab]
    cases decide (b.isNull = false ∧ a.isNull = false ∧ rank b < rank a) <;> cases descending <;> rfl

/-- Keys are ranked in either direction; those that are null have no rank. -/
theorem ranking {α : Type} {key : α → Value} {xs : List α}
    (hkeys : ∀ x ∈ xs, key x = null ∨ good (key x)) (descending : Bool) :
    Order.Ranking (fun x y => goesBefore descending (key x) (key y))
      (fun x y => (key x).equal (key y) = .ok true) (fun x => (key x).isNull = false) xs := by
  have hgood (x : α) (hx : x ∈ xs) (hnull : (key x).isNull = false) : good (key x) := by
    refine (hkeys x hx).resolve_left fun h => ?_
    rw [h] at hnull
    cases hnull
  have hsame (x : α) (hx : x ∈ xs) (y : α) (hy : y ∈ xs) (hnx : (key x).isNull = false)
      (hny : (key y).isNull = false) :
      (key x).equal (key y) = .ok true ↔ rank (key x) = rank (key y) := by
    rw [h.equal _ _ (hgood x hx hnx) (hgood y hy hny), Except.ok.injEq, decide_eq_true_iff]
  cases descending with
  | false =>
    refine .of_rank (fun x => rank (key x)) ?_ hsame
    intro x hx y hy
    change liftM ((key x).less (key y)) = _
    rw [h.less_eq (hkeys x hx) (hkeys y hy)]
    rfl
  | true =>
    refine .of_rank (fun x => OrderDual.toDual (rank (key x))) ?_ hsame
    intro x hx y hy
    change liftM ((key y).less (key x)) = _
    rw [h.less_eq (hkeys y hy) (hkeys x hx)]
    simp only [OrderDual.toDual_lt_toDual, and_left_comm]
    rfl

end RankedBy

end

def numberRank : Value → Int ×ₗ Int
  | number n => n.height
  | _ => toLex (0, 0)

theorem numbers_ranked : RankedBy IsNumber numberRank := by
  constructor
  · intro a b ha hb
    cases a <;> try exact ha.elim
    cases b <;> try exact hb.elim
    exact congrArg Except.ok (Number.lt_eq ha hb)
  · intro a b ha hb
    cases a <;> try exact ha.elim
    cases b <;> try exact hb.elim
    exact congrArg Except.ok (Number.eq_eq ha hb)
  all_goals
    intro a ha
    cases a <;> first | rfl | exact ha.elim

def textRank : Value → List Char
  | text s => s.toList
  | _ => []

theorem texts_ranked : RankedBy IsText textRank := by
  constructor
  · intro a b ha hb
    cases a <;> try exact ha.elim
    cases b <;> try exact hb.elim
    exact congrArg Except.ok (decide_eq_decide.mpr String.lt_iff)
  · intro a b ha hb
    cases a <;> try exact ha.elim
    cases b <;> try exact hb.elim
    exact congrArg Except.ok (decide_eq_decide.mpr String.ext_iff)
  all_goals
    intro a ha
    cases a <;> first | rfl | exact ha.elim

def dateRank : Value → Nat
  | date (.day d) => (Moment.ofDate d).micros
  | date (.clock m) => m.micros
  | _ => 0

theorem moment_of_isNaive {v : Value} (h : v.IsNaive) :
    ∃ m, v.isDate = true ∧ v.moment? = .ok (some m) ∧ v.dateRank = m.micros := by
  cases v <;> try exact h.elim
  next d =>
    cases d with
    | day d => exact ⟨_, rfl, rfl, rfl⟩
    | clock m => exact ⟨m, rfl, rfl, rfl⟩
    | zoned m offset => exact h.elim

theorem dates_ranked : RankedBy IsNaive dateRank := by
  constructor
  · intro a b ha hb
    obtain ⟨m, hdate, hm, hrank⟩ := moment_of_isNaive ha
    obtain ⟨n, -, hn, hrank'⟩ := moment_of_isNaive hb
    unfold Value.less
    rw [hdate, Bool.true_or, if_pos rfl, onMoments, hm, hn, hrank, hrank']
    rfl
  · intro a b ha hb
    obtain ⟨m, hdate, hm, hrank⟩ := moment_of_isNaive ha
    obtain ⟨n, -, hn, hrank'⟩ := moment_of_isNaive hb
    unfold Value.equal
    rw [hdate, Bool.true_or, if_pos rfl, onMoments, hm, hn, hrank, hrank']
    exact congrArg Except.ok
      (decide_eq_decide.mpr ⟨congrArg Moment.micros, Moment.micros_injective⟩)
  · intro a ha
    obtain ⟨m, hdate, hm, -⟩ := moment_of_isNaive ha
    unfold Value.less
    rw [hdate, Bool.or_true, if_pos rfl, onMoments, hm]
    rfl
  · intro a ha
    obtain ⟨m, hdate, hm, -⟩ := moment_of_isNaive ha
    unfold Value.less
    rw [hdate, Bool.true_or, if_pos rfl, onMoments, hm]
    rfl
  · intro a ha
    cases a <;> first | rfl | exact ha.elim

end Value

end NoteQuery
