import Mathlib.Tactic.Positivity
import Mathlib.Tactic.Ring
import NoteQuery.Number.Basic
import NoteQuery.Proofs.Outcome.Yields

/-! Where sums and means of numbers leave the range. Integers are added exactly; only where they meet a
floating-point number, or are divided, have they to lie below a bound. The bound is half a unit above
the greatest floating-point number, and is itself rounded up, since that number is odd. -/

namespace NoteQuery
set_option autoImplicit false

namespace Binary64

/-! ### Rounding -/

/-- The least integer that is rounded to infinity: halfway from the greatest number to the next power of
two. -/
def overflow : Nat := (2 ^ 54 - 1) * 2 ^ 970

/-- The quotient is rounded down or up, at a half to the even neighbour. -/
theorem divNearest_cases (a d : Nat) :
    divNearest a d = a / d ∧ (2 * (a % d) < d ∨ 2 * (a % d) = d ∧ a / d % 2 = 0) ∨
      divNearest a d = a / d + 1 ∧ (d < 2 * (a % d) ∨ 2 * (a % d) = d ∧ a / d % 2 = 1) := by
  unfold divNearest
  dsimp only
  split
  · omega
  · split
    · omega
    · split <;> omega

theorem divNearest_le {a d k : Nat} (hd : 0 < d) (h : a ≤ k * d) : divNearest a d ≤ k := by
  have hcases := divNearest_cases a d
  have hdiv := Nat.div_add_mod a d
  have hq : a / d ≤ k := Nat.div_le_of_le_mul (by rwa [Nat.mul_comm])
  by_cases hk : a / d = k
  · rw [hk, Nat.mul_comm] at hdiv
    omega
  · omega

theorem divNearest_pos {a d : Nat} (hd : 0 < d) (h : d ≤ a) : 0 < divNearest a d := by
  have hcases := divNearest_cases a d
  have hq : 0 < a / d := Nat.div_pos h hd
  omega

/-- An even integer is reached by rounding from half a unit below it. -/
theorem le_divNearest {a d k : Nat} (hd : 0 < d) (hk : k % 2 = 0) (hpos : 0 < k) :
    k ≤ divNearest a d ↔ (2 * k - 1) * d ≤ 2 * a := by
  have hcases := divNearest_cases a d
  have hdiv := Nat.div_add_mod a d
  have hmod := Nat.mod_lt a hd
  have hhalf : (2 * k - 1) * d + d = 2 * (d * k) := by
    rw [← Nat.succ_mul, show (2 * k - 1).succ = 2 * k by omega]
    ring
  generalize (2 * k - 1) * d = half at hhalf ⊢
  -- the three places of `k` against the next integer above the quotient
  rcases Nat.lt_trichotomy k (a / d + 1) with hlow | rfl | hhigh
  · have hmul : d * k ≤ d * (a / d) := Nat.mul_le_mul_left d (by omega)
    exact iff_of_true (by omega) (by omega)
  · rw [Nat.mul_add, Nat.mul_one] at hhalf
    omega
  · have hmul : d * (a / d + 2) ≤ d * k := Nat.mul_le_mul_left d (by omega)
    rw [Nat.mul_add] at hmul
    exact iff_of_false (by omega) (by omega)

theorem le_floorLog2 {num den k : Nat} (hnum : num ≠ 0) (hden : den ≠ 0) :
    (k : Int) ≤ floorLog2 num den ↔ 2 ^ k * den ≤ num := by
  have hnumLow := Nat.log2_self_le hnum
  have hnumHigh := Nat.lt_log2_self (n := num)
  have hdenLow := Nat.log2_self_le hden
  have hdenHigh := Nat.lt_log2_self (n := den)
  unfold floorLog2
  rcases Nat.lt_trichotomy (k + den.log2) num.log2 with hlow | hk | hhigh
  · have hle : 2 ^ k * den ≤ num := by
      calc 2 ^ k * den ≤ 2 ^ k * 2 ^ (den.log2 + 1) := Nat.mul_le_mul_left _ hdenHigh.le
        _ = 2 ^ (k + (den.log2 + 1)) := (Nat.pow_add ..).symm
        _ ≤ 2 ^ num.log2 := Nat.pow_le_pow_right (by decide) (by omega)
        _ ≤ num := hnumLow
    refine iff_of_true ?_ hle
    dsimp only
    split <;> omega
  · have he : (num.log2 : Int) - den.log2 = k := by omega
    rw [he]
    simp only [scaled, Int.natCast_nonneg, if_true, Int.toNat_natCast, Nat.shiftLeft_eq]
    rw [Nat.mul_comm den]
    split <;> omega
  · have hlt : num < 2 ^ k * den := by
      calc num < 2 ^ (num.log2 + 1) := hnumHigh
        _ ≤ 2 ^ (k + den.log2) := Nat.pow_le_pow_right (by decide) (by omega)
        _ = 2 ^ k * 2 ^ den.log2 := Nat.pow_add ..
        _ ≤ 2 ^ k * den := Nat.mul_le_mul_left _ hdenLow
    refine iff_of_false ?_ (by omega)
    dsimp only
    split <;> omega

/-- Rounding ends at infinity where the exponent of the last bit is too great, or becomes so because the
bits before it are all set and are rounded up. -/
theorem isInfinite_nearest_iff {num den : Nat} (negative : Bool) (hnum : num ≠ 0) {e : Int}
    (he : max leastExponent (floorLog2 num den - 52) = e) :
    (nearest negative num den).isInfinite = true ↔ greatestExponent < e ∨
      e = greatestExponent ∧ divNearest (scaled num den e).1 (scaled num den e).2 = 2 ^ 53 := by
  rw [nearest, if_neg hnum]
  simp only [he]
  split
  · next hcarry =>
    split
    · exact iff_of_true rfl (by omega)
    · exact iff_of_false Bool.false_ne_true (by omega)
  · next hcarry =>
    rw [show 1 <<< 53 = 2 ^ 53 from rfl] at hcarry
    split
    · next hgreat => exact iff_of_true rfl (.inl hgreat)
    · next hgreat => exact iff_of_false Bool.false_ne_true fun h => h.elim hgreat fun h => hcarry h.2

/-- A quotient is rounded to infinity from the bound on. -/
theorem isInfinite_nearest {num den : Nat} (negative : Bool) (hden : 0 < den) :
    (nearest negative num den).isInfinite = true ↔ overflow * den ≤ num := by
  -- all bounds are multiples of one number
  have hbound : overflow * den = (2 ^ 54 - 1) * (2 ^ 970 * den) := Nat.mul_assoc ..
  have hunit : 0 < 2 ^ 970 * den := by positivity
  have htop : 2 ^ 1024 * den = 2 ^ 54 * (2 ^ 970 * den) := by rw [← Nat.mul_assoc, ← Nat.pow_add]
  have hbinade : 2 ^ 1023 * den = 2 ^ 53 * (2 ^ 970 * den) := by
    rw [← Nat.mul_assoc, ← Nat.pow_add]
  have hscale : ∀ n, den <<< (n + 1) = 2 * (2 ^ n * den) := fun n => by
    rw [Nat.shiftLeft_succ, Nat.shiftLeft_eq, Nat.mul_comm den]
  rw [hbound]
  by_cases hnum : num = 0
  · subst hnum
    exact iff_of_false Bool.false_ne_true (by omega)
  have hle1024 := le_floorLog2 (k := 1024) hnum hden.ne'
  have hle1023 := le_floorLog2 (k := 1023) hnum hden.ne'
  rw [htop] at hle1024
  rw [hbinade] at hle1023
  rcases Int.lt_trichotomy (floorLog2 num den) 1023 with hlow | htie | hhigh
  · have he : max leastExponent (floorLog2 num den - 52) < greatestExponent := by
      unfold leastExponent greatestExponent
      omega
    rw [isInfinite_nearest_iff negative hnum rfl]
    exact iff_of_false (by omega) (by omega)
  · have he : max leastExponent (floorLog2 num den - 52) = greatestExponent := by
      rw [htie]
      rfl
    have hscaled : scaled num den greatestExponent = (num, 2 * (2 ^ 970 * den)) := by
      rw [← hscale]
      rfl
    rw [isInfinite_nearest_iff negative hnum he, hscaled]
    generalize 2 ^ 970 * den = unit at hle1024 hle1023 hunit ⊢
    have hle : divNearest num (2 * unit) ≤ 2 ^ 53 := divNearest_le (by omega) (by omega)
    have hreach := le_divNearest (a := num) (d := 2 * unit) (k := 2 ^ 53) (by omega) rfl (by decide)
    simp only [Int.lt_irrefl, false_or, true_and]
    omega
  · have he : greatestExponent < max leastExponent (floorLog2 num den - 52) := by
      unfold leastExponent greatestExponent
      omega
    rw [isInfinite_nearest_iff negative hnum rfl]
    exact iff_of_true (.inl he) (by omega)

-- From here on the bound is a number that no tactic should compute.
attribute [irreducible] overflow

theorem isInfinite_ofInt (n : Int) : (ofInt n).isInfinite = true ↔ overflow ≤ n.natAbs := by
  rw [ofInt, isInfinite_nearest _ Nat.one_pos, Nat.mul_one]

/-- No integer other than zero is rounded to zero. -/
theorem isZero_ofInt {n : Int} (hn : n ≠ 0) : (ofInt n).isZero = false := by
  have hnum : n.natAbs ≠ 0 := Int.natAbs_ne_zero.mpr hn
  have hlog := fun k : Nat => le_floorLog2 (k := k) hnum Nat.one_ne_zero
  have hnonneg : (0 : Int) ≤ floorLog2 n.natAbs 1 := (hlog 0).mpr (by simp; omega)
  have he : ∃ e, max leastExponent (floorLog2 n.natAbs 1 - 52) = e ∧ e ≤ floorLog2 n.natAbs 1 := by
    refine ⟨_, rfl, ?_⟩
    unfold leastExponent
    omega
  obtain ⟨e, heq, hle⟩ := he
  have hscaled : 0 < (scaled n.natAbs 1 e).2 ∧ (scaled n.natAbs 1 e).2 ≤ (scaled n.natAbs 1 e).1 := by
    unfold scaled
    split
    · next hpos =>
      have hpow := (hlog e.toNat).mp (by omega)
      rw [Nat.shiftLeft_eq, Nat.one_mul]
      exact ⟨Nat.two_pow_pos _, by simpa using hpow⟩
    · exact ⟨Nat.one_pos, by
        rw [Nat.shiftLeft_eq]
        exact Nat.mul_pos (by omega) (Nat.two_pow_pos _)⟩
  have hm : divNearest (scaled n.natAbs 1 e).1 (scaled n.natAbs 1 e).2 ≠ 0 :=
    (divNearest_pos hscaled.1 hscaled.2).ne'
  rw [ofInt, nearest, if_neg hnum]
  simp only [heq]
  split <;> split <;> simp_all [isZero]

end Binary64

/-! ### Sums -/

namespace Number

theorem toBinary64_int (n : Int) : (int n).toBinary64 =
    if Binary64.overflow ≤ n.natAbs then .error .integerTooLarge else .ok (.ofInt n) := by
  rw [toBinary64]
  simp only [Binary64.isInfinite_ofInt]

theorem add_real_int (x : Binary64) (n : Int) : (real x).add (int n) =
    if Binary64.overflow ≤ n.natAbs then .error .integerTooLarge
    else .ok (real (x.add (.ofInt n))) := by
  rw [add, lift, toBinary64_int]
  · split <;> rfl
  · exact fun _ _ h => by cases h

theorem add_int_real (n : Int) (y : Binary64) : (int n).add (real y) =
    if Binary64.overflow ≤ n.natAbs then .error .integerTooLarge
    else .ok (real ((Binary64.ofInt n).add y)) := by
  rw [add, lift, toBinary64_int]
  · split <;> rfl
  · exact fun _ _ _ h => by cases h

/-- From a floating-point number on, integers have to lie below the bound one by one. -/
theorem foldlM_add_real (x : Binary64) (ns : List Number) (e : RangeError) :
    ns.foldlM add (real x) = .error e ↔
      e = .integerTooLarge ∧ ∃ n, int n ∈ ns ∧ Binary64.overflow ≤ n.natAbs := by
  induction ns generalizing x with
  | nil => simp [pure, Except.pure]
  | cons m ns ih =>
    rw [List.foldlM_cons]
    cases m with
    | real y =>
      refine (ih (x.add y)).trans ?_
      simp
    | int n =>
      rw [add_real_int]
      split
      · next h =>
        refine ⟨fun he => ?_, fun he => ?_⟩
        · cases he
          exact ⟨rfl, n, List.mem_cons_self, h⟩
        · rw [he.1]
          rfl
      · next h =>
        refine (ih (x.add (.ofInt n))).trans (and_congr_right fun _ => exists_congr fun k => ?_)
        refine ⟨fun hk => ⟨List.mem_cons_of_mem _ hk.1, hk.2⟩, fun hk => ⟨?_, hk.2⟩⟩
        obtain hhead | htail := List.mem_cons.mp hk.1
        · cases hhead
          exact absurd hk.2 h
        · exact htail

/-- After an integer, the integers at the head of a list are too large together for the first
floating-point number, or one of those that follow it is too large by itself. -/
def OverflowsAfter (start : Int) (ns : List Number) : Prop :=
  ∃ (ints : List Int) (x : Binary64) (rest : List Number), ns = ints.map int ++ real x :: rest ∧
    (Binary64.overflow ≤ (start + ints.sum).natAbs ∨
      ∃ n, int n ∈ rest ∧ Binary64.overflow ≤ n.natAbs)

theorem overflowsAfter_int (start n : Int) (ns : List Number) :
    OverflowsAfter start (int n :: ns) ↔ OverflowsAfter (start + n) ns := by
  constructor
  · rintro ⟨ints, x, rest, hns, h⟩
    cases ints with
    | nil => cases hns
    | cons k ints =>
      cases hns
      rw [List.sum_cons, ← Int.add_assoc] at h
      exact ⟨ints, x, rest, rfl, h⟩
  · rintro ⟨ints, x, rest, rfl, h⟩
    rw [Int.add_assoc, ← List.sum_cons] at h
    exact ⟨n :: ints, x, rest, rfl, h⟩

theorem overflowsAfter_real (start : Int) (x : Binary64) (ns : List Number) :
    OverflowsAfter start (real x :: ns) ↔ Binary64.overflow ≤ start.natAbs ∨
      ∃ n, int n ∈ ns ∧ Binary64.overflow ≤ n.natAbs := by
  constructor
  · rintro ⟨ints, y, rest, hns, h⟩
    cases ints with
    | nil =>
      cases hns
      simpa using h
    | cons k ints => cases hns
  · intro h
    exact ⟨[], x, ns, rfl, by simpa using h⟩

theorem foldlM_add_int (start : Int) (ns : List Number) (e : RangeError) :
    ns.foldlM add (int start) = .error e ↔ e = .integerTooLarge ∧ OverflowsAfter start ns := by
  induction ns generalizing start with
  | nil => simp [pure, Except.pure, OverflowsAfter]
  | cons m ns ih =>
    rw [List.foldlM_cons]
    cases m with
    | int n =>
      rw [overflowsAfter_int]
      exact ih (start + n)
    | real x =>
      rw [overflowsAfter_real, add_int_real]
      split
      · next h =>
        refine ⟨fun he => ?_, fun he => ?_⟩
        · cases he
          exact ⟨rfl, .inl h⟩
        · rw [he.1]
          rfl
      · next h =>
        refine (foldlM_add_real _ ns e).trans (and_congr_right fun _ => ?_)
        exact ⟨.inr, fun hor => hor.resolve_left h⟩

/-- A sum goes out of range. -/
def SumOverflows (ns : List Number) : Prop := OverflowsAfter 0 ns

theorem sum_error_iff (ns : List Number) (e : RangeError) :
    sum ns = .error e ↔ e = .integerTooLarge ∧ SumOverflows ns :=
  foldlM_add_int 0 ns e

theorem sum_int (ints : List Int) : sum (ints.map int) = .ok (int ints.sum) := by
  have hfold (start : Int) : (ints.map int).foldlM add (int start) = .ok (int (start + ints.sum)) := by
    induction ints generalizing start with
    | nil => simp [pure, Except.pure]
    | cons n ints ih =>
      rw [List.map_cons, List.foldlM_cons, List.sum_cons, ← Int.add_assoc]
      exact ih (start + n)
  rw [sum, hfold, Int.zero_add]

theorem yields_foldlM_add_real (x : Binary64) (ns : List Number) :
    Yields (fun r => ∃ y, r = real y) (fun _ => True) (ns.foldlM add (real x)) := by
  refine Yields.foldlM ⟨x, rfl⟩ fun total ⟨y, htotal⟩ m _ => ?_
  rw [htotal]
  cases m with
  | real z => exact ⟨y.add z, rfl⟩
  | int n =>
    rw [add_real_int]
    split
    · trivial
    · exact ⟨_, rfl⟩

/-- A sum that meets a floating-point number is one. -/
theorem yields_sum_real {x : Binary64} {ns : List Number} (hx : real x ∈ ns) :
    Yields (fun r => ∃ y, r = real y) (fun _ => True) (sum ns) := by
  have hfold (start : Int) : Yields (fun r => ∃ y, r = real y) (fun _ => True)
      (ns.foldlM add (int start)) := by
    induction ns generalizing start with
    | nil => cases hx
    | cons m ns ih =>
      rw [List.foldlM_cons]
      cases m with
      | int n =>
        obtain hhead | htail := List.mem_cons.mp hx
        · cases hhead
        · exact ih htail (start + n)
      | real y =>
        rw [add_int_real]
        split
        · trivial
        · exact yields_foldlM_add_real _ ns
  exact hfold 0

/-- A list holds integers only, or a floating-point number. -/
theorem ints_or_real (ns : List Number) :
    (∃ ints : List Int, ns = ints.map int) ∨ ∃ x, real x ∈ ns := by
  induction ns with
  | nil => exact .inl ⟨[], rfl⟩
  | cons m ns ih =>
    cases m with
    | real x => exact .inr ⟨x, List.mem_cons_self⟩
    | int n =>
      obtain ⟨ints, rfl⟩ | ⟨x, hx⟩ := ih
      · exact .inl ⟨n :: ints, rfl⟩
      · exact .inr ⟨x, List.mem_cons_of_mem _ hx⟩

theorem div_int_int {a b : Int} (hb : 0 < b) : (int a).div (int b) =
    if Binary64.overflow * b.natAbs ≤ a.natAbs then .error .quotientTooLarge
    else .ok (real (.nearest (decide (a < 0) != decide (b < 0)) a.natAbs b.natAbs)) := by
  have hzero : b ≠ 0 := by omega
  have hpos : 0 < b.natAbs := by omega
  rw [div]
  simp only [hzero, if_false, Binary64.isInfinite_nearest _ hpos]

theorem div_real_int (x : Binary64) {b : Int} (hb : 0 < b) : (real x).div (int b) =
    if Binary64.overflow ≤ b.natAbs then .error .integerTooLarge
    else .ok (real (x.div (.ofInt b))) := by
  have hzero : (Binary64.ofInt b).isZero = false := Binary64.isZero_ofInt (by omega)
  rw [div]
  · rw [toBinary64_int]
    split
    · rfl
    · simp [toBinary64, hzero, bind, Except.bind, pure, Except.pure]
  · exact fun _ _ h => by cases h

/-- A mean goes out of range: the sum does so, or the quotient of an integer sum, or the count for a sum
that is none. -/
def MeanOverflows (ns : List Number) : Prop :=
  SumOverflows ns ∨
    (∃ ints : List Int, ints ≠ [] ∧ ns = ints.map int ∧
      Binary64.overflow * ints.length ≤ ints.sum.natAbs) ∨
    (∃ x, real x ∈ ns) ∧ Binary64.overflow ≤ ns.length

theorem not_sumOverflows_int (ints : List Int) : ¬SumOverflows (ints.map int) := by
  intro h
  have herror := (sum_error_iff _ _).mpr ⟨rfl, h⟩
  rw [sum_int] at herror
  cases herror

theorem real_not_mem_int (x : Binary64) (ints : List Int) : real x ∉ ints.map int := by simp

theorem length_pos_of_ne_nil {ns : List Number} (h : ns ≠ []) : 0 < (ns.length : Int) :=
  Int.natCast_pos.mpr (List.length_pos_iff.mpr h)

theorem average?_of_ne_nil {ns : List Number} (h : ns ≠ []) :
    average? ns = (sum ns >>= fun total => some <$> total.div (int ns.length)) := by
  rw [average?, if_neg (by simpa using h)]

theorem average?_int {ints : List Int} (h : ints ≠ []) :
    (∃ e, average? (ints.map int) = .error e) ↔
      Binary64.overflow * ints.length ≤ ints.sum.natAbs := by
  have hne : ints.map int ≠ [] := by simpa using h
  rw [average?_of_ne_nil hne, sum_int]
  change (∃ e, some <$> (int ints.sum).div (int (ints.map int).length) = .error e) ↔ _
  rw [div_int_int (length_pos_of_ne_nil hne), Int.natAbs_natCast, List.length_map]
  split
  · next hle => exact iff_of_true ⟨_, rfl⟩ hle
  · next hle => exact iff_of_false (fun ⟨_, he⟩ => by cases he) hle

theorem average?_real {x : Binary64} {ns : List Number} (hx : real x ∈ ns) :
    (∃ e, average? ns = .error e) ↔ SumOverflows ns ∨ Binary64.overflow ≤ ns.length := by
  have hne : ns ≠ [] := List.ne_nil_of_mem hx
  have hreal := yields_sum_real hx
  rw [average?_of_ne_nil hne]
  cases hsum : sum ns with
  | error e =>
    have hover := ((sum_error_iff ns e).mp hsum).2
    exact iff_of_true ⟨e, rfl⟩ (.inl hover)
  | ok total =>
    rw [hsum] at hreal
    obtain ⟨y, rfl⟩ := hreal
    have hfine : ¬SumOverflows ns := fun h => by
      rw [(sum_error_iff ns _).mpr ⟨rfl, h⟩] at hsum
      cases hsum
    change (∃ e, some <$> (real y).div (int ns.length) = .error e) ↔ _
    rw [div_real_int y (length_pos_of_ne_nil hne), Int.natAbs_natCast]
    split
    · next hle => exact iff_of_true ⟨_, rfl⟩ (.inr hle)
    · next hle => exact iff_of_false (fun ⟨_, he⟩ => by cases he) (not_or.mpr ⟨hfine, hle⟩)

theorem average?_error_iff (ns : List Number) :
    (∃ e, average? ns = .error e) ↔ MeanOverflows ns := by
  unfold MeanOverflows
  obtain ⟨ints, rfl⟩ | ⟨x, hx⟩ := ints_or_real ns
  · by_cases hnil : ints = []
    · subst hnil
      refine iff_of_false (fun ⟨_, he⟩ => by cases he) ?_
      rintro (hsum | ⟨ints, hne, hints, -⟩ | ⟨⟨x, hx⟩, -⟩)
      · exact not_sumOverflows_int [] hsum
      · exact hne (List.map_eq_nil_iff.mp hints.symm)
      · exact real_not_mem_int x [] hx
    · rw [average?_int hnil]
      refine ⟨fun h => .inr (.inl ⟨ints, hnil, rfl, h⟩), ?_⟩
      rintro (hsum | ⟨others, -, hints, h⟩ | ⟨⟨x, hx⟩, -⟩)
      · exact absurd hsum (not_sumOverflows_int ints)
      · rwa [List.map_injective_iff.mpr (fun _ _ => int.inj) hints]
      · exact absurd hx (real_not_mem_int x ints)
  · rw [average?_real hx]
    constructor
    · rintro (hsum | hlength)
      · exact .inl hsum
      · exact .inr (.inr ⟨⟨x, hx⟩, hlength⟩)
    · rintro (hsum | ⟨ints, -, rfl, -⟩ | ⟨-, hlength⟩)
      · exact .inl hsum
      · exact absurd hx (real_not_mem_int x ints)
      · exact .inr hlength

end Number

end NoteQuery
