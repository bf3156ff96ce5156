import Mathlib.Algebra.Order.Field.Power
import Mathlib.Algebra.Order.Floor.Semifield
import Mathlib.Data.Int.Log
import Mathlib.Data.Rat.Floor
import Mathlib.Tactic.FieldSimp
import Mathlib.Tactic.Linarith
import Mathlib.Tactic.Positivity
import Mathlib.Tactic.Ring
import NoteQuery.Proofs.Number.Overflow

/-! Rounding to the nearest floating-point number, said of the quotient itself instead of its numerator and
denominator. A rounded number always has the canonical form, and a number in that form is what everything
near it is rounded to. Near means within half a unit of its last bit; below a power of two the bits are worth
half as much, and so is the distance. -/

namespace NoteQuery
set_option autoImplicit false

/-- The logarithm of a quotient of two numbers with known logarithms is their difference, or one less. -/
theorem log_div {base a b k l : Nat} (hbase : 1 < base) (ha : base ^ k ≤ a) (ha' : a < base ^ (k + 1))
    (hb : base ^ l ≤ b) (hb' : b < base ^ (l + 1)) :
    Int.log base ((a : ℚ) / b) =
      if (base : ℚ) ^ ((k : Int) - l) ≤ (a : ℚ) / b then (k : Int) - l else (k : Int) - l - 1 := by
  have hpow (n : Nat) : 0 < base ^ n := Nat.pow_pos (by omega)
  have hzero : (base : ℚ) ≠ 0 := by
    simp only [ne_eq, Nat.cast_eq_zero]
    omega
  have hapos : (0 : ℚ) < a := by exact_mod_cast (hpow k).trans_le ha
  have hbpos : (0 : ℚ) < b := by exact_mod_cast (hpow l).trans_le hb
  have hpos : (0 : ℚ) < a / b := div_pos hapos hbpos
  have hlow : (base : ℚ) ^ ((k : Int) - l - 1) ≤ a / b := by
    have hmul : (base ^ k * b : ℚ) ≤ a * base ^ (l + 1) := by exact_mod_cast Nat.mul_le_mul ha hb'.le
    rwa [sub_sub, zpow_sub₀ hzero, zpow_natCast, ← Nat.cast_succ, zpow_natCast,
      div_le_div_iff₀ (by exact_mod_cast hpow (l + 1)) hbpos]
  have hhigh : (a : ℚ) / b < (base : ℚ) ^ ((k : Int) - l + 1) := by
    have hmul : (a * base ^ l : ℚ) < base ^ (k + 1) * b := by
      exact_mod_cast Nat.mul_lt_mul_of_lt_of_le ha' hb ((hpow l).trans_le hb)
    rwa [sub_add_eq_add_sub, zpow_sub₀ hzero, zpow_natCast, ← Nat.cast_succ, zpow_natCast,
      div_lt_div_iff₀ hbpos (by exact_mod_cast hpow l)]
  have hlog := fun e => Int.zpow_le_iff_le_log (x := e) hbase hpos
  have hlog' := fun e => Int.lt_zpow_iff_log_lt (x := e) hbase hpos
  split
  · next h =>
    have hle := (hlog _).mp h
    have hlt := (hlog' _).mp hhigh
    omega
  · next h =>
    have hle := (hlog _).mp hlow
    have hlt := (hlog' _).mp (not_le.mp h)
    omega

/-- A quotient is its whole part and what the remainder adds to it. -/
theorem cast_div_eq {den : Nat} (hden : 0 < den) (num : Nat) :
    (num : ℚ) / den = (num / den : Nat) + (num % den : Nat) / den := by
  have hzero : (den : ℚ) ≠ 0 := by exact_mod_cast hden.ne'
  have hadd : (num : ℚ) = (num % den : Nat) + den * (num / den : Nat) := by
    exact_mod_cast (Nat.mod_add_div num den).symm
  rw [add_div' _ _ _ hzero, div_left_inj' hzero]
  linarith

/-! ### Rounding to an integer -/

/-- The nearest natural number, at a half the even one. -/
def roundEven (q : ℚ) : Nat :=
  if q - ⌊q⌋₊ < 1 / 2 then ⌊q⌋₊
  else if 1 / 2 < q - ⌊q⌋₊ then ⌊q⌋₊ + 1
  else if ⌊q⌋₊ % 2 = 0 then ⌊q⌋₊ else ⌊q⌋₊ + 1

theorem roundEven_eq {q : ℚ} {n : Nat} (hlow : n - 1 / 2 < q) (hhigh : q < n + 1 / 2) :
    roundEven q = n := by
  by_cases hn : (n : ℚ) ≤ q
  · have hfloor : ⌊q⌋₊ = n := (Nat.floor_eq_iff ((Nat.cast_nonneg n).trans hn)).mpr ⟨hn, by linarith⟩
    rw [roundEven, hfloor, if_pos (by linarith)]
  · obtain _ | n := n
    · have hfloor : ⌊q⌋₊ = 0 := Nat.floor_eq_zero.mpr (by push_cast at hn; linarith)
      rw [roundEven, hfloor, if_pos (by push_cast at hhigh ⊢; linarith)]
    · push_cast at hlow hhigh hn
      have hnonneg : (0 : ℚ) ≤ n := Nat.cast_nonneg n
      have hfloor : ⌊q⌋₊ = n := (Nat.floor_eq_iff (by linarith)).mpr ⟨by linarith, by linarith⟩
      rw [roundEven, hfloor, if_neg (by linarith), if_pos (by linarith)]

theorem roundEven_le {q : ℚ} {n : Nat} (hq : 0 ≤ q) (h : q ≤ n) : roundEven q ≤ n := by
  rcases h.eq_or_lt with rfl | hlt
  · exact (roundEven_eq (by linarith) (by linarith)).le
  · have hfloor : ⌊q⌋₊ < n := (Nat.floor_lt hq).mpr hlt
    unfold roundEven
    split
    · omega
    · split
      · omega
      · split <;> omega

theorem le_roundEven {q : ℚ} {n : Nat} (h : n ≤ q) : n ≤ roundEven q := by
  have hfloor : n ≤ ⌊q⌋₊ := Nat.le_floor h
  unfold roundEven
  split
  · exact hfloor
  · split
    · omega
    · split <;> omega

namespace Binary64

variable {num den : Nat} {e : Int} {q : ℚ}

theorem divNearest_eq_roundEven (hden : 0 < den) (num : Nat) :
    divNearest num den = roundEven ((num : ℚ) / den) := by
  have hpos : (0 : ℚ) < den := by exact_mod_cast hden
  have hfrac : (num : ℚ) / den - (num / den : Nat) = (num % den : Nat) / den := by
    rw [cast_div_eq hden, add_sub_cancel_left]
  have hlt : (num % den : Nat) / (den : ℚ) < 1 / 2 ↔ 2 * (num % den) < den := by
    rw [div_lt_div_iff₀ hpos two_pos]
    norm_cast
    omega
  have hgt : 1 / 2 < (num % den : Nat) / (den : ℚ) ↔ den < 2 * (num % den) := by
    rw [div_lt_div_iff₀ two_pos hpos]
    norm_cast
    omega
  unfold divNearest roundEven
  simp only [Nat.floor_div_eq_div, hfrac, hlt, hgt]

/-! ### The quotient and its scale -/

theorem scaled_den_pos (hden : 0 < den) (num : Nat) (e : Int) : 0 < (scaled num den e).2 := by
  unfold scaled
  split
  · rw [Nat.shiftLeft_eq]
    positivity
  · exact hden

theorem scaled_ratio (num den : Nat) (e : Int) :
    ((scaled num den e).1 : ℚ) / (scaled num den e).2 = num / den / 2 ^ e := by
  unfold scaled
  split
  · next he =>
    obtain ⟨k, rfl⟩ := Int.eq_ofNat_of_zero_le he
    simp [Nat.shiftLeft_eq, div_div]
  · next he =>
    obtain ⟨k, hk⟩ := Int.eq_ofNat_of_zero_le (show 0 ≤ -e by omega)
    obtain rfl : e = -(k : Int) := by omega
    simp [Nat.shiftLeft_eq, zpow_neg]
    ring

theorem floorLog2_eq (hnum : 0 < num) (hden : 0 < den) :
    floorLog2 num den = Int.log 2 ((num : ℚ) / den) := by
  have hscale (e : Int) : (scaled num den e).2 ≤ (scaled num den e).1 ↔ (2 : ℚ) ^ e ≤ num / den := by
    have hpos : (0 : ℚ) < (scaled num den e).2 := by exact_mod_cast scaled_den_pos hden num e
    rw [← one_le_div₀ (zpow_pos two_pos e), ← scaled_ratio, one_le_div₀ hpos]
    exact Nat.cast_le.symm
  have hlog := log_div one_lt_two (Nat.log2_self_le hnum.ne') Nat.lt_log2_self
    (Nat.log2_self_le hden.ne') Nat.lt_log2_self
  push_cast at hlog
  rw [hlog]
  unfold floorLog2
  simp only [hscale]

/-- The number nearest to `± q`. -/
def ofRatio (negative : Bool) (q : ℚ) : Binary64 :=
  if q = 0 then zero negative
  else
    let e := max leastExponent (Int.log 2 q - 52)
    let m := roundEven (q / 2 ^ e)
    let n : Nat × Int := if m = 2 ^ 53 then (2 ^ 52, e + 1) else (m, e)
    if greatestExponent < n.2 then infinite negative else finite negative n.1 n.2

theorem ofRatio_eq_neg (negative : Bool) (q : ℚ) :
    ofRatio negative q = if negative then (ofRatio false q).neg else ofRatio false q := by
  cases negative with
  | false => rfl
  | true =>
    rw [if_pos rfl]
    unfold ofRatio
    split
    · rfl
    · dsimp only
      split_ifs <;> rfl

theorem nearest_eq_ofRatio (negative : Bool) (num : Nat) (hden : 0 < den) :
    nearest negative num den = ofRatio negative ((num : ℚ) / den) := by
  have hpos : (den : ℚ) ≠ 0 := by
    simp only [ne_eq, Nat.cast_eq_zero]
    omega
  by_cases hnum : num = 0
  · subst hnum
    simp [nearest, ofRatio]
  · have hdivNearest (e : Int) : divNearest (scaled num den e).1 (scaled num den e).2 =
        roundEven ((num : ℚ) / den / 2 ^ e) := by
      rw [divNearest_eq_roundEven (scaled_den_pos hden num e), scaled_ratio]
    have hratio : (num : ℚ) / den ≠ 0 := div_ne_zero (Nat.cast_ne_zero.mpr hnum) hpos
    simp only [nearest, ofRatio, hnum, hratio, if_false, hdivNearest,
      floorLog2_eq (Nat.pos_of_ne_zero hnum) hden, show 1 <<< 53 = 2 ^ 53 from rfl,
      show 1 <<< 52 = 2 ^ 52 from rfl]

/-! ### What numbers are rounded to -/

theorem pow_le_scale_iff (hq : 0 < q) (k : Nat) (e : Int) :
    (2 ^ k : ℚ) ≤ q / 2 ^ e ↔ e + k ≤ Int.log 2 q := by
  have hlog := Int.zpow_le_iff_le_log (b := 2) (x := e + k) one_lt_two hq
  rw [← hlog, le_div_iff₀ (zpow_pos two_pos e), ← zpow_natCast, ← zpow_add₀ two_ne_zero, add_comm]
  rfl

theorem canonical_ofRatio (negative : Bool) (hq : 0 ≤ q) : (ofRatio negative q).Canonical := by
  unfold ofRatio
  split
  · simp [zero, Canonical, leastExponent, greatestExponent]
  · next hzero =>
    have hpos : 0 < q := lt_of_le_of_ne hq (Ne.symm hzero)
    dsimp only
    generalize he : max leastExponent (Int.log 2 q - 52) = e
    have hle : roundEven (q / 2 ^ e) ≤ 2 ^ 53 := by
      have hlt := (pow_le_scale_iff hpos 53 e).not.mpr (by omega)
      refine roundEven_le (div_nonneg hq (zpow_pos two_pos e).le) ?_
      push_cast
      linarith
    have hbits : e = leastExponent ∨ 2 ^ 52 ≤ roundEven (q / 2 ^ e) := by
      rcases le_total (Int.log 2 q - 52) leastExponent with hlow | hhigh
      · exact .inl (by omega)
      · have hle := (pow_le_scale_iff hpos 52 e).mpr (by omega)
        exact .inr (le_roundEven (by exact_mod_cast hle))
    split
    · split
      · trivial
      · next hgreat =>
        exact ⟨show 2 ^ 52 < 1 <<< 53 by decide, by omega, by simpa using hgreat, .inr le_rfl⟩
    · split
      · trivial
      · next hcarry hgreat =>
        exact ⟨by omega, by omega, by simpa using hgreat, hbits⟩

theorem canonical_nearest (negative : Bool) (num : Nat) (hden : 0 < den) :
    (nearest negative num den).Canonical := by
  rw [nearest_eq_ofRatio negative num hden]
  exact canonical_ofRatio negative (by positivity)

/-- What is near to a number in canonical form is rounded to it. -/
theorem ofRatio_eq (negative : Bool) {m : Nat} (h : (finite negative m e).Canonical) (hm : 0 < m)
    (hlow : m - 1 / 2 < q / 2 ^ e) (hbinade : m = 2 ^ 52 → m - 1 / 4 < q / 2 ^ e)
    (hhigh : q / 2 ^ e < m + 1 / 2) : ofRatio negative q = finite negative m e := by
  obtain ⟨hbits, hleast, hgreatest, hnormal⟩ := h
  change m < 2 ^ 53 at hbits
  change e = leastExponent ∨ 2 ^ 52 ≤ m at hnormal
  have hone : (1 : ℚ) ≤ m := by exact_mod_cast hm
  have hpow : (0 : ℚ) < 2 ^ e := zpow_pos two_pos e
  have hq : 0 < q := (div_pos_iff_of_pos_right hpow).mp (by linarith)
  have hbound : (m : ℚ) + 1 ≤ 2 ^ 53 := by exact_mod_cast hbits
  have hlog53 := (pow_le_scale_iff hq 53 e).not.mp (by linarith)
  rw [ofRatio, if_neg hq.ne']
  by_cases hfull : e = leastExponent ∨ (2 ^ 52 : ℚ) ≤ q / 2 ^ e
  · have he : max leastExponent (Int.log 2 q - 52) = e := by
      rcases hfull with hfull | hfull
      · omega
      · have hlog52 := (pow_le_scale_iff hq 52 e).mp hfull
        omega
    have hround : roundEven (q / 2 ^ e) = m := roundEven_eq hlow hhigh
    simp only [he, hround, if_neg hbits.ne]
    rw [if_neg (by omega)]
  -- just below a power of two the last bit is worth half as much, and rounding carries
  · obtain ⟨hexp, hless⟩ := not_or.mp hfull
    have hmin := hnormal.resolve_left hexp
    have hm52 : m = 2 ^ 52 := by
      have hle : (m : ℚ) < (2 ^ 52 + 1 : Nat) := by
        push_cast
        linarith
      have := Nat.cast_lt.mp hle
      omega
    have hnear := hbinade hm52
    subst hm52
    push_cast at hnear hhigh
    have hlog51 := (pow_le_scale_iff hq 51 e).mp (by linarith)
    have hlog52 := (pow_le_scale_iff hq 52 e).not.mp hless
    have he : max leastExponent (Int.log 2 q - 52) = e - 1 := by omega
    have hscale : q / 2 ^ (e - 1) = 2 * (q / 2 ^ e) := by
      rw [zpow_sub_one₀ two_ne_zero]
      field_simp
    have hround : roundEven (q / 2 ^ (e - 1)) = 2 ^ 53 := by
      rw [hscale]
      exact roundEven_eq (by push_cast; linarith) (by push_cast; linarith)
    simp only [he, hround, if_true]
    rw [if_neg (by omega), sub_add_cancel]

/-- A quotient below half of the smallest unit is rounded to zero. -/
theorem ofRatio_eq_zero (negative : Bool) (hq : 0 ≤ q) (h : q / 2 ^ leastExponent < 1 / 2) :
    ofRatio negative q = zero negative := by
  unfold ofRatio
  split
  · rfl
  · next hzero =>
    have hpos : 0 < q := lt_of_le_of_ne hq (Ne.symm hzero)
    have hlog := (pow_le_scale_iff hpos 0 leastExponent).not.mp (by linarith)
    have he : max leastExponent (Int.log 2 q - 52) = leastExponent := by omega
    have hnonneg : 0 ≤ q / 2 ^ leastExponent := div_nonneg hq (zpow_pos two_pos _).le
    have hround : roundEven (q / 2 ^ leastExponent) = 0 :=
      roundEven_eq (by push_cast; linarith) (by push_cast; linarith)
    simp only [he, hround]
    rfl

/-- A quotient that has no exponent is rounded to infinity. -/
theorem ofRatio_eq_infinite (negative : Bool) (h : (2 : ℚ) ^ (1024 : Nat) ≤ q) :
    ofRatio negative q = infinite negative := by
  have hpos : 0 < q := lt_of_lt_of_le (by positivity) h
  have hlog := (pow_le_scale_iff hpos 1024 0).mp (by simpa using h)
  rw [ofRatio, if_neg hpos.ne']
  have hgreat : greatestExponent < max leastExponent (Int.log 2 q - 52) := by
    unfold greatestExponent leastExponent
    omega
  refine if_pos ?_
  split
  · exact hgreat.trans (lt_add_one _)
  · exact hgreat

end Binary64
end NoteQuery
