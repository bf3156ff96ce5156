import NoteQuery.Proofs.Number.Nearest

/-! The shortest decimal of a floating-point number is rounded to that number. A decimal is chosen only if it
is, so what is to be shown is that there is one: two numbers differ in their first seventeen digits. -/

namespace NoteQuery.Decimal
set_option autoImplicit false
open Binary64 (ofRatio)

variable {num den n : Nat} {e : Int} {d : Decimal}

/-! ### Decimals as rational numbers -/

/-- The rational number that a decimal is. -/
def value (d : Decimal) : ℚ := d.digits * 10 ^ d.exponent

theorem ratio_den_pos (d : Decimal) : 0 < d.ratio.2 := by
  unfold ratio
  split
  · exact one_pos
  · exact Nat.pow_pos (by decide)

theorem ratio_value (d : Decimal) : (d.ratio.1 : ℚ) / d.ratio.2 = d.value := by
  unfold ratio value
  split
  · next he =>
    obtain ⟨k, hk⟩ := Int.eq_ofNat_of_zero_le he
    simp [hk]
  · next he =>
    obtain ⟨k, hk⟩ := Int.eq_ofNat_of_zero_le (show 0 ≤ -d.exponent by omega)
    obtain hk : d.exponent = -(k : Int) := by omega
    simp [hk, zpow_neg, div_eq_mul_inv]

theorem width_bounds (hn : 0 < n) : ∃ k, width n = k + 1 ∧ 10 ^ k ≤ n ∧ n < 10 ^ (k + 1) := by
  have hne : width n ≠ 0 := by simp [width]
  obtain ⟨k, hk⟩ := Nat.exists_eq_succ_of_ne_zero hne
  have hlength := fun j => Nat.length_toDigits_le_iff (b := 10) (n := n) (k := j + 1) (by decide)
    (Nat.succ_pos j)
  refine ⟨k, hk, ?_, (hlength k).mp hk.le⟩
  obtain _ | j := k
  · exact hn
  · exact not_lt.mp ((hlength j).not.mp (by rw [← width, hk]; omega))

theorem floorLog10_eq (hnum : 0 < num) (hden : 0 < den) :
    floorLog10 num den = Int.log 10 ((num : ℚ) / den) := by
  obtain ⟨k, hk, hnumLow, hnumHigh⟩ := width_bounds hnum
  obtain ⟨l, hl, hdenLow, hdenHigh⟩ := width_bounds hden
  have hpos : (0 : ℚ) < den := by exact_mod_cast hden
  have hfits (e : Int) : (if 0 ≤ e then decide (den * Nat.pow 10 e.toNat ≤ num)
      else decide (den ≤ num * Nat.pow 10 (-e).toNat)) = true ↔ (10 : ℚ) ^ e ≤ num / den := by
    rw [le_div_iff₀ hpos]
    split
    · next he =>
      obtain ⟨j, rfl⟩ := Int.eq_ofNat_of_zero_le he
      rw [decide_eq_true_iff, mul_comm]
      exact_mod_cast Iff.rfl
    · next he =>
      obtain ⟨j, hj⟩ := Int.eq_ofNat_of_zero_le (show 0 ≤ -e by omega)
      obtain rfl : e = -(j : Int) := by omega
      rw [decide_eq_true_iff, zpow_neg, ← div_eq_inv_mul, div_le_iff₀ (zpow_pos (by norm_num) _)]
      simp only [neg_neg, Int.toNat_natCast, zpow_natCast]
      exact_mod_cast Iff.rfl
  have hlog := log_div (by decide) hnumLow hnumHigh hdenLow hdenHigh
  push_cast at hlog
  have hdiff : ((width num : Nat) : Int) - (width den : Nat) = (k : Int) - l := by omega
  rw [hlog]
  unfold floorLog10
  simp only [hdiff, hfits]

theorem two_pow_le_ten_pow : (2 : ℚ) ^ 1075 ≤ 10 ^ 400 := by
  calc (2 : ℚ) ^ 1075 ≤ 2 ^ (3 * 400) := pow_le_pow_right₀ one_le_two (by decide)
    _ = (2 ^ 3) ^ 400 := pow_mul ..
    _ ≤ 10 ^ 400 := pow_le_pow_left₀ (by norm_num) (by norm_num) _

/-- The guards against far exponents only leave out numbers that are rounded to zero or infinity. -/
theorem toBinary64_eq (negative : Bool) (d : Decimal) :
    d.toBinary64 negative = ofRatio negative d.value := by
  have hnearest := Binary64.nearest_eq_ofRatio negative d.ratio.1 (ratio_den_pos d)
  rw [ratio_value] at hnearest
  unfold toBinary64
  dsimp only
  split
  · next hzero => simp [ofRatio, value, hzero]
  · next hzero =>
    obtain ⟨k, hk, hlow, hhigh⟩ := width_bounds (Nat.pos_of_ne_zero hzero)
    have hpos : (0 : ℚ) < 10 ^ d.exponent := zpow_pos (by norm_num) _
    split
    · next hfar =>
      refine (Binary64.ofRatio_eq_infinite negative ?_).symm
      calc (2 : ℚ) ^ (1024 : Nat) ≤ 2 ^ 1075 := pow_le_pow_right₀ one_le_two (by decide)
        _ ≤ 10 ^ (400 : Int) := two_pow_le_ten_pow
        _ ≤ 10 ^ (k + d.exponent) := zpow_le_zpow_right₀ (by norm_num) (by omega)
        _ = 10 ^ k * 10 ^ d.exponent := by rw [zpow_add₀ (by norm_num), zpow_natCast]
        _ ≤ d.value := by
          rw [value]
          gcongr
          exact_mod_cast hlow
    · split
      · next hnear =>
        refine (Binary64.ofRatio_eq_zero negative (by unfold value; positivity) ?_).symm
        rw [div_lt_iff₀ (zpow_pos two_pos _)]
        calc d.value < 10 ^ (k + 1) * 10 ^ d.exponent := by
              rw [value]
              gcongr
              exact_mod_cast hhigh
          _ = 10 ^ ((k + 1 : Nat) + d.exponent) := by rw [zpow_add₀ (by norm_num), zpow_natCast]
          _ ≤ 10 ^ (-400 : Int) := zpow_le_zpow_right₀ (by norm_num) (by omega)
          _ ≤ 2 ^ (-1075 : Int) := by
              rw [zpow_neg, zpow_neg]
              exact inv_anti₀ (by positivity) two_pow_le_ten_pow
          _ = 1 / 2 * 2 ^ Binary64.leastExponent := by
              rw [Binary64.leastExponent, show (-1075 : Int) = -1 + -1074 by rfl,
                zpow_add₀ two_ne_zero, zpow_neg_one, one_div]
      · exact hnearest

/-! ### The choice of a decimal -/

theorem trimmed_value (fuel : Nat) (d : Decimal) : (trimmed fuel d).value = d.value := by
  induction fuel generalizing d with
  | zero => rfl
  | succ fuel ih =>
    unfold trimmed
    split
    · next hzero =>
      have hdigits : (d.digits : ℚ) = 10 * (d.digits / 10 : Nat) := by
        exact_mod_cast (Nat.mul_div_cancel' (Nat.dvd_of_mod_eq_zero hzero.2)).symm
      rw [ih, value, value, hdigits, zpow_add_one₀ (by norm_num)]
      ring
    · rfl

theorem onGrid?_good {good : Decimal → Bool} (h : onGrid? good num den e = some d) :
    good d = true := by
  unfold onGrid? at h
  exact List.find?_some h

theorem grid_den_pos (hden : 0 < den) (e : Int) :
    0 < (if 0 ≤ e then den * Nat.pow 10 e.toNat else den : Nat) := by
  split
  · exact Nat.mul_pos hden (Nat.pow_pos (by decide))
  · exact hden

theorem grid_ratio (hden : 0 < den) (num : Nat) (e : Int) :
    (num : ℚ) / den = (if 0 ≤ e then num else num * Nat.pow 10 (-e).toNat : Nat) /
      (if 0 ≤ e then den * Nat.pow 10 e.toNat else den : Nat) * 10 ^ e := by
  have hzero : (den : ℚ) ≠ 0 := by exact_mod_cast hden.ne'
  split
  · next he =>
    obtain ⟨k, rfl⟩ := Int.eq_ofNat_of_zero_le he
    simp only [Int.toNat_natCast, Nat.pow_eq, Nat.cast_mul, Nat.cast_pow, Nat.cast_ofNat, zpow_natCast]
    field_simp
  · next he =>
    obtain ⟨k, hk⟩ := Int.eq_ofNat_of_zero_le (show 0 ≤ -e by omega)
    obtain rfl : e = -(k : Int) := by omega
    simp only [neg_neg, Int.toNat_natCast, Nat.pow_eq, Nat.cast_mul, Nat.cast_pow, Nat.cast_ofNat,
      zpow_neg, zpow_natCast]
    field_simp

/-- The nearer of the two neighbours on a grid lies within half of its width. -/
theorem onGrid?_isSome {good : Decimal → Bool} (hden : 0 < den)
    (h : ∀ d : Decimal, |d.value - num / den| ≤ 10 ^ e / 2 → good d = true) :
    (onGrid? good num den e).isSome := by
  unfold onGrid?
  dsimp only
  have hbpos := grid_den_pos hden e
  have hratio := grid_ratio hden num e
  generalize (if 0 ≤ e then num else num * Nat.pow 10 (-e).toNat) = a at hratio ⊢
  generalize (if 0 ≤ e then den * Nat.pow 10 e.toNat else den) = b at hbpos hratio ⊢
  have hpos : (0 : ℚ) < 10 ^ e := zpow_pos (by norm_num) e
  have hsplit := cast_div_eq hbpos a
  have hgood (n : Nat) (hn : |(n : ℚ) - a / b| ≤ 1 / 2) : good ⟨n, e⟩ = true := by
    refine h _ ?_
    rw [value, hratio, ← sub_mul, abs_mul, abs_of_pos hpos]
    linarith [mul_le_mul_of_nonneg_right hn hpos.le]
  split
  · next hnear =>
    have hhalf : ((a % b : Nat) : ℚ) / b ≤ 1 / 2 := by
      rw [div_le_div_iff₀ (by positivity) two_pos]
      norm_cast
      omega
    have hlow : good ⟨a / b, e⟩ = true := by
      refine hgood _ ?_
      rw [hsplit, sub_add_cancel_left, abs_neg, abs_of_nonneg (by positivity)]
      exact hhalf
    rw [List.find?_cons_of_pos hlow]
    rfl
  · next hnear =>
    have hhalf : 1 / 2 ≤ ((a % b : Nat) : ℚ) / b := by
      rw [div_le_div_iff₀ two_pos (by positivity)]
      norm_cast
      omega
    have hless : ((a % b : Nat) : ℚ) / b ≤ 1 := by
      rw [div_le_one₀ (by positivity)]
      exact_mod_cast (Nat.mod_lt a hbpos).le
    have hhigh : good ⟨a / b + 1, e⟩ = true := by
      refine hgood _ ?_
      rw [hsplit, abs_le]
      push_cast
      constructor <;> linarith
    rw [List.find?_cons_of_pos hhigh]
    rfl

/-- Numbers that agree in seventeen digits with a floating-point number are rounded to it: half a unit of
the seventeenth digit is less than a quarter of the last bit. -/
theorem ofRatio_of_close {m : Nat} {q : ℚ} (h : (Binary64.finite false m e).Canonical) (hm : 0 < m)
    (hq : |q - m * 2 ^ e| ≤ m * 2 ^ e / 10 ^ 16 / 2) : ofRatio false q = .finite false m e := by
  have hbits : (m : ℚ) ≤ 2 ^ 53 - 1 := by
    have hlt : m + 1 ≤ 2 ^ 53 := h.1
    rw [le_sub_iff_add_le]
    exact_mod_cast hlt
  have hpow : (0 : ℚ) < 2 ^ e := zpow_pos two_pos e
  have hscale : |q / 2 ^ e - m| ≤ m / 10 ^ 16 / 2 := by
    have hdiff : q / 2 ^ e - m = (q - m * 2 ^ e) / 2 ^ e := by field_simp
    rw [hdiff, abs_div, abs_of_pos hpow, div_le_iff₀ hpow]
    calc |q - m * 2 ^ e| ≤ m * 2 ^ e / 10 ^ 16 / 2 := hq
      _ = m / 10 ^ 16 / 2 * 2 ^ e := by ring
  obtain ⟨hlow, hhigh⟩ := abs_le.mp hscale
  refine Binary64.ofRatio_eq false h hm (by linarith) (fun hm52 => ?_) (by linarith)
  have hcast : (m : ℚ) = 2 ^ 52 := by exact_mod_cast hm52
  rw [hcast] at hlow ⊢
  linarith

theorem shift_pos (e : Int) : 0 < (if 0 ≤ e then 1 else 1 <<< (-e).toNat : Nat) := by
  split
  · exact one_pos
  · rw [Nat.shiftLeft_eq]
    positivity

theorem shift_ratio (m : Nat) (e : Int) :
    ((if 0 ≤ e then m <<< e.toNat else m : Nat) : ℚ) /
      (if 0 ≤ e then 1 else 1 <<< (-e).toNat : Nat) = m * 2 ^ e := by
  split
  · next he =>
    obtain ⟨k, rfl⟩ := Int.eq_ofNat_of_zero_le he
    simp [Nat.shiftLeft_eq]
  · next he =>
    obtain ⟨k, hk⟩ := Int.eq_ofNat_of_zero_le (show 0 ≤ -e by omega)
    obtain rfl : e = -(k : Int) := by omega
    simp [Nat.shiftLeft_eq, zpow_neg, div_eq_mul_inv]

/-- The shortest decimal of a number is rounded to it. -/
theorem ofRatio_shortest {m : Nat} (h : (Binary64.finite false m e).Canonical) (hm : 0 < m) :
    ofRatio false (shortest m e).value = .finite false m e := by
  have hpow : (0 : ℚ) < 2 ^ e := zpow_pos two_pos e
  have hratio := shift_ratio m e
  have hden := shift_pos e
  unfold shortest
  dsimp only
  generalize (if 0 ≤ e then m <<< e.toNat else m) = num at hratio ⊢
  generalize (if 0 ≤ e then 1 else 1 <<< (-e).toNat) = den at hratio hden ⊢
  have hpos : (0 : ℚ) < num / den := by
    rw [hratio]
    positivity
  have hnum : 0 < num := Nat.pos_of_ne_zero fun h0 => by simp [h0] at hpos
  have hlog := Int.zpow_log_le_self (b := 10) (by decide) hpos
  rw [floorLog10_eq hnum hden]
  have hgood (d : Decimal) :
      decide (Binary64.nearest false d.ratio.1 d.ratio.2 = .finite false m e) = true ↔
        ofRatio false d.value = .finite false m e := by
    rw [decide_eq_true_iff, Binary64.nearest_eq_ofRatio false _ (ratio_den_pos d), ratio_value]
  generalize Int.log 10 ((num : ℚ) / den) = top at hlog ⊢
  split
  · next d hfound =>
    obtain ⟨e', -, hgrid⟩ := List.exists_of_findSome?_eq_some hfound
    rw [trimmed_value]
    exact (hgood d).mp (onGrid?_good hgrid)
  · next hnone =>
    refine absurd (List.findSome?_eq_none_iff.mp hnone (top - (16 : Nat)) ?_) (Option.isSome_iff_ne_none.mp
      (onGrid?_isSome hden fun d hd => (hgood d).mpr (ofRatio_of_close h hm ?_)))
    · exact List.mem_map.mpr ⟨16, List.mem_range.mpr (by decide), rfl⟩
    · rw [hratio] at hd hlog
      refine hd.trans ?_
      rw [zpow_sub₀ (by norm_num), zpow_natCast]
      push_cast at hlog
      gcongr

/-- What is written for a number is read back as that number. -/
theorem toBinary64_shortest (negative : Bool) {m : Nat}
    (h : (Binary64.finite negative m e).Canonical) (hm : 0 < m) :
    (shortest m e).toBinary64 negative = .finite negative m e := by
  rw [toBinary64_eq, Binary64.ofRatio_eq_neg, ofRatio_shortest h hm]
  cases negative <;> rfl

end NoteQuery.Decimal
