import NoteQuery.Proofs.Eval.Calls
import NoteQuery.Proofs.Number.Rounded

/-! Integers that are floating-point numbers, and integers rounded to no places. An integer becomes a
floating-point number, one half is added and the integer below is taken: up to `2 ^ 52` that changes nothing,
above it the sum is rounded to an integer itself, so that an odd integer is moved to its neighbour. -/

namespace NoteQuery
set_option autoImplicit false

namespace Binary64

variable {x : Binary64} {q : ℚ} {k : Int} {m n : Nat} {e : Int}

/-- A finite number is the rational number `q`. -/
def Is (x : Binary64) (q : ℚ) : Prop :=
  match x with
  | finite s m e => (units s m e : ℚ) = q * unitsPerOne
  | _ => False

/-- A magnitude with its sign. -/
def withSign (negative : Bool) (q : ℚ) : ℚ := if negative then -q else q

/-- The units of one are a power of two. -/
theorem exists_unitsPerOne : ∃ u : Nat, unitsPerOne = u ∧ (u : ℚ) = 2 ^ (-leastExponent) := by
  have hcast (k : Nat) : ((1 <<< k : Nat) : ℚ) = 2 ^ (k : Int) := by simp [Nat.shiftLeft_eq]
  exact ⟨1 <<< 1074, rfl, hcast 1074⟩

theorem is_finite (negative : Bool) (m : Nat) (he : leastExponent ≤ e) :
    (finite negative m e).Is (withSign negative (m * 2 ^ e)) := by
  obtain ⟨u, hu, hpow⟩ := exists_unitsPerOne
  obtain ⟨k, hk⟩ := Int.eq_ofNat_of_zero_le (show 0 ≤ e - leastExponent by omega)
  have hunits : ((m <<< (e - leastExponent).toNat : Nat) : ℚ) = m * 2 ^ e * u := by
    have hexp : (2 : ℚ) ^ e * 2 ^ (-leastExponent) = 2 ^ k := by
      rw [← zpow_add₀ two_ne_zero, ← sub_eq_add_neg, hk]
      rfl
    rw [hk, Int.toNat_natCast, Nat.shiftLeft_eq, hpow, mul_assoc, hexp]
    push_cast
    rfl
  rw [Is, units, withSign, hu]
  cases negative with
  | false => simpa only [Bool.false_eq_true, if_false, Int.cast_natCast] using hunits
  | true =>
    simpa only [if_true, Int.cast_neg, Int.cast_natCast, neg_mul, neg_inj] using hunits

theorem Is.floor? (h : x.Is q) : x.floor? = some ⌊q⌋ := by
  cases x with
  | finite s m e =>
    obtain ⟨u, hu, hpow⟩ := exists_unitsPerOne
    have hpos : (0 : ℚ) < u := hpow ▸ zpow_pos two_pos _
    rw [Is, hu, Int.cast_natCast] at h
    have hq : q = (units s m e : ℚ) / u := by rw [h, mul_div_cancel_right₀ _ hpos.ne']
    rw [Binary64.floor?, hq, Rat.floor_intCast_div_natCast, hu,
      Int.fdiv_eq_ediv_of_nonneg _ (Int.natCast_nonneg u)]
  | _ => exact h.elim

theorem Is.units_eq {s : Bool} (h : (finite s m e).Is k) : units s m e = k * unitsPerOne := by
  rw [Is] at h
  exact_mod_cast h

theorem Is.truncate? (h : x.Is k) : x.truncate? = some k := by
  cases x with
  | finite s m e => rw [Binary64.truncate?, h.units_eq, Int.mul_tdiv_cancel _ (by decide)]
  | _ => exact h.elim

theorem Is.unique {j : Int} (hj : x.Is j) (hk : x.Is k) : j = k :=
  Option.some.inj (hj.truncate?.symm.trans hk.truncate?)

theorem Is.integer? (h : x.Is k) : (Number.real x).integer? = some k := by
  have htruncate := h.truncate?
  cases x with
  | finite s m e =>
    have hinteger : (finite s m e).isInteger = true := by
      rw [isInteger, h.units_eq, Int.mul_emod_left]
      rfl
    rw [Number.integer?, if_pos hinteger, htruncate]
  | _ => exact h.elim

theorem Is.isInfinite (h : x.Is q) : x.isInfinite = false := by
  cases x with
  | finite s m e => rfl
  | _ => exact h.elim

/-! ### Numbers that are not rounded -/

theorem exists_canonical (hm : 0 < m) (hbits : m < 2 ^ 53) (hleast : leastExponent ≤ e)
    (hgreatest : e ≤ greatestExponent) : ∃ m' e', (∀ s, (finite s m' e').Canonical) ∧ 0 < m' ∧
      (m' * 2 ^ e' : ℚ) = m * 2 ^ e := by
  obtain ⟨k, hk⟩ := Int.eq_ofNat_of_zero_le (show 0 ≤ e - leastExponent by omega)
  induction k generalizing m e with
  | zero => exact ⟨m, e, fun _ => ⟨hbits, hleast, hgreatest, .inl (by omega)⟩, hm, rfl⟩
  | succ k ih =>
    by_cases hfull : 2 ^ 52 ≤ m
    · exact ⟨m, e, fun _ => ⟨hbits, hleast, hgreatest, .inr hfull⟩, hm, rfl⟩
    · obtain ⟨m', e', hcanonical, hpos, heq⟩ := ih (m := 2 * m) (e := e - 1) (by omega) (by omega) (by omega)
        (by omega) (by omega)
      refine ⟨m', e', hcanonical, hpos, heq.trans ?_⟩
      rw [zpow_sub_one₀ two_ne_zero]
      push_cast
      ring

/-- A quotient that is a floating-point number is rounded to it. -/
theorem is_ofRatio (negative : Bool) (hbits : m < 2 ^ 53) (hleast : leastExponent ≤ e)
    (hgreatest : e ≤ greatestExponent) (hq : q = m * 2 ^ e) :
    (ofRatio negative q).Is (withSign negative q) := by
  rcases Nat.eq_zero_or_pos m with rfl | hm
  · rw [hq, Nat.cast_zero, zero_mul, ofRatio, if_pos rfl]
    have hzero := is_finite negative 0 (le_refl leastExponent)
    rwa [Nat.cast_zero, zero_mul] at hzero
  · obtain ⟨m', e', hcanonical, hpos, heq⟩ := exists_canonical hm hbits hleast hgreatest
    have hscale : q / 2 ^ e' = m' := by
      rw [hq, ← heq, mul_div_cancel_right₀ _ (zpow_pos two_pos e').ne']
    have hround : ofRatio negative q = finite negative m' e' :=
      ofRatio_eq negative (hcanonical negative) hpos (by linarith) (fun _ => by linarith) (by linarith)
    rw [hround, hq, ← heq]
    exact is_finite negative m' (hcanonical false).2.1

/-- Above `2 ^ 52` the last bit is worth one at least. -/
theorem ofRatio_large (negative : Bool) (hq : 2 ^ 52 ≤ q) : (ofRatio negative q).isInfinite = true ∨
    ∃ m e : Nat, ofRatio negative q = finite negative m e := by
  have hpos : 0 < q := lt_of_lt_of_le (by norm_num) hq
  have hlog := (pow_le_scale_iff hpos 52 0).mp (by simpa using hq)
  obtain ⟨j, hj⟩ : ∃ j : Nat, max leastExponent (Int.log 2 q - 52) = j :=
    ⟨(Int.log 2 q - 52).toNat, by unfold leastExponent; omega⟩
  rw [ofRatio, if_neg hpos.ne', hj]
  dsimp only
  split_ifs
  · exact .inl rfl
  · exact .inr ⟨_, j + 1, rfl⟩
  · exact .inl rfl
  · exact .inr ⟨_, j, rfl⟩

/-- Where the last bit is worth one, a quotient is rounded to an integer. -/
theorem is_ofRatio_roundEven (negative : Bool) (hlow : 2 ^ 52 ≤ q) (hhigh : q < 2 ^ 53) :
    (ofRatio negative q).Is (withSign negative (roundEven q)) := by
  have hpos : 0 < q := lt_of_lt_of_le (by norm_num) hlow
  have hlog := (pow_le_scale_iff hpos 52 0).mp (by simpa using hlow)
  have hlog' := (pow_le_scale_iff hpos 53 0).not.mp (by simpa using hhigh)
  have he : max leastExponent (Int.log 2 q - 52) = 0 := by
    unfold leastExponent
    omega
  rw [ofRatio, if_neg hpos.ne', he]
  simp only [zpow_zero, div_one]
  split
  · next hcarry =>
    have hone := is_finite negative (2 ^ 52) (e := 1) (by decide)
    have htwo : ((2 ^ 52 : Nat) * 2 ^ (1 : Int) : ℚ) = (2 ^ 53 : Nat) := by norm_num
    rw [htwo] at hone
    rw [hcarry, if_neg (by decide)]
    exact hone
  · have hzero := is_finite negative (roundEven q) (e := 0) (by decide)
    rw [zpow_zero, mul_one] at hzero
    have hrange : ¬greatestExponent < (0 : Int) := by decide
    simp only [hrange, if_false]
    exact hzero

theorem roundEven_half (j : Nat) : roundEven (j + 1 / 2) = j + j % 2 := by
  have hfloor : ⌊(j + 1 / 2 : ℚ)⌋₊ = j := by
    rw [Nat.floor_eq_iff (by positivity)]
    constructor <;> linarith
  rw [roundEven, hfloor, add_sub_cancel_left, if_neg (lt_irrefl _), if_neg (lt_irrefl _)]
  split <;> omega

/-! ### Integers -/

/-- A natural number that is a floating-point number: it has 53 significant bits at most. -/
def Fits (n : Nat) : Prop := ∃ m e : Nat, m < 2 ^ 53 ∧ (e : Int) ≤ greatestExponent ∧ n = m * 2 ^ e

theorem fits_of_le (h : n ≤ 2 ^ 53) : Fits n := by
  rcases h.eq_or_lt with rfl | hlt
  · exact ⟨1, 53, by decide, by decide, rfl⟩
  · exact ⟨n, 0, hlt, by decide, by omega⟩

theorem withSign_natAbs (k : Int) : withSign (decide (k < 0)) (k.natAbs : ℚ) = k := by
  rw [withSign]
  split
  · next h =>
    have hneg : ((k.natAbs : Nat) : Int) = -k := by
      have := of_decide_eq_true h
      omega
    rw [← Int.cast_natCast, hneg]
    push_cast
    ring
  · next h =>
    have hnonneg : ((k.natAbs : Nat) : Int) = k := by
      have := of_decide_eq_false (Bool.eq_false_iff.mpr h)
      omega
    rw [← Int.cast_natCast, hnonneg]

theorem ofInt_eq_ofRatio (k : Int) : ofInt k = ofRatio (decide (k < 0)) k.natAbs := by
  rw [ofInt, nearest_eq_ofRatio _ _ one_pos, Nat.cast_one, div_one]

theorem is_ofInt (h : Fits k.natAbs) : (ofInt k).Is k := by
  obtain ⟨m, e, hm, he, hk⟩ := h
  have hexact := is_ofRatio (decide (k < 0)) hm (e := e) (by unfold leastExponent; omega) he
    (q := k.natAbs) (by rw [hk]; push_cast; rfl)
  rwa [withSign_natAbs, ← ofInt_eq_ofRatio] at hexact

theorem natAbs_lt_overflow (h : Fits k.natAbs) : k.natAbs < overflow := by
  have hfinite := (is_ofInt h).isInfinite
  have hbound := (isInfinite_ofInt k).not.mp (by simp [hfinite])
  omega

/-- The integers that integers are rounded to. -/
theorem exists_is_ofInt (h : k.natAbs < overflow) : ∃ j : Int, (ofInt k).Is j ∧ Fits j.natAbs := by
  by_cases hfits : Fits k.natAbs
  · exact ⟨k, is_ofInt hfits, hfits⟩
  · have hlarge : 2 ^ 53 ≤ k.natAbs := by
      by_contra hlt
      exact hfits (fits_of_le (by omega))
    have hq : (2 : ℚ) ^ 52 ≤ k.natAbs := by
      have hle : 2 ^ 52 ≤ k.natAbs := by omega
      exact_mod_cast hle
    have hcanonical := canonical_ofInt k
    have hfinite := (isInfinite_ofInt k).not.mpr (by omega)
    rw [ofInt_eq_ofRatio] at hcanonical hfinite ⊢
    generalize decide (k < 0) = negative at hcanonical hfinite ⊢
    obtain ⟨m, e, heq⟩ := (ofRatio_large negative hq).resolve_left hfinite
    have his := is_finite negative m (e := e) (by unfold leastExponent; omega)
    rw [heq] at hcanonical ⊢
    refine ⟨if negative then -(m * 2 ^ e : Nat) else (m * 2 ^ e : Nat), ?_, m, e, hcanonical.1,
      hcanonical.2.2.1, ?_⟩
    · cases negative <;> simpa [withSign] using his
    · cases negative <;> simp [Int.natAbs_mul, Int.natAbs_pow]

/-! ### One half more -/

/-- One half is half as many units as one. -/
theorem exists_half : ∃ h : Nat, 0 < h ∧ unitsPerOne = 2 * h ∧ 1 <<< (-leastExponent).toNat = 2 * h ∧
    nearest false 1 2 = finite false (2 ^ 52) (-53) ∧ units false (2 ^ 52) (-53) = h :=
  ⟨1 <<< 1073, by decide, by decide, by decide, by decide, by decide⟩

/-- One half is added exactly, and then the sum is rounded. -/
theorem add_half (h : x.Is k) : x.add (nearest false 1 2) =
    ofRatio (decide (2 * k + 1 < 0)) ((2 * k + 1).natAbs / 2) := by
  obtain ⟨u, hu, hone, hscale, hhalf, hunits⟩ := exists_half
  cases x with
  | finite s m e =>
    have hsum : units s m e + units false (2 ^ 52) (-53) = (2 * k + 1) * u := by
      rw [h.units_eq, hunits, hone]
      ring
    have hne : (2 * k + 1) * (u : Int) ≠ 0 := mul_ne_zero (by omega) (by omega)
    have hsign : (2 * k + 1) * (u : Int) < 0 ↔ 2 * k + 1 < 0 := by
      rw [← not_le, ← not_le, mul_nonneg_iff_of_pos_right (by exact_mod_cast hu)]
    have hratio : (((2 * k + 1) * (u : Int)).natAbs : ℚ) / (2 * u : Nat) = (2 * k + 1).natAbs / 2 := by
      have hpos : (u : ℚ) ≠ 0 := by exact_mod_cast hu.ne'
      rw [Int.natAbs_mul, Int.natAbs_natCast]
      push_cast
      field_simp
    rw [hhalf, add, hsum, ofUnits, if_neg hne, nearestScaled, if_neg (by decide), hscale,
      nearest_eq_ofRatio _ _ (by omega), hratio]
    simp only [hsign]
  | _ => exact h.elim

theorem exists_canonical_of_large (h : Fits n) (hn : 2 ^ 53 ≤ n) : ∃ m j : Nat,
    (∀ s, (finite s m (j + 1 : Nat)).Canonical) ∧ 0 < m ∧ n = m * 2 ^ (j + 1) := by
  obtain ⟨m, e, hm, he, rfl⟩ := h
  have hmpos : 0 < m := Nat.pos_of_ne_zero fun h0 => by simp [h0] at hn
  obtain ⟨m', e', hcanonical, hpos, heq⟩ :=
    exists_canonical (e := e) hmpos hm (by unfold leastExponent; omega) he
  have hlt : (m' : ℚ) < 2 ^ 53 := by exact_mod_cast (hcanonical false).1
  have hlarge : (2 : ℚ) ^ 53 ≤ m' * 2 ^ e' := by
    rw [heq]
    exact_mod_cast hn
  have hexp : 0 < e' := by
    by_contra hle
    have hone : (2 : ℚ) ^ e' ≤ 1 := zpow_le_one_of_nonpos₀ one_le_two (by omega)
    have hnonneg : (0 : ℚ) ≤ m' := Nat.cast_nonneg m'
    have hmul := mul_le_of_le_one_right hnonneg hone
    linarith
  obtain ⟨j, hj⟩ := Int.eq_ofNat_of_zero_le (show 0 ≤ e' - 1 by omega)
  obtain rfl : e' = (j + 1 : Nat) := by omega
  refine ⟨m', j, hcanonical, hpos, ?_⟩
  exact_mod_cast heq.symm

end Binary64

/-- The integer that a floating-point integer is moved to where one half is added to it and the sum is
rounded: above `2 ^ 52` the sum lies in the middle between two integers and goes to the even one. -/
def nudged (k : Int) : Int := if k.natAbs ≤ 2 ^ 52 ∨ 2 ∣ k then k else k + 1

namespace Binary64

variable {x : Binary64} {q : ℚ} {k : Int} {m n : Nat} {e : Int}

theorem floor?_half_small (h : (2 * k + 1).natAbs < 2 ^ 53) :
    (ofRatio (decide (2 * k + 1 < 0)) ((2 * k + 1).natAbs / 2)).floor? = some k := by
  have hexact := is_ofRatio (decide (2 * k + 1 < 0)) h (e := -1) (by decide) (by decide)
    (q := (2 * k + 1).natAbs / 2) (by rw [zpow_neg_one, div_eq_mul_inv])
  have hvalue : withSign (decide (2 * k + 1 < 0)) ((2 * k + 1).natAbs / 2) = k + 1 / 2 := by
    have hsigned := withSign_natAbs (2 * k + 1)
    rw [withSign] at hsigned ⊢
    split at hsigned
    · next hneg =>
      rw [if_pos hneg, ← neg_div, hsigned]
      push_cast
      ring
    · next hneg =>
      rw [if_neg hneg, hsigned]
      push_cast
      ring
  have hfloor : ⌊(k : ℚ) + 1 / 2⌋ = k := by
    rw [Int.floor_intCast_add]
    norm_num
  rw [hexact.floor?, hvalue, hfloor]

theorem floor?_half_middle (hlow : 2 ^ 53 ≤ (2 * k + 1).natAbs) (hhigh : (2 * k + 1).natAbs < 2 ^ 54) :
    (ofRatio (decide (2 * k + 1 < 0)) ((2 * k + 1).natAbs / 2)).floor? = some (nudged k) := by
  obtain ⟨j, hj⟩ : ∃ j, (2 * k + 1).natAbs = 2 * j + 1 := ⟨(2 * k + 1).natAbs / 2, by omega⟩
  have hq : (((2 * k + 1).natAbs : Nat) : ℚ) / 2 = j + 1 / 2 := by
    rw [hj]
    push_cast
    ring
  have hlow' : (2 : ℚ) ^ 52 ≤ j := by
    have hle : 2 ^ 52 ≤ j := by omega
    exact_mod_cast hle
  have hhigh' : (j : ℚ) + 1 ≤ 2 ^ 53 := by
    have hle : j + 1 ≤ 2 ^ 53 := by omega
    exact_mod_cast hle
  have his := is_ofRatio_roundEven (decide (2 * k + 1 < 0)) (q := j + 1 / 2) (by linarith) (by linarith)
  have habs : (nudged k).natAbs = j + j % 2 := by
    unfold nudged
    split <;> omega
  have hsign : 2 * k + 1 < 0 ↔ nudged k < 0 := by
    unfold nudged
    split <;> omega
  rw [roundEven_half, ← habs] at his
  simp only [hsign, withSign_natAbs] at his
  simp only [hq, hsign, his.floor?, Int.floor_intCast]

theorem floor?_half_large (h : Fits k.natAbs) (hlarge : 2 ^ 54 ≤ (2 * k + 1).natAbs) :
    (ofRatio (decide (2 * k + 1 < 0)) ((2 * k + 1).natAbs / 2)).floor? = some (nudged k) := by
  obtain ⟨m, j, hcanonical, hm, hk⟩ := exists_canonical_of_large h (by omega)
  have hsame : nudged k = k := by
    refine if_pos (.inr (Int.natCast_dvd.mpr ?_))
    rw [hk, Nat.pow_succ]
    exact (Nat.dvd_mul_left 2 _).mul_left m
  have hpow : (0 : ℚ) < 2 ^ ((j + 1 : Nat) : Int) := zpow_pos two_pos _
  have htwo : (2 : ℚ) ≤ 2 ^ ((j + 1 : Nat) : Int) := by
    rw [zpow_natCast, pow_succ']
    have hone : (1 : ℚ) ≤ 2 ^ j := one_le_pow₀ one_le_two
    linarith
  have hcast : (k.natAbs : ℚ) = m * 2 ^ ((j + 1 : Nat) : Int) := by
    rw [zpow_natCast, hk]
    push_cast
    rfl
  have hside : ((2 * k + 1).natAbs : ℚ) = 2 * k.natAbs + 1 ∨
      ((2 * k + 1).natAbs : ℚ) = 2 * k.natAbs - 1 ∧ (2 : ℚ) ^ 53 < k.natAbs := by
    rcases Int.lt_or_le k 0 with hneg | hnonneg
    · have heq : (2 * k + 1).natAbs + 1 = 2 * k.natAbs := by omega
      have hmore : 2 ^ 53 < k.natAbs := by omega
      exact .inr ⟨eq_sub_of_add_eq (by exact_mod_cast heq), by exact_mod_cast hmore⟩
    · have heq : (2 * k + 1).natAbs = 2 * k.natAbs + 1 := by omega
      exact .inl (by exact_mod_cast heq)
  have hround : ofRatio (decide (2 * k + 1 < 0)) ((2 * k + 1).natAbs / 2) =
      finite (decide (2 * k + 1 < 0)) m (j + 1 : Nat) := by
    -- a distance of one half is at most a quarter of the last bit, and less just below a power of two
    refine ofRatio_eq _ (hcanonical _) hm ?_ (fun hbinade => ?_) ?_
    · rw [lt_div_iff₀ hpow, sub_mul, ← hcast]
      rcases hside with hup | ⟨hdown, -⟩ <;> linarith
    · rw [lt_div_iff₀ hpow, sub_mul, ← hcast]
      rcases hside with hup | ⟨hdown, hmore⟩
      · linarith
      · have hbits : (m : ℚ) = 2 ^ 52 := by exact_mod_cast hbinade
        rw [hcast, hbits] at hmore
        linarith
    · rw [div_lt_iff₀ hpow, add_mul, ← hcast]
      rcases hside with hup | ⟨hdown, -⟩ <;> linarith
  have hsign : 2 * k + 1 < 0 ↔ k < 0 := by omega
  have his := is_finite (decide (2 * k + 1 < 0)) m (e := (j + 1 : Nat)) (by unfold leastExponent; omega)
  rw [← hcast] at his
  simp only [hsign, withSign_natAbs] at his
  rw [hround, hsame]
  simp only [hsign, his.floor?, Int.floor_intCast]

theorem floor?_half (h : Fits k.natAbs) :
    (ofRatio (decide (2 * k + 1 < 0)) ((2 * k + 1).natAbs / 2)).floor? = some (nudged k) := by
  rcases Nat.lt_or_ge (2 * k + 1).natAbs (2 ^ 53) with hsmall | hlow
  · have hsame : nudged k = k := if_pos (.inl (by omega))
    rw [floor?_half_small hsmall, hsame]
  · rcases Nat.lt_or_ge (2 * k + 1).natAbs (2 ^ 54) with hhigh | hlarge
    · exact floor?_half_middle hlow hhigh
    · exact floor?_half_large h hlarge

/-- What an integer is moved to is a floating-point number again. -/
theorem fits_nudged (h : Fits k.natAbs) : Fits (nudged k).natAbs := by
  rw [nudged]
  split
  · exact h
  · next hmoved =>
    obtain ⟨hlarge, hodd⟩ := not_or.mp hmoved
    obtain ⟨m, e, hm, he, hk⟩ := h
    cases e with
    | zero => exact fits_of_le (by omega)
    | succ e =>
      refine absurd (Int.natCast_dvd.mpr ?_) hodd
      rw [hk, Nat.pow_succ]
      exact (Nat.dvd_mul_left 2 _).mul_left m

end Binary64

/-! ### Rounding -/

open Binary64 (Fits)

theorem Number.roundTo_int {n : Int} (h : n.natAbs < Binary64.overflow) : ∃ k : Int,
    (Binary64.ofInt n).Is k ∧ Fits k.natAbs ∧ (Number.int n).roundTo 0 = .ok (.int (nudged k)) := by
  obtain ⟨k, his, hfits⟩ := Binary64.exists_is_ofInt h
  have hnudged := Binary64.fits_nudged hfits
  have hscaled : (Number.int n).mul (Number.powerOfTen 0) = .ok (.int n) :=
    congrArg (fun m => Except.ok (Number.int m)) (Int.mul_one n)
  have hshifted := Number.add_int_real n (.nearest false 1 2)
  rw [if_neg (by omega), Binary64.add_half his] at hshifted
  have hfloor := Binary64.floor?_half hfits
  have hdivided := Number.div_int_int (a := nudged k) (b := 1) one_pos
  have hbound := Binary64.natAbs_lt_overflow hnudged
  have hquotient : Binary64.nearest (decide (nudged k < 0) != decide ((1 : Int) < 0)) (nudged k).natAbs
      (1 : Int).natAbs = .ofInt (nudged k) :=
    congrArg (fun s => Binary64.nearest s (nudged k).natAbs 1) (Bool.xor_false _)
  rw [if_neg (by simpa using hbound), hquotient] at hdivided
  have hinteger := (Binary64.is_ofInt hnudged).integer?
  refine ⟨k, his, hfits, ?_⟩
  rw [Number.roundTo, hscaled]
  simp only [Except.bind, bind, hshifted, Number.roundTo.floorValue, hfloor]
  rw [show Number.powerOfTen 0 = .int 1 from rfl, hdivided]
  simp only [hinteger]
  rfl

/-- An integer comes back where it is a floating-point number and stays one when one half is added. -/
theorem nudged_eq_iff {n k : Int} (hfits : Fits k.natAbs) (his : (Binary64.ofInt n).Is k) :
    nudged k = n ↔ Fits n.natAbs ∧ (n.natAbs ≤ 2 ^ 52 ∨ 2 ∣ n) := by
  constructor
  · intro hn
    by_cases hstays : k.natAbs ≤ 2 ^ 52 ∨ 2 ∣ k
    · obtain rfl : k = n := (if_pos hstays).symm.trans hn
      exact ⟨hfits, hstays⟩
    · -- the neighbour of an odd number is a floating-point number, and was not rounded to it
      have hnext : k + 1 = n := (if_neg hstays).symm.trans hn
      have hfitsNext : Fits n.natAbs := hn ▸ Binary64.fits_nudged hfits
      have hsame := his.unique (Binary64.is_ofInt hfitsNext)
      omega
  · rintro ⟨hfitsSelf, hstays⟩
    obtain rfl := his.unique (Binary64.is_ofInt hfitsSelf)
    exact if_pos hstays

theorem callByName_round (now : Moment) (apply : Applier) {n : Int} {r : Number}
    (h : (Number.int n).roundTo 0 = .ok r) : callByName now apply "round" [.int n] = .ok (.number r) := by
  have hname : Builtin.ofName? "round" = some .round := by decide +kernel
  have hsteps : NumberFunction.round (.int n) (.int 0) =
      liftM ((Number.int n).roundTo 0) >>= fun r => pure (.number r) := rfl
  refine callByName_eq_ok hname rfl (hsteps.trans ?_)
  rw [h]
  rfl

theorem callByName_round_int (now : Moment) (apply : Applier) {n : Int} {x : Binary64}
    (h : (Number.int n).toBinary64 = .ok x) :
    ∃ k : Int, x.Is k ∧ callByName now apply "round" [.int n] = .ok (.int (nudged k)) ∧
      (callByName now apply "round" [.int n] = .ok (.int n) ↔
        Fits n.natAbs ∧ (n.natAbs ≤ 2 ^ 52 ∨ 2 ∣ n)) := by
  rw [Number.toBinary64_int] at h
  split at h
  · cases h
  · next hbound =>
    cases h
    obtain ⟨k, his, hfits, hround⟩ := Number.roundTo_int (not_le.mp hbound)
    have hcall := callByName_round now apply hround
    refine ⟨k, his, hcall, ?_⟩
    rw [hcall, ← nudged_eq_iff hfits his]
    constructor
    · intro heq
      injection heq with heq
      injection heq with heq
      injection heq
    · rintro rfl
      rfl

theorem callByName_round_int_power :
    let apply : Applier := fun _ _ _ v => .ok v
    (Number.int (2 ^ 200)).toBinary64 = .ok (.ofInt (2 ^ 200)) ∧
      callByName default apply "round" [.int (2 ^ 200)] = .ok (.int (2 ^ 200)) := by
  intro apply
  have hfits : Fits (2 ^ 200 : Int).natAbs := ⟨1, 200, by decide, by decide, by decide⟩
  have hfloat : (Number.int (2 ^ 200)).toBinary64 = .ok (.ofInt (2 ^ 200)) := by
    rw [Number.toBinary64_int, if_neg (not_le.mpr (Binary64.natAbs_lt_overflow hfits))]
  obtain ⟨-, -, -, hsame⟩ := callByName_round_int default apply hfloat
  exact ⟨hfloat, hsame.mpr ⟨hfits, .inr (dvd_pow_self 2 (by decide))⟩⟩

/-- The sum with one half lies between two integers; an odd integer is no floating-point number. -/
theorem callByName_round_int_moves :
    let apply : Applier := fun _ _ _ v => .ok v
    (Number.int 4503599627370497).toBinary64 = .ok (.ofInt 4503599627370497) ∧
      callByName default apply "round" [.int 4503599627370497] = .ok (.int 4503599627370498) ∧
      (Number.int 9007199254740993).toBinary64 = .ok (.ofInt 9007199254740993) ∧
      callByName default apply "round" [.int 9007199254740993] = .ok (.int 9007199254740992) := by
  intro apply
  exact ⟨by decide +kernel, callByName_round default apply (by decide +kernel),
    by decide +kernel, callByName_round default apply (by decide +kernel)⟩

end NoteQuery
