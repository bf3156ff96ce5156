import Mathlib.Tactic.IntervalCases
import NoteQuery.Proofs.Json.Grammar
import NoteQuery.Proofs.Number.Rounded
import NoteQuery.Proofs.Number.Shortest
import NoteQuery.Proofs.Text.Digits

/-! Numbers are written as numerals that denote them. A decimal has five layouts: its digits may end before,
at or behind the point, and an exponent may follow one digit or several. -/

namespace NoteQuery
set_option autoImplicit false
open Text

/-! ### Digits -/

theorem isDigit_of_mem_toDigits {n : Nat} : ∀ c ∈ Nat.toDigits 10 n, c.isDigit = true :=
  fun _ hc => Nat.isDigit_of_mem_toDigits (by decide) (by decide) hc

theorem head?_toDigits_ne {n : Nat} (hn : 0 < n) : (Nat.toDigits 10 n).head? ≠ some '0' := by
  induction n using Nat.strongRecOn with
  | ind n ih =>
    by_cases hlow : n < 10
    · rw [Nat.toDigits_of_lt_base hlow]
      interval_cases n <;> decide
    · rw [Nat.toDigits_of_base_le (by decide) (by omega), List.head?_append_of_ne_nil _ Nat.toDigits_ne_nil]
      exact ih (n / 10) (by omega) (by omega)

theorem isWhole_toDigits (n : Nat) : Json.IsWhole (Nat.toDigits 10 n) where
  ne_nil := Nat.toDigits_ne_nil
  isDigit := isDigit_of_mem_toDigits
  noZero := by
    intro hzero
    obtain rfl | hpos := n.eq_zero_or_pos
    · rfl
    · exact absurd hzero (head?_toDigits_ne hpos)

theorem isDigit_of_mem_zeros {k : Nat} : ∀ c ∈ Decimal.zeros k, c.isDigit = true := by
  intro c hc
  rw [List.eq_of_mem_replicate hc]
  rfl

theorem naturalOfDigits_append_zeros (cs : List Char) (k : Nat) :
    naturalOfDigits (cs ++ Decimal.zeros k) = naturalOfDigits cs * 10 ^ k := by
  induction k with
  | zero => simp [Decimal.zeros]
  | succ k ih =>
    rw [Decimal.zeros, List.replicate_succ', ← List.append_assoc, naturalOfDigits, List.foldl_append]
    change 10 * naturalOfDigits (cs ++ Decimal.zeros k) + 0 = _
    rw [ih]
    ring

theorem naturalOfDigits_zeros_append (k : Nat) (cs : List Char) :
    naturalOfDigits (Decimal.zeros k ++ cs) = naturalOfDigits cs := by
  induction k with
  | zero => rfl
  | succ k ih => exact ih

/-! ### Integers -/

theorem signed_natAbs (n : Int) : Numeral.signed (decide (n < 0)) n.natAbs = n := by
  unfold Numeral.signed
  split
  · next h =>
    rw [decide_eq_true_iff] at h
    omega
  · next h =>
    rw [decide_eq_true_iff] at h
    omega

theorem isNumeral_toString (n : Int) : Json.IsNumeral (toString n).toList (.int n) := by
  have h : Json.IsNumeral (Binary64.signText (decide (n < 0)) ++ Nat.toDigits 10 n.natAbs) _ :=
    .int (isWhole_toDigits n.natAbs)
  rw [naturalOfDigits_toDigits, signed_natAbs] at h
  rw [toList_toString]
  simpa [Binary64.signText] using h

/-! ### Decimals -/

namespace Decimal

theorem exponentPart_text (e : Int) : Json.ExponentPart (exponentText e) (some e) := by
  have hsign : Json.SignPart [if e < 0 then '-' else '+'] (decide (e < 0)) := by
    split
    · next h =>
      rw [decide_eq_true h]
      exact .minus
    · next h =>
      rw [decide_eq_false h]
      exact .plus
  have hpart (ds : List Char) (hne : ds ≠ []) (hdigits : ∀ c ∈ ds, c.isDigit = true)
      (hnatural : naturalOfDigits ds = e.natAbs) :
      Json.ExponentPart ('e' :: (if e < 0 then '-' else '+') :: ds) (some e) := by
    have h := Json.ExponentPart.present (.inl rfl) hsign hne hdigits
    rwa [hnatural, signed_natAbs] at h
  have hnatural := naturalOfDigits_toDigits e.natAbs
  refine hpart _ ?_ ?_ ?_
  · split
    · exact List.cons_ne_nil _ _
    · exact Nat.toDigits_ne_nil
  · split
    · exact List.forall_mem_cons.mpr ⟨rfl, isDigit_of_mem_toDigits⟩
    · exact isDigit_of_mem_toDigits
  · split
    · exact (naturalOfDigits_zeros_append 1 _).trans hnatural
    · exact hnatural

section
variable (negative : Bool) {ds : List Char} {n : Nat}

/-- Any layout will do whose digits and exponent make the same value. -/
theorem isNumeral_of_value {whole point digits mark : List Char} {e : Option Int} {d : Decimal}
    (hwhole : Json.IsWhole whole) (hpoint : Json.FractionPart point digits)
    (hmark : Json.ExponentPart mark e) (hne : point ++ mark ≠ [])
    (hvalue : (naturalOfDigits (whole ++ digits) : ℚ) * 10 ^ (e.getD 0 - digits.length) = d.value) :
    Json.IsNumeral (Binary64.signText negative ++ (whole ++ (point ++ mark)))
      (.real (d.toBinary64 negative)) := by
  have h : Json.IsNumeral (Binary64.signText negative ++ (whole ++ (point ++ mark))) _ :=
    .real hwhole hpoint hmark hne
  rw [Numeral.realOf, toBinary64_eq] at h
  rwa [toBinary64_eq, ← hvalue]

variable (hds : Json.IsWhole ds) (hnatural : naturalOfDigits ds = n)
include hds hnatural

theorem isNumeral_whole (hhead : ds.head? ≠ some '0') (k : Nat) :
    Json.IsNumeral (Binary64.signText negative ++ (ds ++ zeros k ++ ['.', '0']))
      (.real (toBinary64 negative ⟨n, k⟩)) := by
  have hwhole : Json.IsWhole (ds ++ zeros k) := by
    refine ⟨List.append_ne_nil_of_left_ne_nil hds.ne_nil _, ?_, fun hzero => absurd ?_ hhead⟩
    · exact List.forall_mem_append.mpr ⟨hds.isDigit, isDigit_of_mem_zeros⟩
    · rwa [List.head?_append_of_ne_nil _ hds.ne_nil] at hzero
  have hpoint : Json.FractionPart ['.', '0'] ['0'] := .present (by decide) (by decide)
  refine isNumeral_of_value negative hwhole hpoint .absent (by decide) ?_
  rw [List.append_assoc, show zeros k ++ ['0'] = zeros (k + 1) from List.replicate_succ'.symm,
    naturalOfDigits_append_zeros, hnatural, value]
  have hten : (10 : ℚ) ≠ 0 := by norm_num
  simp only [List.length_singleton, Nat.cast_one, Option.getD_none, zero_sub, zpow_neg_one,
    zpow_natCast, Nat.cast_mul, Nat.cast_pow, Nat.cast_ofNat, pow_succ]
  rw [← mul_assoc, mul_inv_cancel_right₀ hten]

theorem isNumeral_between (hhead : ds.head? ≠ some '0') {w : Nat} (hw : 0 < w) (hlength : w < ds.length) :
    Json.IsNumeral (Binary64.signText negative ++ (ds.take w ++ '.' :: ds.drop w))
      (.real (toBinary64 negative ⟨n, w - ds.length⟩)) := by
  have hwhole : Json.IsWhole (ds.take w) := by
    refine ⟨?_, fun c hc => hds.isDigit c (List.mem_of_mem_take hc), fun hzero => absurd ?_ hhead⟩
    · exact List.ne_nil_of_length_pos (by rw [List.length_take]; omega)
    · rwa [List.head?_take, if_neg hw.ne'] at hzero
  have hpoint : Json.FractionPart ('.' :: ds.drop w) (ds.drop w) :=
    .present (List.ne_nil_of_length_pos (by rw [List.length_drop]; omega))
      fun c hc => hds.isDigit c (List.mem_of_mem_drop hc)
  have h := isNumeral_of_value negative (d := ⟨n, w - ds.length⟩) hwhole hpoint .absent
    (List.cons_ne_nil _ _) ?_
  · rwa [List.append_nil] at h
  · rw [List.take_append_drop, hnatural, value, List.length_drop, Nat.cast_sub hlength.le]
    congr 2
    simp

theorem isNumeral_small (k : Nat) :
    Json.IsNumeral (Binary64.signText negative ++ ('0' :: '.' :: zeros k ++ ds))
      (.real (toBinary64 negative ⟨n, -(k + ds.length)⟩)) := by
  have hwhole : Json.IsWhole ['0'] := isWhole_toDigits 0
  have hpoint : Json.FractionPart ('.' :: (zeros k ++ ds)) (zeros k ++ ds) :=
    .present (List.append_ne_nil_of_right_ne_nil _ hds.ne_nil)
      (List.forall_mem_append.mpr ⟨isDigit_of_mem_zeros, hds.isDigit⟩)
  have h := isNumeral_of_value negative (d := ⟨n, -(k + ds.length)⟩) hwhole hpoint .absent
    (List.cons_ne_nil _ _) ?_
  · rwa [List.append_nil] at h
  · have hzeros : naturalOfDigits (['0'] ++ (zeros k ++ ds)) = n := by
      rw [← List.append_assoc, show ['0'] ++ zeros k = zeros (k + 1) from rfl,
        naturalOfDigits_zeros_append, hnatural]
    rw [hzeros, value, List.length_append]
    congr 2
    simp [zeros]

theorem isNumeral_scientific {c : Char} {rest : List Char} (hcons : ds = c :: rest) (top : Int) :
    Json.IsNumeral (Binary64.signText negative ++
        (c :: ((if rest = [] then [] else '.' :: rest) ++ exponentText top)))
      (.real (toBinary64 negative ⟨n, top - rest.length⟩)) := by
  subst hcons
  have hwhole : Json.IsWhole [c] :=
    ⟨List.cons_ne_nil _ _, fun d hd => hds.isDigit d (by simp_all), fun _ => rfl⟩
  have hpoint : Json.FractionPart (if rest = [] then [] else '.' :: rest) rest := by
    split
    · next hnil =>
      rw [hnil]
      exact .absent
    · next hne => exact .present hne fun d hd => hds.isDigit d (List.mem_cons_of_mem c hd)
  rw [← List.singleton_append]
  refine isNumeral_of_value negative hwhole hpoint (exponentPart_text top) ?_ ?_
  · exact List.append_ne_nil_of_right_ne_nil _ (List.cons_ne_nil _ _)
  · rw [List.singleton_append, hnatural, value]
    rfl

end

theorem isNumeral_text (negative : Bool) {d : Decimal} (hd : 0 < d.digits) :
    Json.IsNumeral (Binary64.signText negative ++ d.text) (.real (d.toBinary64 negative)) := by
  have hnatural := naturalOfDigits_toDigits d.digits
  have hwhole := isWhole_toDigits d.digits
  have hhead := head?_toDigits_ne hd
  obtain ⟨n, e⟩ := d
  unfold text
  dsimp only at hd hnatural hwhole hhead ⊢
  generalize Nat.toDigits 10 n = ds at hnatural hwhole hhead ⊢
  split
  · split
    · next he =>
      obtain ⟨k, rfl⟩ := Int.eq_ofNat_of_zero_le he
      exact isNumeral_whole negative hwhole hnatural hhead k
    · split
      · next he htop =>
        obtain ⟨w, hw⟩ := Int.eq_ofNat_of_zero_le (show 0 ≤ (e + ds.length - 1 : Int) + 1 by omega)
        obtain rfl : e = w - ds.length := by omega
        rw [hw]
        exact isNumeral_between negative hwhole hnatural hhead (by omega) (by omega)
      · next he htop =>
        obtain ⟨k, hk⟩ := Int.eq_ofNat_of_zero_le (show 0 ≤ -(e + ds.length - 1 : Int) - 1 by omega)
        obtain rfl : e = -(k + ds.length) := by omega
        rw [hk]
        exact isNumeral_small negative hwhole hnatural k
  · obtain _ | ⟨c, _ | ⟨d, rest⟩⟩ := ds
    · exact absurd rfl hwhole.ne_nil
    · have h := isNumeral_scientific negative hwhole hnatural rfl (e + [c].length - 1)
      simpa using h
    · have h := isNumeral_scientific negative hwhole hnatural rfl
        (e + (c :: d :: rest).length - 1)
      rw [show e + (c :: d :: rest).length - 1 - (d :: rest).length = e by simp; omega] at h
      simpa using h

end Decimal

/-! ### Numbers -/

namespace Binary64

theorem isNumeral_text {negative : Bool} {m : Nat} {e : Int} (h : (finite negative m e).Canonical) :
    Json.IsNumeral (finite negative m e).text.toList (.real (finite negative m e)) := by
  rw [text, String.toList_ofList]
  split
  · next hzero =>
    subst hzero
    have he : e = leastExponent := h.2.2.2.resolve_right (by decide)
    have hpoint : Json.FractionPart ['.', '0'] ['0'] := .present (by decide) (by decide)
    rw [he]
    exact .real (isWhole_toDigits 0) hpoint .absent (by decide)
  · next hzero =>
    have hread := Decimal.toBinary64_shortest negative h (Nat.pos_of_ne_zero hzero)
    have hdigits : 0 < (Decimal.shortest m e).digits := by
      refine Nat.pos_of_ne_zero fun hnone => hzero ?_
      rw [Decimal.toBinary64, if_pos hnone] at hread
      exact (finite.inj hread).2.1.symm
    have hnumeral := Decimal.isNumeral_text negative hdigits
    rwa [hread] at hnumeral

end Binary64

namespace Number

/-- What is written for a finite number denotes that number. -/
theorem isNumeral_exactText : (n : Number) → n.IsRounded → n.IsFinite →
    Json.IsNumeral n.exactText.toList n
  | int n, _, _ => isNumeral_toString n
  | real (.finite _ _ _), h, _ => Binary64.isNumeral_text h

end Number
end NoteQuery
