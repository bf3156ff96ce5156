import NoteQuery.Expr.Parser
import NoteQuery.Proofs.Text.Characters

/-! Numerals made of digits, and of digits with a point between them, are read. Integers in decimal digits, as
they are shown, are read back as the same integers. -/

namespace NoteQuery
set_option autoImplicit false
open Text

theorem digitValue?_of_isDigit {c : Char} (h : c.isDigit) : digitValue? c = some (c.toNat - 48) := by
  have hc := toNat_of_isDigit h
  rw [digitValue?, if_pos (by omega), if_pos h]

theorem isDecimal_of_isDigit {c : Char} (h : c.isDigit) : isDecimal c := by
  rw [isDecimal, digitValue?_of_isDigit h]
  rfl

theorem isDecimal_of_isBlank {c : Char} (h : isBlank c) : isDecimal c = false :=
  forall_isBlank (p := (isDecimal · = false)) (by decide +kernel) h

theorem isBlank_of_isDecimal {c : Char} (h : isDecimal c) : isBlank c = false := by
  cases hc : isBlank c with
  | false => rfl
  | true => exact absurd h (Bool.eq_false_iff.mp (isDecimal_of_isBlank hc))

theorem isDecimal_of_isAlpha {c : Char} (h : c.isAlpha) : isDecimal c = false := by
  have hbounds := toNat_of_isAlpha h
  have hdigit : c.isDigit = false := by
    cases hdigit : c.isDigit with
    | false => rfl
    | true =>
      have hdigits := toNat_of_isDigit hdigit
      omega
  rw [isDecimal, digitValue?, if_pos (by omega), hdigit]
  rfl

theorem stripChars_of_not_isBlank {cs : List Char} (h : ∀ c ∈ cs, isBlank c = false) :
    stripChars cs = cs := by
  have hdrop {ds : List Char} (hd : ∀ c ∈ ds, isBlank c = false) : ds.dropWhile isBlank = ds := by
    cases ds with
    | nil => rfl
    | cons d ds => rw [List.dropWhile_cons_of_neg (by simp [hd d List.mem_cons_self])]
  rw [stripChars, skipBlanks, hdrop h, dropTrailingBlanks, hdrop, List.reverse_reverse]
  intro c hc
  exact h c (List.mem_reverse.mp hc)

theorem naturalOfDigits_toDigits (n : Nat) : naturalOfDigits (Nat.toDigits 10 n) = n := by
  have hfold (ds : List Char) (hd : ∀ c ∈ ds, c.isDigit) (start : Nat) :
      ds.foldl (fun n c => 10 * n + (digitValue? c).getD 0) start = Nat.ofDigitChars 10 ds start := by
    induction ds generalizing start with
    | nil => rfl
    | cons d ds ih =>
      rw [List.foldl_cons, Nat.ofDigitChars_cons, digitValue?_of_isDigit (hd d List.mem_cons_self),
        ih fun c hc => hd c (List.mem_cons_of_mem d hc)]
      rfl
  rw [naturalOfDigits, hfold, Nat.ofDigitChars_ten_toDigits]
  intro c hc
  exact Nat.isDigit_of_mem_toDigits (by decide) (by decide) hc

namespace Numeral

theorem moreDigits_append {ds : List Char} (h : ∀ c ∈ ds, isDecimal c) (rest : List Char) :
    moreDigits (ds ++ rest) = (ds ++ (moreDigits rest).1, (moreDigits rest).2) := by
  induction ds with
  | nil => rfl
  | cons d ds ih =>
    have hd := h d List.mem_cons_self
    have hrest := ih fun c hc => h c (List.mem_cons_of_mem d hc)
    have hunderscore : d ≠ '_' := by
      rintro rfl
      exact absurd hd (by decide)
    rw [List.cons_append, moreDigits.eq_2 _ _ fun _ _ h => absurd h hunderscore, if_pos hd, hrest]
    rfl

theorem digitRun?_append {ds : List Char} (h : ∀ c ∈ ds, isDecimal c) (hne : ds ≠ []) (rest : List Char) :
    digitRun? (ds ++ rest) = some (ds ++ (moreDigits rest).1, (moreDigits rest).2) := by
  cases ds with
  | nil => exact absurd rfl hne
  | cons d ds =>
    rw [List.cons_append, digitRun?, if_pos (h d List.mem_cons_self),
      moreDigits_append fun c hc => h c (List.mem_cons_of_mem d hc)]
    rfl

theorem digitRun?_of_isDecimal {ds : List Char} (h : ∀ c ∈ ds, isDecimal c) (hne : ds ≠ []) :
    digitRun? ds = some (ds, []) := by
  have happend := digitRun?_append h hne []
  rwa [List.append_nil, moreDigits, List.append_nil] at happend

/-- A minus where there is one, and the rest of a numeral, are told apart. -/
theorem sign_stripChars (negative : Bool) {d : Char} {cs : List Char} (hd : isDecimal d)
    (hcs : ∀ c ∈ cs, isBlank c = false) :
    sign (stripChars ((if negative then ['-'] else []) ++ d :: cs)) = (negative, d :: cs) := by
  have hstrip : stripChars ((if negative then ['-'] else []) ++ d :: cs) =
      (if negative then ['-'] else []) ++ d :: cs := by
    apply stripChars_of_not_isBlank
    intro c hc
    rcases List.mem_append.mp hc with hc | hc
    · cases negative with
      | false => cases hc
      | true => rw [List.mem_singleton.mp hc]; decide
    · rcases List.mem_cons.mp hc with rfl | hc
      · exact isBlank_of_isDecimal hd
      · exact hcs c hc
  rw [hstrip]
  cases negative with
  | true => rfl
  | false =>
    refine sign.eq_3 (d :: cs) ?_ ?_
    · rintro _ ⟨⟩
      exact absurd hd (by decide)
    · rintro _ ⟨⟩
      exact absurd hd (by decide)

theorem integer?_of_isDecimal (negative : Bool) {ds : List Char} (h : ∀ c ∈ ds, isDecimal c)
    (hne : ds ≠ []) :
    integer? ((if negative then ['-'] else []) ++ ds) = some (signed negative (naturalOfDigits ds)) := by
  cases ds with
  | nil => exact absurd rfl hne
  | cons d ds =>
    have hmore : ∀ c ∈ ds, isBlank c = false :=
      fun c hc => isBlank_of_isDecimal (h c (List.mem_cons_of_mem d hc))
    rw [integer?, sign_stripChars negative (h d List.mem_cons_self) hmore]
    simp only [digitRun?_of_isDecimal h hne]

theorem real?_of_isDecimal (negative : Bool) {ds es : List Char} (hds : ∀ c ∈ ds, isDecimal c)
    (hne : ds ≠ []) (hes : ∀ c ∈ es, isDecimal c) (hne' : es ≠ []) :
    real? ((if negative then ['-'] else []) ++ (ds ++ '.' :: es)) = some (realOf negative ds es 0) := by
  have hmantissa : mantissa? (ds ++ '.' :: es) = some (ds, es, []) := by
    have hpoint : moreDigits ('.' :: es) = ([], '.' :: es) := rfl
    unfold mantissa?
    simp only [digitRun?_append hds hne, hpoint, List.append_nil, digitRun?_of_isDecimal hes hne']
  cases ds with
  | nil => exact absurd rfl hne
  | cons d ds =>
    have hmore : ∀ c ∈ ds ++ '.' :: es, isBlank c = false := by
      intro c hc
      rcases List.mem_append.mp hc with hc | hc
      · exact isBlank_of_isDecimal (hds c (List.mem_cons_of_mem d hc))
      · rcases List.mem_cons.mp hc with rfl | hc
        · decide
        · exact isBlank_of_isDecimal (hes c hc)
    rw [List.cons_append] at hmantissa ⊢
    rw [real?, sign_stripChars negative (hds d List.mem_cons_self) hmore]
    simp only [hmantissa, exponent?]
    rfl

/-- What a natural number is shown as, with or without a minus. -/
theorem integer?_toDigits (negative : Bool) (n : Nat) :
    integer? ((if negative then ['-'] else []) ++ Nat.toDigits 10 n) = some (signed negative n) := by
  have hdigits : ∀ c ∈ Nat.toDigits 10 n, isDecimal c :=
    fun c hc => isDecimal_of_isDigit (Nat.isDigit_of_mem_toDigits (by decide) (by decide) hc)
  rw [integer?_of_isDecimal negative hdigits Nat.toDigits_ne_nil, naturalOfDigits_toDigits]

end Numeral

theorem toList_toString (n : Int) : (toString n).toList =
    (if n < 0 then ['-'] else []) ++ Nat.toDigits 10 n.natAbs := by
  cases n with
  | ofNat n =>
    rw [if_neg (by simp)]
    exact Nat.toList_repr
  | negSucc n =>
    rw [if_pos (Int.negSucc_lt_zero n)]
    change ("-" ++ (n + 1).repr).toList = _
    rw [String.toList_append, Nat.toList_repr]
    rfl

/-- An integer is read from what it is shown as. -/
theorem integer?_toString (n : Int) : Numeral.integer? (toString n).toList = some n := by
  have h := Numeral.integer?_toDigits (decide (n < 0)) n.natAbs
  rw [toList_toString]
  simp only [decide_eq_true_eq] at h
  rw [h, Numeral.signed]
  congr 1
  split
  · next hn => simp only [decide_eq_true_eq] at hn; omega
  · next hn => simp only [decide_eq_true_eq] at hn; omega

end NoteQuery
