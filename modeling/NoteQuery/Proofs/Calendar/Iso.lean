import Mathlib.Algebra.Ring.Nat
import NoteQuery.Proofs.Text.Digits
import NoteQuery.Calendar.Iso

/-! The international format, written and read back. Every field is written with a fixed number of digits, so
that the reader finds the end of each, and a time without a zone ends with its seconds or with six digits of
their fraction. -/

namespace NoteQuery.Iso
set_option autoImplicit false
open Text

variable {n w : Nat} {rest : List Char}

/-! ### Numbers of a fixed width -/

theorem padded_one (h : n < 10) : padded 1 n = [n.digitChar] := by
  rw [padded, Nat.toDigits_of_lt_base h]
  rfl

theorem padded_succ (hw : 0 < w) (n : Nat) :
    padded (w + 1) n = padded w (n / 10) ++ [(n % 10).digitChar] := by
  unfold padded
  rw [Nat.toDigits_eq_if (by decide)]
  split
  · next h =>
    obtain ⟨v, rfl⟩ : ∃ v, w = v + 1 := ⟨w - 1, by omega⟩
    rw [Nat.div_eq_of_lt h, Nat.mod_eq_of_lt h]
    exact congrArg (· ++ [n.digitChar]) List.replicate_succ'
  · dsimp only
    rw [List.length_append, List.length_singleton, Nat.add_sub_add_right, List.append_assoc]

theorem padded_two (h : n < 100) : padded 2 n = [(n / 10).digitChar, (n % 10).digitChar] := by
  rw [padded_succ Nat.one_pos, padded_one (by omega)]
  rfl

theorem padded_four (h : n < 10000) : padded 4 n =
    [(n / 1000).digitChar, (n / 100 % 10).digitChar, (n / 10 % 10).digitChar, (n % 10).digitChar] := by
  rw [padded_succ (by decide), padded_succ (by decide), padded_two (by omega)]
  simp only [Nat.div_div_eq_div_mul, Nat.reduceMul]
  rfl

theorem length_padded (hw : 0 < w) (h : n < 10 ^ w) : (padded w n).length = w := by
  have hle := (Nat.length_toDigits_le_iff (b := 10) (by decide) hw).mpr h
  simp only [padded, List.length_append, List.length_replicate]
  omega

theorem isDigit_of_mem_padded {c : Char} (h : c ∈ padded w n) : c.isDigit := by
  rcases List.mem_append.mp h with h | h
  · rw [List.eq_of_mem_replicate h]
    rfl
  · exact Nat.isDigit_of_mem_toDigits (by decide) (by decide) h

theorem exists_padded_eq_cons (w n : Nat) : ∃ c cs, padded w n = c :: cs ∧ c.isDigit := by
  cases h : padded w n with
  | nil => exact absurd (List.append_eq_nil_iff.mp h).2 Nat.toDigits_ne_nil
  | cons c cs => exact ⟨c, cs, rfl, isDigit_of_mem_padded (h ▸ List.mem_cons_self)⟩

theorem ofDigitChars_padded (w n : Nat) : Nat.ofDigitChars 10 (padded w n) 0 = n := by
  have hzeros (k : Nat) : Nat.ofDigitChars 10 (List.replicate k '0') 0 = 0 := by
    induction k with
    | zero => rfl
    | succ k ih => exact ih
  rw [padded, Nat.ofDigitChars_append, hzeros, Nat.ofDigitChars_ten_toDigits]

/-- A number is read back from the digits it is written with. -/
theorem digits?_padded (hw : 0 < w) (h : n < 10 ^ w) (rest : List Char) :
    digits? w (padded w n ++ rest) = some (n, rest) := by
  have hlength := length_padded hw h
  have hdigits : (padded w n).all Char.isDigit := List.all_eq_true.mpr fun c hc => isDigit_of_mem_padded hc
  have hvalue : (padded w n).foldl (fun k c => 10 * k + (c.toNat - 48)) 0 = n := ofDigitChars_padded w n
  rw [digits?]
  simp only [List.take_left' hlength, List.drop_left' hlength, hlength, hdigits, hvalue, and_self, if_true]

theorem digits?_of_not_isDigit {c : Char} (hc : c.isDigit = false) (cs : List Char) :
    digits? (n + 1) (c :: cs) = none := by
  simp only [digits?, List.take_succ_cons, List.all_cons, hc, Bool.false_and, Bool.false_eq_true, and_false,
    if_false]

/-! ### Dates -/

theorem fields_lt (d : Date) : d.year < 10000 ∧ d.month ≤ 12 ∧ d.day ≤ 31 := by
  obtain ⟨-, hyear, -, hmonth, -, hday⟩ := d.isDate
  refine ⟨by omega, hmonth, ?_⟩
  unfold Calendar.daysInMonth at hday
  split at hday
  · split at hday <;> omega
  · split at hday <;> omega

theorem date?_dateText (d : Date) : date? (dateText d) = some d := by
  obtain ⟨hyear, hmonth, hday⟩ := fields_lt d
  have hdate : Date.of? d.year d.month d.day = some d := dif_pos d.isDate
  have hdayRead := digits?_padded (w := 2) (n := d.day) (by decide) (by omega) []
  rw [List.append_nil] at hdayRead
  rw [date?, dateText, List.append_assoc, digits?_padded (by decide) (by omega)]
  simp only [Option.bind_eq_bind, Option.bind_some, List.cons_append, List.head?_cons, decide_true, if_true,
    List.drop_succ_cons, List.drop_zero]
  split
  · next heq =>
    obtain ⟨c, cs, hdigits, hc⟩ := exists_padded_eq_cons 2 d.month
    rw [hdigits] at heq
    cases heq
    exact absurd hc (by decide)
  · rw [digits?_padded (by decide) (by omega)]
    simp only [Option.bind_some, List.head?_cons, ne_eq, not_true_eq_false, and_false, if_false,
      List.drop_succ_cons, List.drop_zero, hdayRead, hdate]

/-! ### Times of day -/

section
variable {stop : Char} {parts : Nat} {colons : Bool} {fields : List Nat}

/-- A field that a colon follows is read, and the reader goes on behind the colon. -/
theorem clock?_colon (hn : n < 100) (hcolons : (if fields.isEmpty then true else colons) = true)
    (hrest : rest ≠ []) : clock? stop (parts + 1) colons fields (padded 2 n ++ ':' :: rest) =
      clock? stop parts true (fields ++ [n]) rest := by
  obtain ⟨c, cs, rfl⟩ := List.exists_cons_of_ne_nil hrest
  rw [clock?, digits?_padded (by decide) (by omega)]
  simp only [Option.bind_eq_bind, Option.bind_some, beq_self_eq_true, hcolons, Bool.and_true, if_true]

/-- A field that a point follows is the last one. -/
theorem clock?_point (hn : n < 100) (hrest : rest ≠ []) :
    clock? stop (parts + 1) colons fields (padded 2 n ++ '.' :: rest) =
      fraction? stop (fields ++ [n]) rest := by
  obtain ⟨c, cs, rfl⟩ := List.exists_cons_of_ne_nil hrest
  have hcolon : ('.' == ':') = false := rfl
  rw [clock?, digits?_padded (by decide) (by omega)]
  simp only [Option.bind_eq_bind, Option.bind_some, hcolon, Bool.and_false, Bool.false_eq_true, if_false,
    beq_self_eq_true, Bool.true_or, if_true]

theorem clock?_last (hn : n < 100) : clock? stop (parts + 1) colons fields (padded 2 n) =
    some ⟨fields ++ [n], 0, stop == endMark⟩ := by
  have hread := digits?_padded (w := 2) (by decide) hn []
  rw [List.append_nil] at hread
  rw [clock?, hread]
  rfl

theorem fraction?_padded (hn : n < 1000000) : fraction? stop fields (padded 6 n) =
    some ⟨fields, n, stop == endMark⟩ := by
  have hread := digits?_padded (w := 6) (by decide) hn []
  have hlength := length_padded (w := 6) (by decide) hn
  have hend : (padded 6 n ++ []).dropWhile Char.isDigit = [] :=
    dropWhile_append (fun c hc => isDigit_of_mem_padded hc) fun _ h => by cases h
  rw [List.append_nil] at hread hend
  have htake : (padded 6 n).take 6 = padded 6 n := List.take_of_length_le (Nat.le_of_eq hlength)
  simp only [fraction?, htake, hlength, hread, hend, Option.map_some, List.headD_nil, Nat.sub_self]
  rw [show Nat.pow 10 0 = 1 from rfl, Nat.mul_one]

end

/-- A time of day is read back from its hours, minutes and seconds and their fraction. -/
theorem clock?_timeText (t : TimeOfDay) : clock? endMark 3 false [] (timeText t) =
    some ⟨[t.hour, t.minute, t.second], t.micro, true⟩ := by
  obtain ⟨hhour, hminute, hsecond, hmicro⟩ := t.isTime
  have hne (k : Nat) (cs : List Char) : padded 2 k ++ cs ≠ [] := by
    obtain ⟨c, ds, hdigits, -⟩ := exists_padded_eq_cons 2 k
    rw [hdigits]
    exact List.cons_ne_nil _ _
  rw [timeText]
  simp only [List.append_assoc, List.cons_append]
  rw [clock?_colon (by omega) rfl (hne _ _), clock?_colon (by omega) rfl (hne _ _)]
  split
  · next hzero =>
    rw [List.append_nil, clock?_last (by omega), hzero]
    rfl
  · obtain ⟨c, cs, hdigits, -⟩ := exists_padded_eq_cons 6 t.micro
    rw [clock?_point (by omega) (by rw [hdigits]; exact List.cons_ne_nil _ _), fraction?_padded hmicro]
    rfl

theorem mem_timeText {t : TimeOfDay} {c : Char} (h : c ∈ timeText t) : c.isDigit ∨ c = ':' ∨ c = '.' := by
  simp only [timeText, List.mem_append, List.mem_cons] at h
  obtain ((hc | rfl | hc) | rfl | hc) | hc := h
  · exact .inl (isDigit_of_mem_padded hc)
  · exact .inr (.inl rfl)
  · exact .inl (isDigit_of_mem_padded hc)
  · exact .inr (.inl rfl)
  · exact .inl (isDigit_of_mem_padded hc)
  · split at hc
    · cases hc
    · rcases List.mem_cons.mp hc with rfl | hc
      · exact .inr (.inr rfl)
      · exact .inl (isDigit_of_mem_padded hc)

theorem isZoneMark_of_isDigit {c : Char} (h : c.isDigit) : isZoneMark c = false :=
  forall_isDigit (p := (isZoneMark · = false)) (by decide) h

theorem time?_timeText (t : TimeOfDay) : time? (timeText t) = some (t, none) := by
  have hmarks : ∀ c ∈ timeText t, (!isZoneMark c) = true := by
    intro c hc
    rcases mem_timeText hc with hdigit | rfl | rfl
    · rw [isZoneMark_of_isDigit hdigit]
      rfl
    · rfl
    · rfl
  have htake : (timeText t ++ []).takeWhile (fun c => !isZoneMark c) = timeText t :=
    takeWhile_append hmarks fun _ h => by cases h
  have hdrop : (timeText t ++ []).dropWhile (fun c => !isZoneMark c) = [] :=
    dropWhile_append hmarks fun _ h => by cases h
  rw [List.append_nil] at htake hdrop
  have htime : ClockReading.time? ⟨[t.hour, t.minute, t.second], t.micro, true⟩ = some t := dif_pos t.isTime
  simp only [time?, htake, hdrop, List.headD_nil, clock?_timeText, htime, Option.bind_eq_bind,
    Option.bind_some, List.isEmpty_nil, if_true]
  rfl

/-! ### Moments -/

theorem length_dateText (d : Date) : (dateText d).length = 10 := by
  obtain ⟨hyear, hmonth, hday⟩ := fields_lt d
  simp only [dateText, List.length_append, List.length_cons, length_padded (w := 4) (by decide) hyear,
    length_padded (w := 2) (n := d.month) (by decide) (by omega),
    length_padded (w := 2) (n := d.day) (by decide) (by omega)]

theorem mem_dateText {d : Date} {c : Char} (h : c ∈ dateText d) : c.isDigit ∨ c = '-' := by
  simp only [dateText, List.mem_append, List.mem_cons] at h
  obtain (hc | rfl | hc) | rfl | hc := h
  · exact .inl (isDigit_of_mem_padded hc)
  · exact .inr rfl
  · exact .inl (isDigit_of_mem_padded hc)
  · exact .inr rfl
  · exact .inl (isDigit_of_mem_padded hc)

theorem dateWidth_dateText (d : Date) (sep : Char) (cs : List Char) :
    dateWidth (dateText d ++ sep :: cs) = 10 := by
  obtain ⟨hyear, hmonth, hday⟩ := fields_lt d
  obtain ⟨c, ds, hdigits, hc⟩ := exists_padded_eq_cons 2 d.month
  have hlength : (dateText d ++ sep :: cs).length ≠ 7 := by
    simp only [List.length_append, length_dateText, List.length_cons]
    omega
  have hdash : (dateText d ++ sep :: cs)[4]? = some '-' := by
    rw [dateText, padded_four hyear]
    rfl
  have hweek : (dateText d ++ sep :: cs)[5]? ≠ some 'W' := by
    rw [dateText, padded_four hyear, hdigits]
    rintro ⟨⟩
    exact absurd hc (by decide)
  simp only [dateWidth, hlength, hdash, hweek, if_false, if_true]

/-- A moment is read back, whatever stands between its date and its time. -/
theorem stamp?_dateText_timeText (m : Moment) (sep : Char) :
    stamp? (dateText m.date ++ sep :: timeText m.time) = some (.clock m) := by
  have hlength := length_dateText m.date
  rw [stamp?, dateWidth_dateText]
  simp only [List.take_left' hlength, List.drop_left' hlength, date?_dateText, time?_timeText,
    Option.bind_eq_bind, Option.bind_some]
  rfl

/-- A moment is written without blanks. -/
theorem isBlank_of_mem_momentText {m : Moment} {c : Char} (h : c ∈ momentText m) : isBlank c = false := by
  have hdigit (h : c.isDigit) : isBlank c = false := isBlank_of_isDecimal (isDecimal_of_isDigit h)
  rcases List.mem_append.mp h with hc | hc
  · rcases mem_dateText hc with hc | rfl
    · exact hdigit hc
    · rfl
  · rcases List.mem_cons.mp hc with rfl | hc
    · rfl
    · rcases mem_timeText hc with hc | rfl | rfl
      · exact hdigit hc
      · rfl
      · rfl

end NoteQuery.Iso
