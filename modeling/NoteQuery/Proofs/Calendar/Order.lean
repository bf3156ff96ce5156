import NoteQuery.Calendar.Moment

/-! The day number of a date and the microseconds of a moment tell dates and moments apart, so moments
of which neither is earlier are one. -/

namespace NoteQuery
set_option autoImplicit false

namespace Calendar

theorem isLeap_iff {year : Nat} :
    isLeap year = true ↔ year % 4 = 0 ∧ (year % 100 ≠ 0 ∨ year % 400 = 0) := by
  simp [isLeap]

theorem daysBeforeYear_succ {year : Nat} (h : 1 ≤ year) :
    daysBeforeYear (year + 1) = daysBeforeYear year + daysInYear year := by
  obtain ⟨n, rfl⟩ : ∃ n, year = n + 1 := ⟨year - 1, by omega⟩
  have hle : n / 100 ≤ n / 4 := by omega
  unfold daysBeforeYear daysInYear
  simp only [isLeap_iff, Nat.add_sub_cancel, Nat.succ_div, Nat.dvd_iff_mod_eq_zero]
  by_cases hcycle : (n + 1) % 400 = 0
  · have hcentury : (n + 1) % 100 = 0 := by omega
    have hfour : (n + 1) % 4 = 0 := by omega
    simp only [hcycle, hcentury, hfour, if_pos, or_true, and_self]
    omega
  · by_cases hcentury : (n + 1) % 100 = 0
    · have hfour : (n + 1) % 4 = 0 := by omega
      simp [hcycle, hcentury, hfour]
      omega
    · by_cases hfour : (n + 1) % 4 = 0
      · simp [hcycle, hcentury, hfour]
        omega
      · simp [hcycle, hcentury, hfour]
        omega

theorem daysBeforeYear_mono {year later : Nat} (hyear : 1 ≤ year) (h : year ≤ later) :
    daysBeforeYear year ≤ daysBeforeYear later := by
  induction h with
  | refl => exact Nat.le_refl _
  | step hle ih =>
    rw [daysBeforeYear_succ (Nat.le_trans hyear hle)]
    exact Nat.le_add_right_of_le ih

theorem daysBeforeMonth_succ (year : Nat) {month : Nat} (h : 1 ≤ month) :
    daysBeforeMonth year (month + 1) = daysBeforeMonth year month + daysInMonth year month := by
  obtain ⟨m, rfl⟩ : ∃ m, month = m + 1 := ⟨month - 1, by omega⟩
  unfold daysBeforeMonth
  simp [List.range_succ]

theorem daysBeforeMonth_mono (year : Nat) {month later : Nat} (hmonth : 1 ≤ month)
    (h : month ≤ later) :
    daysBeforeMonth year month ≤ daysBeforeMonth year later := by
  induction h with
  | refl => exact Nat.le_refl _
  | step hle ih =>
    rw [daysBeforeMonth_succ year (Nat.le_trans hmonth hle)]
    exact Nat.le_add_right_of_le ih

theorem daysBeforeMonth_thirteen (year : Nat) : daysBeforeMonth year 13 = daysInYear year := by
  have h : (List.range 12).foldl (fun days m => days + daysInMonth year (m + 1)) 0 =
      337 + daysInMonth year 2 := by
    simp [List.range_succ, daysInMonth]
    omega
  unfold daysBeforeMonth daysInYear
  rw [h]
  cases hleap : isLeap year <;> simp [daysInMonth, hleap]

end Calendar

namespace Date
open Calendar

/-- The days of the years before a date are fewer than its number, those up to its year are not. -/
theorem ordinal_bounds (d : Date) :
    daysBeforeYear d.year + daysBeforeMonth d.year d.month < d.ordinal ∧
      d.ordinal ≤ daysBeforeYear d.year + daysBeforeMonth d.year (d.month + 1) ∧
      daysBeforeMonth d.year (d.month + 1) ≤ daysInYear d.year := by
  obtain ⟨-, -, hmonth, htwelve, hday, hdays⟩ := d.isDate
  have hlast := daysBeforeMonth_mono d.year (Nat.le_add_left 1 d.month) (Nat.succ_le_succ htwelve)
  rw [daysBeforeMonth_thirteen] at hlast
  refine ⟨?_, ?_, hlast⟩
  · unfold ordinal
    omega
  · rw [daysBeforeMonth_succ d.year hmonth, ordinal]
    omega

theorem year_le_of_ordinal_le {d e : Date} (h : d.ordinal ≤ e.ordinal) : d.year ≤ e.year := by
  refine Nat.le_of_not_lt fun hlt => ?_
  obtain ⟨hd, -, -⟩ := d.ordinal_bounds
  obtain ⟨-, he, hmonth⟩ := e.ordinal_bounds
  have hsucc := daysBeforeYear_succ e.isDate.1
  have hmono : daysBeforeYear (e.year + 1) ≤ daysBeforeYear d.year := daysBeforeYear_mono (by omega) hlt
  omega

theorem month_le_of_ordinal_le {d e : Date} (hyear : d.year = e.year) (h : d.ordinal ≤ e.ordinal) :
    d.month ≤ e.month := by
  refine Nat.le_of_not_lt fun hlt => ?_
  obtain ⟨hd, -, -⟩ := d.ordinal_bounds
  obtain ⟨-, he, -⟩ := e.ordinal_bounds
  have hmono : daysBeforeMonth e.year (e.month + 1) ≤ daysBeforeMonth e.year d.month :=
    daysBeforeMonth_mono _ (by omega) hlt
  rw [hyear] at hd
  omega

theorem ordinal_injective {d e : Date} (h : d.ordinal = e.ordinal) : d = e := by
  have hle : d.ordinal ≤ e.ordinal := Nat.le_of_eq h
  have hge : e.ordinal ≤ d.ordinal := Nat.le_of_eq h.symm
  have hyear : d.year = e.year :=
    Nat.le_antisymm (year_le_of_ordinal_le hle) (year_le_of_ordinal_le hge)
  have hmonth : d.month = e.month :=
    Nat.le_antisymm (month_le_of_ordinal_le hyear hle) (month_le_of_ordinal_le hyear.symm hge)
  have hday : d.day = e.day := by
    unfold ordinal at h
    rw [hyear, hmonth] at h
    exact Nat.add_left_cancel h
  obtain ⟨dyear, dmonth, dday, hd⟩ := d
  rw [Date.mk.injEq]
  exact ⟨hyear, hmonth, hday⟩

end Date

theorem TimeOfDay.micros_lt (t : TimeOfDay) : t.micros < Moment.microsPerDay := by
  have := t.isTime
  unfold TimeOfDay.micros Moment.microsPerDay
  omega

theorem TimeOfDay.micros_injective {t u : TimeOfDay} (h : t.micros = u.micros) : t = u := by
  obtain ⟨thour, tminute, tsecond, tmicro, ht⟩ := t
  obtain ⟨uhour, uminute, usecond, umicro, hu⟩ := u
  unfold TimeOfDay.micros at h
  simp only [TimeOfDay.mk.injEq] at h ⊢
  omega

namespace Moment

theorem micros_injective {a b : Moment} (h : a.micros = b.micros) : a = b := by
  have ha := a.time.micros_lt
  have hb := b.time.micros_lt
  have hafirst : 0 < a.date.ordinal := Nat.zero_lt_of_lt a.date.ordinal_bounds.1
  have hbfirst : 0 < b.date.ordinal := Nat.zero_lt_of_lt b.date.ordinal_bounds.1
  unfold micros microsPerDay at *
  have hdate : a.date = b.date := Date.ordinal_injective (by omega)
  have htime : a.time = b.time := by
    rw [hdate] at h
    exact TimeOfDay.micros_injective (by omega)
  obtain ⟨adate, atime⟩ := a
  rw [Moment.mk.injEq]
  exact ⟨hdate, htime⟩

end Moment

end NoteQuery
