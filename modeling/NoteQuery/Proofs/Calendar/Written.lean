import NoteQuery.Calendar.Written
import NoteQuery.Proofs.Calendar.Iso

/-! A date with slashes and a time to the second is read back. The reader tries several written forms and, for
every field, several ways to read it; the forms without seconds do not account for the whole text, and where a
field of two digits is read as one digit, the other digit stands where a separator is expected. -/

namespace NoteQuery
set_option autoImplicit false

/-- Without its microseconds. -/
def TimeOfDay.toSecond (t : TimeOfDay) : TimeOfDay :=
  ⟨t.hour, t.minute, t.second, 0, t.isTime.1, t.isTime.2.1, t.isTime.2.2.1, by decide⟩

def Moment.toSecond (m : Moment) : Moment := ⟨m.date, m.time.toSecond⟩

namespace Written
open Text

variable {a n : Nat} {rest cs : List Char} {e : Element} {f : Fields}

/-! ### Numbers -/

theorem digitChar_isDigit (ha : a < 10) : a.digitChar.isDigit := by
  have hdigits : ∀ d < 10, (Nat.digitChar d).isDigit := by decide
  exact hdigits a ha

theorem between_digitChar (low high : Char) (ha : a < 10) : between low high (a.digitChar :: cs) =
    if low.toNat ≤ 48 + a ∧ 48 + a ≤ high.toNat then [(a, cs)] else [] := by
  have hle (c d : Char) : c ≤ d ↔ c.toNat ≤ d.toNat := UInt32.le_iff_toNat_le
  simp only [between, hle, Nat.toNat_digitChar_of_lt_ten ha, Nat.add_sub_cancel_left]

theorem anyDigit_digitChar (ha : a < 10) : anyDigit (a.digitChar :: cs) = [(a, cs)] := by
  rw [anyDigit, digitValue?_of_isDigit (digitChar_isDigit ha), Nat.toNat_digitChar_of_lt_ten ha]
  simp only [Nat.add_sub_cancel_left]

/-- The first digit of a number of two digits, read alone. -/
def oneDigit (n : Nat) (rest : List Char) : Nat × List Char := (n / 10, (n % 10).digitChar :: rest)

section
variable (hn : n < 100) (low high low' high' : Char)
include hn

theorem between_padded : between low high (Iso.padded 2 n ++ rest) =
    if low.toNat ≤ 48 + n / 10 ∧ 48 + n / 10 ≤ high.toNat then [oneDigit n rest] else [] := by
  rw [Iso.padded_two hn, List.cons_append, between_digitChar low high (by omega)]
  rfl

theorem anyDigit_padded : anyDigit (Iso.padded 2 n ++ rest) = [oneDigit n rest] := by
  rw [Iso.padded_two hn, List.cons_append, anyDigit_digitChar (by omega)]
  rfl

theorem pair_between : pair (between low high) (between low' high') (Iso.padded 2 n ++ rest) =
    if (low.toNat ≤ 48 + n / 10 ∧ 48 + n / 10 ≤ high.toNat) ∧
        low'.toNat ≤ 48 + n % 10 ∧ 48 + n % 10 ≤ high'.toNat then [(n, rest)] else [] := by
  rw [pair, between_padded hn low high]
  split
  · next hfirst =>
    simp only [oneDigit, List.flatMap_cons, List.flatMap_nil, List.append_nil,
      between_digitChar low' high' (Nat.mod_lt n (show 10 > 0 by decide)), hfirst, true_and]
    split
    · rw [List.map_singleton, Nat.div_add_mod]
    · rfl
  · next hfirst =>
    rw [if_neg fun h => hfirst h.1]
    rfl

theorem pair_anyDigit : pair (between low high) anyDigit (Iso.padded 2 n ++ rest) =
    if low.toNat ≤ 48 + n / 10 ∧ 48 + n / 10 ≤ high.toNat then [(n, rest)] else [] := by
  rw [pair, between_padded hn low high]
  split
  · simp only [oneDigit, List.flatMap_cons, List.flatMap_nil, List.append_nil,
      anyDigit_digitChar (Nat.mod_lt n (show 10 > 0 by decide)), List.map_cons, List.map_nil, Nat.div_add_mod]
  · rfl

end

theorem numbers_month (h : 1 ≤ n ∧ n ≤ 12) : numbers .month (Iso.padded 2 n ++ rest) =
    (n, rest) :: if 10 ≤ n then [oneDigit n rest] else [] := by
  have hn : n < 100 := by omega
  delta numbers
  simp only [pair_between hn, between_padded hn, Char.reduceToNat]
  by_cases hten : 10 ≤ n
  · rw [if_pos (by omega), if_neg (by omega), if_pos (by omega), if_pos hten]
    rfl
  · rw [if_neg (by omega), if_pos (by omega), if_neg (by omega), if_neg hten]
    rfl

theorem numbers_day (h : 1 ≤ n ∧ n ≤ 31) : numbers .day (Iso.padded 2 n ++ rest) =
    (n, rest) :: if 10 ≤ n then [oneDigit n rest] else [] := by
  have hn : n < 100 := by omega
  have hnoSpace : ∀ ds, Iso.padded 2 n ++ rest = ' ' :: ds → False := by
    intro ds heq
    rw [Iso.padded_two hn] at heq
    have hdigit := digitChar_isDigit (show n / 10 < 10 by omega)
    rw [(List.cons.inj heq).1] at hdigit
    exact absurd hdigit (by decide)
  rw [numbers, List.append_nil]
  · simp only [pair_between hn, pair_anyDigit hn, between_padded hn, Char.reduceToNat]
    rcases Nat.lt_or_ge n 10 with hsmall | hten
    · rw [if_neg (by omega), if_neg (by omega), if_pos (by omega), if_neg (by omega), if_neg (by omega)]
      rfl
    · rcases Nat.lt_or_ge n 30 with hmiddle | hlarge
      · rw [if_neg (by omega), if_pos (by omega), if_neg (by omega), if_pos (by omega), if_pos hten]
        rfl
      · rw [if_pos (by omega), if_neg (by omega), if_neg (by omega), if_pos (by omega), if_pos hten]
        rfl
  · exact hnoSpace

theorem numbers_hour (h : n < 24) :
    numbers .hour (Iso.padded 2 n ++ rest) = [(n, rest), oneDigit n rest] := by
  have hn : n < 100 := by omega
  delta numbers
  simp only [pair_between hn, pair_anyDigit hn, anyDigit_padded hn, Char.reduceToNat]
  by_cases htwenty : 20 ≤ n
  · rw [if_pos (by omega), if_neg (by omega)]
    rfl
  · rw [if_neg (by omega), if_pos (by omega)]
    rfl

theorem numbers_minute (h : n < 60) :
    numbers .minute (Iso.padded 2 n ++ rest) = [(n, rest), oneDigit n rest] := by
  have hn : n < 100 := by omega
  delta numbers
  simp only [pair_anyDigit hn, anyDigit_padded hn, Char.reduceToNat]
  rw [if_pos (by omega)]
  rfl

theorem numbers_second (h : n < 60) :
    numbers .second (Iso.padded 2 n ++ rest) = [(n, rest), oneDigit n rest] := by
  have hn : n < 100 := by omega
  delta numbers
  simp only [pair_between hn, pair_anyDigit hn, anyDigit_padded hn, Char.reduceToNat]
  rw [if_neg (by omega), if_pos (by omega)]
  rfl

/-- The numbers of two digits that an element stands for. -/
def Element.Ranges (n : Nat) : Element → Prop
  | .month => 1 ≤ n ∧ n ≤ 12
  | .day => 1 ≤ n ∧ n ≤ 31
  | .hour => n < 24
  | .minute | .second => n < 60
  | _ => False

/-- Two digits are read as their number before all, and otherwise only the first of them. -/
theorem numbers_padded (h : e.Ranges n) (rest : List Char) :
    ∃ more, numbers e (Iso.padded 2 n ++ rest) = (n, rest) :: more ∧ ∀ r ∈ more, r = oneDigit n rest := by
  have hone : ∀ r ∈ [oneDigit n rest], r = oneDigit n rest := fun _ => List.mem_singleton.mp
  have hsome : ∀ r ∈ if 10 ≤ n then [oneDigit n rest] else [], r = oneDigit n rest := by
    split
    · exact hone
    · exact List.forall_mem_nil _
  cases e with
  | month => exact ⟨_, numbers_month h, hsome⟩
  | day => exact ⟨_, numbers_day h, hsome⟩
  | hour => exact ⟨_, numbers_hour h, hone⟩
  | minute => exact ⟨_, numbers_minute h, hone⟩
  | second => exact ⟨_, numbers_second h, hone⟩
  | _ => exact h.elim

def StartsWithDigit (cs : List Char) : Prop := ∃ c ds, cs = c :: ds ∧ c.isDigit

theorem startsWithDigit_oneDigit (n : Nat) (rest : List Char) : StartsWithDigit (oneDigit n rest).2 :=
  ⟨_, rest, rfl, digitChar_isDigit (Nat.mod_lt n (by decide))⟩

theorem numbers_year (hn : n < 10000) (rest : List Char) :
    numbers .year (Iso.padded 4 n ++ rest) = [(n, rest)] := by
  rw [Iso.padded_four hn]
  have hvalue : 100 * (10 * (n / 1000) + n / 100 % 10) + (10 * (n / 10 % 10) + n % 10) = n := by omega
  have hdigit : ∀ k, k % 10 < 10 := fun k => Nat.mod_lt k (by decide)
  delta numbers
  simp only [pair, List.cons_append, List.nil_append,
    anyDigit_digitChar (show n / 1000 < 10 by omega), anyDigit_digitChar (hdigit _), List.flatMap_cons,
    List.flatMap_nil, List.map_cons, List.map_nil, List.append_nil, hvalue]

/-! ### Forms -/

/-- The ways to read elements in a row. -/
def readings (form : List Element) (rs : List Reading) : List Reading :=
  form.foldl (fun rs e => rs.flatMap (step e)) rs

/-- The fields before anything is read. -/
def unread : Fields := ⟨1900, 1, 1, 0, 0, 0⟩

theorem read?_eq (form : List Element) (cs : List Char) :
    read? form cs = (readings form [(unread, cs)]).head? := rfl

theorem readings_append (form more : List Element) (rs : List Reading) :
    readings (form ++ more) rs = readings more (readings form rs) := List.foldl_append

theorem readings_one (e : Element) (r : Reading) : readings [e] [r] = step e r := List.append_nil _

theorem step_mark (c : Char) (f : Fields) (rest : List Char) : step (.mark c) (f, c :: rest) = [(f, rest)] :=
  if_pos rfl

theorem step_blanks (f : Fields) (cs : List Char) :
    step .blanks (f, cs) = (afterBlanks cs).map fun rest => (f, rest) := rfl

theorem step_year (f : Fields) (cs : List Char) :
    step .year (f, cs) = (numbers .year cs).map fun n => (store .year n.1 f, n.2) := rfl

theorem step_padded (h : e.Ranges n) (f : Fields) (rest : List Char) :
    ∃ more, step e (f, Iso.padded 2 n ++ rest) = (store e n f, rest) :: more ∧
      ∀ r ∈ more, StartsWithDigit r.2 := by
  obtain ⟨more, hnumbers, hmore⟩ := numbers_padded h rest
  have hstep : step e (f, Iso.padded 2 n ++ rest) =
      (numbers e (Iso.padded 2 n ++ rest)).map fun n => (store e n.1 f, n.2) := by
    cases e <;> first | rfl | exact h.elim
  refine ⟨more.map fun n => (store e n.1 f, n.2), ?_, ?_⟩
  · rw [hstep, hnumbers, List.map_cons]
  · intro r hr
    obtain ⟨s, hs, rfl⟩ := List.mem_map.mp hr
    rw [hmore s hs]
    exact startsWithDigit_oneDigit n rest

theorem step_mark_of_digit {c : Char} (hc : c.isDigit = false) {r : Reading} (hr : StartsWithDigit r.2) :
    step (.mark c) r = [] := by
  obtain ⟨f, cs⟩ := r
  obtain ⟨d, ds, rfl, hd⟩ := hr
  refine if_neg ?_
  rintro rfl
  exact absurd hd (by rw [hc]; decide)

theorem step_blanks_of_digit {r : Reading} (hr : StartsWithDigit r.2) : step .blanks r = [] := by
  obtain ⟨f, cs⟩ := r
  obtain ⟨d, ds, rfl, hd⟩ := hr
  have hblank := isBlank_of_isDecimal (isDecimal_of_isDigit hd)
  have hrun : (d :: ds).takeWhile isBlank = [] := List.takeWhile_cons_of_neg (by rw [hblank]; decide)
  rw [step_blanks, afterBlanks, hrun]
  rfl

/-- A separator leaves one way to read the field before it: where one digit alone was read, the other digit
stands in the place of the separator. -/
theorem readings_separator (h : e.Ranges n) (f : Fields) {separator : Element} {after : List Char}
    (hdigit : ∀ r : Reading, StartsWithDigit r.2 → step separator r = [])
    (hstep : step separator (store e n f, rest) = [(store e n f, after)]) :
    readings [e, separator] [(f, Iso.padded 2 n ++ rest)] = [(store e n f, after)] := by
  obtain ⟨more, hfield, hmore⟩ := step_padded h f rest
  have hnone : more.flatMap (step separator) = [] :=
    List.flatMap_eq_nil_iff.mpr fun r hr => hdigit r (hmore r hr)
  simp only [readings, List.foldl_cons, List.foldl_nil, List.flatMap_cons, List.flatMap_nil, hfield, hstep,
    hnone, List.append_nil]

theorem readings_mark (h : e.Ranges n) {c : Char} (hc : c.isDigit = false) (f : Fields) (rest : List Char) :
    readings [e, .mark c] [(f, Iso.padded 2 n ++ c :: rest)] = [(store e n f, rest)] :=
  readings_separator h f (fun _ => step_mark_of_digit hc) (step_mark c _ rest)

theorem readings_space (h : e.Ranges n) (f : Fields) (hrest : StartsWithDigit rest) :
    readings [e, .blanks] [(f, Iso.padded 2 n ++ ' ' :: rest)] = [(store e n f, rest)] := by
  have hrun : (' ' :: rest).takeWhile isBlank = [' '] := by
    obtain ⟨d, ds, rfl, hd⟩ := hrest
    change ([' '] ++ d :: ds).takeWhile isBlank = [' ']
    refine takeWhile_append (by decide) ?_
    rintro c ⟨⟩
    exact isBlank_of_isDecimal (isDecimal_of_isDigit hd)
  have hspace : step .blanks (store e n f, ' ' :: rest) = [(store e n f, rest)] := by
    rw [step_blanks, afterBlanks, hrun]
    rfl
  exact readings_separator h f (fun _ => step_blanks_of_digit) hspace

theorem head?_readings (h : e.Ranges n) (f : Fields) (rest : List Char) :
    (readings [e] [(f, Iso.padded 2 n ++ rest)]).head? = some (store e n f, rest) := by
  obtain ⟨more, hstep, -⟩ := step_padded h f rest
  simp only [readings, List.foldl_cons, List.foldl_nil, List.flatMap_cons, List.flatMap_nil, hstep,
    List.append_nil, List.head?_cons]

/-! ### The form with slashes -/

theorem startsWithDigit_padded (w n : Nat) (rest : List Char) : StartsWithDigit (Iso.padded w n ++ rest) := by
  obtain ⟨c, cs, hdigits, hc⟩ := Iso.exists_padded_eq_cons w n
  exact ⟨c, cs ++ rest, by rw [hdigits, List.cons_append], hc⟩

def secondsText (t : TimeOfDay) : List Char :=
  Iso.padded 2 t.hour ++ ':' :: (Iso.padded 2 t.minute ++ ':' :: Iso.padded 2 t.second)

/-- A date with a separator between its fields, and after a space its time to the second. -/
def clockText (sep : Char) (m : Moment) : List Char :=
  Iso.padded 4 m.date.year ++ sep :: (Iso.padded 2 m.date.month ++ sep :: (Iso.padded 2 m.date.day ++
    ' ' :: secondsText m.time))

section
variable (m : Moment)

theorem day_ranges : Element.day.Ranges m.date.day :=
  ⟨m.date.isDate.2.2.2.2.1, (Iso.fields_lt m.date).2.2⟩

theorem readings_yearMonth : readings [.year, .mark '/', .month, .mark '/'] [(unread, clockText '/' m)] =
    [(⟨m.date.year, m.date.month, 1, 0, 0, 0⟩,
      Iso.padded 2 m.date.day ++ ' ' :: secondsText m.time)] := by
  obtain ⟨hyear, hmonth, -⟩ := Iso.fields_lt m.date
  have hmonths : Element.month.Ranges m.date.month := ⟨m.date.isDate.2.2.1, hmonth⟩
  have hstep (f : Fields) (cs : List Char) : step .year (f, Iso.padded 4 m.date.year ++ cs) =
      [(store .year m.date.year f, cs)] := by
    rw [step_year, numbers_year hyear, List.map_singleton]
  have hform : [Element.year, .mark '/', .month, .mark '/'] =
      [Element.year] ++ ([Element.mark '/'] ++ [Element.month, .mark '/']) := rfl
  rw [hform, readings_append, readings_append, clockText, readings_one, hstep, readings_one, step_mark,
    readings_mark hmonths rfl]
  rfl

theorem read?_slashed : read? slashed (clockText '/' m) =
    some (⟨m.date.year, m.date.month, m.date.day, 0, 0, 0⟩,
      ' ' :: secondsText m.time) := by
  have hform : slashed = [Element.year, .mark '/', .month, .mark '/'] ++ [Element.day] := rfl
  rw [read?_eq, hform, readings_append, readings_yearMonth, head?_readings (day_ranges m)]
  rfl

/-- The date and the blanks behind it are read in one way only. -/
theorem readings_date : readings (slashed ++ [Element.blanks]) [(unread, clockText '/' m)] =
    [(⟨m.date.year, m.date.month, m.date.day, 0, 0, 0⟩, secondsText m.time)] := by
  have hform : slashed ++ [Element.blanks] =
      [Element.year, .mark '/', .month, .mark '/'] ++ [Element.day, .blanks] := rfl
  have hrest : StartsWithDigit (secondsText m.time) := startsWithDigit_padded _ _ _
  rw [hform, readings_append, readings_yearMonth, readings_space (day_ranges m) _ hrest]
  rfl

theorem read?_minutes : read? (slashed ++ [Element.blanks, .hour, .mark ':', .minute]) (clockText '/' m) =
    some (⟨m.date.year, m.date.month, m.date.day, m.time.hour, m.time.minute, 0⟩,
      ':' :: Iso.padded 2 m.time.second) := by
  obtain ⟨hhour, hminute, -, -⟩ := m.time.isTime
  have hform : slashed ++ [Element.blanks, .hour, .mark ':', .minute] =
      slashed ++ [Element.blanks] ++ ([Element.hour, .mark ':'] ++ [Element.minute]) := rfl
  rw [read?_eq, hform, readings_append, readings_append, readings_date, secondsText,
    readings_mark (e := .hour) hhour rfl, head?_readings (e := .minute) hminute]
  rfl

theorem read?_seconds :
    read? (slashed ++ [Element.blanks, .hour, .mark ':', .minute, .mark ':', .second]) (clockText '/' m) =
      some (⟨m.date.year, m.date.month, m.date.day, m.time.hour, m.time.minute, m.time.second⟩, []) := by
  obtain ⟨hhour, hminute, hsecond, -⟩ := m.time.isTime
  have hform : slashed ++ [Element.blanks, .hour, .mark ':', .minute, .mark ':', .second] =
      slashed ++ [Element.blanks] ++
        ([Element.hour, .mark ':'] ++ ([Element.minute, .mark ':'] ++ [Element.second])) := rfl
  have hlast (f : Fields) := head?_readings (e := .second) hsecond f []
  simp only [List.append_nil] at hlast
  rw [read?_eq, hform, readings_append, readings_append, readings_append, readings_date, secondsText,
    readings_mark (e := .hour) hhour rfl, readings_mark (e := .minute) hminute rfl, hlast]
  rfl

/-- The form to the second is the first that accounts for the whole text. -/
theorem moment?_clockText : moment? (clockText '/' m) = some m.toSecond := by
  have hdate : Date.of? m.date.year m.date.month m.date.day = some m.date := dif_pos m.date.isDate
  have htime : TimeOfDay.of? m.time.hour m.time.minute m.time.second 0 = some m.time.toSecond :=
    dif_pos m.time.toSecond.isTime
  simp only [moment?, forms, List.findSome?_cons, inForm?, read?_slashed, read?_minutes, read?_seconds, hdate,
    htime]
  rfl

/-- In the international format a date has no slashes. -/
theorem stamp?_clockText : Iso.stamp? (clockText '/' m) = none := by
  obtain ⟨hyear, hmonth, -⟩ := Iso.fields_lt m.date
  obtain ⟨c, d, rest, htext⟩ : ∃ c d rest, clockText '/' m =
      Iso.padded 4 m.date.year ++ '/' :: c :: d :: '/' :: rest := by
    rw [clockText, Iso.padded_two (by omega)]
    exact ⟨_, _, _, rfl⟩
  have hlength := Iso.length_padded (w := 4) (by decide) hyear
  have hdash : some '/' ≠ some '-' := by decide
  have hwidth : Iso.dateWidth (clockText '/' m) = 8 := by
    have hsize : (clockText '/' m).length ≠ 7 := by
      simp only [htext, List.length_append, List.length_cons]
      omega
    have hslash : (clockText '/' m)[4]? = some '/' := by
      rw [htext, Iso.padded_four hyear]
      rfl
    have hweek : some '/' ≠ some 'W' := by decide
    simp only [Iso.dateWidth, hsize, hslash, hdash, hweek, if_false]
  have htake : (clockText '/' m).take 8 = Iso.padded 4 m.date.year ++ ['/', c, d, '/'] := by
    rw [htext, List.take_append, hlength, List.take_of_length_le (by omega)]
    rfl
  have hnone : Iso.digits? 2 ['/', c, d, '/'] = none := Iso.digits?_of_not_isDigit rfl _
  have hdate : Iso.date? (Iso.padded 4 m.date.year ++ ['/', c, d, '/']) = none := by
    rw [Iso.date?, Iso.digits?_padded (by decide) hyear]
    simp only [Option.bind_eq_bind, Option.bind_some, List.head?_cons, hdash, if_false, hnone,
      Option.bind_none]
    rfl
  rw [Iso.stamp?, hwidth, htake, hdate]
  rfl

end

end Written
end NoteQuery
