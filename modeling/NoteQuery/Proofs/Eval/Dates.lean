import NoteQuery.Proofs.Calendar.Written
import NoteQuery.Proofs.Eval.Calls
import NoteQuery.Proofs.Text.Blanks
import NoteQuery.Proofs.Text.Pieces

/-! Dates shown as text, and texts read as dates. A date with a time is displayed in the international
format and is read back from it, so that it is equal to its own text; filled into a format to the second it is
read back to the second. -/

namespace NoteQuery
set_option autoImplicit false
open Text

/-! ### Reading -/

namespace Iso

theorem solid_padded (w n : Nat) : Solid (padded w n) := by
  have hblank : ∀ c ∈ padded w n, isBlank c = false :=
    fun c hc => isBlank_of_isDecimal (isDecimal_of_isDigit (isDigit_of_mem_padded hc))
  obtain ⟨c, cs, hdigits, -⟩ := exists_padded_eq_cons w n
  refine ⟨by rw [hdigits]; exact List.cons_ne_nil _ _, fun c hc => ?_, fun c hc => ?_⟩
  · exact hblank c (List.mem_of_mem_head? hc)
  · exact hblank c (List.mem_of_mem_getLast? hc)

end Iso

namespace Written

theorem solid_clockText (sep : Char) (m : Moment) : Solid (clockText sep m) := by
  have hsolid := (Iso.solid_padded 4 m.date.year).append (Iso.solid_padded 2 m.time.second)
    (sep :: (Iso.padded 2 m.date.month ++ sep :: (Iso.padded 2 m.date.day ++
      ' ' :: (Iso.padded 2 m.time.hour ++ ':' :: (Iso.padded 2 m.time.minute ++ [':'])))))
  simpa only [clockText, secondsText, List.append_assoc, List.cons_append, List.nil_append] using hsolid

/-- With dashes the date is in the international format. -/
theorem clockText_dash (m : Moment) :
    clockText '-' m = Iso.dateText m.date ++ ' ' :: Iso.timeText m.time.toSecond := by
  have htime : Iso.timeText m.time.toSecond = secondsText m.time := by
    rw [Iso.timeText, secondsText, if_pos (show m.time.toSecond.micro = 0 from rfl)]
    simp only [List.append_nil, List.append_assoc, List.cons_append]
    rfl
  rw [htime]
  simp only [clockText, Iso.dateText, List.append_assoc, List.cons_append]

end Written

namespace Moment

variable {cs : List Char} {m : Moment}

theorem ofText?_of_stamp? (hstrip : stripChars cs = cs) (h : Iso.stamp? cs = some (.clock m)) :
    ofText? (String.ofList cs) = .ok (some m) := by
  have hne : cs.isEmpty = false := by
    cases cs with
    | nil => cases h
    | cons c cs => rfl
  rw [ofText?, String.toList_ofList, hstrip]
  simp only [hne, h]
  rfl

theorem ofText?_momentText (m : Moment) : ofText? (String.ofList (Iso.momentText m)) = .ok (some m) :=
  ofText?_of_stamp? (stripChars_of_not_isBlank fun _ hc => Iso.isBlank_of_mem_momentText hc)
    (Iso.stamp?_dateText_timeText m 'T')

theorem ofText?_dashes (m : Moment) :
    ofText? (String.ofList (Written.clockText '-' m)) = .ok (some m.toSecond) := by
  refine ofText?_of_stamp? (stripChars_of_solid (Written.solid_clockText _ m)) ?_
  rw [Written.clockText_dash]
  exact Iso.stamp?_dateText_timeText m.toSecond ' '

theorem ofText?_slashes (m : Moment) :
    ofText? (String.ofList (Written.clockText '/' m)) = .ok (some m.toSecond) := by
  have hsolid := Written.solid_clockText '/' m
  rw [ofText?, String.toList_ofList, stripChars_of_solid hsolid]
  simp only [List.isEmpty_eq_false_iff.mpr hsolid.1, Written.stamp?_clockText, Written.moment?_clockText]
  rfl

end Moment

/-! ### Filling a format -/

namespace DateFunction

/-- A text in which no letters are left. -/
def Filled (cs : List Char) : Prop := ∀ c ∈ cs, c.isAlpha = false

theorem Filled.append {as bs : List Char} (ha : Filled as) (hb : Filled bs) : Filled (as ++ bs) := by
  intro c hc
  exact (List.mem_append.mp hc).elim (ha c) (hb c)

theorem Filled.not_mem {cs : List Char} {c : Char} (h : Filled cs) (hc : c.isAlpha) : c ∉ cs := by
  intro hmem
  rw [h c hmem] at hc
  cases hc

theorem filled_padded (w n : Nat) : Filled (Iso.padded w n) := fun _ hc =>
  forall_isDigit (p := (Char.isAlpha · = false)) (by decide) (Iso.isDigit_of_mem_padded hc)

/-- A place of a format that starts with a letter, what stands before it, and what it is filled with. -/
structure Place where
  gap : List Char
  letter : Char
  more : List Char
  image : List Char
  isGap : Filled gap
  isLetter : letter.isAlpha
  isImage : Filled image

namespace Place

def format (p : Place) : List Char := p.gap ++ p.letter :: p.more

def filled (p : Place) : List Char := p.gap ++ p.image

def fill (cs : List Char) (p : Place) : List Char := replaceFirst (p.letter :: p.more) p.image cs

end Place

/-- Places that are filled in their order are filled each where it stands. -/
theorem foldl_fill (ps : List Place) {as : List Char} (has : Filled as) :
    ps.foldl Place.fill (as ++ ps.flatMap Place.format) = as ++ ps.flatMap Place.filled := by
  induction ps generalizing as with
  | nil => rfl
  | cons p ps ih =>
    have hfirst : Place.fill (as ++ (p :: ps).flatMap Place.format) p =
        as ++ p.filled ++ ps.flatMap Place.format := by
      have hreplace : replaceFirst (p.letter :: p.more) p.image
          (as ++ p.gap ++ (p.letter :: p.more ++ ps.flatMap Place.format)) =
            as ++ p.gap ++ (p.image ++ ps.flatMap Place.format) :=
        replaceFirst_append ((has.append p.isGap).not_mem p.isLetter) p.image
      simpa only [Place.fill, Place.filled, Place.format, List.flatMap_cons, List.append_assoc] using hreplace
    have hfilled : Filled (as ++ p.filled) := has.append (p.isGap.append p.isImage)
    rw [List.foldl_cons, hfirst, ih hfilled, List.flatMap_cons, List.append_assoc]

/-- The places of a format to the second after its year, with a separator in the date. -/
def places (m : Moment) {sep : Char} (hsep : sep.isAlpha = false) : List Place :=
  have hgap {c : Char} (hc : c.isAlpha = false) : Filled [c] := List.forall_mem_singleton.mpr hc
  [⟨[sep], 'M', ['M'], Iso.padded 2 m.date.month, hgap hsep, rfl, filled_padded _ _⟩,
    ⟨[sep], 'D', ['D'], Iso.padded 2 m.date.day, hgap hsep, rfl, filled_padded _ _⟩,
    ⟨[' '], 'H', ['H'], Iso.padded 2 m.time.hour, hgap rfl, rfl, filled_padded _ _⟩,
    ⟨[':'], 'm', ['m'], Iso.padded 2 m.time.minute, hgap rfl, rfl, filled_padded _ _⟩,
    ⟨[':'], 's', ['s'], Iso.padded 2 m.time.second, hgap rfl, rfl, filled_padded _ _⟩]

/-- The format to the second, with a separator in the date. -/
def clockFormat (sep : Char) : List Char :=
  ['Y', 'Y', 'Y', 'Y', sep, 'M', 'M', sep, 'D', 'D', ' ', 'H', 'H', ':', 'm', 'm', ':', 's', 's']

theorem formatted_clockFormat (m : Moment) {sep : Char} (hsep : sep.isAlpha = false) :
    formatted m (clockFormat sep) = Written.clockText sep m := by
  have hyear : replaceFirst ['Y', 'Y', 'Y', 'Y'] (Iso.padded 4 m.date.year) (clockFormat sep) =
      Iso.padded 4 m.date.year ++ (places m hsep).flatMap Place.format :=
    @replaceFirst_append 'Y' ['Y', 'Y', 'Y'] [] _ List.not_mem_nil (Iso.padded 4 m.date.year)
  -- once the year is there in full, its short form has no place left
  have hshort : 'Y' ∉ Iso.padded 4 m.date.year ++ (places m hsep).flatMap Place.format := by
    have hne : 'Y' ≠ sep := by
      rintro rfl
      cases hsep
    refine fun h => (List.mem_append.mp h).elim ((filled_padded _ _).not_mem rfl) fun h => ?_
    simp [places, Place.format, hne] at h
  calc formatted m (clockFormat sep)
    _ = (places m hsep).foldl Place.fill (replaceFirst ['Y', 'Y'] ((Iso.padded 4 m.date.year).drop 2)
          (replaceFirst ['Y', 'Y', 'Y', 'Y'] (Iso.padded 4 m.date.year) (clockFormat sep))) := by
      simp only [formatted, substitutions, places, Place.fill, List.foldl_cons, List.foldl_nil]
      rfl
    _ = (places m hsep).foldl Place.fill
          (Iso.padded 4 m.date.year ++ (places m hsep).flatMap Place.format) := by
      rw [hyear, replaceFirst_of_not_mem hshort]
    _ = Iso.padded 4 m.date.year ++ (places m hsep).flatMap Place.filled :=
      foldl_fill _ (filled_padded _ _)
    _ = Written.clockText sep m := by
      simp only [places, List.flatMap_cons, List.flatMap_nil, Place.filled, Written.clockText,
        Written.secondsText, List.cons_append, List.nil_append, List.append_nil]

/-! ### Calls -/

theorem lowerChars_of_isDigit {c : Char} (h : c.isDigit) (cs : List Char) :
    ∃ ds, lowerChars (c :: cs) = c :: ds := by
  obtain ⟨hlower, hsigma, hdotted⟩ := forall_isDigit
    (p := fun c => lowerChar c = c ∧ (c == 'Σ') = false ∧ (c == 'İ') = false) (by decide +kernel) h
  refine ⟨lowerFrom [c] cs, ?_⟩
  rw [lowerChars, lowerFrom]
  simp only [hsigma, hdotted, hlower, Bool.false_eq_true, if_false, List.cons_append, List.nil_append]

theorem named?_of_isDigit {c : Char} (h : c.isDigit) (cs : List Char) (now : Moment) :
    named? now (String.ofList (c :: cs)) = .ok none := by
  have hhead (word : String) (hword : word.toList.head?.any Char.isDigit = false) :
      String.ofList (c :: cs) ≠ word := by
    rintro rfl
    rw [String.toList_ofList, List.head?_cons, Option.any_some, h] at hword
    cases hword
  unfold named?
  split
  · next heq => exact absurd heq (hhead _ (by decide))
  · next heq => exact absurd heq (hhead _ (by decide))
  · next heq => exact absurd heq (hhead _ (by decide))
  · next heq => exact absurd heq (hhead _ (by decide))
  · rfl

/-- A text that starts with a digit names no day. -/
theorem date_of_isDigit {c : Char} {cs : List Char} {m : Moment} (h : c.isDigit) (hsolid : Solid (c :: cs))
    (hm : Moment.ofText? (String.ofList (c :: cs)) = .ok (some m)) (now : Moment) :
    date now (.text (String.ofList (c :: cs))) = .ok (.date (.clock m)) := by
  obtain ⟨ds, hlower⟩ := lowerChars_of_isDigit h cs
  have hname : named? now (Text.lower (Text.strip (String.ofList (c :: cs)))) = .ok none := by
    rw [Text.strip, String.toList_ofList, stripChars_of_solid hsolid, Text.lower, String.toList_ofList,
      hlower]
    exact named?_of_isDigit h ds now
  simp only [date, hname, Value.moment?, hm]
  rfl

theorem dateFormat_clock (m : Moment) (format : String) : dateFormat (.date (.clock m)) (.text format) =
    .ok (.text (String.ofList (formatted m format.toList))) := rfl

end DateFunction

/-- Filled into a format, a moment is read back to the second. -/
def Moment.IsKeptBy (format : String) (m : Moment) : Prop :=
  ∀ now apply, ∃ s, callByName now apply "dateformat" [.date (.clock m), .text format] = .ok (.text s) ∧
    callByName now apply "date" [.text s] = .ok (.date (.clock m.toSecond))

theorem Moment.isKeptBy_clockFormat (m : Moment) (sep : Char) (hsep : sep.isAlpha = false)
    (h : ofText? (String.ofList (Written.clockText sep m)) = .ok (some m.toSecond)) :
    m.IsKeptBy (String.ofList (DateFunction.clockFormat sep)) := by
  intro now apply
  have hformatted := DateFunction.formatted_clockFormat m hsep
  obtain ⟨c, cs, htext, hc⟩ : ∃ c cs, Written.clockText sep m = c :: cs ∧ c.isDigit :=
    Written.startsWithDigit_padded _ _ _
  have hsolid := Written.solid_clockText sep m
  rw [htext] at h hformatted hsolid
  refine ⟨String.ofList (c :: cs), callByName_eq_ok (b := .dateFormat) (by decide +kernel) rfl ?_,
    callByName_eq_ok (b := .date) (by decide +kernel) rfl (DateFunction.date_of_isDigit hc hsolid h now)⟩
  refine (DateFunction.dateFormat_clock m _).trans ?_
  rw [String.toList_ofList, hformatted]

theorem Value.onMoments_eq {a b : Value} {m n : Moment} (ha : a.moment? = .ok (some m))
    (hb : b.moment? = .ok (some n)) (test : Moment → Moment → Bool) :
    onMoments test a b = .ok (test m n) := by
  rw [onMoments, ha, hb]
  rfl

/-- A moment is read back from its displayed text, so that it is equal to the text, and neither is less; and
to the second it is read back from a format with dashes or slashes. -/
theorem Moment.survives_writing (m : Moment) :
    (∃ s, (Value.date (.clock m)).display = .ok s ∧ ofText? s = .ok (some m) ∧
      Value.equal (.date (.clock m)) (.text s) = .ok true ∧
      Value.equal (.text s) (.date (.clock m)) = .ok true ∧
      Value.less (.date (.clock m)) (.text s) = .ok false ∧
      Value.less (.text s) (.date (.clock m)) = .ok false) ∧
    m.IsKeptBy "YYYY-MM-DD HH:mm:ss" ∧ m.IsKeptBy "YYYY/MM/DD HH:mm:ss" := by
  have hdate : (Value.date (.clock m)).moment? = .ok (some m) := rfl
  have htext : (Value.text (String.ofList (Iso.momentText m))).moment? = .ok (some m) := ofText?_momentText m
  have hsame : decide (m = m) = true := decide_eq_true rfl
  have hless : m.lt m = false := decide_eq_false (Nat.lt_irrefl _)
  refine ⟨⟨String.ofList (Iso.momentText m), rfl, ofText?_momentText m, ?_, ?_, ?_, ?_⟩,
    m.isKeptBy_clockFormat '-' rfl (ofText?_dashes m),
    m.isKeptBy_clockFormat '/' rfl (ofText?_slashes m)⟩
  · exact (Value.onMoments_eq hdate htext _).trans (congrArg Except.ok hsame)
  · exact (Value.onMoments_eq htext hdate _).trans (congrArg Except.ok hsame)
  · exact (Value.onMoments_eq hdate htext _).trans (congrArg Except.ok hless)
  · exact (Value.onMoments_eq htext hdate _).trans (congrArg Except.ok hless)

end NoteQuery
