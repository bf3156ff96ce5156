import NoteQuery.Eval.Context
import NoteQuery.Proofs.Outcome.Yields
import NoteQuery.Value.Compare
import NoteQuery.Value.Key

/-! Dates in values. Comparing, grouping and displaying values fails only where a date, or a text that is
read as one, has no moment in universal time; such dates lie within a day of the ends of the calendar. -/

namespace NoteQuery
set_option autoImplicit false

/-- A date has a moment in universal time. -/
def Stamp.InCalendar (d : Stamp) : Prop := FailsOnly (fun _ => False) d.moment

namespace Value

variable {bad : RangeError → Prop} {texts : String → Prop} {dates : Stamp → Prop}

mutual

/-- What holds of every text and of every date in a value. -/
def Holds (texts : String → Prop) (dates : Stamp → Prop) : Value → Prop
  | text s => texts s
  | date d => dates d
  | array items => AllHold texts dates items
  | object entries => EntriesHold texts dates entries
  | _ => True

def AllHold (texts : String → Prop) (dates : Stamp → Prop) : List Value → Prop
  | [] => True
  | v :: vs => v.Holds texts dates ∧ AllHold texts dates vs

def EntriesHold (texts : String → Prop) (dates : Stamp → Prop) : List (String × Value) → Prop
  | [] => True
  | (_, v) :: es => v.Holds texts dates ∧ EntriesHold texts dates es

end

theorem allHold_iff {vs : List Value} : AllHold texts dates vs ↔ ∀ v ∈ vs, v.Holds texts dates := by
  induction vs with
  | nil => simp [AllHold]
  | cons v vs ih => rw [AllHold, ih, List.forall_mem_cons]

theorem entriesHold_iff {es : List (String × Value)} :
    EntriesHold texts dates es ↔ ∀ e ∈ es, e.2.Holds texts dates := by
  induction es with
  | nil => simp [EntriesHold]
  | cons e es ih => rw [EntriesHold, ih, List.forall_mem_cons]

mutual

theorem holds_of_all (ht : ∀ s, texts s) (hd : ∀ d, dates d) : (v : Value) → v.Holds texts dates
  | text s => by rw [Holds]; exact ht s
  | date d => by rw [Holds]; exact hd d
  | array items => by rw [Holds]; exact allHold_of_all ht hd items
  | object entries => by rw [Holds]; exact entriesHold_of_all ht hd entries
  | null | bool _ | number _ | function .. => by simp [Holds]

theorem allHold_of_all (ht : ∀ s, texts s) (hd : ∀ d, dates d) :
    (vs : List Value) → AllHold texts dates vs
  | [] => by rw [AllHold]; trivial
  | v :: vs => by rw [AllHold]; exact ⟨holds_of_all ht hd v, allHold_of_all ht hd vs⟩

theorem entriesHold_of_all (ht : ∀ s, texts s) (hd : ∀ d, dates d) :
    (es : List (String × Value)) → EntriesHold texts dates es
  | [] => by rw [EntriesHold]; trivial
  | (_, v) :: es => by rw [EntriesHold]; exact ⟨holds_of_all ht hd v, entriesHold_of_all ht hd es⟩

end

/-! ### Members -/

theorem holds_get {r : Record} (h : EntriesHold texts dates r) (key : String) :
    (Record.get r key).Holds texts dates := by
  unfold Record.get Record.get?
  induction r with
  | nil => simp [Holds]
  | cons e r ih =>
    obtain ⟨k, v⟩ := e
    rw [EntriesHold] at h
    rw [List.lookup_cons]
    by_cases hk : key == k
    · simpa [hk] using h.1
    · simpa [hk] using ih h.2

theorem holds_getElem? {vs : List Value} (h : AllHold texts dates vs) (i : Nat) :
    ((vs[i]?).getD null).Holds texts dates := by
  cases hv : vs[i]? with
  | none => simp [Holds]
  | some v => exact allHold_iff.mp h v (List.mem_of_getElem? hv)

theorem holds_itemAt {vs : List Value} (h : AllHold texts dates vs) (n : Number) :
    (itemAt vs n).Holds texts dates := by
  unfold itemAt
  split
  · exact holds_getElem? h _
  · simp [Holds]

/-! ### Dates -/

/-- The dates of a value, and the texts that are read as dates, have moments, or fail to as `bad`
says. -/
abbrev Dated (bad : RangeError → Prop) : Value → Prop :=
  Holds (fun s => FailsOnly bad (Moment.ofText? s)) fun d => FailsOnly bad d.moment

abbrev AllDated (bad : RangeError → Prop) : List Value → Prop :=
  AllHold (fun s => FailsOnly bad (Moment.ofText? s)) fun d => FailsOnly bad d.moment

abbrev EntriesDated (bad : RangeError → Prop) : List (String × Value) → Prop :=
  EntriesHold (fun s => FailsOnly bad (Moment.ofText? s)) fun d => FailsOnly bad d.moment

/-- Every date of a value, and every text that is read as one, has a moment in universal time. -/
def InCalendar (v : Value) : Prop := v.Dated fun _ => False

/-- Every date of a value has a moment; its texts may be anything. -/
def DatesInCalendar (v : Value) : Prop := v.Holds (fun _ => True) Stamp.InCalendar

theorem inCalendar_zoned {m : Moment} {offset : Int}
    (h : (Moment.ofMicros? (m.micros - offset)).isSome) : (date (.zoned m offset)).InCalendar := by
  rw [InCalendar, Dated, Holds, Stamp.moment]
  split
  · trivial
  · next hnone =>
    rw [hnone] at h
    cases h

theorem failsOnly_moment (d : Stamp) : FailsOnly (· = .dateOutOfRange) d.moment := by
  cases d with
  | day d => trivial
  | clock m => trivial
  | zoned m offset =>
    rw [Stamp.moment]
    split
    · trivial
    · exact rfl

theorem failsOnly_ofText? (s : String) : FailsOnly (· = .dateOutOfRange) (Moment.ofText? s) := by
  rw [Moment.ofText?]
  split
  · trivial
  · split
    · exact Yields.map (failsOnly_moment _)
    · trivial

/-- A date without a moment is always out of range. -/
theorem dated_of_any (v : Value) : v.Dated (· = .dateOutOfRange) :=
  holds_of_all failsOnly_ofText? failsOnly_moment v

theorem entriesDated_of_any (es : List (String × Value)) : EntriesDated (· = .dateOutOfRange) es :=
  entriesHold_of_all failsOnly_ofText? failsOnly_moment es

/-! ### Text -/

theorem failsOnly_dateText {d : Stamp} (h : FailsOnly bad d.moment) : FailsOnly bad (dateText d) :=
  h.bind fun _ _ => trivial

mutual

theorem failsOnly_toJson : (v : Value) → v.Dated bad → FailsOnly bad v.toJson
  | date d, h => by
    rw [Dated, Holds] at h
    rw [toJson]
    exact (failsOnly_dateText h).map
  | array items, h => by
    rw [Dated, Holds] at h
    rw [toJson]
    exact (failsOnly_itemsToJson items h).map
  | object entries, h => by
    rw [Dated, Holds] at h
    rw [toJson]
    exact (failsOnly_entriesToJson entries h).map
  | null, _ | bool _, _ | number _, _ | text _, _ | function .., _ => by rw [toJson]; trivial

theorem failsOnly_itemsToJson : (vs : List Value) → AllDated bad vs → FailsOnly bad (itemsToJson vs)
  | [], _ => by rw [itemsToJson]; trivial
  | v :: vs, h => by
    rw [AllDated, AllHold] at h
    rw [itemsToJson]
    refine (failsOnly_toJson v h.1).bind fun _ _ => ?_
    exact (failsOnly_itemsToJson vs h.2).bind fun _ _ => trivial

theorem failsOnly_entriesToJson :
    (es : List (String × Value)) → EntriesDated bad es → FailsOnly bad (entriesToJson es)
  | [], _ => by rw [entriesToJson]; trivial
  | (_, v) :: es, h => by
    rw [EntriesDated, EntriesHold] at h
    rw [entriesToJson]
    refine (failsOnly_toJson v h.1).bind fun _ _ => ?_
    exact (failsOnly_entriesToJson es h.2).bind fun _ _ => trivial

end

mutual

theorem failsOnly_display : (v : Value) → v.Dated bad → FailsOnly bad v.display
  | date d, h => by
    rw [Dated, Holds] at h
    rw [display]
    exact failsOnly_dateText h
  | array items, h => by
    rw [Dated, Holds] at h
    rw [display]
    exact (failsOnly_displayAll items h).bind fun _ _ => trivial
  | object entries, h => by
    rw [Dated, Holds] at h
    rw [display]
    exact (failsOnly_entriesToJson entries h).bind fun _ _ => trivial
  | null, _ | bool _, _ | number _, _ | text _, _ | function .., _ => by rw [display]; trivial

theorem failsOnly_displayAll : (vs : List Value) → AllDated bad vs → FailsOnly bad (displayAll vs)
  | [], _ => by rw [displayAll]; trivial
  | v :: vs, h => by
    rw [AllDated, AllHold] at h
    rw [displayAll]
    refine (failsOnly_display v h.1).bind fun _ _ => ?_
    exact (failsOnly_displayAll vs h.2).bind fun _ _ => trivial

end

theorem failsOnly_display_ofLiteral (v : Literal) : FailsOnly bad (ofLiteral v).display := by
  cases v <;> rw [ofLiteral, display] <;> trivial

/-- A member is there or null; only the text of a key may be out of range. -/
theorem yields_member {v key : Value} (hv : v.Dated bad) (hkey : FailsOnly bad key.display) :
    Yields (Dated bad) bad (v.member key) := by
  have hnull : null.Dated bad := by simp [Holds]
  unfold member
  split
  · split
    · simp [Yields, int, Holds]
    · exact hnull
  · rw [Dated, Holds] at hv
    exact holds_itemAt hv _
  · rw [Dated, Holds] at hv
    exact hkey.bind fun k _ => holds_get hv k
  · exact hnull

/-! ### Comparison -/

theorem failsOnly_moment? {v : Value} (h : v.Dated bad) : FailsOnly bad v.moment? := by
  cases v with
  | date d =>
    rw [Dated, Holds] at h
    exact Yields.map h
  | text s =>
    rw [Dated, Holds] at h
    exact h
  | _ => trivial

theorem failsOnly_onMoments (test : Moment → Moment → Bool) {a b : Value} (ha : a.Dated bad)
    (hb : b.Dated bad) : FailsOnly bad (onMoments test a b) := by
  refine (failsOnly_moment? ha).bind fun m _ => ?_
  refine (failsOnly_moment? hb).bind fun n _ => ?_
  cases m with
  | none => trivial
  | some m => cases n <;> trivial

mutual

/-- Values are compared in depth as long as their dates have moments, whatever their texts are. -/
theorem failsOnly_deepEqual (hd : ∀ d, dates d → FailsOnly bad d.moment) : (a b : Value) →
    a.Holds texts dates → b.Holds texts dates → FailsOnly bad (deepEqual a b)
  | date a, b, ha, hb => by
    cases b with
    | date b =>
      rw [Holds] at ha hb
      rw [deepEqual]
      exact (hd a ha).bind fun _ _ => (hd b hb).bind fun _ _ => trivial
    | _ => simp [deepEqual, Yields]
  | array as, b, ha, hb => by
    cases b with
    | array bs =>
      rw [Holds] at ha hb
      rw [deepEqual]
      split
      · exact failsOnly_itemsEqual hd as bs ha hb
      · trivial
    | _ => simp [deepEqual, Yields]
  | object as, b, ha, hb => by
    cases b with
    | object bs =>
      rw [Holds] at ha hb
      rw [deepEqual]
      split
      · exact failsOnly_entriesEqual hd as bs ha hb
      · trivial
    | _ => simp [deepEqual, Yields]
  | null, b, _, _ | bool _, b, _, _ | number _, b, _, _ | text _, b, _, _ | function .., b, _, _ => by
    cases b <;> simp [deepEqual, Yields]

theorem failsOnly_itemsEqual (hd : ∀ d, dates d → FailsOnly bad d.moment) : (as bs : List Value) →
    AllHold texts dates as → AllHold texts dates bs → FailsOnly bad (itemsEqual as bs)
  | [], bs, _, _ => by cases bs <;> simp [itemsEqual, Yields]
  | a :: as, [], _, _ => by simp [itemsEqual, Yields]
  | a :: as, b :: bs, ha, hb => by
    rw [AllHold] at ha hb
    rw [itemsEqual]
    refine (failsOnly_deepEqual hd a b ha.1 hb.1).bind fun same _ => ?_
    split
    · exact failsOnly_itemsEqual hd as bs ha.2 hb.2
    · trivial

theorem failsOnly_entriesEqual (hd : ∀ d, dates d → FailsOnly bad d.moment) :
    (as : List (String × Value)) → (bs : Record) → EntriesHold texts dates as →
    EntriesHold texts dates bs → FailsOnly bad (entriesEqual as bs)
  | [], bs, _, _ => by rw [entriesEqual]; trivial
  | (k, a) :: as, bs, ha, hb => by
    rw [EntriesHold] at ha
    rw [entriesEqual]
    refine (failsOnly_deepEqual hd a (Record.get bs k) ha.1 (holds_get hb k)).bind fun same _ => ?_
    split
    · exact failsOnly_entriesEqual hd as bs ha.2 hb
    · trivial

end

section
variable {a b : Value} (ha : a.Dated bad) (hb : b.Dated bad)
include ha hb

theorem failsOnly_equal : FailsOnly bad (equal a b) := by
  unfold equal
  split
  · exact failsOnly_onMoments _ ha hb
  · split
    · trivial
    · exact failsOnly_deepEqual (fun _ hd => hd) a b ha hb

theorem failsOnly_less : FailsOnly bad (less a b) := by
  unfold less
  split
  · exact failsOnly_onMoments _ ha hb
  · split <;> trivial

theorem failsOnly_compare : FailsOnly bad (compare a b) := by
  refine (failsOnly_less ha hb).bind fun isLess _ => ?_
  split
  · trivial
  · refine (failsOnly_less hb ha).bind fun isGreater _ => ?_
    split <;> trivial

end

/-! ### Keys -/

mutual

theorem failsOnly_key (hd : ∀ d, dates d → FailsOnly bad d.moment) :
    (v : Value) → v.Holds texts dates → FailsOnly bad v.key
  | date d, h => by
    rw [Holds] at h
    rw [key]
    exact Yields.map (hd d h)
  | array items, h => by
    rw [Holds] at h
    rw [key]
    exact (failsOnly_itemKeys hd items h).map
  | object entries, h => by
    rw [Holds] at h
    rw [key]
    exact (failsOnly_entryKeys hd entries h).bind fun _ _ => trivial
  | null, _ | bool _, _ | number _, _ | text _, _ | function .., _ => by rw [key]; trivial

theorem failsOnly_itemKeys (hd : ∀ d, dates d → FailsOnly bad d.moment) :
    (vs : List Value) → AllHold texts dates vs → FailsOnly bad (itemKeys vs)
  | [], _ => by rw [itemKeys]; trivial
  | v :: vs, h => by
    rw [AllHold] at h
    rw [itemKeys]
    refine (failsOnly_key hd v h.1).bind fun _ _ => ?_
    exact (failsOnly_itemKeys hd vs h.2).bind fun _ _ => trivial

theorem failsOnly_entryKeys (hd : ∀ d, dates d → FailsOnly bad d.moment) :
    (es : List (String × Value)) → EntriesHold texts dates es → FailsOnly bad (entryKeys es)
  | [], _ => by rw [entryKeys]; trivial
  | (_, v) :: es, h => by
    rw [EntriesHold] at h
    rw [entryKeys]
    refine (failsOnly_key hd v h.1).bind fun _ _ => ?_
    exact (failsOnly_entryKeys hd es h.2).bind fun _ _ => trivial

end

end Value

end NoteQuery
