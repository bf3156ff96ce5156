import NoteQuery.Proofs.Number.Overflow
import NoteQuery.Proofs.Value.Dates
import NoteQuery.Query.Group

/-! Grouping rows. The groups are always there, and so are their aggregates, as long as paths use no digits
without place value as positions and all dates lie within the calendar, except for four kinds of
aggregates: sums and means can go out of range, and extremes can meet a text that is read as a date
beyond the calendar. -/

namespace NoteQuery
set_option autoImplicit false
open Text

/-! ### Paths -/

namespace Row

/-- Whether every part of a path that looks like a position is one. -/
def isPlain (path : String) : Bool :=
  (pathParts path).all fun part => !part.toList.all isDigitLike || part.toList.all isDecimal

/-- What holds of every text and of every date in the fields of a row and in the facts about its file. -/
def Holds (texts : String → Prop) (dates : Stamp → Prop) (r : Row) : Prop :=
  Value.EntriesHold texts dates r.fields ∧ Value.EntriesHold texts dates r.file.record

/-- The value at a path, null where there is none. -/
def valueAt (r : Row) (path : String) : Value := (r.lookup path).toOption.getD .null

variable {texts : String → Prop} {dates : Stamp → Prop} {r : Row} {path : String}

theorem holds_of_all (ht : ∀ s, texts s) (hd : ∀ d, dates d) (r : Row) : r.Holds texts dates :=
  ⟨Value.entriesHold_of_all ht hd _, Value.entriesHold_of_all ht hd _⟩

theorem yields_child {v : Value} {part : String} (hv : v.Holds texts dates)
    (hpart : (!part.toList.all isDigitLike || part.toList.all isDecimal) = true) :
    Yields (Value.Holds texts dates) (fun _ => False) (child v part) := by
  have hnull : Value.null.Holds texts dates := by simp [Value.Holds]
  unfold child
  split
  · rw [Value.Holds] at hv
    exact Value.holds_get hv part
  · rw [Value.Holds] at hv
    dsimp only
    split
    · exact hnull
    · split
      · exact Value.holds_getElem? hv _
      · next hlike hdecimal => simp_all
  · exact hnull

theorem yields_descend {v : Value} {parts : List String} (hv : v.Holds texts dates)
    (hparts : ∀ part ∈ parts, (!part.toList.all isDigitLike || part.toList.all isDecimal) = true) :
    Yields (Value.Holds texts dates) (fun _ => False) (descend v parts) := by
  induction parts generalizing v with
  | nil => exact hv
  | cons part parts ih =>
    rw [List.forall_mem_cons] at hparts
    rw [descend]
    refine (yields_child hv hparts.1).bind fun w hw => ?_
    split
    · exact hw
    · exact ih hw hparts.2

theorem yields_lookup (hr : r.Holds texts dates) (hpath : isPlain path = true) :
    Yields (Value.Holds texts dates) (fun _ => False) (r.lookup path) := by
  have hnull : Value.null.Holds texts dates := by simp [Value.Holds]
  rw [isPlain, List.all_eq_true] at hpath
  unfold lookup
  split
  · exact hnull
  · next first rest hparts =>
    rw [hparts, List.forall_mem_cons] at hpath
    split
    · next v hv =>
      have hfirst := Value.holds_get hr.1 first
      rw [Record.get, hv] at hfirst
      exact yields_descend hfirst hpath.2
    · split
      · refine yields_descend ?_ hpath.2
        rw [Value.Holds]
        exact hr.2
      · exact hnull

/-- A path of one name leads to the field of that name. -/
theorem lookup_field {v : Value} (hparts : pathParts path = [path]) (hv : r.fields.get? path = some v) :
    r.lookup path = .ok v := by
  rw [lookup, hparts]
  simp only [hv]
  rfl

theorem lookup_valueAt {v : Value} (h : r.lookup path = .ok v) :
    r.lookup path = .ok (r.valueAt path) := by
  rw [valueAt, h]
  rfl

theorem lookup_eq (r : Row) (hpath : isPlain path = true) : r.lookup path = .ok (r.valueAt path) := by
  have hall : r.Holds (fun _ => True) fun _ => True := holds_of_all (by simp) (by simp) r
  obtain ⟨v, hv, -⟩ := (yields_lookup hall hpath).exists_ok
  exact lookup_valueAt hv

theorem valuesAt_eq (rows : List Row) (hpath : isPlain path = true) :
    Aggregate.valuesAt rows path = .ok (rows.map (·.valueAt path)) :=
  mapM_eq_ok fun r _ => lookup_eq r hpath

end Row

/-! ### Groups -/

namespace Value

variable {texts : String → Prop} {dates : Stamp → Prop}

theorem entriesHold_insert {r : Record} {v : Value} (hr : EntriesHold texts dates r) (key : String)
    (hv : v.Holds texts dates) : EntriesHold texts dates (Record.insert r key v) := by
  induction r with
  | nil =>
    rw [Record.insert, EntriesHold]
    exact ⟨hv, hr⟩
  | cons e r ih =>
    rw [EntriesHold] at hr
    rw [Record.insert]
    split
    · rw [EntriesHold]
      exact ⟨hv, hr.2⟩
    · rw [EntriesHold]
      exact ⟨hr.1, ih hr.2⟩

theorem entriesHold_ofList {es : List (String × Value)} (hes : EntriesHold texts dates es) :
    EntriesHold texts dates (Record.ofList es) := by
  have hfold (r : Record) (hr : EntriesHold texts dates r) :
      EntriesHold texts dates (es.foldl (fun r e => Record.insert r e.1 e.2) r) := by
    induction es generalizing r with
    | nil => exact hr
    | cons e es ih =>
      rw [EntriesHold] at hes
      exact ih hes.2 _ (entriesHold_insert hr e.1 hes.1)
  exact hfold [] (by rw [EntriesHold]; trivial)

theorem allHold_map_snd {es : List (String × Value)} (hes : EntriesHold texts dates es) :
    AllHold texts dates (es.map (·.2)) := by
  rw [allHold_iff, List.forall_mem_map]
  exact entriesHold_iff.mp hes

end Value

/-- Every date of a row has a moment; its texts may be anything. -/
def Row.DatesInCalendar (r : Row) : Prop := r.Holds (fun _ => True) Stamp.InCalendar

namespace Group

variable {paths : List String} {rows : List Row}

theorem yields_recordOf {texts : String → Prop} {dates : Stamp → Prop} {r : Row}
    (hpaths : ∀ p ∈ paths, Row.isPlain p = true) (hr : r.Holds texts dates) :
    Yields (Value.EntriesHold texts dates) (fun _ => False) (recordOf paths r) := by
  have hentries : Yields (fun es => ∀ e ∈ es, e.2.Holds texts dates) (fun _ => False)
      (paths.mapM fun p => do return (p, ← r.lookup p)) :=
    Yields.mapM fun p hp => (Row.yields_lookup hr (hpaths p hp)).bind fun v hv => hv
  exact hentries.bind fun es hes => Value.entriesHold_ofList (Value.entriesHold_iff.mpr hes)

theorem yields_ofRow {r : Row} (hpaths : ∀ p ∈ paths, Row.isPlain p = true)
    (hr : r.DatesInCalendar) :
    FailsOnly (fun _ => False) (ofRow paths r) := by
  refine (yields_recordOf hpaths hr).bind fun record hrecord => ?_
  have hkeys : FailsOnly (fun _ => False) (Value.itemKeys (record.map (·.2))) :=
    Value.failsOnly_itemKeys (fun _ hd => hd) _ (Value.allHold_map_snd hrecord)
  exact hkeys.lift.bind fun _ _ => trivial

theorem yields_ofRows (hpaths : ∀ p ∈ paths, Row.isPlain p = true)
    (hrows : ∀ r ∈ rows, r.DatesInCalendar) : FailsOnly (fun _ => False) (ofRows paths rows) :=
  Yields.foldlM trivial fun _ _ r hr => (yields_ofRow hpaths (hrows r hr)).bind fun _ _ => trivial

end Group

/-! ### Aggregates -/

namespace Aggregate

theorem failsOnly_bestFrom {bad : RangeError → Prop} (better : Ordering) {best : Value}
    {vs : List Value} (hbest : best.Dated bad) (hvs : ∀ v ∈ vs, v.Dated bad) :
    FailsOnly bad (bestFrom better best vs) := by
  induction vs generalizing best with
  | nil => trivial
  | cons v vs ih =>
    rw [List.forall_mem_cons] at hvs
    rw [bestFrom]
    refine (Value.failsOnly_compare hvs.1 hbest).bind fun _ _ => ?_
    split
    · exact ih hvs.1 hvs.2
    · exact ih hbest hvs.2

theorem failsOnly_extreme {bad : RangeError → Prop} (better : Ordering) {vs : List Value}
    (hvs : ∀ v ∈ vs, v.Dated bad) : FailsOnly bad (extreme better vs) := by
  have hpresent : ∀ v ∈ vs.filter fun v => !v.isNull, v.Dated bad :=
    fun v hv => hvs v (List.mem_of_mem_filter hv)
  unfold extreme
  split
  · trivial
  · next hfilter =>
    rw [hfilter, List.forall_mem_cons] at hpresent
    exact failsOnly_bestFrom better hpresent.1 hpresent.2

def isPlain (a : Aggregate) : Bool := a.path?.all Row.isPlain

/-- The numbers at a path of rows. -/
def numbersAt (rows : List Row) (path : String) : List Number :=
  rows.filterMap fun r => (r.valueAt path).asNumber?

/-- An aggregate of rows goes out of range, or, for an extreme, may do so. -/
def Overflows (a : Aggregate) (rows : List Row) : Prop :=
  ∃ path, a.path? = some path ∧
    match a.kind with
    | .sum => Number.SumOverflows (numbersAt rows path)
    | .avg => Number.MeanOverflows (numbersAt rows path)
    | .min | .max => ∃ r ∈ rows, ¬(r.valueAt path).InCalendar
    | _ => False

variable {a : Aggregate} {rows : List Row} {path : String}

theorem filterMap_valuesAt (rows : List Row) (path : String) :
    (rows.map (·.valueAt path)).filterMap Value.asNumber? = numbersAt rows path :=
  List.filterMap_map ..

theorem pick_fails {path? : Option String} (hplain : path?.all Row.isPlain = true)
    (r? : Option Row) : FailsOnly (fun _ => False) (pick path? r?) := by
  unfold pick
  split
  · trivial
  · next r =>
    split
    · rw [Row.lookup_eq r (by simpa using hplain)]
      trivial
    · trivial

theorem valuesAt_eq (hplain : a.isPlain = true) (hpath : a.path? = some path) :
    valuesAt rows path = .ok (rows.map (·.valueAt path)) := by
  rw [isPlain, hpath, Option.all_some] at hplain
  exact Row.valuesAt_eq rows hplain

theorem compute_sum (hplain : a.isPlain = true) (hkind : a.kind = .sum)
    (hpath : a.path? = some path) :
    a.compute rows = (do return .number (← Number.sum (numbersAt rows path))) := by
  unfold compute
  rw [hkind, hpath]
  dsimp only
  rw [valuesAt_eq hplain hpath, ← filterMap_valuesAt]
  rfl

theorem compute_avg (hplain : a.isPlain = true) (hkind : a.kind = .avg)
    (hpath : a.path? = some path) :
    a.compute rows = (do
      match ← Number.average? (numbersAt rows path) with
      | some n => return .number n
      | none => return .null) := by
  unfold compute
  rw [hkind, hpath]
  dsimp only
  rw [valuesAt_eq hplain hpath, ← filterMap_valuesAt]
  rfl

theorem overflows_iff (rows : List Row) (hpath : a.path? = some path) :
    a.Overflows rows ↔
      match a.kind with
      | .sum => Number.SumOverflows (numbersAt rows path)
      | .avg => Number.MeanOverflows (numbersAt rows path)
      | .min | .max => ∃ r ∈ rows, ¬(r.valueAt path).InCalendar
      | _ => False := by
  rw [Overflows]
  refine ⟨fun ⟨p, hp, h⟩ => ?_, fun h => ⟨path, hpath, h⟩⟩
  cases hpath.symm.trans hp
  exact h

/-- Exactly the sums and means that go out of range have no value. -/
theorem compute_error_iff (hplain : a.isPlain = true) (hkind : a.kind = .sum ∨ a.kind = .avg) :
    (∃ f, a.compute rows = .error f) ↔ a.Overflows rows := by
  cases hpath : a.path? with
  | none =>
    have hcompute : a.compute rows = .ok .null := by
      unfold compute
      obtain hkind | hkind := hkind <;> rw [hkind, hpath]
    refine iff_of_false (fun ⟨_, hf⟩ => ?_) fun ⟨path, hsome, _⟩ => ?_
    · rw [hcompute] at hf
      cases hf
    · rw [hpath] at hsome
      cases hsome
  | some path =>
    have hoverflows := overflows_iff rows hpath
    obtain hkind | hkind := hkind
    · rw [hkind] at hoverflows
      rw [hoverflows, compute_sum hplain hkind hpath]
      cases hsum : Number.sum (numbersAt rows path) with
      | ok n =>
        refine iff_of_false (fun ⟨_, hf⟩ => by cases hf) fun h => ?_
        rw [(Number.sum_error_iff _ _).mpr ⟨rfl, h⟩] at hsum
        cases hsum
      | error e => exact iff_of_true ⟨_, rfl⟩ ((Number.sum_error_iff _ _).mp hsum).2
    · rw [hkind] at hoverflows
      rw [hoverflows, compute_avg hplain hkind hpath, ← Number.average?_error_iff]
      cases Number.average? (numbersAt rows path) with
      | ok n? =>
        refine iff_of_false (fun ⟨_, hf⟩ => ?_) fun ⟨_, he⟩ => by cases he
        cases n? <;> cases hf
      | error e => exact iff_of_true ⟨_, rfl⟩ ⟨e, rfl⟩

theorem extreme_fails (hplain : a.isPlain = true) (hkind : a.kind = .min ∨ a.kind = .max)
    (hpath : a.path? = some path) (better : Ordering) :
    FailsOnly (fun _ => a.Overflows rows) (do extreme better (← valuesAt rows path)) := by
  have hoverflows : (∃ r ∈ rows, ¬(r.valueAt path).InCalendar) → a.Overflows rows := by
    intro h
    rw [overflows_iff rows hpath]
    obtain hkind | hkind := hkind <;> rw [hkind] <;> exact h
  rw [valuesAt_eq hplain hpath]
  by_cases h : ∀ r ∈ rows, (r.valueAt path).InCalendar
  · have hvalues : ∀ v ∈ rows.map (·.valueAt path), v.Dated fun _ => False :=
      List.forall_mem_map.mpr h
    exact (failsOnly_extreme better hvalues).lift.weaken fun _ => False.elim
  · push Not at h
    exact failsOnly_iff.mpr fun _ _ => hoverflows h

/-- An aggregate at a plain path has a value unless it goes out of range. -/
theorem compute_fails (hplain : a.isPlain = true) :
    FailsOnly (fun _ => a.Overflows rows) (a.compute rows) := by
  have hpick (r? : Option Row) : FailsOnly (fun _ => a.Overflows rows) (pick a.path? r?) :=
    (pick_fails hplain r?).weaken fun _ => False.elim
  have hexact (hkind : a.kind = .sum ∨ a.kind = .avg) :
      FailsOnly (fun _ => a.Overflows rows) (a.compute rows) :=
    failsOnly_iff.mpr fun f hf => (compute_error_iff hplain hkind).mp ⟨f, hf⟩
  cases hkind : a.kind with
  | sum => exact hexact (.inl hkind)
  | avg => exact hexact (.inr hkind)
  | count => rw [compute, hkind]; trivial
  | first => rw [compute, hkind]; exact hpick _
  | last => rw [compute, hkind]; exact hpick _
  | list =>
    rw [compute, hkind]
    cases hpath : a.path? with
    | none => trivial
    | some path =>
      dsimp only
      rw [valuesAt_eq hplain hpath]
      trivial
  | min =>
    rw [compute, hkind]
    cases hpath : a.path? with
    | none => trivial
    | some path => exact extreme_fails hplain (.inl hkind) hpath _
  | max =>
    rw [compute, hkind]
    cases hpath : a.path? with
    | none => trivial
    | some path => exact extreme_fails hplain (.inr hkind) hpath _

end Aggregate

namespace Group

/-- A row with one field, of a file about which nothing is known. -/
def oneField (name : String) (v : Value) : Row :=
  ⟨⟨.null, .null, .null, .null, .null, .null, .null, .null⟩, [(name, v)], none⟩

end Group

end NoteQuery
