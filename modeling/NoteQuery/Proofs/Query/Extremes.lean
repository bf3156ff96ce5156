import NoteQuery.Proofs.Query.Grouping
import NoteQuery.Proofs.Value.Coherence

/-! Extremes of values that are no dates. One scan finds the first of the values that no other one betters,
although values of different kinds do not compare: a value that was kept out by an earlier candidate is
kept out by every later one, since being better is transitive. -/

namespace NoteQuery
set_option autoImplicit false

namespace Value

variable {a b c v m best : Value} {better : Ordering}

/-! ### Better values -/

/-- A value is better than another one when it is less, or greater, as is asked for. -/
def Betters : Ordering → Value → Value → Prop
  | .lt, a, b => IsLess a b
  | .eq, _, _ => False
  | .gt, a, b => IsLess b a

/-- Values that are no dates are always compared, and the answer tells which one is better. -/
theorem exists_compare (ha : a.isDate = false) (hb : b.isDate = false) (hbetter : better ≠ .eq) :
    ∃ order, a.compare b = .ok order ∧ ((order == better) = true ↔ Betters better a b) := by
  obtain ⟨less, hless⟩ := exists_less_of_isDate ha hb
  obtain ⟨greater, hgreater⟩ := exists_less_of_isDate hb ha
  have hlt : less = true ↔ IsLess a b := by rw [← less_iff, hless, Except.ok.injEq]
  have hgt : greater = true ↔ IsLess b a := by rw [← less_iff, hgreater, Except.ok.injEq]
  unfold Value.compare
  rw [hless, hgreater]
  cases better with
  | eq => exact absurd rfl hbetter
  | lt =>
    rw [Betters, ← hlt]
    cases less <;> cases greater <;> exact ⟨_, rfl, by decide⟩
  | gt =>
    rw [Betters, ← hgt]
    cases less with
    | false => cases greater <;> exact ⟨_, rfl, by decide⟩
    | true =>
      have hle : greater = false := Bool.eq_false_iff.mpr fun h => (hlt.mp rfl).asymm (hgt.mp h)
      exact ⟨_, rfl, by rw [hle]; decide⟩

namespace Betters

theorem irrefl : ¬Betters better a a := by
  cases better with
  | eq => exact id
  | lt | gt => exact IsLess.irrefl

theorem asymm (h : Betters better a b) : ¬Betters better b a := by
  cases better with
  | eq => exact id
  | lt | gt => exact IsLess.asymm h

theorem trans (ha : a.isDate = false) (hb : b.isDate = false) (hc : c.isDate = false)
    (hab : Betters better a b) (hbc : Betters better b c) : Betters better a c := by
  cases better with
  | eq => exact hab
  | lt => exact IsLess.trans ha hb hc hab hbc
  | gt => exact IsLess.trans hc hb ha hbc hab

theorem not_null : ¬Betters better null a := by
  cases better with
  | eq => exact id
  | lt => exact fun | .dates _ hm _ _ => nomatch hm
  | gt => exact fun | .dates _ _ hn _ => nomatch hn

/-- What is better than some value is a number or a text. -/
theorem exists_equal (ha : a.isDate = false) (hb : b.isDate = false) (hv : v.isDate = false)
    (h : Betters better a b) : ∃ same, v.equal a = .ok same := by
  have hkind : (∃ n, a = number n) ∨ ∃ s, a = text s := by
    cases better with
    | eq => exact h.elim
    | lt | gt =>
      cases h with
      | dates hdate => simp [ha, hb] at hdate
      | numbers => exact .inl ⟨_, rfl⟩
      | texts => exact .inr ⟨_, rfl⟩
  obtain ⟨n, rfl⟩ | ⟨s, rfl⟩ := hkind <;>
    cases v <;> first | exact ⟨_, rfl⟩ | cases hv

/-- What is equal to a better value is better itself. -/
theorem of_equal (ha : a.isDate = false) (hb : b.isDate = false) (hv : v.isDate = false)
    (hequal : v.equal a = .ok true) (h : Betters better a b) : Betters better v b := by
  cases better with
  | eq => exact h
  | lt => exact IsLess.of_equal_left hv ha hb hequal h
  | gt => exact IsLess.of_equal_right hv ha hb hequal h

theorem equal_false (ha : a.isDate = false) (hb : b.isDate = false) (hv : v.isDate = false)
    (h : Betters better a b) (hnot : ¬Betters better v b) : v.equal a = .ok false := by
  obtain ⟨same, hsame⟩ := h.exists_equal ha hb hv
  cases same with
  | true => exact (hnot (h.of_equal ha hb hv hsame)).elim
  | false => exact hsame

end Betters

end Value

namespace Aggregate
open Value

variable {better : Ordering} {vs before after : List Value} {v m best : Value}

/-! ### The scan -/

/-- The first of the best values, with what stands before it and after it. -/
structure IsFirstBest (better : Ordering) (vs before : List Value) (m : Value) (after : List Value) :
    Prop where
  split : vs = before ++ m :: after
  best : ∀ v ∈ vs, ¬Betters better v m
  first : ∀ v ∈ before, v.equal m = .ok false

namespace IsFirstBest

theorem mem (h : IsFirstBest better vs before m after) : m ∈ vs := by
  rw [h.split]
  exact List.mem_append_right _ List.mem_cons_self

theorem keep (h : IsFirstBest better vs before m after) (hv : ¬Betters better v m) :
    IsFirstBest better (vs ++ [v]) before m (after ++ [v]) where
  split := by rw [h.split, List.append_assoc, List.cons_append]
  best := List.forall_mem_append.mpr ⟨h.best, List.forall_mem_singleton.mpr hv⟩
  first := h.first

/-- A better value is better than all that the earlier candidate kept out, and equal to none of it. -/
theorem replace (h : IsFirstBest better vs before m after) (hvs : ∀ u ∈ vs, u.isDate = false)
    (hdate : v.isDate = false) (hv : Betters better v m) :
    IsFirstBest better (vs ++ [v]) vs v [] where
  split := rfl
  best := List.forall_mem_append.mpr
    ⟨fun u hu huv => h.best u hu (huv.trans (hvs u hu) hdate (hvs m h.mem) hv),
      List.forall_mem_singleton.mpr Betters.irrefl⟩
  first u hu := hv.equal_false hdate (hvs m h.mem) (hvs u hu) (h.best u hu)

end IsFirstBest

/-- Going on from the first best value of some values, a scan finds the first best one of all. -/
theorem exists_bestFrom {seen : List Value} (hbetter : better ≠ .eq)
    (hseen : ∀ v ∈ seen, v.isDate = false) (hvs : ∀ v ∈ vs, v.isDate = false)
    (h : IsFirstBest better seen before best after) :
    ∃ before m after, bestFrom better best vs = .ok m ∧
      IsFirstBest better (seen ++ vs) before m after := by
  induction vs generalizing seen before best after with
  | nil => exact ⟨before, best, after, rfl, by rwa [List.append_nil]⟩
  | cons v vs ih =>
    rw [List.forall_mem_cons] at hvs
    obtain ⟨order, horder, hbetters⟩ := exists_compare hvs.1 (hseen best h.mem) hbetter
    have hmore : ∀ u ∈ seen ++ [v], u.isDate = false :=
      List.forall_mem_append.mpr ⟨hseen, List.forall_mem_singleton.mpr hvs.1⟩
    have hscan : bestFrom better best (v :: vs) =
        if (order == better) = true then bestFrom better v vs else bestFrom better best vs := by
      rw [bestFrom, horder]
      rfl
    rw [hscan, List.append_cons]
    split
    · next hv => exact ih hmore hvs.2 (h.replace hseen hvs.1 (hbetters.mp hv))
    · next hv => exact ih hmore hvs.2 (h.keep fun hbest => hv (hbetters.mpr hbest))

/-- Nulls neither better any value nor are equal to one that is not null. -/
theorem IsFirstBest.of_filter (hm : m.isDate = false)
    (h : IsFirstBest better (vs.filter fun v => !v.isNull) before m after) :
    ∃ before after, m ≠ .null ∧ IsFirstBest better vs before m after := by
  obtain ⟨front, back, rfl, rfl, hback⟩ := List.filter_eq_append_iff.mp h.split
  obtain ⟨between, after, rfl, hbetween, hnull, rfl⟩ := List.filter_eq_cons_iff.mp hback
  have hne : m ≠ .null := by
    rintro rfl
    cases hnull
  have hequal : Value.null.equal m = .ok false := by
    cases m <;> first | rfl | exact (hne rfl).elim | cases hm
  have eq_null {v : Value} (hv : ¬(!v.isNull) = true) : v = .null := by
    cases v <;> first | rfl | exact (hv rfl).elim
  refine ⟨front ++ between, after, hne, (List.append_assoc ..).symm, fun v hv => ?_, fun v hv => ?_⟩
  · by_cases hv' : (!v.isNull) = true
    · exact h.best v (List.mem_filter.mpr ⟨hv, hv'⟩)
    · rw [eq_null hv']
      exact Betters.not_null
  · by_cases hv' : (!v.isNull) = true
    · rcases List.mem_append.mp hv with hv | hv
      · exact h.first v (List.mem_filter.mpr ⟨hv, hv'⟩)
      · exact (hbetween v hv hv').elim
    · rw [eq_null hv']
      exact hequal

/-- The extreme of values that are no dates: null of nothing but nulls, else the first best one. -/
theorem exists_extreme (hbetter : better ≠ .eq) (hvs : ∀ v ∈ vs, v.isDate = false) :
    ((∀ v ∈ vs, v = .null) ∧ extreme better vs = .ok .null) ∨
      ∃ before m after, m ≠ .null ∧ extreme better vs = .ok m ∧
        IsFirstBest better vs before m after := by
  have hpresent : ∀ v ∈ vs.filter fun v => !v.isNull, v.isDate = false :=
    fun v hv => hvs v (List.mem_of_mem_filter hv)
  unfold extreme
  cases hfilter : vs.filter fun v => !v.isNull with
  | nil =>
    refine .inl ⟨fun v hv => ?_, rfl⟩
    have hnull := List.filter_eq_nil_iff.mp hfilter v hv
    cases v <;> first | rfl | exact (hnull rfl).elim
  | cons v rest =>
    rw [hfilter, List.forall_mem_cons] at hpresent
    have hstart : IsFirstBest better [v] [] v [] :=
      ⟨rfl, List.forall_mem_singleton.mpr Betters.irrefl, nofun⟩
    obtain ⟨before, m, after, hm, hfirst⟩ :=
      exists_bestFrom hbetter (List.forall_mem_singleton.mpr hpresent.1) hpresent.2 hstart
    have hfirst' : IsFirstBest better (vs.filter fun v => !v.isNull) before m after := by
      rw [hfilter]
      exact hfirst
    obtain ⟨before, after, hne, hwhole⟩ :=
      hfirst'.of_filter (hvs m (List.mem_of_mem_filter hfirst'.mem))
    exact .inr ⟨before, m, after, hne, hm, hwhole⟩

/-! ### The aggregates -/

theorem goesBefore_eq_false {descending : Bool} (hv : v.isDate = false) (hm : m.isDate = false)
    (h : ¬Betters (if descending then .gt else .lt) v m) : goesBefore descending v m = .ok false := by
  unfold goesBefore
  cases descending with
  | false =>
    obtain ⟨less, hless⟩ := exists_less_of_isDate hv hm
    cases less with
    | true => exact (h (less_iff.mp hless)).elim
    | false => exact lift_eq_ok.mpr hless
  | true =>
    obtain ⟨less, hless⟩ := exists_less_of_isDate hm hv
    cases less with
    | true => exact (h (less_iff.mp hless)).elim
    | false => exact lift_eq_ok.mpr hless

theorem better_ne_eq (a : Aggregate) : (if decide (a.kind = .max) then Ordering.gt else .lt) ≠ .eq := by
  split <;> decide

section
variable {a : Aggregate} {rows : List Row} {path : String}

/-- What holds of all that is looked up holds of the values. -/
theorem forall_valuesAt {good : Value → Prop} (hvs : valuesAt rows path = .ok vs)
    (h : ∀ r ∈ rows, ∀ v, r.lookup path = .ok v → good v) : ∀ v ∈ vs, good v :=
  forall_of_forall₂ ((List.forall₂_and_left ..).mpr ⟨h, forall₂_of_mapM hvs⟩) fun _ v hv => hv.1 v hv.2

variable (hkind : a.kind = .min ∨ a.kind = .max) (hpath : a.path? = some path)
include hkind hpath

theorem compute_eq_extreme : a.compute rows =
    (do extreme (if decide (a.kind = .max) then .gt else .lt) (← valuesAt rows path)) := by
  unfold compute
  obtain hkind | hkind := hkind <;> rw [hkind, hpath] <;> rfl

theorem compute_of_valuesAt (hvs : valuesAt rows path = .ok vs) :
    a.compute rows = liftM (extreme (if decide (a.kind = .max) then .gt else .lt) vs) := by
  rw [compute_eq_extreme hkind hpath, hvs]
  rfl

/-- Minima and maxima are there as far as the values are. They are null of nothing but nulls, else the
first of the values that no other one is less, or greater, than, whatever kinds are mixed. -/
theorem compute_extreme (hdates : ∀ r ∈ rows, ∀ v, r.lookup path = .ok v → v.isDate = false) :
    ((∃ m, a.compute rows = .ok m) ↔ ∀ r ∈ rows, ∃ v, r.lookup path = .ok v) ∧
    ∀ vs, List.Forall₂ (fun r v => r.lookup path = .ok v) rows vs →
      (a.compute rows = .ok .null ↔ ∀ v ∈ vs, v = .null) ∧
      ((∃ v ∈ vs, v ≠ .null) → ∃ before m after, vs = before ++ m :: after ∧ m ≠ .null ∧
        a.compute rows = .ok m ∧ (∀ v ∈ vs, goesBefore (decide (a.kind = .max)) v m = .ok false) ∧
        ∀ v ∈ before, v.equal m = .ok false) := by
  refine ⟨⟨fun ⟨m, hm⟩ => ?_, fun h => ?_⟩, fun vs hvs => ?_⟩
  · rw [compute_eq_extreme hkind hpath] at hm
    obtain ⟨vs, hvs, -⟩ := bind_eq_ok.mp hm
    exact exists_ok_of_mapM hvs
  · obtain ⟨vs, hvs⟩ := exists_mapM_ok_iff.mpr h
    rw [compute_of_valuesAt hkind hpath hvs]
    rcases exists_extreme a.better_ne_eq (forall_valuesAt hvs hdates) with ⟨-, hnull⟩ | ⟨-, m, -, -, hm, -⟩
    · exact ⟨_, lift_eq_ok.mpr hnull⟩
    · exact ⟨m, lift_eq_ok.mpr hm⟩
  · have hvalues := forall_valuesAt (mapM_of_forall₂ hvs) hdates
    rw [compute_of_valuesAt hkind hpath (mapM_of_forall₂ hvs), lift_eq_ok]
    rcases exists_extreme a.better_ne_eq hvalues with
      ⟨hnulls, hnull⟩ | ⟨before, m, after, hne, hm, hfirst⟩
    · exact ⟨iff_of_true hnull hnulls, fun ⟨v, hv, hv'⟩ => (hv' (hnulls v hv)).elim⟩
    · refine ⟨iff_of_false (fun hnull => ?_) fun hnulls => hne (hnulls m hfirst.mem), fun _ => ?_⟩
      · exact hne (Except.ok.inj (hm.symm.trans hnull))
      · refine ⟨before, m, after, hfirst.split, hne, lift_eq_ok.mpr hm, fun v hv => ?_, hfirst.first⟩
        exact goesBefore_eq_false (hvalues v hv) (hvalues m hfirst.mem) (hfirst.best v hv)

end

/-- A text, a null and a boolean between numbers do not hide that the second number is the least. -/
theorem compute_extreme_mixed :
    let vs : List Value := [.int 3, .text "b", .null, .int 1, .bool true, .number (.real (.ofInt 1))]
    let rows := vs.map (Group.oneField "n")
    let a : Aggregate := ⟨.min, some "n", none⟩
    (∀ r ∈ rows, ∀ v, r.lookup "n" = .ok v → v.isDate = false) ∧
      a.compute rows = .ok (.int 1) ∧ ∀ v ∈ vs, goesBefore false v (.int 1) = .ok false := by
  intro vs rows a
  have hlookup (v : Value) : (Group.oneField "n" v).lookup "n" = .ok v :=
    Row.lookup_field (by decide +kernel) rfl
  have hvs : List.Forall₂ (fun r v => r.lookup "n" = .ok v) rows vs :=
    List.forall₂_map_left_iff.mpr (List.forall₂_same.mpr fun v _ => hlookup v)
  have hdates : ∀ r ∈ rows, ∀ v, r.lookup "n" = .ok v → v.isDate = false := by
    simp [rows, vs, hlookup, Value.isDate, Value.int]
  have hpath : a.path? = some "n" := by decide +kernel
  have hleast : a.compute rows = .ok (.int 1) := by
    rw [compute_of_valuesAt (.inl rfl) hpath (mapM_of_forall₂ hvs)]
    rfl
  obtain ⟨before, m, after, -, -, hm, hbest, -⟩ :=
    ((compute_extreme (.inl rfl) hpath hdates).2 vs hvs).2 ⟨.int 3, by simp [vs], by simp [Value.int]⟩
  cases hleast.symm.trans hm
  exact ⟨hdates, hleast, hbest⟩

end Aggregate

end NoteQuery
