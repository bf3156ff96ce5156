import NoteQuery.Proofs.Query.Rearranging

/-! Aggregates of groups and of all rows together. The groups hold every row once, whatever the keys are: a row
whose key differs from itself has a group of its own. So counts and sums of integers add up, lists are put
together, and the least of the least values of the groups is the least one of all. -/

namespace NoteQuery
set_option autoImplicit false

/-! ### Best values of parts -/

namespace Value

variable {better : Ordering} {u v w : Value}

/-- What is as good as a better value is better as well. -/
theorem Betters.of_not (hu : u.isDate = false) (hv : v.isDate = false) (hw : w.isDate = false)
    (hordered : AreOrdered v u) (h : Betters better u w) (hnot : ¬Betters better u v) :
    Betters better v w := by
  obtain ⟨order, hrelates⟩ := hordered.exists_relates
  cases order with
  | eq => exact h.of_equal hu hw hv hrelates.equal
  | lt =>
    have hless : Betters .lt v u := less_iff.mp hrelates.less
    cases better with
    | lt => exact Betters.trans hv hu hw hless h
    | eq => exact h.elim
    | gt => exact absurd hless hnot
  | gt =>
    have hgreater : Betters .gt v u := less_iff.mp hrelates.greater
    cases better with
    | lt => exact absurd hgreater hnot
    | eq => exact h.elim
    | gt => exact Betters.trans hv hu hw hgreater h

end Value

namespace Aggregate
open Value

variable {better : Ordering} {kind : Kind} {v w m whole : Value} {vs parts : List Value}

/-- The extreme of some values: null if there is nothing else, or one of the values that no other one
betters. -/
inductive IsBest (better : Ordering) (vs : List Value) : Value → Prop where
  | null (h : ∀ v ∈ vs, v = .null) : IsBest better vs .null
  | value {m : Value} (hmem : m ∈ vs) (hne : m ≠ .null) (h : ∀ v ∈ vs, ¬Betters better v m) :
    IsBest better vs m

theorem IsBest.eq_null_or_mem (h : IsBest better vs m) : m = .null ∨ m ∈ vs := by
  cases h with
  | null => exact .inl rfl
  | value hmem => exact .inr hmem

theorem exists_isBest (hbetter : better ≠ .eq) (hvs : ∀ v ∈ vs, v.isDate = false) :
    ∃ m, extreme better vs = .ok m ∧ IsBest better vs m := by
  rcases exists_extreme hbetter hvs with ⟨hnulls, hnull⟩ | ⟨before, m, after, hne, hm, hfirst⟩
  · exact ⟨.null, hnull, .null hnulls⟩
  · exact ⟨m, hm, .value hfirst.mem hne hfirst.best⟩

theorem isBest_of_extreme (hbetter : better ≠ .eq) (hvs : ∀ v ∈ vs, v.isDate = false)
    (h : extreme better vs = .ok m) : IsBest better vs m := by
  obtain ⟨m', hm', hbest⟩ := exists_isBest hbetter hvs
  cases h.symm.trans hm'
  exact hbest

/-- Null, or a value of one kind that compares with all values of this kind. -/
def IsNullOr (kind : Kind) (v : Value) : Prop := v = .null ∨ v.kind = kind ∧ v.Regular

theorem IsNullOr.isDate (hvalues : kind = .number ∨ kind = .text) (h : IsNullOr kind v) :
    v.isDate = false :=
  isDate_of_kind hvalues (h.imp_right And.left)

theorem IsNullOr.areOrdered (hvalues : kind = .number ∨ kind = .text) (hv : IsNullOr kind v)
    (hw : IsNullOr kind w) (hne : v ≠ .null) (hne' : w ≠ .null) : AreOrdered v w := by
  obtain ⟨hkind, hregular⟩ := hv.resolve_left hne
  obtain ⟨hkind', hregular'⟩ := hw.resolve_left hne'
  exact areOrdered_of_kind hvalues hregular hregular' hkind hkind'

/-- The best of the best values of parts is as good as the best value of the whole. -/
theorem IsBest.equal_whole (hbetter : better ≠ .eq) (hvalues : kind = .number ∨ kind = .text)
    {lists : List (List Value)} (hvs : ∀ v, v ∈ vs ↔ ∃ l ∈ lists, v ∈ l)
    (h : ∀ v ∈ vs, IsNullOr kind v)
    (hparts : List.Forall₂ (IsBest better) lists parts) (hm : IsBest better parts m)
    (hwhole : IsBest better vs whole) : m.equal whole = .ok true := by
  -- a value that is there makes the best value of its part one
  have hpart : ∀ v ∈ vs, v ≠ .null → ∃ p ∈ parts, p ∈ vs ∧ p ≠ .null ∧ ¬Betters better v p := by
    intro v hv hne
    obtain ⟨l, hl, hvl⟩ := (hvs v).mp hv
    obtain ⟨p, hp, hbest⟩ := exists_mem_right hparts l hl
    cases hbest with
    | null hnulls => exact absurd (hnulls v hvl) hne
    | value hmem hne' hnot => exact ⟨p, hp, (hvs p).mpr ⟨l, hl, hmem⟩, hne', hnot v hvl⟩
  cases hm with
  | null hnulls =>
    cases hwhole with
    | null => rfl
    | value hmem hne =>
      obtain ⟨p, hp, -, hne', -⟩ := hpart whole hmem hne
      exact absurd (hnulls p hp) hne'
  | value hmem hne hnot =>
    have hmvs : m ∈ vs := by
      obtain ⟨l, hl, hbest⟩ := exists_mem_left hparts m hmem
      cases hbest with
      | null => exact absurd rfl hne
      | value hml => exact (hvs m).mpr ⟨l, hl, hml⟩
    cases hwhole with
    | null hnulls => exact absurd (hnulls m hmvs) hne
    | value hwvs hne' hnot' =>
      obtain ⟨p, hp, hpvs, hpne, hwp⟩ := hpart whole hwvs hne'
      have hdate (v : Value) (hv : v ∈ vs) : v.isDate = false := (h v hv).isDate hvalues
      refine equal_of_best hbetter ((h m hmvs).areOrdered hvalues (h whole hwvs) hne hne')
        (hnot' m hmvs) fun hbetters => hnot p hp ?_
      exact hbetters.of_not (hdate whole hwvs) (hdate p hpvs) (hdate m hmvs)
        ((h p hpvs).areOrdered hvalues (h whole hwvs) hpne hne') hwp

/-- The extreme of the extremes of parts is as good as that of the whole. -/
theorem exists_extreme_of_parts (hbetter : better ≠ .eq) (hvalues : kind = .number ∨ kind = .text)
    {lists : List (List Value)} (hperm : lists.flatten.Perm vs) (h : ∀ v ∈ vs, IsNullOr kind v)
    (hparts : List.Forall₂ (fun l p => Aggregate.extreme better l = .ok p) lists parts)
    (hwhole : Aggregate.extreme better vs = .ok whole) :
    ∃ m, Aggregate.extreme better parts = .ok m ∧ m.equal whole = .ok true := by
  have hvs (v : Value) : v ∈ vs ↔ ∃ l ∈ lists, v ∈ l := hperm.mem_iff.symm.trans List.mem_flatten
  have hdate : ∀ v ∈ vs, v.isDate = false := fun v hv => (h v hv).isDate hvalues
  have hof : List.Forall₂ (fun l p => l ∈ lists ∧ IsBest better l p) lists parts := by
    refine ((List.forall₂_and_left _ _).mpr ⟨fun _ hl => hl, hparts⟩).imp fun l p hl => ⟨hl.1, ?_⟩
    exact isBest_of_extreme hbetter (fun v hv => hdate v ((hvs v).mpr ⟨l, hl.1, hv⟩)) hl.2
  have hdates : ∀ p ∈ parts, p.isDate = false := by
    refine forall_of_forall₂ hof fun l p hl => ?_
    rcases hl.2.eq_null_or_mem with rfl | hp
    · rfl
    · exact hdate p ((hvs p).mpr ⟨l, hl.1, hp⟩)
  obtain ⟨m, hm, hbest⟩ := exists_isBest hbetter hdates
  exact ⟨m, hm, hbest.equal_whole hbetter hvalues hvs h (hof.imp fun _ _ hl => hl.2)
    (isBest_of_extreme hbetter hdate hwhole)⟩

/-! ### Aggregates of parts -/

variable {a : Aggregate} {rows rows' : List Row} {path : String} {gs : List (List Row)}

/-- Counts, sums of numbers that are integers, extremes of nothing but numbers, or texts, and nulls, and
lists. -/
inductive IsAdditive (rows : List Row) (a : Aggregate) : Prop where
  | count (hkind : a.kind = .count)
  | sum {path : String} (hkind : a.kind = .sum) (hpath : a.path? = some path)
      (h : ∀ r ∈ rows, ∀ v, r.lookup path = .ok v → ∀ n, v = .number n → ∃ z, n = .int z)
  | extreme {path : String} {kind : Kind} (hkind : a.kind = .min ∨ a.kind = .max)
      (hpath : a.path? = some path) (hvalues : kind = .number ∨ kind = .text)
      (h : ∀ r ∈ rows, ∀ v, r.lookup path = .ok v → IsNullOr kind v)
  | list (hkind : a.kind = .list)

theorem IsAdditive.subset (h : a.IsAdditive rows) (hsub : rows' ⊆ rows) : a.IsAdditive rows' := by
  cases h with
  | count hkind => exact .count hkind
  | sum hkind hpath h => exact .sum hkind hpath fun r hr => h r (hsub hr)
  | extreme hkind hpath hvalues h => exact .extreme hkind hpath hvalues fun r hr => h r (hsub hr)
  | list hkind => exact .list hkind

theorem IsAdditive.isOrderless (h : a.IsAdditive rows) : a.IsOrderless rows ∨ a.kind = .list := by
  cases h with
  | count hkind => exact .inl (.count hkind)
  | sum hkind hpath h => exact .inl (.sum hkind hpath h)
  | extreme hkind hpath hvalues h =>
    exact .inl (.extreme hkind hpath hvalues fun r hr v hv => (h r hr v hv).imp_right And.left)
  | list hkind => exact .inr hkind

/-- The integers at a path of rows. -/
def integersAt (rows : List Row) (path : String) : List Int :=
  rows.filterMap fun r => integer? (r.valueAt path)

theorem sum_integersAt_flatten (gs : List (List Row)) (path : String) :
    (integersAt gs.flatten path).sum = (gs.map fun g => (integersAt g path).sum).sum := by
  rw [integersAt, List.filterMap_flatten, List.sum_flatten, List.map_map]
  rfl

/-- What a list takes from a row: the value at its path unless that is null, or the row by its name. -/
def listedAt : Option String → Row → List Value
  | none, r => [listed r]
  | some path, r => [r.valueAt path].filter fun v => !v.isNull

theorem valuesAt_of_lookups (h : ∀ r ∈ rows, ∃ v, r.lookup path = .ok v) :
    valuesAt rows path = .ok (rows.map (·.valueAt path)) := by
  refine mapM_eq_ok fun r hr => ?_
  obtain ⟨v, hv⟩ := h r hr
  exact Row.lookup_valueAt hv

theorem compute_list (hkind : a.kind = .list)
    (h : ∀ path, a.Reads path → ∀ r ∈ rows, ∃ v, r.lookup path = .ok v) :
    a.compute rows = .ok (.array (rows.flatMap (listedAt a.path?))) := by
  unfold compute
  rw [hkind]
  cases hpath : a.path? with
  | none => exact congrArg (Except.ok ∘ Value.array) List.map_eq_flatMap
  | some path =>
    have hvalues := valuesAt_of_lookups (h path ⟨by rw [hkind]; decide, hpath⟩)
    dsimp only
    rw [hvalues]
    refine congrArg (Except.ok ∘ Value.array) ?_
    rw [List.map_eq_flatMap, List.filter_flatMap]
    rfl

/-- Such an aggregate is there as soon as the values at its path are. -/
theorem IsAdditive.exists_compute_iff (h : a.IsAdditive rows) :
    (∃ v, a.compute rows = .ok v) ↔
      ∀ path, a.Reads path → ∀ r ∈ rows, ∃ v, r.lookup path = .ok v := by
  obtain horderless | hkind := h.isOrderless
  · exact horderless.exists_compute_iff
  · refine ⟨fun ⟨v, hv⟩ path hreads => ?_, fun h => ⟨_, compute_list hkind h⟩⟩
    unfold compute at hv
    rw [hkind, hreads.2] at hv
    obtain ⟨vs, hvs, -⟩ := bind_eq_ok.mp hv
    exact exists_ok_of_mapM hvs

/-- What an aggregate of all rows has to do with those of the parts of them. -/
inductive RollsUp (a : Aggregate) (rows : List Row) : List Value → Value → Prop where
  | count (hkind : a.kind = .count) (ns : List Nat) (hsum : ns.sum = rows.length) :
    RollsUp a rows (ns.map fun n : Nat => .int n) (.int rows.length)
  | sum (hkind : a.kind = .sum) (zs : List Int) : RollsUp a rows (zs.map .int) (.int zs.sum)
  | extreme {parts : List Value} {whole : Value} (hkind : a.kind = .min ∨ a.kind = .max) (m : Value)
      (hm : Aggregate.extreme (if decide (a.kind = .max) then .gt else .lt) parts = .ok m)
      (hequal : m.equal whole = .ok true) : RollsUp a rows parts whole
  | list (hkind : a.kind = .list) (lists : List (List Value)) {items : List Value}
      (hperm : lists.flatten.Perm items) : RollsUp a rows (lists.map .array) (.array items)

/-- The aggregates of some parts of rows and that of all rows are there, and roll up. -/
def IsRolledUp (a : Aggregate) (gs : List (List Row)) (rows : List Row) : Prop :=
  ∃ parts whole, List.Forall₂ (fun g v => a.compute g = .ok v) gs parts ∧ a.compute rows = .ok whole ∧
    a.RollsUp rows parts whole

section
variable (hperm : gs.flatten.Perm rows)
include hperm

theorem subset_of_flatten_perm : ∀ g ∈ gs, g ⊆ rows :=
  fun _ hg _ hr => hperm.subset (List.mem_flatten_of_mem hg hr)

theorem forall₂_compute {β : Type} (c : β → Value) {f : List Row → β}
    (hf : ∀ g, g ⊆ rows → a.compute g = .ok (c (f g))) :
    List.Forall₂ (fun g v => a.compute g = .ok v) gs ((gs.map f).map c) := by
  rw [List.map_map]
  refine List.forall₂_map_right_iff.mpr (List.forall₂_same.mpr fun g hg => ?_)
  exact hf g (subset_of_flatten_perm hperm g hg)

theorem isRolledUp_count (hkind : a.kind = .count) : a.IsRolledUp gs rows := by
  refine ⟨_, _, forall₂_compute hperm (fun n : Nat => .int n) fun g _ => compute_count hkind g,
    compute_count hkind rows, .count hkind _ ?_⟩
  rw [← List.length_flatten, hperm.length_eq]

theorem isRolledUp_sum (hkind : a.kind = .sum) (hpath : a.path? = some path)
    (h : ∀ r ∈ rows, ∀ v, r.lookup path = .ok v → ∀ n, v = .number n → ∃ z, n = .int z)
    (hlookups : ∀ r ∈ rows, ∃ v, r.lookup path = .ok v) : a.IsRolledUp gs rows := by
  have hcompute (g : List Row) (hg : g ⊆ rows) : a.compute g = .ok (.int (integersAt g path).sum) := by
    have hvalues := valuesAt_of_lookups fun r hr => hlookups r (hg hr)
    rw [compute_sum_int hkind hpath (fun r hr => h r (hg hr)) hvalues, List.filterMap_map]
    rfl
  have hsum : (integersAt rows path).sum = (gs.map fun g => (integersAt g path).sum).sum := by
    rw [← sum_integersAt_flatten]
    exact (hperm.symm.filterMap _).sum_eq
  refine ⟨_, _, forall₂_compute hperm .int hcompute, hcompute rows (List.Subset.refl rows), ?_⟩
  rw [hsum]
  exact .sum hkind _

theorem isRolledUp_extreme (hkind : a.kind = .min ∨ a.kind = .max) (hpath : a.path? = some path)
    (hvalues : kind = .number ∨ kind = .text)
    (h : ∀ r ∈ rows, ∀ v, r.lookup path = .ok v → IsNullOr kind v)
    (hlookups : ∀ r ∈ rows, ∃ v, r.lookup path = .ok v) : a.IsRolledUp gs rows := by
  have hall : ∀ v ∈ rows.map (·.valueAt path), IsNullOr kind v := by
    refine List.forall_mem_map.mpr fun r hr => ?_
    obtain ⟨v, hv⟩ := hlookups r hr
    exact h r hr _ (Row.lookup_valueAt hv)
  have hdates : ∀ v ∈ rows.map (·.valueAt path), v.isDate = false :=
    fun v hv => (hall v hv).isDate hvalues
  have hcompute (g : List Row) (hg : g ⊆ rows) (v : Value) : a.compute g = .ok v ↔
      Aggregate.extreme (if decide (a.kind = .max) then .gt else .lt) (g.map (·.valueAt path)) = .ok v := by
    rw [compute_of_valuesAt hkind hpath (valuesAt_of_lookups fun r hr => hlookups r (hg hr)), lift_eq_ok]
  have hsub := subset_of_flatten_perm hperm
  have hparts : ∃ parts, gs.mapM a.compute = .ok parts := by
    refine exists_mapM_ok_iff.mpr fun g hg => ?_
    have hdates : ∀ v ∈ g.map (·.valueAt path), v.isDate = false :=
      fun v hv => hdates v (List.map_subset _ (hsub g hg) hv)
    obtain ⟨m, hm, -⟩ := exists_isBest a.better_ne_eq hdates
    exact ⟨m, (hcompute g (hsub g hg) m).mpr hm⟩
  obtain ⟨parts, hparts⟩ := hparts
  have hparts := forall₂_of_mapM hparts
  obtain ⟨whole, hwhole, -⟩ := exists_isBest a.better_ne_eq hdates
  have hlists : List.Forall₂
      (fun l p => Aggregate.extreme (if decide (a.kind = .max) then .gt else .lt) l = .ok p)
      (gs.map (·.map (·.valueAt path))) parts := by
    refine List.forall₂_map_left_iff.mpr (((List.forall₂_and_left _ _).mpr ⟨hsub, hparts⟩).imp ?_)
    exact fun g v hg => (hcompute g hg.1 v).mp hg.2
  have hflatten : (gs.map (·.map (·.valueAt path))).flatten.Perm (rows.map (·.valueAt path)) := by
    rw [← List.map_flatten]
    exact hperm.map _
  obtain ⟨m, hm, hequal⟩ :=
    exists_extreme_of_parts a.better_ne_eq hvalues hflatten hall hlists hwhole
  exact ⟨parts, whole, hparts, (hcompute rows (List.Subset.refl rows) whole).mpr hwhole,
    .extreme hkind m hm hequal⟩

theorem isRolledUp_list (hkind : a.kind = .list)
    (hreads : ∀ path, a.Reads path → ∀ r ∈ rows, ∃ v, r.lookup path = .ok v) : a.IsRolledUp gs rows := by
  have hcompute (g : List Row) (hg : g ⊆ rows) :
      a.compute g = .ok (.array (g.flatMap (listedAt a.path?))) :=
    compute_list hkind fun path hpath r hr => hreads path hpath r (hg hr)
  refine ⟨_, _, forall₂_compute hperm .array hcompute, hcompute rows (List.Subset.refl rows),
    .list hkind _ ?_⟩
  have hflatten : (gs.map fun g => g.flatMap (listedAt a.path?)).flatten =
      gs.flatten.flatMap (listedAt a.path?) := by
    rw [← List.flatMap_def, ← List.flatMap_id, List.flatMap_assoc]
    rfl
  rw [hflatten]
  exact hperm.flatMap_right _

/-- The aggregates of parts that hold every row once roll up to that of all rows. -/
theorem IsAdditive.isRolledUp (h : a.IsAdditive rows)
    (hcompute : ∀ g ∈ gs, ∃ v, a.compute g = .ok v) : a.IsRolledUp gs rows := by
  have hreads : ∀ path, a.Reads path → ∀ r ∈ rows, ∃ v, r.lookup path = .ok v := by
    intro path hpath r hr
    obtain ⟨g, hg, hrg⟩ := List.mem_flatten.mp (hperm.symm.subset hr)
    have hadditive := h.subset (subset_of_flatten_perm hperm g hg)
    exact hadditive.exists_compute_iff.mp (hcompute g hg) path hpath r hrg
  cases h with
  | count hkind => exact isRolledUp_count hperm hkind
  | sum hkind hpath h =>
    exact isRolledUp_sum hperm hkind hpath h (hreads _ ⟨by rw [hkind]; decide, hpath⟩)
  | extreme hkind hpath hvalues h =>
    have hne : a.kind ≠ .count := by rcases hkind with hkind | hkind <;> rw [hkind] <;> decide
    exact isRolledUp_extreme hperm hkind hpath hvalues h (hreads _ ⟨hne, hpath⟩)
  | list hkind => exact isRolledUp_list hperm hkind hreads

end

end Aggregate

namespace Record

/-- An entry that no other one under its name contradicts is found in the record of the entries. -/
theorem get?_ofList {es : Record} {key : String} {v : Value} (hmem : (key, v) ∈ es)
    (h : ∀ e ∈ es, e.1 = key → e.2 = v) : get? (ofList es) key = some v := by
  induction es using List.reverseRecOn with
  | nil => cases hmem
  | append_singleton es e ih =>
    rw [ofList, List.foldl_append]
    change get? (Record.insert (ofList es) e.1 e.2) key = some v
    rw [get?_insert]
    split
    · next hkey => rw [h e (by simp) hkey.symm]
    · next hkey =>
      refine ih ?_ fun e he => h e (List.mem_append_left _ he)
      rcases List.mem_append.mp hmem with hmem | hmem
      · exact hmem
      · exact absurd (congrArg Prod.fst (List.mem_singleton.mp hmem)) hkey

end Record

namespace Group

variable {paths : List String} {rows : List Row} {as : List Aggregate} {a : Aggregate}

/-- A group has a value for an aggregate, and shows it unless another aggregate has the same name. -/
structure Shows (as : List Aggregate) (a : Aggregate) (x : Group × Record) (v : Value) : Prop where
  computed : a.compute x.1.rows = .ok v
  shown : (∀ b ∈ as, b.name = a.name → b = a) → x.2.get? a.name = some v

theorem shows_of_aggregates {g : Group} {record : Record} {v : Value} (ha : a ∈ as)
    (h : g.aggregates as = .ok record) (hv : a.compute g.rows = .ok v) : Shows as a (g, record) v := by
  refine ⟨hv, fun hname => ?_⟩
  obtain ⟨es, hes, h⟩ := bind_eq_ok.mp h
  cases h
  have hentries := forall₂_of_mapM hes
  refine Record.get?_ofList ?_ fun e he hkey => ?_
  · obtain ⟨e, he, hentry⟩ := exists_mem_right hentries a ha
    obtain ⟨w, hw, hentry⟩ := bind_eq_ok.mp hentry
    cases hv.symm.trans hw
    cases hentry
    exact he
  · obtain ⟨b, hb, hentry⟩ := exists_mem_left hentries e he
    obtain ⟨w, hw, hentry⟩ := bind_eq_ok.mp hentry
    cases hentry
    cases hname b hb hkey
    cases hv.symm.trans hw
    rfl

/-- The groups of rows and their aggregates are there if the values at the paths are and the aggregates of
all rows together. Counts, sums of integers, extremes of numbers or of texts alone, and lists roll up. -/
theorem withAggregates_rollsUp (paths : List String) (rows : List Row) (as : List Aggregate) :
    ((∀ a ∈ as, a.IsAdditive rows) →
      ((∃ out, withAggregates as paths rows = .ok out) ↔
        (∀ r ∈ rows, ∀ p ∈ paths, ∃ v, r.lookup p = .ok v ∧ v.DatesInCalendar) ∧
          ∀ a ∈ as, ∃ whole, a.compute rows = .ok whole)) ∧
    ∀ out, withAggregates as paths rows = .ok out → ∀ a ∈ as, a.IsAdditive rows →
      ∃ parts whole, List.Forall₂ (Shows as a) out parts ∧ a.compute rows = .ok whole ∧
        a.RollsUp rows parts whole := by
  have hrolled {groups : List Group} (hgroups : ofRows paths rows = .ok groups) {a : Aggregate}
      (h : a.IsAdditive rows) (hcompute : ∀ g ∈ groups, ∃ v, a.compute g.rows = .ok v) :
      a.IsRolledUp (groups.map Group.rows) rows := by
    have hperm : (groups.map Group.rows).flatten.Perm rows := flatMap_rows_ofRows hgroups
    exact h.isRolledUp hperm (List.forall_mem_map.mpr hcompute)
  refine ⟨fun has => ?_, fun out hout a ha h => ?_⟩
  · rw [exists_withAggregates_iff, ← exists_ofRows_iff]
    constructor
    · rintro ⟨groups, hgroups, hcompute⟩
      refine ⟨⟨groups, hgroups⟩, fun a ha => ?_⟩
      obtain ⟨_, whole, -, hwhole, -⟩ := hrolled hgroups (has a ha) fun g hg => hcompute g hg a ha
      exact ⟨whole, hwhole⟩
    · rintro ⟨⟨groups, hgroups⟩, hcompute⟩
      refine ⟨groups, hgroups, fun g hg a ha => ?_⟩
      have hsub : g.rows ⊆ rows :=
        fun r hr => (flatMap_rows_ofRows hgroups).subset (List.mem_flatMap_of_mem hg hr)
      have hreads := (has a ha).exists_compute_iff.mp (hcompute a ha)
      exact ((has a ha).subset hsub).exists_compute_iff.mpr fun path hpath r hr => hreads path hpath r (hsub hr)
  · have hgroups := withAggregates_groups hout
    have haggregates := aggregates_of_withAggregates hout
    have hcompute : ∀ g ∈ out.map (·.1), ∃ v, a.compute g.rows = .ok v :=
      List.forall_mem_map.mpr fun x hx => exists_aggregates_iff.mp ⟨x.2, haggregates x hx⟩ a ha
    obtain ⟨parts, whole, hparts, hwhole, hrolls⟩ := hrolled hgroups h hcompute
    refine ⟨parts, whole, ?_, hwhole, hrolls⟩
    rw [List.map_map, List.forall₂_map_left_iff] at hparts
    refine ((List.forall₂_and_left _ _).mpr ⟨fun _ hx => hx, hparts⟩).imp fun x v hx => ?_
    exact shows_of_aggregates ha (haggregates x hx.1) hx.2

/-- No row with a key that is no number joins another one, and the group of an integer and a float of one value
has a null; the least value is a float, in the last group. -/
theorem withAggregates_rollsUp_nan :
    let row (k : Number) (v : Value) : Row :=
      { oneField "k" (.number k) with fields := [("k", .number k), ("n", v)] }
    let rows := [row (.real .nan) (.int 3), row (.int 1) .null, row (.real (.ofInt 1)) (.int 5),
      row (.real .nan) (.number (.real (.ofInt 2)))]
    let least : Aggregate := ⟨.min, some "n", none⟩
    let as : List Aggregate := [⟨.count, none, none⟩, least, ⟨.list, some "n", some "all"⟩]
    (∀ a ∈ as, a.IsAdditive rows) ∧ ∃ out, withAggregates as ["k"] rows = .ok out ∧
      out.map (fun x => x.1.rows.length) = [1, 2, 1] ∧
        ∃ parts whole, List.Forall₂ (Shows as least) out parts ∧ least.compute rows = .ok whole ∧
          least.RollsUp rows parts whole := by
  intro row rows least as
  have hlookup (k : Number) (v : Value) : (row k v).lookup "n" = .ok v :=
    Row.lookup_field (by decide +kernel) rfl
  have hleast : least.IsAdditive rows := by
    refine .extreme (.inl rfl) (by decide +kernel : least.path? = some "n") (.inl rfl) ?_
    simp only [rows, List.forall_mem_cons, List.not_mem_nil, false_implies, implies_true, and_true,
      hlookup, Except.ok.injEq, forall_eq']
    have htwo : (Number.real (.ofInt 2)).isNaN = false := by decide +kernel
    exact ⟨.inr ⟨rfl, rfl⟩, .inl rfl, .inr ⟨rfl, rfl⟩, .inr ⟨rfl, htwo⟩⟩
  have has : ∀ a ∈ as, a.IsAdditive rows :=
    List.forall_mem_cons.mpr ⟨.count rfl, List.forall_mem_cons.mpr
      ⟨hleast, List.forall_mem_singleton.mpr (.list rfl)⟩⟩
  have hsizes : (withAggregates as ["k"] rows).toOption.map (·.map fun x => x.1.rows.length) =
      some [1, 2, 1] := by decide +kernel
  obtain ⟨out, hout, hsize⟩ := Option.map_eq_some_iff.mp hsizes
  rw [toOption_eq_some] at hout
  exact ⟨has, out, hout, hsize,
    (withAggregates_rollsUp ["k"] rows as).2 out hout least (by simp [as]) hleast⟩

end Group
end NoteQuery
