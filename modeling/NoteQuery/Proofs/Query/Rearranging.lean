import NoteQuery.Proofs.Query.Extremes
import NoteQuery.Proofs.Query.Headers
import NoteQuery.Proofs.Query.Partition

/-! Grouping rows that come in another order. The groups are the same ones in another order: their values are
equal though not from the same rows, and so are counts, sums of integers, and extremes of numbers or of
texts alone. -/

namespace NoteQuery
set_option autoImplicit false

/-! ### Values at a path -/

namespace Aggregate
open Value

variable {a : Aggregate} {rows rows' : List Row} {path : String} {vs vs' : List Value}

theorem eq_map_of_valuesAt (h : valuesAt rows path = .ok vs) : vs = rows.map (·.valueAt path) := by
  have hlookup : ∀ r ∈ rows, r.lookup path = .ok (r.valueAt path) := by
    intro r hr
    obtain ⟨v, hv⟩ := exists_ok_of_mapM h r hr
    exact Row.lookup_valueAt hv
  exact Except.ok.inj (h.symm.trans (mapM_eq_ok hlookup))

theorem valuesAt_perm (hperm : rows.Perm rows') (h : valuesAt rows path = .ok vs)
    (h' : valuesAt rows' path = .ok vs') : vs.Perm vs' := by
  rw [eq_map_of_valuesAt h, eq_map_of_valuesAt h']
  exact hperm.map _

/-! ### Sums of integers -/

def integer? : Value → Option Int
  | .number (.int z) => some z
  | _ => none

theorem filterMap_asNumber? (h : ∀ v ∈ vs, ∀ n, v = .number n → ∃ z, n = .int z) :
    vs.filterMap asNumber? = (vs.filterMap integer?).map .int := by
  rw [List.map_filterMap]
  refine List.filterMap_congr fun v hv => ?_
  cases v with
  | number n =>
    obtain ⟨z, rfl⟩ := h _ hv n rfl
    rfl
  | _ => rfl

/-! ### Extremes of values that compare -/

variable {better : Ordering} {before after before' after' : List Value} {m m' : Value}

/-- Of two values that compare, neither better than the other one, each is as good as the other. -/
theorem equal_of_best (hbetter : better ≠ .eq) (hordered : AreOrdered m m') (h : ¬Betters better m m')
    (h' : ¬Betters better m' m) : m.equal m' = .ok true := by
  obtain ⟨order, hrelates⟩ := hordered.exists_relates
  have hneither : ¬IsLess m m' ∧ ¬IsLess m' m := by
    cases better with
    | eq => exact absurd rfl hbetter
    | lt => exact ⟨h, h'⟩
    | gt => exact ⟨h', h⟩
  cases order with
  | lt => exact absurd (less_iff.mp hrelates.less) hneither.1
  | eq => exact hrelates.equal
  | gt => exact absurd (less_iff.mp hrelates.greater) hneither.2

/-- Two first best values of the same values, in whatever order, are equal when they compare. -/
theorem IsFirstBest.equal (hperm : vs.Perm vs') (hbetter : better ≠ .eq)
    (h : IsFirstBest better vs before m after) (h' : IsFirstBest better vs' before' m' after')
    (hordered : AreOrdered m m') : m.equal m' = .ok true :=
  equal_of_best hbetter hordered (h'.best m (hperm.subset h.mem)) (h.best m' (hperm.symm.subset h'.mem))

/-! ### Aggregates that no order changes -/

/-- Counts, sums of numbers that are integers, and extremes of nothing but numbers, or texts, and nulls. -/
inductive IsOrderless (rows : List Row) (a : Aggregate) : Prop where
  | count (hkind : a.kind = .count)
  | none (hkind : a.kind = .sum ∨ a.kind = .min ∨ a.kind = .max) (hpath : a.path? = none)
  | sum {path : String} (hkind : a.kind = .sum) (hpath : a.path? = some path)
      (h : ∀ r ∈ rows, ∀ v, r.lookup path = .ok v → ∀ n, v = .number n → ∃ z, n = .int z)
  | extreme {path : String} {kind : Kind} (hkind : a.kind = .min ∨ a.kind = .max)
      (hpath : a.path? = some path) (hvalues : kind = .number ∨ kind = .text)
      (h : ∀ r ∈ rows, ∀ v, r.lookup path = .ok v → v = .null ∨ v.kind = kind)

theorem IsOrderless.subset (h : a.IsOrderless rows) (hsub : rows' ⊆ rows) : a.IsOrderless rows' := by
  cases h with
  | count hkind => exact .count hkind
  | none hkind hpath => exact .none hkind hpath
  | sum hkind hpath h => exact .sum hkind hpath fun r hr => h r (hsub hr)
  | extreme hkind hpath hvalues h => exact .extreme hkind hpath hvalues fun r hr => h r (hsub hr)

/-- The path that an aggregate looks up in each row. -/
def Reads (a : Aggregate) (path : String) : Prop := a.kind ≠ .count ∧ a.path? = some path

theorem compute_count (hkind : a.kind = .count) (rows : List Row) :
    a.compute rows = .ok (.int rows.length) := by
  rw [compute, hkind]

theorem compute_none (hkind : a.kind = .sum ∨ a.kind = .min ∨ a.kind = .max) (hpath : a.path? = none)
    (rows : List Row) : a.compute rows = .ok .null := by
  unfold compute
  rcases hkind with hkind | hkind | hkind <;> rw [hkind, hpath]

theorem compute_sum_int (hkind : a.kind = .sum) (hpath : a.path? = some path)
    (h : ∀ r ∈ rows, ∀ v, r.lookup path = .ok v → ∀ n, v = .number n → ∃ z, n = .int z)
    (hvs : valuesAt rows path = .ok vs) : a.compute rows = .ok (.int (vs.filterMap integer?).sum) := by
  unfold compute
  rw [hkind, hpath]
  dsimp only
  rw [hvs]
  change (do return Value.number (← Number.sum (vs.filterMap asNumber?)) : Outcome Value) = _
  rw [filterMap_asNumber? (forall_valuesAt hvs h), Number.sum_int]
  rfl

theorem isDate_of_kind {kind : Kind} {v : Value} (hvalues : kind = .number ∨ kind = .text)
    (h : v = .null ∨ v.kind = kind) : v.isDate = false := by
  cases v with
  | date d => rcases hvalues with rfl | rfl <;> rcases h with h | h <;> cases h
  | _ => rfl

theorem areOrdered_of_kind {kind : Kind} {v w : Value} (hvalues : kind = .number ∨ kind = .text)
    (hv : v.Regular) (hw : w.Regular) (hkind : v.kind = kind) (hkind' : w.kind = kind) :
    AreOrdered v w := by
  rcases hvalues with rfl | rfl
  · cases v <;> cases hkind
    cases w <;> cases hkind'
    exact .numbers hv hw
  · cases v <;> cases hkind
    cases w <;> cases hkind'
    exact .texts trivial trivial

theorem forall_reads_iff {good : String → Prop} (hkind : a.kind ≠ .count) (hpath : a.path? = some path) :
    (∀ p, a.Reads p → good p) ↔ good path := by
  refine ⟨fun h => h path ⟨hkind, hpath⟩, fun h p hreads => ?_⟩
  cases hpath.symm.trans hreads.2
  exact h

theorem exists_valuesAt_of_compute (hkind : a.kind = .sum ∨ a.kind = .min ∨ a.kind = .max)
    (hpath : a.path? = some path) {v : Value} (hv : a.compute rows = .ok v) :
    ∃ vs, valuesAt rows path = .ok vs := by
  unfold compute at hv
  rcases hkind with hkind | hkind | hkind <;> rw [hkind, hpath] at hv <;>
    exact (bind_eq_ok.mp hv).imp fun _ h => h.1

/-- Such an aggregate is there as soon as the values at its path are. -/
theorem IsOrderless.exists_compute_iff (h : a.IsOrderless rows) :
    (∃ v, a.compute rows = .ok v) ↔
      ∀ path, a.Reads path → ∀ r ∈ rows, ∃ v, r.lookup path = .ok v := by
  cases h with
  | count hkind =>
    exact iff_of_true ⟨_, compute_count hkind rows⟩ fun _ hreads => absurd hkind hreads.1
  | none hkind hpath =>
    exact iff_of_true ⟨_, compute_none hkind hpath rows⟩ fun _ hreads => nomatch hpath.symm.trans hreads.2
  | sum hkind hpath h =>
    rw [forall_reads_iff (by rw [hkind]; decide) hpath, ← exists_mapM_ok_iff]
    constructor
    · exact fun ⟨_, hv⟩ => exists_valuesAt_of_compute (.inl hkind) hpath hv
    · exact fun ⟨_, hvs⟩ => ⟨_, compute_sum_int hkind hpath h hvs⟩
  | extreme hkind hpath hvalues h =>
    have hne : a.kind ≠ .count := by rcases hkind with hkind | hkind <;> rw [hkind] <;> decide
    rw [forall_reads_iff hne hpath, ← exists_mapM_ok_iff]
    constructor
    · exact fun ⟨_, hv⟩ => exists_valuesAt_of_compute (.inr hkind) hpath hv
    · rintro ⟨vs, hvs⟩
      rw [compute_of_valuesAt hkind hpath hvs]
      have hdates : ∀ v ∈ vs, v.isDate = false := fun v hv =>
        isDate_of_kind hvalues (forall_valuesAt hvs h v hv)
      rcases exists_extreme a.better_ne_eq hdates with ⟨-, hnull⟩ | ⟨-, m, -, -, hm, -⟩
      · exact ⟨_, lift_eq_ok.mpr hnull⟩
      · exact ⟨m, lift_eq_ok.mpr hm⟩

theorem equal_extreme {kind : Kind} (hvalues : kind = .number ∨ kind = .text) (hbetter : better ≠ .eq)
    (hperm : vs.Perm vs') (hregular : ∀ v ∈ vs, v.Regular) (h : ∀ v ∈ vs, v = .null ∨ v.kind = kind)
    (hm : Aggregate.extreme better vs = .ok m) (hm' : Aggregate.extreme better vs' = .ok m') :
    m.equal m' = .ok true := by
  have hdates : ∀ v ∈ vs, v.isDate = false := fun v hv => isDate_of_kind hvalues (h v hv)
  have hdates' : ∀ v ∈ vs', v.isDate = false := fun v hv => hdates v (hperm.symm.subset hv)
  rcases exists_extreme hbetter hdates with ⟨hnulls, hnull⟩ | ⟨before, best, after, hne, hbest, hfirst⟩
  · rcases exists_extreme hbetter hdates' with ⟨-, hnull'⟩ | ⟨_, best', _, hne', -, hfirst'⟩
    · cases hm.symm.trans hnull
      cases hm'.symm.trans hnull'
      rfl
    · exact absurd (hnulls best' (hperm.symm.subset hfirst'.mem)) hne'
  · rcases exists_extreme hbetter hdates' with
      ⟨hnulls', -⟩ | ⟨before', best', after', hne', hbest', hfirst'⟩
    · exact absurd (hnulls' best (hperm.subset hfirst.mem)) hne
    · cases hm.symm.trans hbest
      cases hm'.symm.trans hbest'
      have hmem' := hperm.symm.subset hfirst'.mem
      refine hfirst.equal hperm hbetter hfirst' (areOrdered_of_kind hvalues ?_ ?_ ?_ ?_)
      · exact hregular m hfirst.mem
      · exact hregular m' hmem'
      · exact (h m hfirst.mem).resolve_left hne
      · exact (h m' hmem').resolve_left hne'

/-- Such an aggregate of the same rows in another order is equal. -/
theorem IsOrderless.equal_compute (h : a.IsOrderless rows) (hperm : rows.Perm rows')
    (hrows : ∀ r ∈ rows, r.IsRegular) {v w : Value} (hv : a.compute rows = .ok v)
    (hw : a.compute rows' = .ok w) : v.equal w = .ok true := by
  have hint (z : Int) : (Value.int z).equal (.int z) = .ok true :=
    congrArg Except.ok (number_eq_self rfl)
  cases h with
  | count hkind =>
    cases hv.symm.trans (compute_count hkind rows)
    cases hw.symm.trans (compute_count hkind rows')
    rw [hperm.length_eq]
    exact hint _
  | none hkind hpath =>
    cases hv.symm.trans (compute_none hkind hpath rows)
    cases hw.symm.trans (compute_none hkind hpath rows')
    rfl
  | sum hkind hpath h =>
    obtain ⟨vs, hvs⟩ := exists_valuesAt_of_compute (.inl hkind) hpath hv
    obtain ⟨vs', hvs'⟩ := exists_valuesAt_of_compute (.inl hkind) hpath hw
    cases hv.symm.trans (compute_sum_int hkind hpath h hvs)
    cases hw.symm.trans
      (compute_sum_int hkind hpath (fun r hr => h r (hperm.symm.subset hr)) hvs')
    rw [((valuesAt_perm hperm hvs hvs').filterMap integer?).sum_eq]
    exact hint _
  | extreme hkind hpath hvalues h =>
    obtain ⟨vs, hvs⟩ := exists_valuesAt_of_compute (.inr hkind) hpath hv
    obtain ⟨vs', hvs'⟩ := exists_valuesAt_of_compute (.inr hkind) hpath hw
    rw [compute_of_valuesAt hkind hpath hvs, lift_eq_ok] at hv
    rw [compute_of_valuesAt hkind hpath hvs', lift_eq_ok] at hw
    refine equal_extreme hvalues a.better_ne_eq (valuesAt_perm hperm hvs hvs') ?_
      (forall_valuesAt hvs h) hv hw
    exact forall_valuesAt hvs fun r hr => ensures_iff.mp (Row.regular_lookup (hrows r hr) _)

end Aggregate

/-! ### Records of equal values -/

namespace Record

/-- Records with the same names in one order and with equal values under them. -/
def Same (r s : Record) : Prop :=
  List.Forall₂ (fun e f => e.1 = f.1 ∧ e.2.equal f.2 = .ok true) r s

theorem Same.insert {r s : Record} {v w : Value} (h : Same r s) (key : String)
    (hvw : v.equal w = .ok true) : Same (Record.insert r key v) (Record.insert s key w) := by
  induction h with
  | nil => exact .cons ⟨rfl, hvw⟩ .nil
  | @cons e f r s hef hrest ih =>
    rw [Record.insert, Record.insert, hef.1]
    split
    · exact .cons ⟨rfl, hvw⟩ hrest
    · exact .cons ⟨rfl, hef.2⟩ ih

theorem Same.ofList {es fs : List (String × Value)} (h : Same es fs) : Same (ofList es) (ofList fs) := by
  have hfold (r s : Record) (hrs : Same r s) :
      Same (es.foldl (fun r e => Record.insert r e.1 e.2) r)
        (fs.foldl (fun r e => Record.insert r e.1 e.2) s) := by
    induction h generalizing r s with
    | nil => exact hrs
    | @cons e f es fs hef _ ih =>
      rw [List.foldl_cons, List.foldl_cons, hef.1]
      exact ih _ _ (hrs.insert f.1 hef.2)
  exact hfold [] [] .nil

end Record

/-! ### Positions -/

theorem exists_positions {α : Type} {xs ys : List α} (hperm : xs.Perm ys) :
    ∃ moved : Fin xs.length ≃ Fin ys.length, ∀ i, ys.get (moved i) = xs.get i := by
  classical
  exact ⟨⟨hperm.idxBij, hperm.symm.idxBij, fun _ => hperm.idxBij_symm_idxBij,
    fun _ => hperm.idxBij_idxBij_symm⟩, hperm.getElem_idxBij_eq_getElem⟩

/-- Homes that part two lists alike belong to each other. -/
theorem exists_homes {ι ι' κ κ' : Type} (moved : ι ≃ ι') {home : ι → κ} {home' : ι' → κ'}
    (honto : Function.Surjective home) (honto' : Function.Surjective home')
    (h : ∀ i j, home' (moved i) = home' (moved j) ↔ home i = home j) :
    ∃ e : κ ≃ κ', ∀ i, home' (moved i) = e (home i) := by
  have hinv (k : κ) : home (Function.surjInv honto k) = k := Function.surjInv_eq honto k
  refine ⟨.ofBijective (fun k => home' (moved (Function.surjInv honto k))) ⟨fun k l hkl => ?_, fun k' => ?_⟩,
    fun i => (h i _).mpr (hinv _).symm⟩
  · rw [← hinv k, ← hinv l]
    exact (h _ _).mp hkl
  · obtain ⟨i', rfl⟩ := honto' k'
    refine ⟨home (moved.symm i'), ?_⟩
    dsimp only
    rw [(h _ _).mpr (hinv (home (moved.symm i'))), moved.apply_symm_apply]

theorem exists_equiv_of_map {α β : Type} {f : α → β} {xs ys : List α} {rel : β → β → Prop}
    (h : ∃ e : Fin (xs.map f).length ≃ Fin (ys.map f).length,
      ∀ k, rel ((xs.map f).get k) ((ys.map f).get (e k))) :
    ∃ e : Fin xs.length ≃ Fin ys.length, ∀ k, rel (f (xs.get k)) (f (ys.get (e k))) := by
  obtain ⟨e, he⟩ := h
  have hlength (zs : List α) : (zs.map f).length = zs.length := List.length_map _
  refine ⟨(finCongr (hlength xs)).symm.trans (e.trans (finCongr (hlength ys))), fun k => ?_⟩
  simpa using he ((finCongr (hlength xs)).symm k)

/-! ### Groups -/

namespace Group

variable {paths : List String} {rows rows' : List Row} {groups groups' : List Group}
  {as : List Aggregate}

/-- Groups with the same rows in any order, and with equal values at the paths. -/
structure IsRearranged (paths : List String) (g h : Group) : Prop where
  rows : g.rows.Perm h.rows
  values : ∀ p ∈ paths, ∃ v w,
    g.record.get? p = some v ∧ h.record.get? p = some w ∧ v.deepEqual w = .ok true

namespace IsPartition

variable {home : Fin rows.length → Fin groups.length} {home' : Fin rows'.length → Fin groups'.length}

theorem mem_rows_iff (h : IsPartition paths rows groups home) {k : Fin groups.length} {r : Row} :
    r ∈ (groups.get k).rows ↔ ∃ i, home i = k ∧ rows.get i = r := by
  rw [h.rows_eq]
  simp

theorem exists_first (h : IsPartition paths rows groups home) (k : Fin groups.length) :
    ∃ i, home i = k ∧ rows.get i = (groups.get k).first :=
  h.mem_rows_iff.mp List.mem_cons_self

/-- The groups of rows in another order are the same ones, rearranged. -/
theorem exists_equiv (h : IsPartition paths rows groups home) (h' : IsPartition paths rows' groups' home')
    (hperm : rows.Perm rows') : ∃ e : Fin groups.length ≃ Fin groups'.length,
      ∀ k, IsRearranged paths (groups.get k) (groups'.get (e k)) := by
  obtain ⟨moved, hmoved⟩ := exists_positions hperm
  have hsame (i j : Fin rows.length) : home' (moved i) = home' (moved j) ↔ home i = home j := by
    rw [h'.same_iff, h.same_iff, hmoved, hmoved]
  obtain ⟨e, he⟩ := exists_homes moved h.inhabited h'.inhabited hsame
  refine ⟨e, fun k => ⟨?_, fun p hp => ?_⟩⟩
  · have hpositions : ((List.finRange rows.length).map moved).Perm (List.finRange rows'.length) := by
      refine (List.perm_ext_iff_of_nodup ?_ (List.nodup_finRange _)).mpr fun i => ?_
      · exact (List.nodup_finRange _).map moved.injective
      · simpa using moved.surjective i
    rw [h.rows_eq, h'.rows_eq]
    refine List.Perm.trans (.of_eq ?_) ((hpositions.filter _).map _)
    rw [List.filter_map, List.map_map]
    refine congrArg₂ List.map (funext fun i => (hmoved i).symm) (List.filter_congr fun i _ => ?_)
    refine decide_eq_decide.mpr ?_
    rw [he, e.apply_eq_iff_eq]
  · obtain ⟨i, hi, hfirst⟩ := h.exists_first k
    obtain ⟨i', hi', hfirst'⟩ := h'.exists_first (e k)
    -- the first row on the right stands somewhere in the same group on the left
    obtain ⟨j, rfl⟩ := moved.surjective i'
    rw [he, e.apply_eq_iff_eq] at hi'
    obtain ⟨v, w, hv, hw, hdeep⟩ := (h.same_iff i j).mp (hi.trans hi'.symm) p hp
    rw [hfirst] at hv
    rw [← hmoved, hfirst'] at hw
    exact ⟨v, w, (h.record_iff k p v).mpr ⟨hp, hv⟩, (h'.record_iff (e k) p w).mpr ⟨hp, hw⟩, hdeep⟩

end IsPartition

theorem rows_subset (hrows : ∀ r ∈ rows, r.IsRegular) (h : ofRows paths rows = .ok groups) :
    ∀ g ∈ groups, g.rows ⊆ rows := by
  obtain ⟨home, hhome⟩ := ofRows_isPartition hrows h
  intro g hg r hr
  obtain ⟨k, rfl⟩ := List.mem_iff_get.mp hg
  obtain ⟨i, -, rfl⟩ := hhome.mem_rows_iff.mp hr
  exact rows.get_mem i

theorem keys_ofRow {r : Row} {g : Group} (h : ofRow paths r = .ok g) :
    Record.keys g.record = paths.eraseDups := by
  obtain ⟨record, hrecord, h⟩ := bind_eq_ok.mp h
  obtain ⟨key, -, h⟩ := bind_eq_ok.mp h
  cases h
  rw [keys_ofList_of_mapM hrecord, List.map_id']

theorem keys_add {g : Group} (hg : Record.keys g.record = paths.eraseDups)
    (h : ∀ k ∈ groups, Record.keys k.record = paths.eraseDups) :
    ∀ k ∈ g.add groups, Record.keys k.record = paths.eraseDups := by
  induction groups with
  | nil => exact List.forall_mem_singleton.mpr hg
  | cons k groups ih =>
    rw [List.forall_mem_cons] at h
    rw [add]
    split
    · exact List.forall_mem_cons.mpr h
    · exact List.forall_mem_cons.mpr ⟨h.1, ih h.2⟩

theorem keys_ofRows (h : ofRows paths rows = .ok groups) :
    ∀ g ∈ groups, Record.keys g.record = paths.eraseDups := by
  have hall : Ensures (fun groups => ∀ g ∈ groups, Record.keys g.record = paths.eraseDups)
      (ofRows paths rows) :=
    Yields.foldlM nofun fun _ hgroups _ _ => ensures_bind fun _ hg => keys_add (keys_ofRow hg) hgroups
  exact ensures_iff.mp hall _ h

theorem IsRearranged.deepEqual_record {g h : Group} (hgh : IsRearranged paths g h)
    (hg : Record.keys g.record = paths.eraseDups) (hh : Record.keys h.record = paths.eraseDups) :
    (Value.object g.record).deepEqual (.object h.record) = .ok true := by
  have hnodup : (Record.keys g.record).Nodup := by
    rw [hg]
    exact (Order.eraseDupsBy_pairwise _ _).imp fun hne => (beq_eq_false_iff_ne.mp hne).symm
  have hnames : Record.keys g.record = Record.keys h.record := hg.trans hh.symm
  refine Value.deepEqual_object_iff.mpr ⟨⟨fun e he => ?_, fun e he => ?_⟩, fun e he => ?_⟩
  · exact hnames ▸ List.mem_map_of_mem he
  · exact hnames ▸ List.mem_map_of_mem he
  · have hmem : e.1 ∈ Record.keys g.record := List.mem_map_of_mem he
    rw [hg, List.mem_eraseDups] at hmem
    obtain ⟨v, w, hv, hw, hdeep⟩ := hgh.values e.1 hmem
    have hget := Value.get_of_mem hnodup he
    rw [Record.get, hv, Option.getD_some] at hget
    rw [Record.get, hw, Option.getD_some, ← hget]
    exact hdeep

/-! ### Groups with aggregates -/

/-- Groups with equal keys, the same rows in any order, and equal aggregates. -/
structure Matches (x y : Group × Record) : Prop where
  key : (Value.object x.1.record).deepEqual (.object y.1.record) = .ok true
  rows : x.1.rows.Perm y.1.rows
  aggregates : x.2.Same y.2

theorem aggregates_of_withAggregates {out : List (Group × Record)}
    (h : withAggregates as paths rows = .ok out) : ∀ x ∈ out, x.1.aggregates as = .ok x.2 := by
  obtain ⟨groups, -, hout⟩ := bind_eq_ok.mp h
  refine forall_of_forall₂ (forall₂_of_mapM hout) fun g x hx => ?_
  obtain ⟨record, hrecord, hx⟩ := bind_eq_ok.mp hx
  cases hx
  exact hrecord

theorem same_aggregates {g g' : Group} {record record' : Record} (hperm : g.rows.Perm g'.rows)
    (hrows : ∀ r ∈ g.rows, r.IsRegular) (has : ∀ a ∈ as, a.IsOrderless g.rows)
    (h : g.aggregates as = .ok record) (h' : g'.aggregates as = .ok record') : record.Same record' := by
  obtain ⟨es, hes, h⟩ := bind_eq_ok.mp h
  obtain ⟨fs, hfs, h'⟩ := bind_eq_ok.mp h'
  cases h
  cases h'
  refine Record.Same.ofList (forall₂_mapM hes hfs fun a ha e f he hf => ?_)
  obtain ⟨v, hv, he⟩ := bind_eq_ok.mp he
  obtain ⟨w, hw, hf⟩ := bind_eq_ok.mp hf
  cases he
  cases hf
  exact ⟨rfl, (has a ha).equal_compute hperm hrows hv hw⟩

theorem exists_orderless_iff (hrows : ∀ r ∈ rows, r.IsRegular) (has : ∀ a ∈ as, a.IsOrderless rows) :
    (∃ out, withAggregates as paths rows = .ok out) ↔
      ∀ r ∈ rows, (∀ p ∈ paths, ∃ v, r.lookup p = .ok v ∧ v.DatesInCalendar) ∧
        ∀ a ∈ as, ∀ path, a.Reads path → ∃ v, r.lookup path = .ok v := by
  rw [exists_withAggregates_iff]
  constructor
  · rintro ⟨groups, hgroups, hcompute⟩ r hr
    refine ⟨exists_ofRows_iff.mp ⟨groups, hgroups⟩ r hr, fun a ha path hreads => ?_⟩
    -- the aggregate of the group of this row looked the path up in it
    obtain ⟨home, hhome⟩ := ofRows_isPartition hrows hgroups
    obtain ⟨i, rfl⟩ := List.mem_iff_get.mp hr
    have hg := List.get_mem groups (home i)
    have horderless := (has a ha).subset (rows_subset hrows hgroups _ hg)
    exact horderless.exists_compute_iff.mp (hcompute _ hg a ha) path hreads _
      (hhome.mem_rows_iff.mpr ⟨i, rfl, rfl⟩)
  · intro h
    obtain ⟨groups, hgroups⟩ := exists_ofRows_iff.mpr fun r hr => (h r hr).1
    refine ⟨groups, hgroups, fun g hg a ha => ?_⟩
    have hsub := rows_subset hrows hgroups g hg
    exact ((has a ha).subset hsub).exists_compute_iff.mpr fun path hreads r hr =>
      (h r (hsub hr)).2 a ha path hreads

/-- Grouping ends the query for all orders of some rows or for none. The groups of two orders belong to
each other one by one, as long as their aggregates are counts, sums of integers, and extremes of
nothing but numbers, or texts, and nulls. -/
theorem withAggregates_perm (hperm : rows.Perm rows') (hrows : ∀ r ∈ rows, r.IsRegular)
    (has : ∀ a ∈ as, a.IsOrderless rows) (paths : List String) :
    ((∃ out, withAggregates as paths rows = .ok out) ↔
      ∀ r ∈ rows, (∀ p ∈ paths, ∃ v, r.lookup p = .ok v ∧ v.DatesInCalendar) ∧
        ∀ a ∈ as, ∀ path, a.Reads path → ∃ v, r.lookup path = .ok v) ∧
    ((∃ out, withAggregates as paths rows = .ok out) ↔
      ∃ out, withAggregates as paths rows' = .ok out) ∧
    ∀ out out', withAggregates as paths rows = .ok out → withAggregates as paths rows' = .ok out' →
      ∃ e : Fin out.length ≃ Fin out'.length, ∀ k, Matches (out.get k) (out'.get (e k)) := by
  have hrows' : ∀ r ∈ rows', r.IsRegular := fun r hr => hrows r (hperm.symm.subset hr)
  have has' : ∀ a ∈ as, a.IsOrderless rows' := fun a ha => (has a ha).subset hperm.symm.subset
  refine ⟨exists_orderless_iff hrows has, ?_, fun out out' hout hout' => ?_⟩
  · rw [exists_orderless_iff hrows has, exists_orderless_iff hrows' has']
    exact forall_congr' fun r => by rw [hperm.mem_iff]
  · have hgroups := withAggregates_groups hout
    have hgroups' := withAggregates_groups hout'
    obtain ⟨home, hhome⟩ := ofRows_isPartition hrows hgroups
    obtain ⟨home', hhome'⟩ := ofRows_isPartition hrows' hgroups'
    obtain ⟨e, he⟩ := exists_equiv_of_map (hhome.exists_equiv hhome' hperm)
    refine ⟨e, fun k => ?_⟩
    have hx := out.get_mem k
    have hy := out'.get_mem (e k)
    have hg : (out.get k).1 ∈ out.map (·.1) := List.mem_map_of_mem hx
    have hsub := rows_subset hrows hgroups _ hg
    have horderless : ∀ a ∈ as, a.IsOrderless (out.get k).1.rows := fun a ha => (has a ha).subset hsub
    refine ⟨?_, (he k).rows, ?_⟩
    · exact (he k).deepEqual_record (keys_ofRows hgroups _ hg)
        (keys_ofRows hgroups' _ (List.mem_map_of_mem hy))
    · refine same_aggregates (he k).rows (fun r hr => hrows r (hsub hr)) horderless ?_ ?_
      · exact aggregates_of_withAggregates hout _ hx
      · exact aggregates_of_withAggregates hout' _ hy

/-- An integer and a float of one value make the first group. In the other order of the rows they make the
last one, and the float comes first in it. -/
theorem withAggregates_perm_rotated :
    let row (n : Number) (z : Int) : Row :=
      { oneField "n" (.number n) with fields := [("n", .number n), ("m", .int z)] }
    let rows := [row (.int 1) 3, row (.real (.ofInt 1)) 4, row (.int 2) 5]
    let rows' := [row (.int 2) 5, row (.real (.ofInt 1)) 4, row (.int 1) 3]
    let as : List Aggregate := [⟨.count, none, none⟩, ⟨.sum, some "m", none⟩, ⟨.min, some "n", none⟩]
    rows.Perm rows' ∧ (∀ r ∈ rows, r.IsRegular) ∧ (∀ a ∈ as, a.IsOrderless rows) ∧
      ∃ out out', withAggregates as ["n"] rows = .ok out ∧ withAggregates as ["n"] rows' = .ok out' ∧
        out.map (fun x => x.1.rows.length) = [2, 1] ∧ out'.map (fun x => x.1.rows.length) = [1, 2] ∧
        ∃ e : Fin out.length ≃ Fin out'.length, ∀ k, Matches (out.get k) (out'.get (e k)) := by
  intro row rows rows' as
  have hn (n : Number) (z : Int) : (row n z).lookup "n" = .ok (.number n) :=
    Row.lookup_field (by decide +kernel) rfl
  have hm (n : Number) (z : Int) : (row n z).lookup "m" = .ok (.int z) :=
    Row.lookup_field (by decide +kernel) rfl
  have hperm : rows.Perm rows' := List.reverse_perm rows'
  have hregular : ∀ r ∈ rows, r.IsRegular := by
    simp [rows, row, oneField, Row.IsRegular, Value.EntriesRegular, Value.Regular, Value.int,
      FileInfo.record, FileInfo.get, FileAttribute.all, Number.isNaN]
    decide +kernel
  have horderless : ∀ a ∈ as, a.IsOrderless rows := by
    have hsum : Aggregate.path? ⟨.sum, some "m", none⟩ = some "m" := by decide +kernel
    have hmin : Aggregate.path? ⟨.min, some "n", none⟩ = some "n" := by decide +kernel
    refine List.forall_mem_cons.mpr ⟨.count rfl, List.forall_mem_cons.mpr ⟨.sum rfl hsum ?_, ?_⟩⟩
    · simp [rows, hm, Value.int]
    · refine List.forall_mem_singleton.mpr (.extreme (.inl rfl) hmin (.inl rfl) ?_)
      simp [rows, hn, Value.kind]
  have hsizes : ((withAggregates as ["n"] rows).toOption.map (·.map fun x => x.1.rows.length) = some [2, 1]) ∧
      (withAggregates as ["n"] rows').toOption.map (·.map fun x => x.1.rows.length) = some [1, 2] := by
    decide +kernel
  obtain ⟨out, hout, hsize⟩ := Option.map_eq_some_iff.mp hsizes.1
  obtain ⟨out', hout', hsize'⟩ := Option.map_eq_some_iff.mp hsizes.2
  rw [toOption_eq_some] at hout hout'
  exact ⟨hperm, hregular, horderless, out, out', hout, hout', hsize, hsize',
    (withAggregates_perm hperm hregular horderless ["n"]).2.2 out out' hout hout'⟩

end Group

end NoteQuery
