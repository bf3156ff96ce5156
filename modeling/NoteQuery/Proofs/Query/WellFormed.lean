import NoteQuery.Output.Basic
import NoteQuery.Proofs.Row.WellFormed

/-! The result of a query over rows of well-formed values has such values only: in the cells of its fields, in
its groups and their aggregates, which may be whole rows, in its tasks, and in what it says of the query. -/

namespace NoteQuery
set_option autoImplicit false
open Value

variable {rows : List Row}

/-! ### Aggregates -/

namespace Aggregate

theorem wellFormed_bestFrom (better : Ordering) {best : Value} {vs : List Value} (h : best.WellFormed)
    (hvs : ∀ v ∈ vs, v.WellFormed) : Ensures WellFormed (bestFrom better best vs) := by
  induction vs generalizing best with
  | nil => exact h
  | cons v vs ih =>
    obtain ⟨hv, hvs⟩ := List.forall_mem_cons.mp hvs
    refine ensures_bind fun order _ => ?_
    split
    · exact ih hv hvs
    · exact ih h hvs

theorem wellFormed_extreme (better : Ordering) {vs : List Value} (h : ∀ v ∈ vs, v.WellFormed) :
    Ensures WellFormed (extreme better vs) := by
  unfold extreme
  split
  · trivial
  · next v vs' hvs =>
    have hpresent : ∀ w ∈ v :: vs', w.WellFormed := by
      intro w hw
      rw [← hvs] at hw
      exact h w (List.mem_of_mem_filter hw)
    obtain ⟨hv, hvs⟩ := List.forall_mem_cons.mp hpresent
    exact wellFormed_bestFrom better hv hvs

theorem wellFormed_valuesAt (h : ∀ r ∈ rows, r.WellFormed) (path : String) :
    Ensures (fun vs => ∀ v ∈ vs, v.WellFormed) (valuesAt rows path) :=
  Yields.mapM fun r hr => Row.wellFormed_lookup (h r hr) path

theorem wellFormed_listed {r : Row} (h : r.WellFormed) : (listed r).WellFormed := by
  unfold listed
  split
  · exact h.file .path
  · exact h.file .name

theorem wellFormed_pick (path? : Option String) {r? : Option Row} (h : ∀ r ∈ r?, r.WellFormed) :
    Ensures WellFormed (pick path? r?) := by
  cases r? with
  | none => trivial
  | some r =>
    cases path? with
    | none => exact (h r rfl).record
    | some path => exact Row.wellFormed_lookup (h r rfl) path

theorem wellFormed_compute (a : Aggregate) (h : ∀ r ∈ rows, r.WellFormed) :
    Ensures WellFormed (a.compute rows) := by
  unfold compute
  split
  · trivial
  · exact wellFormed_pick _ fun r hr => h r (List.mem_of_mem_head? hr)
  · exact wellFormed_pick _ fun r hr => h r (List.mem_of_mem_getLast? hr)
  · exact allWellFormed_map fun r hr => wellFormed_listed (h r hr)
  · refine (wellFormed_valuesAt h _).bind fun vs hvs => allWellFormed_iff.mpr fun v hv => ?_
    exact hvs v (List.mem_of_mem_filter hv)
  · trivial
  · exact ensures_bind fun vs _ => (Number.rounded_sum _).lift.bind fun _ hn => hn
  · refine ensures_bind fun vs _ => (Number.rounded_average? _).lift.bind fun n? hn => ?_
    cases n? with
    | none => trivial
    | some n => exact hn n rfl
  · exact (wellFormed_valuesAt h _).bind fun vs hvs => (wellFormed_extreme _ hvs).lift
  · exact (wellFormed_valuesAt h _).bind fun vs hvs => (wellFormed_extreme _ hvs).lift

end Aggregate

/-! ### Groups -/

namespace Group

structure WellFormed (g : Group) : Prop where
  record : EntriesWellFormed g.record
  rows : ∀ r ∈ g.rows, r.WellFormed

theorem wellFormed_ofRow {r : Row} (h : r.WellFormed) (paths : List String) :
    Ensures WellFormed (ofRow paths r) := by
  have hrecord : Ensures EntriesWellFormed (recordOf paths r) := by
    refine Yields.bind (wellFormed_ofList_mapM fun p _ => ?_) fun _ hes => hes.2
    exact (Row.wellFormed_lookup h p).bind fun v hv => hv
  refine hrecord.bind fun record hrecord => ensures_bind fun key _ => ?_
  exact ⟨hrecord, List.forall_mem_singleton.mpr h⟩

theorem wellFormed_add {g : Group} (h : g.WellFormed) {groups : List Group}
    (hgroups : ∀ k ∈ groups, k.WellFormed) : ∀ k ∈ g.add groups, k.WellFormed := by
  induction groups with
  | nil => exact List.forall_mem_singleton.mpr h
  | cons k groups ih =>
    obtain ⟨hk, hgroups⟩ := List.forall_mem_cons.mp hgroups
    rw [add]
    split
    · refine List.forall_mem_cons.mpr ⟨⟨hk.record, ?_⟩, hgroups⟩
      exact List.forall_mem_append.mpr ⟨hk.rows, h.rows⟩
    · exact List.forall_mem_cons.mpr ⟨hk, ih hgroups⟩

theorem wellFormed_ofRows (h : ∀ r ∈ rows, r.WellFormed) (paths : List String) :
    Ensures (fun groups => ∀ g ∈ groups, g.WellFormed) (ofRows paths rows) :=
  Yields.foldlM (fun _ hg => absurd hg List.not_mem_nil) fun _ hgroups r hr =>
    (wellFormed_ofRow (h r hr) paths).bind fun _ hg => wellFormed_add hg hgroups

theorem wellFormed_aggregates {g : Group} (h : g.WellFormed) (as : List Aggregate) :
    Ensures EntriesWellFormed (g.aggregates as) := by
  refine Yields.bind (wellFormed_ofList_mapM fun a _ => ?_) fun _ hes => hes.2
  exact (a.wellFormed_compute h.rows).bind fun v hv => hv

end Group

/-! ### Results -/

theorem Running.wellFormed_orElse {o : Outcome Value} (h : Ensures WellFormed o) {default : Value}
    (hdefault : default.WellFormed) : Ensures WellFormed (orElse o default) := by
  cases o with
  | ok v => exact h
  | error f =>
    unfold orElse
    dsimp only
    split
    · exact hdefault
    · trivial

theorem Plan.rounded_readField {spec : FieldSpec} {p : ProjectedField}
    (h : Plan.readField spec = .ok (.inr p)) : p.compiled.expr.IsRounded := by
  unfold readField at h
  split at h
  · cases h
  · cases h
  · obtain ⟨compiled, hcompiled, h⟩ := bind_eq_ok.mp h
    cases h
    unfold Compiled.read at hcompiled
    split at hcompiled
    · next e he =>
      cases hcompiled
      exact Expr.rounded_parse he
    · cases hcompiled

namespace Plan

variable {now : Moment} {q : Query} {filter? : Option Compiled} {p : Plan}

theorem IsFor.rounded (h : p.IsFor q filter?) : ∀ f ∈ p.projections, f.compiled.expr.IsRounded := by
  obtain ⟨fields, hfields, -, hprojections⟩ := h.fields
  intro f hf
  rw [hprojections] at hf
  obtain ⟨field, hfield, hright⟩ := List.mem_filterMap.mp hf
  have hread : ∀ field ∈ fields, ∀ f, field = .inr f → f.compiled.expr.IsRounded :=
    forall_of_forall₂ (forall₂_of_mapM hfields) fun spec field hspec f hf =>
      rounded_readField (hf ▸ hspec)
  refine hread field hfield f ?_
  cases field with
  | inl a => cases hright
  | inr g =>
    cases hright
    rfl

theorem wellFormed_projected {projections : List ProjectedField}
    (hprojections : ∀ f ∈ projections, f.compiled.expr.IsRounded) {r : Row} (h : r.WellFormed) :
    Ensures Row.WellFormed (projected now projections r) := by
  have hfields : Ensures (fun es => (object (Record.ofList es)).WellFormed)
      (projections.mapM fun f => do
        let v ← Running.orElse (f.compiled.expr.evaluate now r.context) .null
        return (f.spec.name, v)) := by
    refine wellFormed_ofList_mapM fun f hf => ?_
    have hvalue := Expr.wellFormed_evaluate h.context (hprojections f hf) now
    have hnull : Value.null.WellFormed := trivial
    exact (Running.wellFormed_orElse hvalue hnull).bind fun v hv => hv
  exact hfields.bind fun es hes => ⟨hes, h.file⟩

theorem wellFormed_groupedRows (h : ∀ r ∈ rows, r.WellFormed) (p : Plan) :
    Ensures (fun xs => ∀ x ∈ xs, x.row.WellFormed) (groupedRows p rows) := by
  refine (Group.wellFormed_ofRows h _).bind fun groups hgroups => Yields.mapM fun g hg => ?_
  refine (Group.wellFormed_aggregates (hgroups g hg) _).bind fun aggregates haggregates => ?_
  have hentries : EntriesWellFormed (g.record ++ aggregates) := by
    rw [entriesWellFormed_iff] at haggregates ⊢
    exact List.forall_mem_append.mpr
      ⟨entriesWellFormed_iff.mp (hgroups g hg).record, haggregates⟩
  exact ⟨wellFormed_ofList hentries, ((hgroups g hg).rows g.first List.mem_cons_self).file⟩

theorem wellFormed_kept (h : ∀ r ∈ rows, r.WellFormed) :
    Ensures (fun kept => ∀ r ∈ kept, r.WellFormed) (kept now filter? rows) :=
  (mem_of_filterM _ rows).imp (fun _ hkept r hr => h r (hkept r hr)) fun _ _ => trivial

theorem wellFormed_flattened (h : ∀ r ∈ rows, r.WellFormed) (path? : Option String) :
    Ensures (fun flat => ∀ r ∈ flat, r.WellFormed) (flattened path? rows) := by
  unfold flattened
  split
  · exact h
  · exact (Row.wellFormed_flattenAll h _).mapError

theorem wellFormed_results (hfor : p.IsFor q filter?) (h : ∀ r ∈ rows, r.WellFormed) :
    Ensures (fun xs => ∀ x ∈ xs, x.row.WellFormed) (p.results now rows) := by
  unfold results
  split
  · exact Yields.mapM fun r hr => (wellFormed_projected hfor.rounded (h r hr)).bind fun row hrow => hrow
  · exact (wellFormed_groupedRows h p).mapError

theorem wellFormed_table (hfor : p.IsFor q filter?) (h : ∀ r ∈ rows, r.WellFormed) :
    Ensures (fun out => ∀ r ∈ out, r.WellFormed) (p.table now rows) := by
  refine (wellFormed_kept h).bind fun kept hkept => ?_
  refine (wellFormed_flattened hkept _).bind fun flat hflat => ?_
  refine (wellFormed_results hfor hflat).bind fun results hresults => ensures_bind fun ordered hordered => ?_
  have hperm := ensures_iff.mp (ordered_perm now p results) ordered hordered
  intro r hr
  obtain ⟨x, hx, rfl⟩ := List.mem_map.mp (mem_of_mem_limited hr)
  exact hresults x (hperm.mem_iff.mp hx)

theorem wellFormed_keptTasks (h : ∀ r ∈ rows, r.WellFormed) :
    Ensures (fun tasks => ∀ t ∈ tasks, t.path.WellFormed) (keptTasks now filter? rows) := by
  refine (mem_of_filterM _ (taskContexts rows)).bind fun kept hkept t ht => ?_
  obtain ⟨x, hx, rfl⟩ := List.mem_map.mp ht
  obtain ⟨r, hr, hmem⟩ := List.mem_flatMap.mp (hkept x hx)
  obtain ⟨task, htask, rfl⟩ := List.mem_map.mp hmem
  exact Row.wellFormed_tasks (h r hr) task htask

end Plan

theorem Query.wellFormed_texts (ss : List String) : (Query.texts ss).WellFormed :=
  allWellFormed_map fun _ _ => trivial

theorem Query.wellFormed_textOrNull (s? : Option String) : (Query.textOrNull s?).WellFormed := by
  cases s? <;> trivial

/-- What is said of a query in its result. -/
theorem Query.wellFormed_describe (q : Query) : (object q.describe).WellFormed := by
  refine ⟨show (["type", "fields", "from", "where", "sort", "group_by", "flatten", "limit"] :
      List String).Nodup by decide,
    trivial, wellFormed_texts _, wellFormed_textOrNull _, wellFormed_textOrNull _,
    wellFormed_textOrNull _, wellFormed_texts _, wellFormed_textOrNull _, ?_, trivial⟩
  cases q.limit? <;> trivial

namespace QueryResult

/-- The rows and the tasks of a result are well-formed. -/
structure WellFormed (r : QueryResult) : Prop where
  rows : ∀ row ∈ r.rows, row.WellFormed
  tasks : ∀ t ∈ r.tasks, t.path.WellFormed

variable {r : QueryResult}

theorem WellFormed.capped (h : r.WellFormed) (most : Nat) : (r.capped most).WellFormed := by
  unfold QueryResult.capped
  split
  · exact h
  · exact ⟨fun row hrow => h.rows row (List.mem_of_mem_take hrow),
      fun t ht => h.tasks t (List.mem_of_mem_take ht)⟩

theorem WellFormed.record (h : r.WellFormed) : (object r.record).WellFormed := by
  have htasks : (array (r.tasks.map fun t => object t.record)).WellFormed :=
    allWellFormed_map fun t ht => TaskItem.wellFormed_record (h.tasks t ht)
  have hrows : (array (r.rows.map fun row => object row.record)).WellFormed :=
    allWellFormed_map fun row hrow => (h.rows row hrow).record
  unfold QueryResult.record
  dsimp only
  split
  · exact ⟨show (["result_type", "tasks", "query"] : List String).Nodup by decide,
      trivial, htasks, r.query.wellFormed_describe, trivial⟩
  · exact ⟨show (["result_type", "columns", "rows", "query"] : List String).Nodup by decide,
      trivial, Query.wellFormed_texts _, hrows, r.query.wellFormed_describe, trivial⟩

end QueryResult

/-- Running a query over rows of well-formed values comes to such values only. -/
theorem Query.wellFormed_run {now : Moment} {q : Query} {r : QueryResult}
    (h : ∀ row ∈ rows, row.WellFormed) (hr : (q.run now rows).result.1 = .ok r) : r.WellFormed := by
  have hcandidates : ∀ row ∈ q.candidates rows, row.WellFormed := by
    unfold candidates
    split
    · exact h
    · exact fun row hrow => h row (List.mem_of_mem_filter hrow)
  rw [(run_comesTo now q rows).result_fst] at hr
  obtain ⟨x, hready, hr⟩ := bind_eq_ok.mp hr
  obtain ⟨filter?, -, hready⟩ := bind_eq_ok.mp hready
  split at hready
  · cases hready
    obtain ⟨tasks, htasks, hr⟩ := bind_eq_ok.mp hr
    cases hr
    obtain ⟨kept, hkept, rfl⟩ := map_eq_ok.mp htasks
    have hall := ensures_iff.mp (Plan.wellFormed_keptTasks hcandidates) kept hkept
    exact ⟨fun row hrow => absurd hrow List.not_mem_nil,
      fun t ht => hall t (Plan.mem_of_mem_limited ht)⟩
  · obtain ⟨p, hp, rfl⟩ := map_eq_ok.mp hready
    obtain ⟨out, hout, hr⟩ := bind_eq_ok.mp hr
    cases hr
    have hall := ensures_iff.mp (Plan.wellFormed_table (Plan.ofTable_isFor hp) hcandidates) out hout
    exact ⟨hall, fun t ht => absurd ht List.not_mem_nil⟩

end NoteQuery
