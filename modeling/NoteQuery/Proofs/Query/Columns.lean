import Mathlib.Data.List.Nodup
import NoteQuery.Proofs.Query.Sorting
import NoteQuery.Proofs.Query.Stages

/-! The columns of a grouped result: the paths of the groups and then the names of the aggregates. Where these
names are all different, every row has a field for each of them. Aggregates of two kinds or paths may
have one name, since names are in lower case; then the later one counts. -/

namespace NoteQuery
set_option autoImplicit false

namespace Record

theorem insert_of_not_mem {r : Record} {key : String} (h : key ∉ keys r) (v : Value) :
    Record.insert r key v = r ++ [(key, v)] := by
  induction r with
  | nil => rfl
  | cons e r ih =>
    rw [keys, List.map_cons, List.mem_cons, not_or] at h
    rw [Record.insert, if_neg (Ne.symm h.1), ih h.2, List.cons_append]

theorem foldl_insert {r es : Record} (h : (keys (r ++ es)).Nodup) :
    es.foldl (fun r e => Record.insert r e.1 e.2) r = r ++ es := by
  induction es generalizing r with
  | nil => rw [List.foldl_nil, List.append_nil]
  | cons e es ih =>
    have hnew : e.1 ∉ keys r := by
      rw [keys, List.map_append, List.nodup_append] at h
      exact fun hmem => h.2.2 e.1 hmem e.1 List.mem_cons_self rfl
    rw [List.foldl_cons, insert_of_not_mem hnew, ih]
    · rw [List.append_assoc, List.singleton_append]
    · rwa [List.append_assoc, List.singleton_append]

/-- Entries with different names make the record of just these entries. -/
theorem ofList_eq_self {es : Record} (h : (keys es).Nodup) : ofList es = es :=
  foldl_insert h

theorem keys_zip {names : List String} {vs : List Value} (h : vs.length = names.length) :
    keys (names.zip vs) = names :=
  List.map_fst_zip h.ge

end Record

/-- Values with different names are put into a record in their order. -/
theorem ofList_mapM_eq_ok {α : Type} {name : α → String} {f : α → Outcome Value} {as : List α}
    {record : Record} (hnames : (as.map name).Nodup)
    (h : (do return Record.ofList (← as.mapM fun a => do return (name a, ← f a))) = .ok record) :
    ∃ vs, as.mapM f = .ok vs ∧ vs.length = as.length ∧ record = (as.map name).zip vs := by
  have hentries {as : List α} {es : Record}
      (h : (as.mapM fun a => do return (name a, ← f a)) = .ok es) :
      ∃ vs, as.mapM f = .ok vs ∧ vs.length = as.length ∧ es = (as.map name).zip vs := by
    induction as generalizing es with
    | nil =>
      cases h
      exact ⟨[], rfl, rfl, rfl⟩
    | cons a as ih =>
      rw [List.mapM_cons] at h
      obtain ⟨e, he, h⟩ := bind_eq_ok.mp h
      obtain ⟨rest, hrest, h⟩ := bind_eq_ok.mp h
      obtain ⟨v, hv, he⟩ := bind_eq_ok.mp he
      obtain ⟨vs, hvs, hlength, rfl⟩ := ih hrest
      cases he
      cases h
      refine ⟨v :: vs, ?_, congrArg Nat.succ hlength, rfl⟩
      rw [List.mapM_cons, hv, hvs]
      rfl
  obtain ⟨es, hes, h⟩ := bind_eq_ok.mp h
  obtain ⟨vs, hvs, hlength, rfl⟩ := hentries hes
  refine ⟨vs, hvs, hlength, ?_⟩
  have hkeys : Record.keys ((as.map name).zip vs) = as.map name :=
    Record.keys_zip (by rw [hlength, List.length_map])
  cases h
  refine Record.ofList_eq_self ?_
  rw [hkeys]
  exact hnames

namespace Group

variable {paths : List String}

theorem mem_add {g h : Group} {groups : List Group} (hmem : h ∈ add g groups) :
    h = g ∨ ∃ k ∈ groups, h.first = k.first ∧ h.record = k.record := by
  induction groups with
  | nil => exact .inl (List.mem_singleton.mp hmem)
  | cons k groups ih =>
    rw [add] at hmem
    split at hmem
    · rcases List.mem_cons.mp hmem with rfl | hmem
      · exact .inr ⟨k, List.mem_cons_self, rfl, rfl⟩
      · exact .inr ⟨h, List.mem_cons_of_mem k hmem, rfl, rfl⟩
    · rcases List.mem_cons.mp hmem with rfl | hmem
      · exact .inr ⟨h, List.mem_cons_self, rfl, rfl⟩
      · obtain hg | ⟨l, hl, heq⟩ := ih hmem
        · exact .inl hg
        · exact .inr ⟨l, List.mem_cons_of_mem k hl, heq⟩

/-- The record of a group is that of its first row. -/
theorem recordOf_first (paths : List String) (rows : List Row) :
    Ensures (fun groups => ∀ g ∈ groups, recordOf paths g.first = .ok g.record) (ofRows paths rows) := by
  refine Yields.foldlM (fun g hg => absurd hg List.not_mem_nil) fun groups hgroups r _ => ?_
  refine ensures_bind fun g hg => ?_
  obtain ⟨record, hrecord, hg⟩ := bind_eq_ok.mp hg
  obtain ⟨key, -, hg⟩ := bind_eq_ok.mp hg
  cases hg
  intro h hmem
  rcases mem_add hmem with rfl | ⟨k, hk, hfirst, heq⟩
  · exact hrecord
  · rw [hfirst, heq]
    exact hgroups k hk

/-- The row of a group: the values of its first row at the paths, and its aggregates, each under its own
name. -/
def IsShown (paths : List String) (as : List Aggregate) (g : Group) (r : Row) : Prop :=
  r.file = g.first.file ∧ ∃ keys values, paths.mapM g.first.lookup = .ok keys ∧
    as.mapM (·.compute g.rows) = .ok values ∧ r.fields = (paths ++ as.map (·.name)).zip (keys ++ values)

theorem isShown_row {as : List Aggregate} (hnames : (paths ++ as.map (·.name)).Nodup) {g : Group}
    (hfirst : recordOf paths g.first = .ok g.record) {record : Record}
    (h : g.aggregates as = .ok record) :
    g.IsShown paths as ⟨g.first.file, Record.ofList (g.record ++ record), none⟩ := by
  have hparts := List.nodup_append.mp hnames
  have hpaths : (paths.map id).Nodup := (List.map_id paths).symm ▸ hparts.1
  obtain ⟨keys, hkeys, hlength, hrecord⟩ := ofList_mapM_eq_ok hpaths hfirst
  obtain ⟨values, hvalues, hlength', rfl⟩ := ofList_mapM_eq_ok hparts.2.1 h
  refine ⟨rfl, keys, values, hkeys, hvalues, ?_⟩
  rw [List.map_id] at hrecord
  rw [hrecord, ← List.zip_append hlength.symm]
  refine Record.ofList_eq_self ?_
  rw [Record.keys_zip]
  · exact hnames
  · rw [List.length_append, List.length_append, hlength, hlength', List.length_map]

end Group

namespace Plan

variable {now : Moment} {p : Plan}

theorem ordered_perm (now : Moment) (p : Plan) (results : List Sourced) :
    Ensures (fun rows => rows.Perm results) (p.ordered now results) := by
  have h := sorted_perm now p results []
  rw [sorted_comesTo_ordered p results []] at h
  exact h

theorem groupedRows_isShown (hnames : (p.query.groups ++ p.aggregates.map (·.name)).Nodup)
    {rows : List Row} {results : List Sourced} (h : groupedRows p rows = .ok results) :
    ∃ groups, Group.ofRows p.query.groups rows = .ok groups ∧
      List.Forall₂ (Group.IsShown p.query.groups p.aggregates) groups (results.map (·.row)) := by
  obtain ⟨groups, hgroups, h⟩ := bind_eq_ok.mp h
  have hfirst := ensures_iff.mp (Group.recordOf_first _ _) groups hgroups
  refine ⟨groups, hgroups, List.forall₂_map_right_iff.mpr ?_⟩
  refine ((List.forall₂_and_left _ _).mpr ⟨hfirst, forall₂_of_mapM h⟩).imp fun g x hx => ?_
  obtain ⟨record, hrecord, hx'⟩ := bind_eq_ok.mp hx.2
  cases hx'
  exact Group.isShown_row hnames hx.1 hrecord

end Plan

namespace Query

/-- The aggregates among the fields of a query. -/
def aggregates (q : Query) : List Aggregate :=
  q.fields.filterMap fun spec => (Plan.readField spec).toOption.bind Sum.getLeft?

theorem aggregates_eq {q : Query} {filter? : Option Compiled} {p : Plan} (h : p.IsFor q filter?) :
    q.aggregates = p.aggregates := by
  obtain ⟨fields, hfields, haggregates, -⟩ := h.fields
  rw [haggregates, aggregates, filterMap_of_mapM hfields]

/-- The groups of a query among rows. -/
def groupsOf (now : Moment) (q : Query) (rows : List Row) : Except QueryFault (List Group) := do
  let filter? ← (q.filter?.bind nonempty?).mapM Compiled.read
  let kept ← Plan.kept now filter? (q.candidates rows)
  let rows ← Plan.flattened q.flatten? kept
  (Group.ofRows q.groups rows).mapError .evaluation

/-- Where no two columns of a grouped query have one name, the rows of its result are those of its groups,
each with a field for each path and each aggregate. -/
theorem run_columns {now : Moment} {q : Query} {rows : List Row} {result : QueryResult}
    (htask : q.statement ≠ .task) (hgroups : q.groups ≠ [])
    (hnames : (q.groups ++ q.aggregates.map (·.name)).Nodup)
    (h : (q.run now rows).result.1 = .ok result) :
    result.columns = q.groups ++ q.aggregates.map (·.name) ∧
    ∃ groups made ordered, q.groupsOf now rows = .ok groups ∧
      List.Forall₂ (Group.IsShown q.groups q.aggregates) groups made ∧
      ordered.Perm made ∧ result.rows = Plan.limited q.limit? ordered := by
  rw [(run_comesTo now q rows).result_fst] at h
  obtain ⟨x, hready, h⟩ := bind_eq_ok.mp h
  obtain ⟨filter?, hfilter, hready⟩ := bind_eq_ok.mp hready
  rw [if_neg htask] at hready
  obtain ⟨p, hp, rfl⟩ := map_eq_ok.mp hready
  have hfor := Plan.ofTable_isFor hp
  obtain ⟨out, hout, h⟩ := bind_eq_ok.mp h
  cases h
  obtain ⟨kept, hkept, hout⟩ := bind_eq_ok.mp hout
  obtain ⟨flat, hflat, hout⟩ := bind_eq_ok.mp hout
  obtain ⟨results, hresults, hout⟩ := bind_eq_ok.mp hout
  obtain ⟨ordered, hordered, hout⟩ := bind_eq_ok.mp hout
  cases hout
  have hisEmpty : q.groups.isEmpty = false := List.isEmpty_eq_false_iff.mpr hgroups
  rw [Plan.results, hfor.query, hisEmpty] at hresults
  rw [aggregates_eq hfor] at hnames ⊢
  rw [hfor.filter] at hkept
  rw [hfor.query] at hflat
  have hgrouped := Plan.groupedRows_isShown (hfor.query ▸ hnames) (mapError_eq_ok.mp hresults)
  rw [hfor.query] at hgrouped ⊢
  obtain ⟨groups, hofRows, hshown⟩ := hgrouped
  have hperm := ensures_iff.mp (Plan.ordered_perm now p results) ordered hordered
  refine ⟨?_, groups, results.map (·.row), ordered.map (·.row), ?_, hshown, hperm.map _, rfl⟩
  · change p.columns = _
    rw [hfor.columns, hisEmpty]
    rfl
  · exact bind_eq_ok.mpr ⟨filter?, hfilter, bind_eq_ok.mpr ⟨kept, hkept,
      bind_eq_ok.mpr ⟨flat, hflat, mapError_eq_ok.mpr hofRows⟩⟩⟩

/-- The note with the fields `k`, `a` and `A`. -/
def twoLetters : Row :=
  { Group.oneField "k" (.int 1) with fields := [("k", .int 1), ("a", .int 2), ("A", .int 10)] }

theorem run_columns_sumAndCount :
    let q : Query := ⟨.table, [⟨"SUM(a)", none⟩, ⟨"COUNT()", none⟩], none, none, none, ["k"], none, none⟩
    let names := ["k", "sum_a", "count"]
    q.statement ≠ .task ∧ q.groups ≠ [] ∧ q.groups ++ q.aggregates.map (·.name) = names ∧ names.Nodup ∧
      ∃ result, (q.run default [twoLetters]).result.1 = .ok result ∧ result.columns = names := by
  intro q names
  have hnames : q.groups ++ q.aggregates.map (·.name) = names := by decide +kernel
  have hnodup : names.Nodup := by decide
  have hsome : (q.run default [twoLetters]).result.1.toOption.isSome = true := by decide +kernel
  obtain ⟨result, hresult⟩ := Option.isSome_iff_exists.mp hsome
  have hok : (q.run default [twoLetters]).result.1 = .ok result := toOption_eq_some.mp hresult
  have htask : q.statement ≠ .task := by decide
  have hgroups : q.groups ≠ [] := by decide
  have hcolumns := run_columns htask hgroups (hnames ▸ hnodup) hok
  exact ⟨htask, hgroups, hnames, hnodup, result, hok, hcolumns.1.trans hnames⟩

/-- The sums at `a` and at `A` have one name, under which only the second one is left. -/
theorem run_columns_oneName :
    let q : Query := ⟨.table, [⟨"SUM(a)", none⟩, ⟨"SUM(A)", none⟩], none, none, none, ["k"], none, none⟩
    let sumAt (path : String) : Aggregate := ⟨.sum, some path, none⟩
    q.groups.Nodup ∧ q.aggregates = [sumAt "a", sumAt "A"] ∧ sumAt "a" ≠ sumAt "A" ∧
      (sumAt "a").compute [twoLetters] = .ok (.int 2) ∧
      (q.run default [twoLetters]).result.1.toOption.map (fun result =>
        (result.columns, result.rows.map (·.fields))) =
          some (["k", "sum_a", "sum_a"], [[("k", .int 1), ("sum_a", .int 10)]]) := by
  intro q sumAt
  refine ⟨by decide, by decide +kernel, by decide, ?_, ?_⟩
  · cbv
  · cbv

end Query
end NoteQuery
