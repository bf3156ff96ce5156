import NoteQuery.Proofs.Order.Leaders
import NoteQuery.Proofs.Query.Columns

/-! The header of a table and its rows. The columns come from the query alone and the fields of a row from what
was found for it, and yet the names of the fields are the columns, each where it comes first. Sorting
and a limit take rows as they are, so every row shows the file of the row that it was made of. -/

namespace NoteQuery
set_option autoImplicit false

namespace Record

theorem keys_insert (r : Record) (key : String) (v : Value) :
    keys (Record.insert r key v) = if key ∈ keys r then keys r else keys r ++ [key] := by
  induction r with
  | nil => rfl
  | cons e r ih =>
    obtain ⟨k, w⟩ := e
    have hcons (w : Value) : keys ((k, w) :: r) = k :: keys r := rfl
    rw [Record.insert]
    split
    · next hk =>
      subst hk
      rw [hcons, hcons, if_pos List.mem_cons_self]
    · next hk =>
      rw [hcons, keys, List.map_cons, ← keys, ih]
      simp only [List.mem_cons, Ne.symm hk, false_or]
      split <;> rfl

/-- The names of a record stand in the order in which they came first. -/
theorem keys_ofList (es : Record) : keys (ofList es) = (keys es).eraseDups := by
  induction es using List.reverseRecOn with
  | nil => rfl
  | append_singleton es e ih =>
    have hlast : ofList (es ++ [e]) = Record.insert (ofList es) e.1 e.2 := by
      rw [ofList, List.foldl_append]
      rfl
    have hkeys : keys (es ++ [e]) = keys es ++ [e.1] := List.map_append
    rw [hlast, keys_insert, ih, hkeys, List.eraseDups_append]
    simp only [List.mem_eraseDups]
    split
    · next hmem => simp [List.removeAll, hmem]
    · next hmem => simp [List.removeAll, hmem, List.eraseDups_cons]

end Record

section
variable {ε α : Type} {name : α → String} {f : α → Except ε Value} {as : List α}

theorem keys_of_mapM {es : Record} (h : (as.mapM fun a => do return (name a, ← f a)) = .ok es) :
    Record.keys es = as.map name := by
  induction as generalizing es with
  | nil =>
    cases h
    rfl
  | cons a as ih =>
    rw [List.mapM_cons] at h
    obtain ⟨e, he, h⟩ := bind_eq_ok.mp h
    obtain ⟨rest, hrest, h⟩ := bind_eq_ok.mp h
    obtain ⟨v, -, he⟩ := bind_eq_ok.mp he
    cases he
    cases h
    rw [Record.keys, List.map_cons, ← Record.keys, ih hrest, List.map_cons]

/-- The names of a record that is made of values under names. -/
theorem keys_ofList_of_mapM {record : Record}
    (h : (do return Record.ofList (← as.mapM fun a => do return (name a, ← f a))) = .ok record) :
    Record.keys record = (as.map name).eraseDups := by
  obtain ⟨es, hes, h⟩ := bind_eq_ok.mp h
  cases h
  rw [Record.keys_ofList, keys_of_mapM hes]

end

namespace Query

/-- The expressions among the fields of a query. -/
def projections (q : Query) : List ProjectedField :=
  q.fields.filterMap fun spec => (Plan.readField spec).toOption.bind Sum.getRight?

/-- The names over the columns of a query. -/
def header (q : Query) : List String :=
  if q.groups.isEmpty then q.projections.map (·.spec.name)
  else q.groups ++ q.aggregates.map (·.name)

/-- The rows of the source of a query that pass its filter, with one for each item of a flattened field. -/
def flatRows (now : Moment) (q : Query) (rows : List Row) : Except QueryFault (List Row) := do
  let filter? ← (q.filter?.bind nonempty?).mapM Compiled.read
  let kept ← Plan.kept now filter? (q.candidates rows)
  Plan.flattened q.flatten? kept

theorem projections_eq {q : Query} {filter? : Option Compiled} {p : Plan} (h : p.IsFor q filter?) :
    q.projections = p.projections := by
  obtain ⟨fields, hfields, -, hprojections⟩ := h.fields
  rw [hprojections, projections, filterMap_of_mapM hfields]

theorem header_eq {q : Query} {filter? : Option Compiled} {p : Plan} (h : p.IsFor q filter?) :
    q.header = p.columns := by
  rw [header, projections_eq h, aggregates_eq h, h.columns]

end Query

namespace Plan

namespace Sourced

/-- A row of the result is made of a row after flattening: it has a cell for each field. -/
def IsOfRow (now : Moment) (q : Query) (r : Row) (x : Sourced) : Prop :=
  x.source = r ∧ projected now q.projections r = .ok x.row

/-- A row of the result is made of a group: it has the values at the paths in the first row of the group,
and the aggregates, each under its name. -/
def IsOfGroup (q : Query) (g : Group) (x : Sourced) : Prop :=
  x.source = g.first ∧ ∃ record aggregates, Group.recordOf q.groups g.first = .ok record ∧
    g.aggregates q.aggregates = .ok aggregates ∧
      x.row = ⟨g.first.file, Record.ofList (record ++ aggregates), none⟩

/-- The fields of a row stand under a header, and the file is that of the row it was made of. -/
structure LinesUp (header : List String) (x : Sourced) : Prop where
  names : Record.keys x.row.fields = header.eraseDups
  file : x.row.file = x.source.file

variable {now : Moment} {q : Query} {x : Sourced}

theorem IsOfRow.linesUp {r : Row} (h : x.IsOfRow now q r) (hgroups : q.groups = []) :
    x.LinesUp q.header := by
  obtain ⟨hsource, hrow⟩ := h
  obtain ⟨entries, hentries, hrow⟩ := bind_eq_ok.mp hrow
  have hheader : q.header = q.projections.map (·.spec.name) := by
    rw [Query.header, hgroups]
    rfl
  constructor
  · rw [← Except.ok.inj hrow, hheader, Record.keys_ofList, keys_of_mapM hentries]
  · rw [← Except.ok.inj hrow, hsource]

theorem IsOfGroup.linesUp {g : Group} (h : x.IsOfGroup q g) (hgroups : q.groups ≠ []) :
    x.LinesUp q.header := by
  obtain ⟨hsource, record, aggregates, hrecord, haggregates, hrow⟩ := h
  have hfirst : Record.keys record = (q.groups.map id).eraseDups := keys_ofList_of_mapM hrecord
  have hsecond : Record.keys aggregates = (q.aggregates.map (·.name)).eraseDups :=
    keys_ofList_of_mapM haggregates
  have hheader : q.header = q.groups ++ q.aggregates.map (·.name) := by
    rw [Query.header, List.isEmpty_eq_false_iff.mpr hgroups]
    rfl
  have hkeys : Record.keys (record ++ aggregates) = Record.keys record ++ Record.keys aggregates :=
    List.map_append
  constructor
  · rw [hrow, Record.keys_ofList, hkeys, hfirst, hsecond, List.map_id,
      Order.eraseDups_append_eraseDups, hheader]
  · rw [hrow, hsource]

end Sourced

variable {now : Moment} {q : Query} {filter? : Option Compiled} {p : Plan} {rows : List Row}
  {results : List Sourced}

theorem limited_map {α β : Type} (limit? : Option Nat) (f : α → β) (xs : List α) :
    limited limit? (xs.map f) = (limited limit? xs).map f := by
  unfold limited
  split
  · split
    · rfl
    · exact List.map_take.symm
  · rfl

theorem mem_of_mem_limited {α : Type} {limit? : Option Nat} {xs : List α} {x : α}
    (h : x ∈ limited limit? xs) : x ∈ xs := by
  unfold limited at h
  split at h
  · split at h
    · exact h
    · exact List.mem_of_mem_take h
  · exact h

theorem results_isOfRow (hfor : p.IsFor q filter?) (hgroups : q.groups = [])
    (h : p.results now rows = .ok results) :
    List.Forall₂ (Sourced.IsOfRow now q) rows results := by
  rw [Plan.results, hfor.query, hgroups] at h
  refine (forall₂_of_mapM h).imp fun r x hx => ?_
  obtain ⟨row, hrow, hx⟩ := bind_eq_ok.mp hx
  cases hx
  exact ⟨rfl, Query.projections_eq hfor ▸ hrow⟩

theorem results_isOfGroup (hfor : p.IsFor q filter?) (hgroups : q.groups ≠ [])
    (h : p.results now rows = .ok results) : ∃ groups, Group.ofRows q.groups rows = .ok groups ∧
      List.Forall₂ (Sourced.IsOfGroup q) groups results := by
  rw [Plan.results, hfor.query, List.isEmpty_eq_false_iff.mpr hgroups] at h
  obtain ⟨groups, hofRows, h⟩ := bind_eq_ok.mp (mapError_eq_ok.mp h)
  rw [hfor.query] at hofRows
  have hfirst := ensures_iff.mp (Group.recordOf_first _ _) groups hofRows
  refine ⟨groups, hofRows, ?_⟩
  refine ((List.forall₂_and_left _ _).mpr ⟨hfirst, forall₂_of_mapM h⟩).imp fun g x hx => ?_
  obtain ⟨aggregates, haggregates, hx'⟩ := bind_eq_ok.mp hx.2
  cases hx'
  exact ⟨rfl, g.record, aggregates, hx.1, Query.aggregates_eq hfor ▸ haggregates, rfl⟩

theorem results_linesUp (hfor : p.IsFor q filter?) (h : p.results now rows = .ok results) :
    ∀ x ∈ results, x.LinesUp q.header := by
  by_cases hgroups : q.groups = []
  · exact forall_of_forall₂ (results_isOfRow hfor hgroups h) fun r x hx => hx.linesUp hgroups
  · obtain ⟨groups, -, hall⟩ := results_isOfGroup hfor hgroups h
    exact forall_of_forall₂ hall fun g x hx => hx.linesUp hgroups

end Plan

namespace Query

/-- In a table or list every row shows the columns of its query, each once, and the file of the row that it
was made of; with tasks there are neither columns nor rows. -/
theorem run_linesUp {now : Moment} {q : Query} {rows : List Row} {result : QueryResult}
    (h : (q.run now rows).result.1 = .ok result) :
    (result.statement = .task → result.columns = [] ∧ result.rows = []) ∧
    (result.statement ≠ .task → result.columns = q.header ∧
      ∃ flat made shown, q.flatRows now rows = .ok flat ∧
        (q.groups = [] → List.Forall₂ (Plan.Sourced.IsOfRow now q) flat made) ∧
        (q.groups ≠ [] → ∃ groups, Group.ofRows q.groups flat = .ok groups ∧
          List.Forall₂ (Plan.Sourced.IsOfGroup q) groups made) ∧
        (∃ ordered, ordered.Perm made ∧ shown = Plan.limited q.limit? ordered) ∧
        result.rows = shown.map (·.row) ∧ ∀ x ∈ shown, x.LinesUp result.columns) := by
  rw [(run_comesTo now q rows).result_fst] at h
  obtain ⟨x, hready, h⟩ := bind_eq_ok.mp h
  obtain ⟨filter?, hfilter, hready⟩ := bind_eq_ok.mp hready
  split at hready
  · next htask =>
    cases hready
    obtain ⟨tasks, -, h⟩ := bind_eq_ok.mp h
    cases h
    exact ⟨fun _ => ⟨rfl, rfl⟩, fun hne => absurd htask hne⟩
  · next htask =>
    obtain ⟨p, hp, rfl⟩ := map_eq_ok.mp hready
    have hfor := Plan.ofTable_isFor hp
    obtain ⟨out, hout, h⟩ := bind_eq_ok.mp h
    cases h
    obtain ⟨kept, hkept, hout⟩ := bind_eq_ok.mp hout
    obtain ⟨flat, hflat, hout⟩ := bind_eq_ok.mp hout
    obtain ⟨made, hmade, hout⟩ := bind_eq_ok.mp hout
    obtain ⟨ordered, hordered, hout⟩ := bind_eq_ok.mp hout
    cases hout
    rw [hfor.filter] at hkept
    rw [hfor.query] at hflat
    have hperm := ensures_iff.mp (Plan.ordered_perm now p made) ordered hordered
    have hlines := Plan.results_linesUp hfor hmade
    refine ⟨fun h => absurd h htask, fun _ => ⟨(header_eq hfor).symm, flat, made,
      Plan.limited q.limit? ordered, ?_, ?_, ?_, ⟨ordered, hperm, rfl⟩, ?_, ?_⟩⟩
    · exact bind_eq_ok.mpr ⟨filter?, hfilter, bind_eq_ok.mpr ⟨kept, hkept, hflat⟩⟩
    · exact fun hgroups => Plan.results_isOfRow hfor hgroups hmade
    · exact fun hgroups => Plan.results_isOfGroup hfor hgroups hmade
    · change Plan.limited p.query.limit? _ = _
      rw [hfor.query, Plan.limited_map]
    · intro x hx
      change x.LinesUp p.columns
      rw [← header_eq hfor]
      exact hlines x (hperm.mem_iff.mp (Plan.mem_of_mem_limited hx))

/-- The second field has no value on the row, and the third one has the name of the first. -/
theorem run_linesUp_repeatedName :
    let q : Query := ⟨.table, [⟨"a", some "x"⟩, ⟨"-b", some "y"⟩, ⟨"b", some "x"⟩], none, none,
      some ⟨"a", true⟩, [], some "a", some 2⟩
    let row : Row := { Group.oneField "a" .null with
      fields := [("a", .array [.int 1, .int 2, .int 3]), ("b", .text "t")] }
    ∃ result, (q.run default [row]).result.1 = .ok result ∧ result.rows.length = 2 ∧
      result.columns = ["x", "y", "x"] ∧ ∀ r ∈ result.rows, Record.keys r.fields = ["x", "y"] := by
  intro q row
  have hshape : (q.run default [row]).result.1.toOption.map
      (fun result => (result.statement, result.rows.length)) = some (.table, 2) := by decide +kernel
  obtain ⟨result, hresult, hpair⟩ := Option.map_eq_some_iff.mp hshape
  have hok : (q.run default [row]).result.1 = .ok result := toOption_eq_some.mp hresult
  have hstatement : result.statement = .table := congrArg Prod.fst hpair
  have htable : result.statement ≠ .task := by
    rw [hstatement]
    decide
  have hheader : q.header = ["x", "y", "x"] := by decide +kernel
  obtain ⟨hcolumns, flat, made, shown, -, -, -, -, hrows, hlines⟩ := (run_linesUp hok).2 htable
  refine ⟨result, hok, congrArg Prod.snd hpair, hcolumns.trans hheader, ?_⟩
  intro r hr
  rw [hrows] at hr
  obtain ⟨x, hx, rfl⟩ := List.mem_map.mp hr
  rw [(hlines x hx).names, hcolumns, hheader]
  decide

end Query
end NoteQuery
