import Mathlib
import NoteQuery.Proofs.Outcome.Logged
import NoteQuery.Proofs.Query.Grouping
import NoteQuery.Proofs.Value.Ranks
import NoteQuery.Query.Run

/-! The order of results, and of the items of an array. No row is lost or doubled, whatever the keys are.
Keys of one kind give the one stable order. Null goes neither before nor after any other key, so rows
without a key may keep others apart. -/

namespace NoteQuery
set_option autoImplicit false

namespace Plan

variable {now : Moment} {p : Plan} {s : SortClause} {key : Sourced → Value} {results : List Sourced}

/-! ### Keys -/

/-- The keys take no part in the result. -/
theorem sortByKey_map (descending : Bool) (key : Sourced → Value) (results : List Sourced) :
    sortByKey descending (results.map fun x => (key x, x)) =
      Order.sortM (fun x y => ArrayFunction.stands (if descending then .gt else .lt) (key x) (key y))
        results := by
  unfold sortByKey
  dsimp only
  rw [Order.sortM_map _ fun x => (key x, x)]
  cases Order.sortM (fun x y => ArrayFunction.stands _ (key x) (key y)) results with
  | ok rows =>
    change Except.ok ((rows.map fun x => (key x, x)).map (·.2)) = .ok rows
    rw [List.map_map]
    exact congrArg Except.ok (List.map_id rows)
  | error e => rfl

theorem sortByKey_perm (descending : Bool) (keyed : List (Value × Sourced)) :
    Ensures (fun rows => rows.Perm (keyed.map (·.2))) (sortByKey descending keyed) := by
  unfold sortByKey
  refine (Order.sortM_perm keyed).bind ?_
  intro sorted hperm
  exact hperm.map (·.2)

theorem ofOutcome_comesTo {α : Type} {o : Outcome α} {a : α} (h : o = .ok a) :
    (Running.ofOutcome o).ComesTo (.ok a) := by
  rw [h]
  exact Logged.comesTo_pure a

theorem ofOutcome_returns {α : Type} {good : α → Prop} {o : Outcome α} (h : Ensures good o) :
    (Running.ofOutcome o).Returns good := by
  cases o with
  | ok a => exact (Logged.comesTo_pure a).returns h
  | error e => exact (Logged.comesTo_throw (QueryFault.evaluation e)).returns trivial

theorem sorted_perm (now : Moment) (p : Plan) (results : List Sourced) :
    (p.sorted now results).Returns fun rows => rows.Perm results := by
  unfold sorted
  split
  · exact (Logged.comesTo_pure results).returns (.refl results)
  · next s _ =>
    refine (Logged.Returns.mapM Prod.snd fun x _ => ?_).bind fun keyed hresults => ?_
    · have hkey : (p.sortKey now s x).Returns fun _ => True :=
        fun log => ensures_iff.mpr fun _ _ => trivial
      exact hkey.bind fun v _ => (Logged.comesTo_pure (v, x)).returns rfl
    · rw [← hresults]
      exact ofOutcome_returns (sortByKey_perm s.descending keyed)

/-- Rows whose keys have values are sorted by these. -/
theorem sorted_comesTo (hs : p.query.sort? = some s)
    (hkey : ∀ x ∈ results, (p.sortKey now s x).ComesTo (.ok (key x))) {rows : List Sourced}
    (h : sortByKey s.descending (results.map fun x => (key x, x)) = .ok rows) :
    (p.sorted now results).ComesTo (.ok rows) := by
  have hkeyed : (results.mapM fun x => do return (← p.sortKey now s x, x)).ComesTo
      (.ok (results.map fun x => (key x, x))) :=
    .mapM fun x hx => (hkey x hx).bind (Logged.comesTo_pure (key x, x))
  unfold sorted
  rw [hs]
  exact hkeyed.bind (ofOutcome_comesTo h)

end Plan

namespace Value

variable {α β : Type} [LinearOrder β] {good : Value → Prop} {rank : Value → β} {key : α → Value}
  {xs : List α}

theorem RankedBy.sortM_eq (h : RankedBy good rank) (hkeys : ∀ x ∈ xs, key x = null ∨ good (key x))
    (descending : Bool) :
    Order.sortM (fun x y => ArrayFunction.stands (if descending then .gt else .lt) (key x) (key y)) xs =
      Order.sortM (fun x y => goesBefore descending (key x) (key y)) xs :=
  Order.sortM_congr fun x hx y hy => h.stands_eq_goesBefore (hkeys x hx) (hkeys y hy) descending

theorem RankedBy.exists_sortM (h : RankedBy good rank) (hkeys : ∀ x ∈ xs, good (key x))
    (descending : Bool) :
    ∃ ys, Order.sortM (fun x y => ArrayFunction.stands (if descending then .gt else .lt) (key x)
        (key y)) xs = .ok ys ∧
      ∀ zs, Order.IsStableSort (fun x y => goesBefore descending (key x) (key y))
        (fun x y => (key x).equal (key y) = .ok true) xs zs ↔ zs = ys := by
  have hnull (x : α) (hx : x ∈ xs) : key x = null ∨ good (key x) := .inr (hkeys x hx)
  rw [h.sortM_eq hnull]
  exact Order.sortM_stable (h.ranking hnull descending) fun x hx => h.not_null _ (hkeys x hx)

/-- Comparable keys have one stable order in either direction. -/
theorem AreComparable.exists_sortM (h : AreComparable (xs.map key)) (descending : Bool) :
    ∃ ys, Order.sortM (fun x y => ArrayFunction.stands (if descending then .gt else .lt) (key x)
        (key y)) xs = .ok ys ∧
      ∀ zs, Order.IsStableSort (fun x y => goesBefore descending (key x) (key y))
        (fun x y => (key x).equal (key y) = .ok true) xs zs ↔ zs = ys := by
  simp only [AreComparable, List.forall_mem_map] at h
  rcases h with h | h | h
  · exact numbers_ranked.exists_sortM h descending
  · exact texts_ranked.exists_sortM h descending
  · exact dates_ranked.exists_sortM h descending

end Value

/-! ### Arrays -/

namespace ArrayFunction

theorem sort_array {direction : Value} {word : String} (h : direction.display = .ok word)
    (items : List Value) :
    sort (.array items) direction =
      .array <$> Order.sortM (stands (if Text.lower word = "desc" then .gt else .lt)) items := by
  unfold sort
  rw [h]
  rfl

theorem sort_perm (items : List Value) (direction : Value) :
    Ensures (fun v => ∃ sorted, v = .array sorted ∧ sorted.Perm items)
      (sort (.array items) direction) := by
  cases hword : direction.display with
  | error e =>
    unfold sort
    rw [hword]
    trivial
  | ok word =>
    rw [sort_array hword]
    refine Yields.map ((Order.sortM_perm items).imp ?_ fun _ h => h)
    exact fun sorted hperm => ⟨sorted, rfl, hperm⟩

end ArrayFunction

/-- Sorting results or the items of an array loses nothing, and comparable keys come out in the one
stable order. -/
theorem Plan.sorted_isStableSort (now : Moment) (p : Plan) (results : List Sourced)
    (items : List Value) (direction : Value) :
    ((p.sorted now results).Returns fun rows => rows.Perm results) ∧
    (∀ s key, p.query.sort? = some s →
      (∀ x ∈ results, (p.sortKey now s x).ComesTo (.ok (key x))) →
      Value.AreComparable (results.map key) →
      ∃ rows, (p.sorted now results).ComesTo (.ok rows) ∧
        ∀ zs, Order.IsStableSort (fun x y => Value.goesBefore s.descending (key x) (key y))
          (fun x y => (key x).equal (key y) = .ok true) results zs ↔ zs = rows) ∧
    Ensures (fun v => ∃ sorted, v = .array sorted ∧ sorted.Perm items)
      (ArrayFunction.sort (.array items) direction) ∧
    ∀ word, direction.display = .ok word → Value.AreComparable items →
      ∃ sorted, ArrayFunction.sort (.array items) direction = .ok (.array sorted) ∧
        ∀ zs, Order.IsStableSort (Value.goesBefore (Text.lower word = "desc"))
          (fun x y => x.equal y = .ok true) items zs ↔ zs = sorted := by
  refine ⟨sorted_perm now p results, ?_, ArrayFunction.sort_perm items direction, ?_⟩
  · intro s key hs hkey hcomp
    obtain ⟨rows, hrows, hone⟩ := hcomp.exists_sortM s.descending
    rw [← sortByKey_map] at hrows
    exact ⟨rows, sorted_comesTo hs hkey hrows, hone⟩
  · intro word hword hcomp
    rw [← List.map_id items] at hcomp
    obtain ⟨sorted, hsorted, hone⟩ := hcomp.exists_sortM (decide (Text.lower word = "desc"))
    refine ⟨sorted, ?_, hone⟩
    rw [ArrayFunction.sort_array hword]
    simp only [decide_eq_true_eq, id] at hsorted
    rw [hsorted]
    rfl

namespace Plan

/-- A plan that sorts the rows of a table by one of its columns. -/
def byColumn (s : SortClause) : Plan :=
  ⟨⟨.table, [], none, none, some s, [], none, none⟩, none, [], [], [s.field], none⟩

/-- A row of a result with its key in the column `k`. -/
def ofKey (v : Value) : Sourced := ⟨Group.oneField "k" v, Group.oneField "k" v⟩

/-- The key of such a row. -/
def keyOf (x : Sourced) : Value := x.row.fields.get "k"

theorem sortKey_comesTo (descending : Bool) (x : Sourced) :
    (sortKey default (byColumn ⟨"k", descending⟩) ⟨"k", descending⟩ x).ComesTo (.ok (keyOf x)) :=
  Logged.comesTo_pure (keyOf x)

/-- One as an integer and in floating point, then two, downward. -/
theorem sorted_isStableSort_downward :
    let s : SortClause := ⟨"k", true⟩
    let results := [ofKey (.int 1), ofKey (.number (.real (.ofInt 1))), ofKey (.int 2)]
    ∃ rows, ((byColumn s).sorted default results).ComesTo (.ok rows) ∧ rows.Perm results ∧
      Order.IsStableSort (fun x y => Value.goesBefore true (keyOf x) (keyOf y))
        (fun x y => (keyOf x).equal (keyOf y) = .ok true) results rows := by
  intro s results
  have hnumbers : Value.AreComparable (results.map keyOf) := by
    left
    simp only [results, List.map_cons, List.map_nil, List.forall_mem_cons]
    have hone : (Binary64.ofInt 1).isNaN = false := by decide +kernel
    exact ⟨rfl, hone, rfl, nofun⟩
  obtain ⟨hperm, hsorted, -⟩ :=
    sorted_isStableSort default (byColumn s) results [] .null
  obtain ⟨rows, hrows, hone⟩ :=
    hsorted s keyOf rfl (fun x _ => sortKey_comesTo true x) hnumbers
  refine ⟨rows, hrows, ?_, (hone rows).mpr rfl⟩
  have hfirst := hperm []
  rw [hrows []] at hfirst
  exact hfirst

/-! ### Rows without a key -/

/-- Rows whose key is null among rows whose keys are numbers. Numbers that come out next to each other are
in order. Numbers that null stands between stay where they are; only where these are in order already
is the whole sorted as it would be without the others. -/
theorem sorted_numbersAndNulls {now : Moment} {p : Plan} {s : SortClause} {key : Sourced → Value}
    {results : List Sourced} (hs : p.query.sort? = some s)
    (hkey : ∀ x ∈ results, (p.sortKey now s x).ComesTo (.ok (key x)))
    (hkeys : ∀ x ∈ results, key x = .null ∨ (key x).IsNumber) :
    ∃ rows, (p.sorted now results).ComesTo (.ok rows) ∧ rows.Perm results ∧
      (∀ before stretch after, rows = before ++ stretch ++ after →
        (∀ x ∈ stretch, (key x).isNull = false) →
        (stretch.Pairwise fun x y => Value.goesBefore s.descending (key y) (key x) = .ok false) ∧
          ∀ x ∈ stretch, (stretch.filter fun y => (key x).equal (key y) = .ok true).Sublist
            (results.filter fun y => (key x).equal (key y) = .ok true)) ∧
      (Order.Undisturbed (fun x y => Value.goesBefore s.descending (key x) (key y))
          (fun x => (key x).isNull = false) results →
        (p.sorted now (results.filter fun x => (key x).isNull = false)).ComesTo
          (.ok (rows.filter fun x => (key x).isNull = false)) ∧
        Order.IsStableSort (fun x y => Value.goesBefore s.descending (key x) (key y))
          (fun x y => (key x).equal (key y) = .ok true)
          (results.filter fun x => (key x).isNull = false)
          (rows.filter fun x => (key x).isNull = false)) := by
  have hranking := Value.numbers_ranked.ranking hkeys s.descending
  obtain ⟨rows, hrows⟩ := Order.exists_sortM hranking.answers
  have hsorted := hrows
  rw [← Value.numbers_ranked.sortM_eq hkeys, ← sortByKey_map] at hsorted
  refine ⟨rows, sorted_comesTo hs hkey hsorted, ?_, ?_, fun hund => ⟨?_, ?_⟩⟩
  · exact ensures_iff.mp (Order.sortM_perm results) rows hrows
  · exact ensures_iff.mp (Order.sortM_stretch hranking) rows hrows
  · have hsub : ∀ x ∈ results.filter fun x => (key x).isNull = false, x ∈ results :=
      fun x hx => List.mem_of_mem_filter hx
    obtain ⟨rows', hrows', hfilter⟩ := Order.sortM_filter hranking hund
    cases hrows.symm.trans hrows'
    refine sorted_comesTo hs (fun x hx => hkey x (hsub x hx)) ?_
    rw [sortByKey_map, Value.numbers_ranked.sortM_eq fun x hx => hkeys x (hsub x hx)]
    exact hfilter
  · exact ensures_iff.mp (Order.sortM_undisturbed hranking hund) rows hrows

theorem sorted_numbersAndNulls_first :
    let s : SortClause := ⟨"k", false⟩
    let results := [ofKey .null, ofKey (.int 2), ofKey (.int 1)]
    ∃ rows, ((byColumn s).sorted default results).ComesTo (.ok rows) ∧
      ((byColumn s).sorted default (results.filter fun x => (keyOf x).isNull = false)).ComesTo
        (.ok (rows.filter fun x => (keyOf x).isNull = false)) := by
  intro s results
  have hkeys : ∀ x ∈ results, keyOf x = .null ∨ (keyOf x).IsNumber := by
    simp only [results, List.forall_mem_cons]
    exact ⟨.inl rfl, .inr rfl, .inr rfl, nofun⟩
  have hund : Order.Undisturbed (fun x y => Value.goesBefore false (keyOf x) (keyOf y))
      (fun x => (keyOf x).isNull = false) results := by
    intro before z after hsplit hz x hx
    cases before with
    | nil => cases hx
    | cons y before =>
      have hmem : z ∈ [ofKey (.int 2), ofKey (.int 1)] := by
        rw [(List.cons.inj hsplit).2]
        simp
      have hnumbers : ∀ z ∈ [ofKey (.int 2), ofKey (.int 1)], (keyOf z).isNull = false := by
        simp only [List.forall_mem_cons]
        exact ⟨rfl, rfl, nofun⟩
      exact (hz (hnumbers z hmem)).elim
  obtain ⟨rows, hrows, -, -, hfilter⟩ :=
    sorted_numbersAndNulls (s := s) rfl (fun x _ => sortKey_comesTo false x) hkeys
  exact ⟨rows, hrows, (hfilter hund).1⟩

/-- Two and one are apart and stay as they are, while without the row between them they change places. -/
theorem sorted_apart :
    let s : SortClause := ⟨"k", false⟩
    let results := [ofKey (.int 2), ofKey .null, ofKey (.int 1)]
    ((byColumn s).sorted default results).result.1 = .ok results ∧
      ((byColumn s).sorted default (results.filter fun x => (keyOf x).isNull = false)).result.1 =
        .ok [ofKey (.int 1), ofKey (.int 2)] ∧
      (results.filter fun x => (keyOf x).isNull = false) = [ofKey (.int 2), ofKey (.int 1)] := by
  refine ⟨?_, ?_, ?_⟩ <;> cbv

end Plan

end NoteQuery
