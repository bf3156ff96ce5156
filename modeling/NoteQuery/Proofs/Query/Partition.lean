import NoteQuery.Proofs.Order.Leaders
import NoteQuery.Proofs.Query.Grouping
import NoteQuery.Proofs.Value.Keys
import NoteQuery.Query.Run

/-! Groups part rows by deep equality of the values at some paths. There are groups exactly where all these
values can be looked up and have dates within the calendar, and where each aggregate has a value. -/

namespace NoteQuery
set_option autoImplicit false

namespace Row

/-- No number that is none and no function in the fields of a row or in the facts about its file. -/
def IsRegular (r : Row) : Prop :=
  Value.EntriesRegular r.fields ∧ Value.EntriesRegular r.file.record

variable {r : Row}

theorem regular_null : Value.null.Regular := by simp [Value.Regular]

theorem regular_child {v : Value} (hv : v.Regular) (part : String) :
    Ensures Value.Regular (child v part) := by
  unfold child
  split
  · rw [Value.Regular] at hv
    exact Value.regular_get hv.2 part
  · next items =>
    rw [Value.Regular, Value.allRegular_iff] at hv
    dsimp only
    split
    · exact regular_null
    · split
      · cases hitem : items[Text.naturalOfDigits part.toList]? with
        | none => exact regular_null
        | some w => exact hv w (List.mem_of_getElem? hitem)
      · trivial
  · exact regular_null

theorem regular_descend {v : Value} (hv : v.Regular) (parts : List String) :
    Ensures Value.Regular (descend v parts) := by
  induction parts generalizing v with
  | nil => exact hv
  | cons part parts ih =>
    rw [descend]
    refine (regular_child hv part).bind fun w hw => ?_
    split
    · exact hw
    · exact ih hw

theorem regular_lookup (hr : r.IsRegular) (path : String) : Ensures Value.Regular (r.lookup path) := by
  unfold lookup
  split
  · exact regular_null
  · next first rest _ =>
    split
    · next v hv =>
      have hfirst := Value.regular_get hr.1 first
      rw [Record.get, hv] at hfirst
      exact regular_descend hfirst rest
    · split
      · refine regular_descend ?_ rest
        rw [Value.Regular]
        refine ⟨?_, hr.2⟩
        have hkeys : Record.keys r.file.record = FileAttribute.all.map FileAttribute.key := rfl
        rw [hkeys]
        decide
      · exact regular_null

end Row

namespace Group

variable {paths : List String} {rows : List Row}

/-! ### The record of a row -/

/-- A value under each of some names. -/
def entriesOf (names : List String) (f : String → Value) : Record := names.map fun p => (p, f p)

theorem insert_entriesOf (names : List String) (q : String) :
    ∃ more, (∀ f, Record.insert (entriesOf names f) q (f q) = entriesOf more f) ∧
      ∀ p, p ∈ more ↔ p ∈ names ∨ p = q := by
  induction names with
  | nil => exact ⟨[q], fun f => rfl, by simp⟩
  | cons n names ih =>
    by_cases hnq : n = q
    · refine ⟨n :: names, fun f => ?_, fun p => ⟨.inl, ?_⟩⟩
      · rw [entriesOf, List.map_cons, Record.insert, if_pos hnq, hnq]
      · rintro (hp | rfl)
        · exact hp
        · exact hnq ▸ List.mem_cons_self
    · obtain ⟨more, hinsert, hmem⟩ := ih
      refine ⟨n :: more, fun f => ?_, fun p => ?_⟩
      · rw [entriesOf, List.map_cons, Record.insert, if_neg hnq]
        exact congrArg _ (hinsert f)
      · rw [List.mem_cons, List.mem_cons, hmem, or_assoc]

/-- The record of values under some names has each name once, in an order that the values do not change. -/
theorem exists_names (paths : List String) :
    ∃ names, (∀ f, Record.ofList (entriesOf paths f) = entriesOf names f) ∧
      ∀ p, p ∈ names ↔ p ∈ paths := by
  have hfold (before : List String) : ∃ names,
      (∀ f, (entriesOf paths f).foldl (fun r e => Record.insert r e.1 e.2) (entriesOf before f) =
        entriesOf names f) ∧ ∀ p, p ∈ names ↔ p ∈ before ∨ p ∈ paths := by
    induction paths generalizing before with
    | nil => exact ⟨before, fun f => rfl, by simp⟩
    | cons q paths ih =>
      obtain ⟨between, hinsert, hbetween⟩ := insert_entriesOf before q
      obtain ⟨names, hrest, hnames⟩ := ih between
      refine ⟨names, fun f => ?_, fun p => ?_⟩
      · change (entriesOf paths f).foldl _ (Record.insert (entriesOf before f) q (f q)) = _
        rw [hinsert, hrest]
      · rw [hnames, hbetween, List.mem_cons, or_assoc]
  obtain ⟨names, hnames, hmem⟩ := hfold []
  exact ⟨names, hnames, fun p => (hmem p).trans (by simp)⟩

theorem get?_entriesOf {names : List String} {f : String → Value} {p : String} {v : Value} :
    Record.get? (entriesOf names f) p = some v ↔ p ∈ names ∧ f p = v := by
  unfold Record.get? entriesOf
  induction names with
  | nil => simp
  | cons n names ih =>
    rw [List.map_cons, List.lookup_cons]
    by_cases hpn : p = n
    · subst hpn
      simp
    · simp [beq_eq_false_iff_ne.mpr hpn, ih, hpn]

variable {r s : Row} {record : Record} {g h : Group}

/-- The record of a row holds what its paths lead to, which has to be found. -/
theorem recordOf_eq_ok {names : List String}
    (hnames : ∀ f, Record.ofList (entriesOf paths f) = entriesOf names f) :
    recordOf paths r = .ok record ↔
      (∀ p ∈ paths, r.lookup p = .ok (r.valueAt p)) ∧ record = entriesOf names r.valueAt := by
  have hmap (h : ∀ p ∈ paths, r.lookup p = .ok (r.valueAt p)) :
      recordOf paths r = .ok (entriesOf names r.valueAt) := by
    have hentries : (paths.mapM fun p => do return (p, ← r.lookup p) : Outcome _) =
        .ok (entriesOf paths r.valueAt) := by
      refine mapM_eq_ok fun p hp => ?_
      rw [h p hp]
      rfl
    rw [recordOf, hentries, ← hnames]
    rfl
  constructor
  · intro hrecord
    obtain ⟨entries, hentries, -⟩ := bind_eq_ok.mp hrecord
    have hlookups : ∀ p ∈ paths, r.lookup p = .ok (r.valueAt p) := by
      intro p hp
      obtain ⟨e, he⟩ := exists_ok_of_mapM hentries p hp
      obtain ⟨v, hv, -⟩ := bind_eq_ok.mp he
      exact Row.lookup_valueAt hv
    rw [hmap hlookups] at hrecord
    exact ⟨hlookups, (Except.ok.inj hrecord).symm⟩
  · rintro ⟨hlookups, rfl⟩
    exact hmap hlookups

/-- The group of one row. -/
structure IsSingle (paths names : List String) (r : Row) (g : Group) : Prop where
  first : g.first = r
  others : g.others = []
  lookups : ∀ p ∈ paths, r.lookup p = .ok (r.valueAt p)
  record : g.record = entriesOf names r.valueAt
  key : Value.itemKeys (names.map r.valueAt) = .ok g.key

theorem ofRow_eq_ok {names : List String}
    (hnames : ∀ f, Record.ofList (entriesOf paths f) = entriesOf names f) :
    ofRow paths r = .ok g ↔ IsSingle paths names r g := by
  have hvalues (f : String → Value) : (entriesOf names f).map (·.2) = names.map f := by
    rw [entriesOf, List.map_map]
    rfl
  unfold ofRow
  rw [bind_eq_ok]
  constructor
  · rintro ⟨record, hrecord, h⟩
    obtain ⟨key, hkey, h⟩ := bind_eq_ok.mp h
    obtain ⟨hlookups, rfl⟩ := (recordOf_eq_ok hnames).mp hrecord
    cases h
    rw [lift_eq_ok, hvalues] at hkey
    exact ⟨rfl, rfl, hlookups, rfl, hkey⟩
  · intro h
    refine ⟨g.record, (recordOf_eq_ok hnames).mpr ⟨h.lookups, h.record⟩, ?_⟩
    refine bind_eq_ok.mpr ⟨g.key, lift_eq_ok.mpr ?_, ?_⟩
    · rw [h.record, hvalues]
      exact h.key
    · rw [← h.first, ← h.others]
      rfl

/-! ### Adding rows -/

/-- The rows that are added go to the first group if its key is theirs, and else to the others. -/
theorem foldl_add_cons (g : Group) (groups gs : List Group) :
    gs.foldl (fun groups h => h.add groups) (g :: groups) =
      { g with others := g.others ++ (gs.filter fun h => Key.agreeAll g.key h.key).flatMap Group.rows } ::
        (gs.filter fun h => !Key.agreeAll g.key h.key).foldl (fun groups h => h.add groups) groups := by
  induction gs generalizing g groups with
  | nil => simp
  | cons h gs ih =>
    rw [List.foldl_cons, add, List.filter_cons, List.filter_cons]
    cases hagree : Key.agreeAll g.key h.key with
    | true =>
      rw [if_pos rfl, ih]
      simp
    | false =>
      rw [if_neg Bool.false_ne_true, ih]
      simp

theorem ofRows_eq (paths : List String) (rows : List Row) :
    ofRows paths rows =
      (fun gs => gs.foldl (fun groups h => h.add groups) []) <$> rows.mapM (ofRow paths) := by
  have hfold (groups : List Group) :
      rows.foldlM (fun groups r => do return (← ofRow paths r).add groups) groups =
        (fun gs => gs.foldl (fun groups h => h.add groups) groups) <$> rows.mapM (ofRow paths) := by
    induction rows generalizing groups with
    | nil => rfl
    | cons r rows ih =>
      rw [List.foldlM_cons, List.mapM_cons]
      cases ofRow paths r with
      | error e => rfl
      | ok g =>
        change rows.foldlM _ (g.add groups) = _
        rw [ih]
        cases rows.mapM (ofRow paths) <;> rfl
  exact hfold []

theorem flatMap_rows_add (g : Group) (groups : List Group) :
    ((g.add groups).flatMap Group.rows).Perm (groups.flatMap Group.rows ++ g.rows) := by
  induction groups with
  | nil => simp [add]
  | cons h groups ih =>
    rw [add]
    split
    · have hrows : ({ h with others := h.others ++ g.rows } : Group).rows = h.rows ++ g.rows := rfl
      rw [List.flatMap_cons, List.flatMap_cons, hrows, List.append_assoc, List.append_assoc]
      exact List.perm_append_comm.append_left h.rows
    · rw [List.flatMap_cons, List.flatMap_cons, List.append_assoc]
      exact ih.append_left h.rows

theorem rows_ofRow {r : Row} {g : Group} (h : ofRow paths r = .ok g) : g.rows = [r] := by
  obtain ⟨record, -, h⟩ := bind_eq_ok.mp h
  obtain ⟨key, -, h⟩ := bind_eq_ok.mp h
  cases h
  rfl

/-- Whatever the keys are, the groups of rows hold every row, each of them once. -/
theorem flatMap_rows_ofRows {groups : List Group} (h : ofRows paths rows = .ok groups) :
    (groups.flatMap Group.rows).Perm rows := by
  have hfold (before : List Group) :
      Ensures (fun groups => (groups.flatMap Group.rows).Perm (before.flatMap Group.rows ++ rows))
        (rows.foldlM (fun groups r => do return (← ofRow paths r).add groups) before) := by
    clear h
    induction rows generalizing before with
    | nil => exact .of_eq (List.append_nil _).symm
    | cons r rows ih =>
      rw [List.foldlM_cons, bind_assoc]
      refine ensures_bind fun g hg => (ih (g.add before)).imp (fun groups hperm => ?_) fun _ he => he
      refine hperm.trans (((flatMap_rows_add g before).append_right rows).trans (.of_eq ?_))
      rw [rows_ofRow hg, List.append_assoc, List.singleton_append]
  exact ensures_iff.mp (hfold []) groups h

/-- Groups with their first rows only, of which some have one key. -/
def related {n : Nat} (single : Fin n → Group) (i j : Fin n) : Bool :=
  Key.agreeAll (single i).key (single j).key

section
variable {n : Nat} {single : Fin n → Group}

theorem related_symm (i j : Fin n) : related single i j = related single j i := Key.agreeAll_symm _ _

theorem related_trans (i j k : Fin n) (hij : related single i j = true)
    (hjk : related single j k = true) : related single i k = true := Key.agreeAll_trans _ hij hjk

theorem flatMap_rows (hothers : ∀ i, (single i).others = []) (is : List (Fin n)) :
    (is.map single).flatMap Group.rows = is.map fun i => (single i).first := by
  induction is with
  | nil => rfl
  | cons i is ih =>
    rw [List.map_cons, List.flatMap_cons, ih, Group.rows, hothers]
    rfl

/-- Each group is that of its first row, with all later rows of its key. -/
theorem foldl_add_map (hothers : ∀ i, (single i).others = []) (is : List (Fin n))
    (hrefl : ∀ i ∈ is, related single i i = true) :
    (is.map single).foldl (fun groups g => g.add groups) [] =
      (is.eraseDupsBy (related single)).map fun m =>
        { single m with
          others := (is.filter (related single m)).tail.map fun i => (single i).first } := by
  match is with
  | [] => rfl
  | i :: is =>
    rw [List.forall_mem_cons] at hrefl
    have hapart : (fun j => decide (related single j i = false)) = fun j => !related single i j := by
      funext j
      rw [related_symm j i]
      cases related single i j <;> rfl
    have hrest := foldl_add_map hothers (is.filter fun j => !related single i j)
      fun j hj => hrefl.2 j (List.mem_of_mem_filter hj)
    rw [List.map_cons, List.foldl_cons, add, foldl_add_cons, List.filter_map, List.filter_map,
      flatMap_rows hothers, hothers, List.eraseDupsBy_cons, hapart, List.map_cons,
      List.filter_cons_of_pos hrefl.1]
    refine congrArg₂ List.cons rfl (hrest.trans (List.map_congr_left fun m hm => ?_))
    have hmem := (Order.eraseDupsBy_sublist _ _).subset hm
    have hmi : related single m i = false := by
      rw [related_symm]
      simpa using (List.mem_filter.mp hmem).2
    rw [Order.filter_apart related_trans hmi, hapart]
termination_by is.length
decreasing_by exact Order.length_filter_lt ..

/-- Groups of rows, each led by the position of its first row. Every position has a group as its home. -/
structure IsLed (single : Fin n → Group) (groups : List Group) (leader : Fin groups.length → Fin n)
    (home : Fin n → Fin groups.length) : Prop where
  record : ∀ k, (groups.get k).record = (single (leader k)).record
  first : ∀ k, (groups.get k).first = (single (leader k)).first
  rows : ∀ k, (groups.get k).rows =
    ((List.finRange n).filter (related single (leader k))).map fun i => (single i).first
  home_iff : ∀ i k, home i = k ↔ related single (leader k) i = true
  before : ∀ k l, k < l → ∀ j, home j = l → leader k < j

namespace IsLed

variable {groups : List Group} {leader : Fin groups.length → Fin n} {home : Fin n → Fin groups.length}

theorem home_leader (h : IsLed single groups leader home) (hrefl : ∀ i, related single i i = true)
    (k : Fin groups.length) : home (leader k) = k :=
  (h.home_iff _ k).mpr (hrefl _)

theorem home_eq_iff (h : IsLed single groups leader home) (i j : Fin n) :
    home i = home j ↔ related single i j = true := by
  have hj := (h.home_iff j _).mp rfl
  rw [h.home_iff]
  constructor
  · intro hi
    exact related_trans i _ j ((related_symm _ _).trans hi) hj
  · intro hij
    exact related_trans _ j i hj ((related_symm _ _).trans hij)

end IsLed

theorem exists_isLed (hothers : ∀ i, (single i).others = []) (hrefl : ∀ i, related single i i = true) :
    ∃ leader home, IsLed single
      (((List.finRange n).map single).foldl (fun groups g => g.add groups) []) leader home := by
  rw [foldl_add_map hothers _ fun i _ => hrefl i]
  obtain ⟨home, hhome⟩ := Order.exists_home hrefl related_symm related_trans
  refine ⟨fun k => ((List.finRange n).eraseDupsBy (related single)).get (k.cast (List.length_map _)),
    fun i => (home i).cast (List.length_map _).symm, ?_, ?_, ?_, ?_, ?_⟩
  · intro k
    simp
  · intro k
    simp
  · intro k
    rw [Order.filter_of_mem_eraseDupsBy related_trans _ (fun i _ => hrefl i) (List.get_mem ..)]
    simp [Group.rows]
  · intro i k
    rw [← hhome]
    exact ⟨fun h => h ▸ rfl, fun h => h ▸ rfl⟩
  · intro k l hkl j hj
    subst hj
    exact Order.get_eraseDupsBy_lt hrefl related_trans hkl ((hhome j _).mp rfl)

end

/-! ### The partition -/

theorem itemsEqual_map {names : List String} {f f' : String → Value} :
    Value.itemsEqual (names.map f) (names.map f') = .ok true ↔
      ∀ p ∈ names, (f p).deepEqual (f' p) = .ok true := by
  induction names with
  | nil => simp [Value.itemsEqual]
  | cons n names ih =>
    rw [List.map_cons, List.map_cons, Value.itemsEqual, List.forall_mem_cons, ← ih]
    cases Value.deepEqual (f n) (f' n) with
    | error e => exact ⟨nofun, nofun⟩
    | ok b =>
      cases b with
      | true => exact ⟨fun h => ⟨rfl, h⟩, fun h => h.2⟩
      | false => exact ⟨nofun, nofun⟩

namespace IsSingle

variable {names : List String}

theorem regular (hg : IsSingle paths names r g) (hmem : ∀ p, p ∈ names ↔ p ∈ paths)
    (hr : r.IsRegular) : Value.AllRegular (names.map r.valueAt) := by
  rw [Value.allRegular_iff, List.forall_mem_map]
  intro p hp
  exact ensures_iff.mp (Row.regular_lookup hr p) _ (hg.lookups p ((hmem p).mp hp))

theorem agreeAll_self (hg : IsSingle paths names r g) (hmem : ∀ p, p ∈ names ↔ p ∈ paths)
    (hr : r.IsRegular) : Key.agreeAll g.key g.key = true :=
  Value.agreeAll_self _ (hg.regular hmem hr) hg.key

/-- Rows have one key when the values at all paths are deeply equal. -/
theorem agreeAll_iff (hg : IsSingle paths names r g) (hh : IsSingle paths names s h)
    (hmem : ∀ p, p ∈ names ↔ p ∈ paths) (hr : r.IsRegular) (hs : s.IsRegular) :
    Key.agreeAll g.key h.key = true ↔
      ∀ p ∈ paths, ∃ v w, r.lookup p = .ok v ∧ s.lookup p = .ok w ∧ v.deepEqual w = .ok true := by
  have hequal := Value.itemsEqual_of_keys _ (hg.regular hmem hr) (hh.regular hmem hs) hg.key hh.key
  have hagree : Key.agreeAll g.key h.key = true ↔
      ∀ p ∈ names, (r.valueAt p).deepEqual (s.valueAt p) = .ok true := by
    rw [← itemsEqual_map, hequal, Except.ok.injEq]
  rw [hagree]
  constructor
  · intro hdeep p hp
    exact ⟨_, _, hg.lookups p hp, hh.lookups p hp, hdeep p ((hmem p).mpr hp)⟩
  · intro hdeep p hp
    obtain ⟨v, w, hv, hw, hvw⟩ := hdeep p ((hmem p).mp hp)
    rw [hg.lookups p ((hmem p).mp hp)] at hv
    rw [hh.lookups p ((hmem p).mp hp)] at hw
    cases hv
    cases hw
    exact hvw

end IsSingle

/-- Groups that part rows by the values at some paths: each row, by its position, has one home. -/
structure IsPartition (paths : List String) (rows : List Row) (groups : List Group)
    (home : Fin rows.length → Fin groups.length) : Prop where
  /-- A group holds the rows whose home it is, in their order. -/
  rows_eq : ∀ k, (groups.get k).rows =
    ((List.finRange rows.length).filter fun i => home i = k).map rows.get
  inhabited : ∀ k, ∃ i, home i = k
  same_iff : ∀ i j, home i = home j ↔ ∀ p ∈ paths, ∃ v w,
    (rows.get i).lookup p = .ok v ∧ (rows.get j).lookup p = .ok w ∧ v.deepEqual w = .ok true
  /-- The first row of a group stands before all rows of later groups. -/
  order : ∀ k l, k < l → ∃ i, home i = k ∧ ∀ j, home j = l → i < j
  record_iff : ∀ k p v, (groups.get k).record.get? p = some v ↔
    p ∈ paths ∧ (groups.get k).first.lookup p = .ok v

theorem exists_singles {groups : List Group} (h : ofRows paths rows = .ok groups) :
    ∃ (names : List String) (single : Fin rows.length → Group),
      (∀ p, p ∈ names ↔ p ∈ paths) ∧ (∀ i, IsSingle paths names (rows.get i) (single i)) ∧
        groups = ((List.finRange rows.length).map single).foldl (fun groups g => g.add groups) [] := by
  obtain ⟨names, hnames, hmem⟩ := exists_names paths
  rw [ofRows_eq, map_eq_ok] at h
  obtain ⟨gs, hgs, rfl⟩ := h
  obtain ⟨hlength, hget⟩ := List.forall₂_iff_get.mp (forall₂_of_mapM hgs)
  refine ⟨names, fun i => gs.get (i.cast hlength), hmem, fun i => ?_, ?_⟩
  · exact (ofRow_eq_ok hnames).mp (hget i i.isLt (hlength ▸ i.isLt))
  · congr 1
    refine List.ext_getElem (by simp [hlength]) fun i _ _ => ?_
    simp

/-- The groups of rows part them. -/
theorem ofRows_isPartition {groups : List Group} (hrows : ∀ r ∈ rows, r.IsRegular)
    (h : ofRows paths rows = .ok groups) : ∃ home, IsPartition paths rows groups home := by
  obtain ⟨names, single, hmem, hsingle, rfl⟩ := exists_singles h
  have hreg (i : Fin rows.length) : (rows.get i).IsRegular := hrows _ (rows.get_mem i)
  have hrefl (i : Fin rows.length) : related single i i = true :=
    (hsingle i).agreeAll_self hmem (hreg i)
  obtain ⟨leader, home, hled⟩ := exists_isLed (fun i => (hsingle i).others) hrefl
  refine ⟨home, ?_, ?_, ?_, ?_, ?_⟩
  · intro k
    rw [hled.rows]
    simp only [(hsingle _).first]
    refine congrArg _ (List.filter_congr fun i _ => ?_)
    rw [Bool.eq_iff_iff, decide_eq_true_iff, hled.home_iff]
  · intro k
    exact ⟨leader k, hled.home_leader hrefl k⟩
  · intro i j
    rw [hled.home_eq_iff, ← (hsingle i).agreeAll_iff (hsingle j) hmem (hreg i) (hreg j)]
    rfl
  · intro k l hkl
    exact ⟨leader k, hled.home_leader hrefl k, hled.before k l hkl⟩
  · intro k p v
    rw [hled.record, hled.first, (hsingle _).record, (hsingle _).first, get?_entriesOf, hmem]
    refine and_congr_right fun hp => ?_
    rw [(hsingle _).lookups p hp, Except.ok.injEq]

/-! ### Groups with aggregates -/

/-- Rows have groups exactly where the values at the paths are found and their dates have moments. -/
theorem exists_ofRows_iff : (∃ groups, ofRows paths rows = .ok groups) ↔
    ∀ r ∈ rows, ∀ p ∈ paths, ∃ v, r.lookup p = .ok v ∧ v.DatesInCalendar := by
  obtain ⟨names, hnames, hmem⟩ := exists_names paths
  rw [ofRows_eq, exists_map_ok_iff, exists_mapM_ok_iff]
  refine forall₂_congr fun r _ => ⟨?_, fun h => ?_⟩
  · rintro ⟨g, hg⟩ p hp
    have hsingle := (ofRow_eq_ok hnames).mp hg
    refine ⟨_, hsingle.lookups p hp, ?_⟩
    have hd (d : Stamp) (m : Moment) (hm : d.moment = .ok m) : d.InCalendar := by
      rw [Stamp.InCalendar, hm]
      trivial
    have hall := Value.allHold_iff.mp (Value.allHold_of_itemKeys hd _ hsingle.key)
    exact hall _ (List.mem_map_of_mem ((hmem p).mpr hp))
  · have hlookups : ∀ p ∈ paths, r.lookup p = .ok (r.valueAt p) ∧ (r.valueAt p).DatesInCalendar := by
      intro p hp
      obtain ⟨v, hv, hdates⟩ := h p hp
      rw [Row.valueAt, hv]
      exact ⟨rfl, hdates⟩
    have hall : Value.AllHold (fun _ => True) Stamp.InCalendar (names.map r.valueAt) := by
      rw [Value.allHold_iff, List.forall_mem_map]
      exact fun p hp => (hlookups p ((hmem p).mp hp)).2
    obtain ⟨key, hkey, -⟩ := (Value.failsOnly_itemKeys (fun _ hd => hd) _ hall).exists_ok
    exact ⟨⟨entriesOf names r.valueAt, key, r, []⟩, (ofRow_eq_ok hnames).mpr
      ⟨rfl, rfl, fun p hp => (hlookups p hp).1, rfl, hkey⟩⟩

theorem exists_aggregates_iff {as : List Aggregate} {g : Group} :
    (∃ record, g.aggregates as = .ok record) ↔ ∀ a ∈ as, ∃ v, a.compute g.rows = .ok v := by
  simp only [aggregates, bind_pure_comp, exists_map_ok_iff, exists_mapM_ok_iff]

/-- The groups of rows, each with its aggregates. -/
def withAggregates (as : List Aggregate) (paths : List String) (rows : List Row) :
    Outcome (List (Group × Record)) := do
  (← ofRows paths rows).mapM fun g => do return (g, ← g.aggregates as)

theorem groupedRows_eq (p : Plan) (rows : List Row) :
    p.groupedRows rows =
      List.map (fun x => ⟨x.1.first, ⟨x.1.first.file, Record.ofList (x.1.record ++ x.2), none⟩⟩) <$>
        withAggregates p.aggregates p.query.groups rows := by
  simp only [Plan.groupedRows, withAggregates, bind_pure_comp, map_bind, ← mapM_map, Functor.map_map]

theorem withAggregates_groups {as : List Aggregate} {out : List (Group × Record)}
    (h : withAggregates as paths rows = .ok out) : ofRows paths rows = .ok (out.map (·.1)) := by
  obtain ⟨groups, hgroups, hout⟩ := bind_eq_ok.mp h
  have hall : List.Forall₂ (fun g x => g = x.1) groups out := by
    refine (forall₂_of_mapM hout).imp fun g x hx => ?_
    obtain ⟨record, -, hrecord⟩ := bind_eq_ok.mp hx
    cases hrecord
    rfl
  rw [← List.forall₂_map_right_iff, List.forall₂_eq_eq_eq] at hall
  rw [← hall]
  exact hgroups

theorem exists_withAggregates_iff {as : List Aggregate} :
    (∃ out, withAggregates as paths rows = .ok out) ↔
      ∃ groups, ofRows paths rows = .ok groups ∧
        ∀ g ∈ groups, ∀ a ∈ as, ∃ v, a.compute g.rows = .ok v := by
  have hvalues (groups : List Group) :
      (∃ out, (groups.mapM fun g => do return (g, ← g.aggregates as) : Outcome _) = .ok out) ↔
        ∀ g ∈ groups, ∀ a ∈ as, ∃ v, a.compute g.rows = .ok v := by
    simp only [bind_pure_comp, exists_mapM_ok_iff, exists_map_ok_iff, exists_aggregates_iff]
  constructor
  · rintro ⟨out, hout⟩
    obtain ⟨groups, hgroups, haggregates⟩ := bind_eq_ok.mp hout
    exact ⟨groups, hgroups, (hvalues groups).mp ⟨out, haggregates⟩⟩
  · rintro ⟨groups, hgroups, hcompute⟩
    obtain ⟨out, hout⟩ := (hvalues groups).mpr hcompute
    exact ⟨out, bind_eq_ok.mpr ⟨groups, hgroups, hout⟩⟩

/-- Grouping parts rows by deep equality. It ends the query exactly where a path leads into an array by
a digit that is no decimal, where a date has no moment, or where an aggregate has no value. -/
theorem withAggregates_isPartition (as : List Aggregate) (hrows : ∀ r ∈ rows, r.IsRegular) :
    ((∃ out, withAggregates as paths rows = .ok out) ↔
      (∀ r ∈ rows, ∀ p ∈ paths, ∃ v, r.lookup p = .ok v ∧ v.DatesInCalendar) ∧
        ∀ groups, ofRows paths rows = .ok groups →
          ∀ g ∈ groups, ∀ a ∈ as, ∃ v, a.compute g.rows = .ok v) ∧
    ∀ out, withAggregates as paths rows = .ok out →
      ∃ home, IsPartition paths rows (out.map (·.1)) home := by
  refine ⟨exists_withAggregates_iff.trans ⟨?_, ?_⟩,
    fun out hout => ofRows_isPartition hrows (withAggregates_groups hout)⟩
  · rintro ⟨groups, hgroups, hcompute⟩
    refine ⟨exists_ofRows_iff.mp ⟨groups, hgroups⟩, fun groups' hgroups' => ?_⟩
    cases hgroups.symm.trans hgroups'
    exact hcompute
  · rintro ⟨hlookups, hcompute⟩
    obtain ⟨groups, hgroups⟩ := exists_ofRows_iff.mpr hlookups
    exact ⟨groups, hgroups, hcompute groups hgroups⟩

/-- An integer and a float of one value are in one group, before the text that stands between them. -/
theorem withAggregates_isPartition_numbers :
    let rows := [oneField "n" (.int 1), oneField "n" (.text "a"),
      oneField "n" (.number (.real (.ofInt 1)))]
    (∀ r ∈ rows, r.IsRegular) ∧
      ∃ out home, withAggregates [⟨.count, none, none⟩] ["n"] rows = .ok out ∧
        IsPartition ["n"] rows (out.map (·.1)) home ∧ out.map (fun x => x.1.rows.length) = [2, 1] := by
  intro rows
  have hregular : ∀ r ∈ rows, r.IsRegular := by
    simp [rows, oneField, Row.IsRegular, Value.EntriesRegular, Value.Regular, Value.int,
      FileInfo.record, FileInfo.get, FileAttribute.all, Number.isNaN]
    decide +kernel
  have hlengths : (withAggregates [⟨.count, none, none⟩] ["n"] rows).toOption.map
      (·.map fun x => x.1.rows.length) = some [2, 1] := by decide +kernel
  refine ⟨hregular, ?_⟩
  cases hout : withAggregates [⟨.count, none, none⟩] ["n"] rows with
  | error f =>
    rw [hout] at hlengths
    cases hlengths
  | ok out =>
    rw [hout] at hlengths
    obtain ⟨home, hhome⟩ := (withAggregates_isPartition _ hregular).2 out hout
    exact ⟨out, home, rfl, hhome, Option.some.inj hlengths⟩

/-- A superscript that leads into an array ends the query. -/
theorem withAggregates_superscript :
    let rows := [oneField "a" (.array [.int 1, .int 2])]
    (∀ r ∈ rows, r.IsRegular) ∧ withAggregates [] ["a.²"] rows = .error (.badPosition "²") := by
  intro rows
  refine ⟨?_, by decide +kernel⟩
  simp [rows, oneField, Row.IsRegular, Value.EntriesRegular, Value.AllRegular, Value.Regular,
    Value.int, FileInfo.record, FileInfo.get, FileAttribute.all, Number.isNaN]

end Group

end NoteQuery
