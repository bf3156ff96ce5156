import NoteQuery.Proofs.Outcome.Yields
import NoteQuery.Proofs.Query.Grouping
import NoteQuery.Proofs.Query.Stages

/-! Without groups, an order and a limit a query looks at each row alone. Every stage gives for two lists
together what it gives for the one and then what it gives for the other, and so do stages one after
another. Which failure is met first may differ. -/

namespace NoteQuery
set_option autoImplicit false

section
variable {ε δ α β γ : Type}

/-- The results for two lists together are those for the one and then those for the other, and there are
results where there are some for both. -/
def RowWise (f : List α → Except ε (List β)) : Prop :=
  ∀ xs ys, (f (xs ++ ys)).toOption = do
    let as ← (f xs).toOption
    let bs ← (f ys).toOption
    return as ++ bs

namespace RowWise

variable {f : List α → Except ε (List β)} {g : List β → Except ε (List γ)} {xs ys : List α}
  {as bs : List β}

theorem append (hf : RowWise f) (hxs : f xs = .ok as) (hys : f ys = .ok bs) :
    f (xs ++ ys) = .ok (as ++ bs) := by
  rw [← toOption_eq_some, hf, hxs, hys]
  rfl

theorem error_iff (hf : RowWise f) :
    (∃ e, f (xs ++ ys) = .error e) ↔ (∃ e, f xs = .error e) ∨ ∃ e, f ys = .error e := by
  rw [← toOption_eq_none, ← toOption_eq_none, ← toOption_eq_none, hf]
  cases (f xs).toOption <;> cases (f ys).toOption <;> simp

theorem nil (hf : RowWise f) (h : f [] = .ok as) : as = [] := by
  have htwice := hf.append h h
  rw [List.append_nil, h] at htwice
  exact List.self_eq_append_right.mp (Except.ok.inj htwice)

/-- The results for a list are put together from those for each element alone. -/
theorem singles (hf : RowWise f) (h : f xs = .ok as) :
    ∃ each, List.Forall₂ (fun x bs => f [x] = .ok bs) xs each ∧ as = each.flatten := by
  induction xs generalizing as with
  | nil => exact ⟨[], .nil, hf.nil h⟩
  | cons x xs ih =>
    have hboth := hf [x] xs
    rw [List.singleton_append, h] at hboth
    cases hx : f [x] with
    | error e =>
      rw [hx] at hboth
      cases hboth
    | ok bs =>
      cases hxs : f xs with
      | error e =>
        rw [hx, hxs] at hboth
        cases hboth
      | ok cs =>
        rw [hx, hxs] at hboth
        obtain ⟨each, heach, rfl⟩ := ih hxs
        exact ⟨bs :: each, .cons hx heach, Option.some.inj hboth⟩

theorem ofList {f : List α → List β} (hf : ∀ xs ys, f (xs ++ ys) = f xs ++ f ys) :
    RowWise fun xs => (.ok (f xs) : Except ε (List β)) :=
  fun xs ys => congrArg some (hf xs ys)

theorem andThen (hf : RowWise f) (hg : RowWise g) : RowWise fun xs => f xs >>= g := by
  intro xs ys
  simp only [toOption_bind, hf xs ys]
  cases (f xs).toOption with
  | none => rfl
  | some as =>
    cases (f ys).toOption with
    | none =>
      -- the failure of the second list is met after the results for the first
      cases h : (g as).toOption <;> simp [h]
    | some bs => exact hg as bs

theorem mapM (h : α → Except ε β) : RowWise fun xs : List α => xs.mapM h := by
  intro xs ys
  simp only [List.mapM_append, toOption_bind]
  rfl

theorem filterM (p : α → Except ε Bool) : RowWise fun xs : List α => xs.filterM p := by
  have hall := (mapM fun a => (fun b => (a, b)) <$> p a).andThen
    (ofList (ε := ε) fun bs cs => by rw [List.filter_append, List.map_append] :
      RowWise fun bs : List (α × Bool) => .ok ((bs.filter (·.2)).map (·.1)))
  simp only [filterM_eq_mapM, map_eq_pure_bind]
  exact hall

theorem mapError (hf : RowWise f) (h : ε → δ) : RowWise fun xs => (f xs).mapError h := by
  intro xs ys
  have hsame (x : Except ε (List β)) : (x.mapError h).toOption = x.toOption := by cases x <;> rfl
  simp only [hsame, hf xs ys]

end RowWise
end

namespace Plan

variable {now : Moment}

theorem flattened_rowWise (path? : Option String) : RowWise (flattened path?) := by
  unfold flattened
  cases path?.bind nonempty? with
  | none => exact .ofList fun _ _ => rfl
  | some path =>
    refine RowWise.mapError ?_ QueryFault.evaluation
    exact (RowWise.mapM fun r => Row.flatten r path).andThen (.ofList fun _ _ => List.flatten_append)

theorem results_rowWise {p : Plan} (hgroups : p.query.groups = []) : RowWise (results now p) := by
  unfold results
  rw [hgroups]
  exact .mapM _

theorem table_rowWise (now : Moment) {p : Plan} (hgroups : p.query.groups = []) (hsort : p.query.sort? = none)
    (hlimit : p.query.limit? = none) : RowWise (p.table now) := by
  have hordered : RowWise (p.ordered now) := by
    unfold ordered
    rw [hsort]
    exact .ofList fun _ _ => rfl
  have hrows : RowWise fun ordered : List Sourced =>
      (.ok (limited p.query.limit? (ordered.map (·.row))) : Except QueryFault (List Row)) := by
    rw [hlimit]
    exact .ofList fun _ _ => List.map_append
  have hkept : RowWise (kept now p.filter?) := .filterM _
  exact hkept.andThen <| (flattened_rowWise _).andThen <|
    (results_rowWise hgroups).andThen <| hordered.andThen hrows

theorem keptTasks_rowWise (now : Moment) (filter? : Option Compiled) : RowWise (keptTasks now filter?) := by
  have hcontexts : RowWise fun rows => (.ok (taskContexts rows) : Except QueryFault _) :=
    .ofList fun _ _ => List.flatMap_append
  exact hcontexts.andThen <| (RowWise.filterM _).andThen <| .ofList fun _ _ => List.map_append

end Plan

/-- A run looks at each row alone. -/
structure IsRowWise (run : List Row → Except QueryFault QueryResult) : Prop where
  append : ∀ {xs ys a b}, run xs = .ok a → run ys = .ok b →
    run (xs ++ ys) = .ok { a with rows := a.rows ++ b.rows, tasks := a.tasks ++ b.tasks }
  error_iff : ∀ xs ys, (∃ f, run (xs ++ ys) = .error f) ↔
    (∃ f, run xs = .error f) ∨ ∃ f, run ys = .error f
  singles : ∀ {xs a}, run xs = .ok a →
    ∃ each, List.Forall₂ (fun x b => run [x] = .ok b) xs each ∧
      a.rows = each.flatMap (·.rows) ∧ a.tasks = each.flatMap (·.tasks)

namespace IsRowWise

variable {α : Type} {f : List Row → Except QueryFault (List α)} {result : List α → QueryResult}

theorem of_error (e : QueryFault) : IsRowWise fun _ => .error e where
  append := nofun
  error_iff _ _ := ⟨fun _ => .inl ⟨e, rfl⟩, fun _ => ⟨e, rfl⟩⟩
  singles := nofun

theorem of_rowWise (hf : RowWise f) (hnil : (result []).rows = [] ∧ (result []).tasks = [])
    (happend : ∀ as bs, result (as ++ bs) = { result as with
      rows := (result as).rows ++ (result bs).rows
      tasks := (result as).tasks ++ (result bs).tasks }) :
    IsRowWise fun rows => result <$> f rows where
  append := by
    intro xs ys a b ha hb
    obtain ⟨as, has, rfl⟩ := map_eq_ok.mp ha
    obtain ⟨bs, hbs, rfl⟩ := map_eq_ok.mp hb
    rw [hf.append has hbs]
    exact congrArg Except.ok (happend as bs)
  error_iff xs ys := by
    have herror (rows : List Row) : (∃ e, result <$> f rows = .error e) ↔ ∃ e, f rows = .error e := by
      cases f rows with
      | ok as => exact ⟨nofun, nofun⟩
      | error e => exact ⟨fun _ => ⟨e, rfl⟩, fun _ => ⟨e, rfl⟩⟩
    rw [herror, herror, herror]
    exact hf.error_iff
  singles := by
    intro xs a ha
    obtain ⟨as, has, rfl⟩ := map_eq_ok.mp ha
    obtain ⟨each, heach, rfl⟩ := hf.singles has
    refine ⟨each.map result, ?_, ?_⟩
    · rw [List.forall₂_map_right_iff]
      exact heach.imp fun _ _ h => by rw [h]; rfl
    · clear has heach ha
      induction each with
      | nil => exact hnil
      | cons bs each ih =>
        simp only [List.flatten_cons, happend, List.map_cons, List.flatMap_cons, ih, and_self]

end IsRowWise

/-- Without groups, an order and a limit a query gives for two lists of rows what it gives for the one and
then what it gives for the other, and it fails where it fails for one of them. -/
theorem Query.run_isRowWise (now : Moment) {q : Query} (hgroups : q.groups = [])
    (hsort : q.sort? = none) (hlimit : q.limit? = none) :
    IsRowWise fun rows => (q.run now rows).result.1 := by
  have hcandidates : RowWise fun rows => (.ok (q.candidates rows) : Except QueryFault _) := by
    refine .ofList fun xs ys => ?_
    unfold Query.candidates
    cases q.source? with
    | none => rfl
    | some c => exact List.filter_append _ _
  cases hready : q.ready with
  | error f =>
    simp only [Query.result_of_fault hready]
    exact .of_error f
  | ok x =>
    simp only [Query.result_of_ready hready]
    cases x with
    | inl filter? =>
      have hf := hcandidates.andThen (Plan.keptTasks_rowWise now filter?)
      let result (tasks : List TaskItem) : QueryResult := ⟨q.statement, [], [], tasks, q⟩
      have h : IsRowWise fun rows => result <$> Plan.keptTasks now filter? (q.candidates rows) :=
        .of_rowWise hf ⟨rfl, rfl⟩ fun _ _ => rfl
      have hlimited : (Plan.limited q.limit? : List TaskItem → List TaskItem) = id := by
        rw [hlimit]
        rfl
      change IsRowWise fun rows => (do
        return result (← Plan.limited q.limit? <$> Plan.keptTasks now filter? (q.candidates rows)))
      simp only [hlimited, id_map, ← map_eq_pure_bind]
      exact h
    | inr p =>
      have hquery := q.ready_inr hready
      have htable : RowWise (p.table now) :=
        Plan.table_rowWise now (hquery ▸ hgroups) (hquery ▸ hsort) (hquery ▸ hlimit)
      have hf := hcandidates.andThen htable
      let result (rows : List Row) : QueryResult := ⟨q.statement, p.columns, rows, [], q⟩
      have h : IsRowWise fun rows => result <$> p.table now (q.candidates rows) :=
        .of_rowWise hf ⟨rfl, rfl⟩ fun _ _ => rfl
      change IsRowWise fun rows => (do return result (← p.table now (q.candidates rows)))
      simp only [← map_eq_pure_bind]
      exact h

theorem Query.run_isRowWise_flatten :
    let q : Query := ⟨.table, [⟨"a", none⟩], none, some "a", none, [], some "a", none⟩
    let xs := [Group.oneField "a" (.array [.int 1, .int 2]), Group.oneField "a" (.text "x")]
    let ys := [Group.oneField "a" .null, Group.oneField "a" (.bool true)]
    let run := fun rows => (q.run default rows).result.1
    q.groups = [] ∧ q.sort? = none ∧ q.limit? = none ∧
      ∃ c, run (xs ++ ys) = .ok c ∧ c.rows.length = 4 := by
  intro q xs ys run
  have hrun : IsRowWise run := Query.run_isRowWise default rfl rfl rfl
  have hxs : ((run xs).toOption.map (·.rows.length)) = some 3 := by decide +kernel
  have hys : ((run ys).toOption.map (·.rows.length)) = some 1 := by decide +kernel
  obtain ⟨a, ha, halength⟩ := Option.map_eq_some_iff.mp hxs
  obtain ⟨b, hb, hblength⟩ := Option.map_eq_some_iff.mp hys
  refine ⟨rfl, rfl, rfl, _, hrun.append (toOption_eq_some.mp ha) (toOption_eq_some.mp hb), ?_⟩
  rw [List.length_append, halength, hblength]

end NoteQuery
