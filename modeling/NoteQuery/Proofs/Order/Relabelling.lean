import NoteQuery.Proofs.Order.Sorting

/-! A sort looks at its elements only through the comparison. So elements may be put in the place of
others, such as positions in the place of the elements that stand there. -/

namespace NoteQuery.Order
set_option autoImplicit false

variable {α β : Type} {m : Type → Type} [Monad m] (lt : α → α → m Bool) (f : β → α)

section
variable (a b : List β)

theorem testAt_map (test : α → m Bool) :
    Side.testAt (a.map f) test = Side.testAt a fun x => test (f x) := by
  funext i
  unfold Side.testAt
  rw [List.getElem?_map]
  cases a[i]? <;> rfl

theorem done_map (side : Side) : side.done (a.map f) (b.map f) = side.done a b := by
  cases side <;> simp [Side.done]

theorem rest_map (side : Side) : side.rest (a.map f) (b.map f) = (side.rest a b).map f := by
  cases side <;> simp [Side.rest]

theorem secondFirst_map (side : Side) (x y : β) :
    side.secondFirst lt (f x) (f y) = side.secondFirst (fun x y => lt (f x) (f y)) x y := by
  cases side <;> rfl

theorem stretchOfFirst_map (side : Side) (y : β) :
    side.stretchOfFirst lt (f y) (a.map f) = side.stretchOfFirst (fun x y => lt (f x) (f y)) y a := by
  cases side with
  | front => simp only [Side.stretchOfFirst, testAt_map, List.length_map]
  | back => simp only [Side.stretchOfFirst, ← List.map_reverse, testAt_map, List.length_map]

theorem stretchOfSecond_map (side : Side) (x : β) :
    side.stretchOfSecond lt (f x) (b.map f) =
      side.stretchOfSecond (fun x y => lt (f x) (f y)) x b := by
  cases side with
  | front => simp only [Side.stretchOfSecond, testAt_map, List.length_map]
  | back => simp only [Side.stretchOfSecond, ← List.map_reverse, testAt_map, List.length_map]

end

variable [LawfulMonad m]

theorem mergeFrom_map (side : Side) (pace : Pace) (patience : Nat) (a b out : List β) :
    mergeFrom lt side pace patience (a.map f) (b.map f) (out.map f) =
      (fun r => (r.1.map f, r.2)) <$>
        mergeFrom (fun x y => lt (f x) (f y)) side pace patience a b out := by
  fun_induction mergeFrom (fun x y => lt (f x) (f y)) side pace patience a b out with
  | case1 _ _ a b out hdone =>
    conv_lhs => unfold mergeFrom
    rw [done_map, if_pos hdone, rest_map]
    simp
  | case2 patience out x a y b first second hdone searchFirst goOnFirst searchSecond goOnSecond =>
    conv_lhs => unfold mergeFrom
    rw [done_map, if_neg hdone, map_bind]
    simp only [List.map_cons, secondFirst_map]
    refine bind_congr fun c => ?_
    simp only [List.map_cons] at searchFirst goOnFirst searchSecond goOnSecond
    have hfirst := done_map f (x :: a) b side
    have hsecond := done_map f a (y :: b) side
    simp only [List.map_cons] at hfirst hsecond
    rw [hfirst, hsecond]
    cases c with
    | true =>
      rw [if_pos rfl, if_pos rfl]
      split
      · exact searchFirst
      · exact goOnFirst
    | false =>
      rw [if_neg Bool.false_ne_true, if_neg Bool.false_ne_true]
      split
      · exact searchSecond
      · exact goOnSecond
  | case3 patience out x a y b fewer hdone stretches single =>
    conv_lhs => unfold mergeFrom
    rw [done_map, if_neg hdone, map_bind]
    simp only [List.map_cons]
    have hstretch := stretchOfFirst_map lt f (x :: a) side y
    rw [List.map_cons] at hstretch
    rw [hstretch]
    refine bind_congr fun i => ?_
    have hdrop : (f x :: a.map f).drop i = ((x :: a).drop i).map f := by
      rw [List.map_drop, List.map_cons]
    generalize (f x :: a.map f).drop i = left' at hdrop
    have hleft : ∀ z left, (x :: a).drop i = z :: left → ∀ j, _ ∧ _ :=
      fun z left h j => ⟨stretches i z left h j, single i z left h j⟩
    generalize (x :: a).drop i = left at hleft hdrop
    have hpatience : (if 1 < patience then patience - 1 else patience) = fewer := rfl
    rw [hpatience]
    cases left with
    | nil =>
      rw [List.map_nil] at hdrop
      subst hdrop
      simp
    | cons z left =>
      rw [List.map_cons] at hdrop
      subst hdrop
      dsimp only
      simp only [← List.map_cons, ← List.map_drop, ← List.map_take, ← List.map_reverse,
        ← List.map_append, done_map, rest_map, apply_ite (Functor.map _), map_pure, map_bind]
      refine ite_congr rfl (fun _ => rfl) fun _ => ?_
      refine ite_congr rfl (fun _ => rfl) fun _ => ?_
      rw [stretchOfSecond_map]
      refine bind_congr fun j => ?_
      refine ite_congr rfl (fun _ => rfl) fun _ => ?_
      refine ite_congr rfl (fun _ => (hleft z left rfl j).1) fun _ => ?_
      exact ite_congr rfl (fun _ => rfl) fun _ => (hleft z left rfl j).2
  | case4 _ _ a b out hdone hno =>
    have hno' (x : α) (a' : List α) (y : α) (b' : List α) (ha : a.map f = x :: a')
        (hb : b.map f = y :: b') : False := by
      obtain ⟨x, a', rfl, -, -⟩ := List.map_eq_cons_iff.mp ha
      obtain ⟨y, b', rfl, -, -⟩ := List.map_eq_cons_iff.mp hb
      exact hno x a' y b' rfl rfl
    conv_lhs => unfold mergeFrom
    rw [done_map, if_neg hdone, rest_map]
    split
    · next ha hb => exact (hno' _ _ _ _ ha hb).elim
    · simp

theorem mergeFront_map (patience : Nat) (a b : List β) :
    mergeRuns.mergeFront lt patience (a.map f) (b.map f) =
      (fun r => (r.1.map f, r.2)) <$>
        mergeRuns.mergeFront (fun x y => lt (f x) (f y)) patience a b := by
  unfold mergeRuns.mergeFront
  rw [← List.map_drop, ← List.map_take, mergeFrom_map]

theorem mergeBack_map (patience : Nat) (a b : List β) :
    mergeRuns.mergeBack lt patience (a.map f) (b.map f) =
      (fun r => (r.1.map f, r.2)) <$>
        mergeRuns.mergeBack (fun x y => lt (f x) (f y)) patience a b := by
  unfold mergeRuns.mergeBack
  simp only [← List.map_reverse, ← List.map_drop, ← List.map_take, mergeFrom_map]
  simp

theorem mergeRuns_map (patience : Nat) (a b : List β) :
    mergeRuns lt patience (a.map f) (b.map f) =
      (fun r => (r.1.map f, r.2)) <$> mergeRuns (fun x y => lt (f x) (f y)) patience a b := by
  unfold mergeRuns
  cases b with
  | nil => simp
  | cons y b =>
    simp only [List.map_cons]
    rw [testAt_map, List.length_map, map_bind]
    refine bind_congr fun k => ?_
    rw [← List.map_drop, List.getLast?_map]
    cases (a.drop k).getLast? with
    | none => simp
    | some x =>
      simp only [Option.map_some]
      rw [← List.map_cons, testAt_map, List.length_map, map_bind]
      refine bind_congr fun n => ?_
      rw [← List.map_take, List.isEmpty_map, apply_ite (Functor.map _)]
      refine ite_congr rfl (fun _ => by simp) fun _ => ?_
      rw [List.length_map, List.length_map, ← List.map_drop, ← List.map_take, mergeFront_map,
        mergeBack_map]
      split <;> simp

theorem insertAll_map (sorted xs : List β) :
    insertAll lt (sorted.map f) (xs.map f) =
      List.map f <$> insertAll (fun x y => lt (f x) (f y)) sorted xs := by
  induction xs generalizing sorted with
  | nil => simp [insertAll]
  | cons x xs ih =>
    rw [List.map_cons, insertAll, insertAll, testAt_map, List.length_map, map_bind]
    refine bind_congr fun k => ?_
    rw [← ih, List.map_append, List.map_cons, List.map_take, List.map_drop]

theorem runFrom_map (descending : Bool) (last : β) (taken xs : List β) :
    runFrom lt descending (f last) (taken.map f) (xs.map f) =
      Prod.map (List.map f) (List.map f) <$>
        runFrom (fun x y => lt (f x) (f y)) descending last taken xs := by
  induction xs generalizing last taken with
  | nil => simp [runFrom]
  | cons x xs ih =>
    rw [List.map_cons, runFrom, runFrom, map_bind]
    refine bind_congr fun b => ?_
    rw [apply_ite (Functor.map _), ← ih, List.map_cons]
    refine ite_congr rfl (fun _ => rfl) fun _ => ?_
    simp

theorem firstRun_map (xs : List β) :
    firstRun lt (xs.map f) =
      Prod.map (List.map f) (List.map f) <$> firstRun (fun x y => lt (f x) (f y)) xs := by
  match xs with
  | [] => simp [firstRun]
  | [x] => simp [firstRun]
  | x :: y :: rest =>
    simp only [List.map_cons, firstRun, map_bind]
    refine bind_congr fun descending => ?_
    have hrun := runFrom_map lt f descending y [y, x] rest
    rw [List.map_cons, List.map_cons, List.map_nil] at hrun
    rw [hrun, bind_map_left]
    refine bind_congr fun (run, after) => ?_
    cases descending <;> simp

/-- The run with other elements. -/
def Run.map (r : Run β) : Run α := { r with items := r.items.map f }

theorem Run.length_map (r : Run β) : (r.map f).length = r.length := List.length_map f

theorem collapse_map (power : Nat) (last : Run β) (runs : List (Run β)) (patience : Nat) :
    settle.collapse lt power (last.map f) (runs.map (Run.map f)) patience =
      (fun r => (r.1.map (Run.map f), r.2)) <$>
        settle.collapse (fun x y => lt (f x) (f y)) power last runs patience := by
  induction runs generalizing last patience with
  | nil => simp [settle.collapse, Run.map]
  | cons before earlier ih =>
    rw [List.map_cons, settle.collapse, settle.collapse, apply_ite (Functor.map _)]
    refine ite_congr rfl (fun _ => ?_) fun _ => by simp [Run.map]
    change (mergeRuns lt patience (before.items.map f) (last.items.map f) >>= _) = _
    rw [mergeRuns_map, bind_map_left, map_bind]
    refine bind_congr fun r => ?_
    exact ih { before with items := r.1 } r.2

theorem settle_map (size next patience : Nat) (runs : List (Run β)) :
    settle lt size next patience (runs.map (Run.map f)) =
      (fun r => (r.1.map (Run.map f), r.2)) <$>
        settle (fun x y => lt (f x) (f y)) size next patience runs := by
  cases runs with
  | nil => simp [settle]
  | cons last earlier =>
    rw [List.map_cons, settle, settle, Run.length_map]
    exact collapse_map lt f _ last earlier patience

theorem mergeAll_map (patience : Nat) (runs : List (Run β)) :
    mergeAll lt patience (runs.map (Run.map f)) =
      List.map f <$> mergeAll (fun x y => lt (f x) (f y)) patience runs := by
  fun_induction mergeAll (fun x y => lt (f x) (f y)) patience runs with
  | case1 => simp [mergeAll]
  | case2 _ r => simp [mergeAll, Run.map]
  | case3 patience last before third rest hlt ih =>
    rw [List.map_cons, List.map_cons, List.map_cons, mergeAll, Run.length_map, Run.length_map,
      if_pos hlt]
    change (mergeRuns lt patience (third.items.map f) (before.items.map f) >>= _) = _
    rw [mergeRuns_map, bind_map_left, map_bind]
    exact bind_congr fun r => ih r.1 r.2
  | case4 patience last before third rest hlt ih =>
    rw [List.map_cons, List.map_cons, List.map_cons, mergeAll, Run.length_map, Run.length_map,
      if_neg hlt]
    change (mergeRuns lt patience (before.items.map f) (last.items.map f) >>= _) = _
    rw [mergeRuns_map, bind_map_left, map_bind]
    exact bind_congr fun r => ih r.1 r.2
  | case5 patience last before =>
    rw [List.map_cons, List.map_cons, List.map_nil, mergeAll]
    change (mergeRuns lt patience (before.items.map f) (last.items.map f) >>= _) = _
    rw [mergeRuns_map, bind_map_left, map_bind]
    exact bind_congr fun r => by simp

theorem collect_map (size fuel start patience : Nat) (runs : List (Run β)) (xs : List β) :
    collect lt size fuel start (runs.map (Run.map f)) patience (xs.map f) =
      (fun r => (r.1.map (Run.map f), r.2)) <$>
        collect (fun x y => lt (f x) (f y)) size fuel start runs patience xs := by
  induction fuel generalizing start patience runs xs with
  | zero => simp [collect]
  | succ fuel ih =>
    rw [collect, collect, List.isEmpty_map, apply_ite (Functor.map _)]
    refine ite_congr rfl (fun _ => by simp) fun _ => ?_
    rw [firstRun_map, bind_map_left, map_bind]
    refine bind_congr fun r => ?_
    simp only [Prod.map_fst, Prod.map_snd, List.length_map, ← List.map_take, ← List.map_drop,
      insertAll_map, bind_map_left, map_bind, settle_map]
    refine bind_congr fun items => ?_
    refine bind_congr fun settled => ?_
    exact ih (start + items.length) settled.2 (⟨start, items, 0⟩ :: settled.1) _

/-- Elements may be replaced by others that compare in the same way, before the sort or after it. -/
theorem sortM_map (xs : List β) :
    sortM lt (xs.map f) = List.map f <$> sortM (fun x y => lt (f x) (f y)) xs := by
  match xs with
  | [] => simp [sortM]
  | [x] => simp [sortM]
  | x :: y :: rest =>
    have hcollect := collect_map lt f (x :: y :: rest).length (x :: y :: rest).length 0
      shortestStretch [] (x :: y :: rest)
    simp only [List.map_cons, List.map_nil, List.length_cons] at hcollect
    simp only [List.map_cons, sortM, List.length_cons, List.length_map, hcollect, map_bind,
      bind_map_left, mergeAll_map]

end NoteQuery.Order
