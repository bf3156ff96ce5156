import NoteQuery.Order.Sort
import NoteQuery.Proofs.Outcome.Yields

/-! Sorting by a comparison that may fail fails only as the comparison does. -/

namespace NoteQuery.Order
set_option autoImplicit false

variable {ε α : Type} {bad : ε → Prop}

section
variable {test : Nat → Except ε Bool} (htest : ∀ i, FailsOnly bad (test i))
include htest

theorem failsOnly_bisect (low high : Nat) : FailsOnly bad (bisect test low high) := by
  rw [bisect]
  split
  · refine (htest _).bind fun b _ => ?_
    split
    · exact failsOnly_bisect low _
    · exact failsOnly_bisect _ high
  · trivial
termination_by high - low

theorem failsOnly_gallop (limit passed stride : Nat) :
    FailsOnly bad (gallop test limit passed stride) := by
  rw [gallop]
  split
  · refine (htest _).bind fun b _ => ?_
    split
    · exact failsOnly_gallop limit stride _
    · trivial
  · trivial
termination_by limit - stride

theorem failsOnly_boundary (size start : Nat) : FailsOnly bad (boundary test size start) := by
  unfold boundary
  refine (htest _).bind fun b _ => ?_
  split
  · refine (failsOnly_gallop (fun k => htest (start - k)) _ _ _).bind fun _ _ => ?_
    exact failsOnly_bisect htest _ _
  · have hnot : ∀ k, FailsOnly bad (not <$> test (start + k)) := fun k => (htest _).map
    refine (failsOnly_gallop hnot _ _ _).bind fun _ _ => ?_
    exact failsOnly_bisect htest _ _

end

theorem failsOnly_testAt {test : α → Except ε Bool} (htest : ∀ x, FailsOnly bad (test x))
    (a : List α) (i : Nat) : FailsOnly bad (Side.testAt a test i) := by
  unfold Side.testAt
  split
  · exact htest _
  · trivial

section
variable {lt : α → α → Except ε Bool} (hlt : ∀ x y, FailsOnly bad (lt x y))
include hlt

theorem failsOnly_secondFirst (side : Side) (x y : α) :
    FailsOnly bad (side.secondFirst lt x y) := by
  cases side with
  | front => exact hlt y x
  | back => exact (hlt y x).map

theorem failsOnly_stretchOfFirst (side : Side) (y : α) (a : List α) :
    FailsOnly bad (side.stretchOfFirst lt y a) := by
  have htest := failsOnly_testAt (hlt y)
  cases side with
  | front => exact failsOnly_boundary (htest a) _ _
  | back => exact (failsOnly_boundary (htest a.reverse) _ _).bind fun _ _ => trivial

theorem failsOnly_stretchOfSecond (side : Side) (x : α) (b : List α) :
    FailsOnly bad (side.stretchOfSecond lt x b) := by
  have htest : ∀ c i, FailsOnly bad (Side.testAt c (fun y => not <$> lt y x) i) :=
    failsOnly_testAt fun y => (hlt y x).map
  cases side with
  | front => exact failsOnly_boundary (htest b) _ _
  | back => exact (failsOnly_boundary (htest b.reverse) _ _).bind fun _ _ => trivial

theorem failsOnly_mergeFrom (side : Side) (pace : Pace) (patience : Nat) (a b out : List α) :
    FailsOnly bad (mergeFrom lt side pace patience a b out) := by
  fun_induction mergeFrom lt side pace patience a b out with
  | case1 => trivial
  | case2 _ _ x a y b first second _ searchFirst goOnFirst searchSecond goOnSecond =>
    refine (failsOnly_secondFirst hlt side x y).bind fun b _ => ?_
    split
    · dsimp only
      split
      · exact searchFirst
      · exact goOnFirst
    · dsimp only
      split
      · exact searchSecond
      · exact goOnSecond
  | case3 _ _ x a y b _ _ stretches single =>
    refine (failsOnly_stretchOfFirst hlt side y (x :: a)).bind fun i _ => ?_
    dsimp only
    split
    · trivial
    · next z left hdrop =>
      split
      · trivial
      · split
        · trivial
        · refine (failsOnly_stretchOfSecond hlt side z b).bind fun j _ => ?_
          split
          · trivial
          · split
            · exact stretches i z left hdrop j
            · split
              · trivial
              · exact single i z left hdrop j
  | case4 => trivial

theorem failsOnly_insertAll (sorted xs : List α) : FailsOnly bad (insertAll lt sorted xs) := by
  induction xs generalizing sorted with
  | nil => trivial
  | cons x xs ih =>
    rw [insertAll]
    exact (failsOnly_bisect (failsOnly_testAt (hlt x) sorted) _ _).bind fun k _ => ih _

theorem failsOnly_runFrom (descending : Bool) (last : α) (taken xs : List α) :
    FailsOnly bad (runFrom lt descending last taken xs) := by
  induction xs generalizing last taken with
  | nil => trivial
  | cons x xs ih =>
    rw [runFrom]
    refine (hlt x last).bind fun b _ => ?_
    split
    · exact ih x _
    · trivial

theorem failsOnly_firstRun (xs : List α) : FailsOnly bad (firstRun lt xs) := by
  unfold firstRun
  split
  · trivial
  · trivial
  · next x y rest =>
    refine (hlt y x).bind fun descending _ => ?_
    exact (failsOnly_runFrom hlt descending y _ rest).bind fun _ _ => trivial

theorem failsOnly_mergeBack (patience : Nat) (a b : List α) :
    FailsOnly bad (mergeRuns.mergeBack lt patience a b) :=
  (failsOnly_mergeFrom hlt _ _ _ _ _ _).bind fun _ _ => trivial

theorem failsOnly_mergeRuns (patience : Nat) (a b : List α) :
    FailsOnly bad (mergeRuns lt patience a b) := by
  unfold mergeRuns
  split
  · trivial
  · next y b =>
    refine (failsOnly_boundary (failsOnly_testAt (hlt y) a) _ _).bind fun k _ => ?_
    dsimp only
    split
    · trivial
    · next x _ =>
      have htest : ∀ c i, FailsOnly bad (Side.testAt c (fun z => not <$> lt z x) i) :=
        failsOnly_testAt fun z => (hlt z x).map
      refine (failsOnly_boundary (htest _) _ _).bind fun n _ => ?_
      split
      · trivial
      · split
        · exact (failsOnly_mergeFrom hlt _ _ _ _ _ _).bind fun _ _ => trivial
        · exact (failsOnly_mergeBack hlt _ _ _).bind fun _ _ => trivial

theorem failsOnly_collapse (power : Nat) (last : Run α) (runs : List (Run α)) (patience : Nat) :
    FailsOnly bad (settle.collapse lt power last runs patience) := by
  induction runs generalizing last patience with
  | nil => trivial
  | cons before earlier ih =>
    rw [settle.collapse]
    split
    · exact (failsOnly_mergeRuns hlt _ _ _).bind fun _ _ => ih _ _
    · trivial

theorem failsOnly_settle (size next patience : Nat) (runs : List (Run α)) :
    FailsOnly bad (settle lt size next patience runs) := by
  cases runs with
  | nil => trivial
  | cons last earlier => exact failsOnly_collapse hlt _ _ _ _

theorem failsOnly_mergeAll (patience : Nat) (runs : List (Run α)) :
    FailsOnly bad (mergeAll lt patience runs) := by
  fun_induction mergeAll lt patience runs with
  | case1 => trivial
  | case2 => trivial
  | case3 _ _ _ _ _ _ ih => exact (failsOnly_mergeRuns hlt _ _ _).bind fun r _ => ih r.1 r.2
  | case4 _ _ _ _ _ _ ih => exact (failsOnly_mergeRuns hlt _ _ _).bind fun r _ => ih r.1 r.2
  | case5 => exact (failsOnly_mergeRuns hlt _ _ _).bind fun _ _ => trivial

theorem failsOnly_collect (size fuel start patience : Nat) (runs : List (Run α)) (xs : List α) :
    FailsOnly bad (collect lt size fuel start runs patience xs) := by
  induction fuel generalizing start runs patience xs with
  | zero => trivial
  | succ fuel ih =>
    rw [collect]
    split
    · trivial
    · refine (failsOnly_firstRun hlt xs).bind fun run _ => ?_
      refine (failsOnly_insertAll hlt _ _).bind fun items _ => ?_
      exact (failsOnly_settle hlt _ _ _ _).bind fun _ _ => ih _ _ _ _

/-- A sort fails only as its comparison does. -/
theorem failsOnly_sortM (xs : List α) : FailsOnly bad (sortM lt xs) := by
  unfold sortM
  split
  · trivial
  · trivial
  · exact (failsOnly_collect hlt _ _ _ _ _ _).bind fun _ _ => failsOnly_mergeAll hlt _ _

end

end NoteQuery.Order
