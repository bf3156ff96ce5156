import NoteQuery.Order.Search

/-!
Merging two neighbouring sorted runs. The shorter run is set aside, and the merge goes from its end
of the range to the other. While neither run wins often in a row, heads are compared one by one;
after that, whole stretches are searched for. Whatever the comparison answers, the result holds the
elements of both runs, those of each in their order.
-/

namespace NoteQuery.Order
set_option autoImplicit false

variable {α : Type} {m : Type → Type} [Monad m]

/-- The end of the range at which a merge begins. From the back, runs are held backwards. -/
inductive Side where
  | front
  | back
  deriving DecidableEq

/-- Wins in a row: of the first run, then of the second. While searching stretches, none are
counted. -/
inductive Pace where
  | single (first second : Nat)
  | stretches

/-- The shortest stretch that keeps the search for stretches going. -/
def shortestStretch : Nat := 7

namespace Side

/-- Nothing is left to compare: one run is empty, or the one set aside has one element left. -/
def done : Side → List α → List α → Bool
  | front, a, b => a.length ≤ 1 || b.isEmpty
  | back, a, b => a.isEmpty || b.length ≤ 1

/-- The elements left when nothing is left to compare. -/
def rest : Side → List α → List α → List α
  | front, a, b => b ++ a
  | back, a, b => a ++ b

/-- Whether the head of the second run goes out before that of the first. -/
def secondFirst (lt : α → α → m Bool) : Side → α → α → m Bool
  | front, x, y => lt y x
  | back, x, y => not <$> lt y x

/-- A test on a list, false beyond its end. -/
def testAt (a : List α) (test : α → m Bool) (i : Nat) : m Bool :=
  match a[i]? with
  | some x => test x
  | none => pure true

/-- How many elements of the first run go out before `y`. -/
def stretchOfFirst (lt : α → α → m Bool) (y : α) (a : List α) : Side → m Nat
  | front => boundary (testAt a fun x => lt y x) a.length 0
  | back => do
    let k ← boundary (testAt a.reverse fun x => lt y x) a.length (a.length - 1)
    return a.length - k

/-- How many elements of the second run go out before `x`. -/
def stretchOfSecond (lt : α → α → m Bool) (x : α) (b : List α) : Side → m Nat
  | front => boundary (testAt b fun y => not <$> lt y x) b.length 0
  | back => do
    let k ← boundary (testAt b.reverse fun y => not <$> lt y x) b.length (b.length - 1)
    return b.length - k

end Side

open Side

theorem length_lt_of_drop_eq_cons {a left : List α} {z : α} {i : Nat} (h : a.drop i = z :: left) :
    left.length < a.length := by
  have hl := congrArg List.length h
  simp only [List.length_drop, List.length_cons] at hl
  omega

theorem length_drop_lt_cons (y : α) (b : List α) (j : Nat) :
    (b.drop j).length < (y :: b).length := by
  simp only [List.length_drop, List.length_cons]
  omega

/-- Merges two runs; `out` holds what has gone out, the latest first. `patience` is the number of
wins in a row after which stretches are searched for; it falls while that pays and rises when it
does not, and is handed on to the next merge. -/
def mergeFrom (lt : α → α → m Bool) (side : Side) (pace : Pace) (patience : Nat)
    (a b out : List α) : m (List α × Nat) :=
  if side.done a b then pure (out.reverse ++ side.rest a b, patience)
  else
    match a, b with
    | x :: a', y :: b' =>
      match pace with
      | .single first second => do
        if ← side.secondFirst lt x y then
          let wins := second + 1
          if patience ≤ wins && !side.done (x :: a') b' then
            mergeFrom lt side .stretches (patience + 1) (x :: a') b' (y :: out)
          else mergeFrom lt side (.single 0 wins) patience (x :: a') b' (y :: out)
        else
          let wins := first + 1
          if patience ≤ wins && !side.done a' (y :: b') then
            mergeFrom lt side .stretches (patience + 1) a' (y :: b') (x :: out)
          else mergeFrom lt side (.single wins 0) patience a' (y :: b') (x :: out)
      | .stretches => do
        let patience := if 1 < patience then patience - 1 else patience
        let i ← side.stretchOfFirst lt y (x :: a')
        let out := ((x :: a').take i).reverse ++ out
        match h : (x :: a').drop i with
        | [] => pure (out.reverse ++ (y :: b'), patience)
        | z :: left' =>
          if side.done (z :: left') (y :: b') then
            pure (out.reverse ++ side.rest (z :: left') (y :: b'), patience)
          else if side.done (z :: left') b' then
            pure ((y :: out).reverse ++ side.rest (z :: left') b', patience)
          else
            let j ← side.stretchOfSecond lt z b'
            let right := b'.drop j
            let out := (b'.take j).reverse ++ y :: out
            if side.done (z :: left') right then
              pure (out.reverse ++ side.rest (z :: left') right, patience)
            else if shortestStretch ≤ i || shortestStretch ≤ j then
              mergeFrom lt side .stretches patience left' right (z :: out)
            else if side.done left' right then
              pure ((z :: out).reverse ++ side.rest left' right, patience)
            else mergeFrom lt side (.single 0 0) (patience + 1) left' right (z :: out)
    | _, _ => pure (out.reverse ++ side.rest a b, patience)
termination_by a.length + b.length
decreasing_by
  · simp only [List.length_cons]; omega
  · simp only [List.length_cons]; omega
  · simp only [List.length_cons]; omega
  · simp only [List.length_cons]; omega
  · have hl := length_lt_of_drop_eq_cons h
    have hr := length_drop_lt_cons y b' j
    omega
  · have hl := length_lt_of_drop_eq_cons h
    have hr := length_drop_lt_cons y b' j
    omega

end NoteQuery.Order
