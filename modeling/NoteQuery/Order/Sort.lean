import NoteQuery.Order.Merge

/-!
The adaptive stable sort. Ascending and strictly descending runs are taken from the list as they
come, short ones are extended by binary insertion, and neighbouring runs are merged in an order that
depends on where their middles lie. For a comparison that is not transitive the result depends on
which elements are compared, so all these steps are part of the rule.
-/

namespace NoteQuery.Order
set_option autoImplicit false

variable {α : Type} {m : Type → Type} [Monad m]

/-- Inserts each element of the second list after the elements of the first that are not greater,
searching by halves. -/
def insertAll (lt : α → α → m Bool) (sorted : List α) : List α → m (List α)
  | [] => pure sorted
  | x :: xs => do
    let k ← bisect (Side.testAt sorted fun y => lt x y) 0 sorted.length
    insertAll lt (sorted.take k ++ x :: sorted.drop k) xs

/-- The longest continuation after `last` in which every element answers `descending` when compared
with the one before it; the continuation is read backwards. -/
def runFrom (lt : α → α → m Bool) (descending : Bool) (last : α) (taken : List α) :
    List α → m (List α × List α)
  | [] => pure (taken, [])
  | x :: xs => do
    if (← lt x last) = descending then runFrom lt descending x (x :: taken) xs
    else pure (taken, x :: xs)

/-- The first run of a list, in ascending order, and the rest. -/
def firstRun (lt : α → α → m Bool) : List α → m (List α × List α)
  | [] => pure ([], [])
  | [x] => pure ([x], [])
  | x :: y :: rest => do
    let descending ← lt y x
    let (taken, rest) ← runFrom lt descending y [y, x] rest
    pure (if descending then taken else taken.reverse, rest)

/-- The least length of a run in a list of length `n`: `n` itself below 64, else its first six
binary digits, plus one if any of the others is not zero. -/
def leastRun (n : Nat) : Nat :=
  if n < 64 then n
  else
    let k := n.log2 - 5
    n >>> k + if n % (1 <<< k) = 0 then 0 else 1

structure Run (α : Type) where
  start : Nat
  items : List α
  power : Nat

namespace Run

def length (r : Run α) : Nat := r.items.length

end Run

/-- The position of the first binary digit in which two numbers below `2 * n`, halves of `n`, differ
as fractions of `n`. -/
def digitOfDifference (n : Nat) : Nat → Nat → Nat → Nat → Nat
  | 0, _, _, digit => digit
  | fuel + 1, a, b, digit =>
    if n ≤ a then digitOfDifference n fuel (2 * (a - n)) (2 * (b - n)) (digit + 1)
    else if n ≤ b then digit
    else digitOfDifference n fuel (2 * a) (2 * b) (digit + 1)

/-- The depth at which the middles of two neighbouring runs part, in a list of length `n`. -/
def powerOf (n start first second : Nat) : Nat :=
  let a := 2 * start + first
  digitOfDifference n (n.log2 + 2) a (a + first + second) 1

/-- Merges two neighbouring runs. Elements that are already in place are left out. -/
def mergeRuns (lt : α → α → m Bool) (patience : Nat) (a b : List α) : m (List α × Nat) :=
  match b with
  | [] => pure (a, patience)
  | y :: _ => do
    let k ← boundary (Side.testAt a fun x => lt y x) a.length 0
    match (a.drop k).getLast? with
    | none => pure (a ++ b, patience)
    | some x =>
      let left := a.drop k
      let n ← boundary (Side.testAt b fun z => not <$> lt z x) b.length (b.length - 1)
      let right := b.take n
      if right.isEmpty then pure (a ++ b, patience)
      else
        let (merged, patience) ← if left.length ≤ right.length then
            mergeFront lt patience left right
          else mergeBack lt patience left right
        pure (a.take k ++ merged ++ b.drop n, patience)
where
  /-- The first element of the second run is known to go first. -/
  mergeFront (lt : α → α → m Bool) (patience : Nat) (a b : List α) : m (List α × Nat) :=
    mergeFrom lt .front (.single 0 0) patience a (b.drop 1) (b.take 1)
  /-- The last element of the first run is known to go last. -/
  mergeBack (lt : α → α → m Bool) (patience : Nat) (a b : List α) : m (List α × Nat) := do
    let ra := a.reverse
    let (merged, patience) ←
      mergeFrom lt .back (.single 0 0) patience (ra.drop 1) b.reverse (ra.take 1)
    pure (merged.reverse, patience)

/-- Before a run of length `next` is added, merges the last two runs as long as the one before the
last has a greater power than the last. Runs are held the last one first. -/
def settle (lt : α → α → m Bool) (size next patience : Nat) :
    List (Run α) → m (List (Run α) × Nat)
  | [] => pure ([], patience)
  | last :: earlier => collapse (powerOf size last.start last.length next) last earlier patience
where
  collapse (power : Nat) (last : Run α) :
      List (Run α) → Nat → m (List (Run α) × Nat)
    | [], patience => pure ([{ last with power := power }], patience)
    | before :: earlier, patience =>
      if power < before.power then do
        let (items, patience) ← mergeRuns lt patience before.items last.items
        collapse power { before with items := items } earlier patience
      else pure ({ last with power := power } :: before :: earlier, patience)

/-- Merges all runs, each time the last two, or the two before the last if the earlier of them is
shorter than the last. -/
def mergeAll (lt : α → α → m Bool) (patience : Nat) : List (Run α) → m (List α)
  | [] => pure []
  | [r] => pure r.items
  | last :: before :: earlier => do
    match earlier with
    | third :: rest =>
      if third.length < last.length then
        let (items, patience) ← mergeRuns lt patience third.items before.items
        mergeAll lt patience (last :: { third with items := items } :: rest)
      else
        let (items, patience) ← mergeRuns lt patience before.items last.items
        mergeAll lt patience ({ before with items := items } :: third :: rest)
    | [] =>
      let (items, _) ← mergeRuns lt patience before.items last.items
      pure items
termination_by runs => runs.length

/-- Takes runs from the list until it is used up; `fuel` bounds their number. -/
def collect (lt : α → α → m Bool) (size : Nat) :
    Nat → Nat → List (Run α) → Nat → List α → m (List (Run α) × Nat)
  | 0, _, runs, patience, _ => pure (runs, patience)
  | fuel + 1, start, runs, patience, xs =>
    if xs.isEmpty then pure (runs, patience)
    else do
      let (run, rest) ← firstRun lt xs
      let more := min (leastRun size) xs.length - run.length
      let items ← insertAll lt run (rest.take more)
      let (runs, patience) ← settle lt size items.length patience runs
      collect lt size fuel (start + items.length) (⟨start, items, 0⟩ :: runs) patience
        (rest.drop more)

/-- Sorts by a comparison that may fail; elements of which neither is less keep their order. -/
def sortM (lt : α → α → m Bool) (xs : List α) : m (List α) :=
  match xs with
  | [] => pure []
  | [x] => pure [x]
  | xs => do
    let (runs, patience) ← collect lt xs.length xs.length 0 [] shortestStretch xs
    mergeAll lt patience runs

end NoteQuery.Order
