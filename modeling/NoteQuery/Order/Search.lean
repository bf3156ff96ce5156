/-!
Binary search for the place where a test turns from false to true. The test may fail, and it need
not turn only once: then some place where it turns is found, always the same one for the same
answers.
-/

namespace NoteQuery.Order
set_option autoImplicit false

variable {m : Type → Type} [Monad m]

/-- Halves the places from `low` up to `high`, which may be the answer itself. -/
def bisect (test : Nat → m Bool) (low high : Nat) : m Nat :=
  if h : low < high then do
    let middle := low + (high - low) / 2
    if ← test middle then bisect test low middle else bisect test (middle + 1) high
  else pure low
termination_by high - low

/-- Strides of 1, 3, 7, … while the test at the stride holds, at most `limit`; answers the last
stride that was passed and the one that was not. -/
def gallop (test : Nat → m Bool) (limit : Nat) (passed stride : Nat) : m (Nat × Nat) :=
  if h : stride < limit then do
    if ← test stride then gallop test limit stride (2 * stride + 1) else pure (passed, stride)
  else pure (passed, min stride limit)
termination_by limit - stride

/-- Searches the places below `size` with growing strides away from `start`, then halves the
interval found. -/
def boundary (test : Nat → m Bool) (size start : Nat) : m Nat := do
  if ← test start then
    let (near, far) ← gallop (fun k => test (start - k)) (start + 1) 0 1
    bisect test (start + 1 - far) (start - near)
  else
    let (near, far) ← gallop (fun k => not <$> test (start + k)) (size - start) 0 1
    bisect test (start + near + 1) (start + far)

end NoteQuery.Order
