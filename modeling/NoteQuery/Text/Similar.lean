/-!
How alike two texts are: twice the number of characters in common blocks over the number of all
characters. The longest common block counts first, then those on both sides of it.
-/

namespace NoteQuery.Text
set_option autoImplicit false

/-- How many characters two texts start with in common. -/
def commonStart : List Char → List Char → Nat
  | a :: as, b :: bs => if a = b then commonStart as bs + 1 else 0
  | _, _ => 0

/-- A block that two texts have in common: where it starts in each of them, and its length. -/
structure CommonBlock where
  left : Nat
  right : Nat
  size : Nat

/-- The first of the longest common blocks. -/
def longestBlock (a b : List Char) : CommonBlock :=
  let places := (List.range a.length).flatMap fun i => (List.range b.length).map fun j => (i, j)
  places.foldl (fun best p =>
    let size := commonStart (a.drop p.1) (b.drop p.2)
    if best.size < size then ⟨p.1, p.2, size⟩ else best) ⟨0, 0, 0⟩

/-- The number of characters in common blocks. -/
def commonCount : Nat → List Char → List Char → Nat
  | 0, _, _ => 0
  | fuel + 1, a, b =>
    let block := longestBlock a b
    if block.size = 0 then 0
    else
      commonCount fuel (a.take block.left) (b.take block.right) + block.size +
        commonCount fuel (a.drop (block.left + block.size)) (b.drop (block.right + block.size))

/-- Whether three fifths of two texts are alike. -/
def isSimilar (a b : List Char) : Bool :=
  3 * (a.length + b.length) ≤ 10 * commonCount (a.length + 1) a b

end NoteQuery.Text
