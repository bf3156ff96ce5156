import NoteQuery.Order.Merge
import NoteQuery.Proofs.Outcome.Yields

/-! A binary search answers a place where the test turns from false to true, even if the test turns more
than once. In a list this place parts what goes before an element from what goes after it. -/

namespace NoteQuery.Order
set_option autoImplicit false

variable {ε α : Type} {test : Nat → Except ε Bool}

/-- The test holds at `k`, and it does not hold right before `k` unless the search began there. -/
structure Turns (test : Nat → Except ε Bool) (low k : Nat) : Prop where
  low_le : low ≤ k
  before : low < k → test (k - 1) = .ok false
  here : test k = .ok true

theorem turns_bisect (low high : Nat) (hle : low ≤ high) (hhigh : test high = .ok true) :
    Ensures (Turns test low) (bisect test low high) := by
  rw [bisect]
  split
  · next hlt =>
    apply ensures_bind
    intro b hmiddle
    cases b with
    | true => exact turns_bisect low _ (by omega) hmiddle
    | false =>
      refine (turns_bisect (low + (high - low) / 2 + 1) high (by omega) hhigh).imp ?_ fun _ h => h
      intro k hk
      refine ⟨by have := hk.low_le; omega, ?_, hk.here⟩
      intro _
      rcases Nat.lt_or_eq_of_le hk.low_le with hlow | hlow
      · exact hk.before hlow
      · rw [← hlow]
        exact hmiddle
  · next hlt =>
    have heq : low = high := by omega
    exact ⟨Nat.le_refl low, by omega, heq ▸ hhigh⟩
termination_by high - low

/-- Strides end between a place that was passed and one that was not, or the limit. -/
theorem gallop_spec (limit passed stride : Nat) (hpassed : passed < limit) (hstride : passed < stride)
    (hstart : passed = 0 ∨ test passed = .ok true) :
    Ensures (fun r => r.1 < r.2 ∧ r.2 ≤ limit ∧ (r.1 = 0 ∨ test r.1 = .ok true) ∧
      (r.2 = limit ∨ test r.2 = .ok false)) (gallop test limit passed stride) := by
  rw [gallop]
  split
  · next hlt =>
    apply ensures_bind
    intro b htest
    cases b with
    | true => exact gallop_spec limit stride _ hlt (by omega) (.inr htest)
    | false => exact ⟨hstride, Nat.le_of_lt hlt, hstart, .inr htest⟩
  · next hlt =>
    have hmin : min stride limit = limit := by omega
    refine ⟨?_, ?_, hstart, .inl hmin⟩
    · change passed < min stride limit
      omega
    · change min stride limit ≤ limit
      omega
termination_by limit - stride

theorem map_not_eq_ok {x : Except ε Bool} {b : Bool} : not <$> x = .ok b ↔ x = .ok !b := by
  cases x with
  | error e => exact ⟨nofun, nofun⟩
  | ok c => cases b <;> cases c <;> simp [Functor.map, Except.map]

theorem turns_boundary {size start : Nat} (hle : start ≤ size) (hsize : test size = .ok true) :
    Ensures (Turns test 0) (boundary test size start) := by
  unfold boundary
  apply ensures_bind
  intro b hstart
  cases b with
  | true =>
    refine Yields.bind (gallop_spec (start + 1) 0 1 (by omega) (by omega) (.inl rfl)) ?_
    rintro ⟨near, far⟩ ⟨hlt, hfar, hnear, hstop⟩
    have hhigh : test (start - near) = .ok true := by
      rcases hnear with rfl | hnear
      · exact hstart
      · exact hnear
    refine (turns_bisect (start + 1 - far) (start - near) (by dsimp only at *; omega) hhigh).imp ?_
      fun _ h => h
    intro k hk
    refine ⟨Nat.zero_le k, ?_, hk.here⟩
    intro hpos
    rcases Nat.lt_or_eq_of_le hk.low_le with hlow | hlow
    · exact hk.before hlow
    · rcases hstop with hstop | hstop
      · dsimp only at *
        omega
      · have heq : k - 1 = start - far := by omega
        rw [heq]
        exact hstop
  | false =>
    have hne : start ≠ size := by
      rintro rfl
      rw [hsize] at hstart
      cases hstart
    refine Yields.bind (gallop_spec (size - start) 0 1 (by omega) (by omega) (.inl rfl)) ?_
    rintro ⟨near, far⟩ ⟨hlt, hfar, hnear, hstop⟩
    have hlow : test (start + near) = .ok false := by
      rcases hnear with rfl | hnear
      · exact hstart
      · exact map_not_eq_ok.mp hnear
    have hhigh : test (start + far) = .ok true := by
      rcases hstop with rfl | hstop
      · rw [Nat.add_sub_cancel' hle]
        exact hsize
      · exact map_not_eq_ok.mp hstop
    refine (turns_bisect (start + near + 1) (start + far) (by dsimp only at *; omega) hhigh).imp ?_
      fun _ h => h
    intro k hk
    refine ⟨Nat.zero_le k, ?_, hk.here⟩
    intro hpos
    rcases Nat.lt_or_eq_of_le hk.low_le with hgt | heq
    · exact hk.before hgt
    · rw [← heq]
      exact hlow

/-! ### Places in a list -/

variable {a : List α} {mark : α → Except ε Bool} {k : Nat}

theorem testAt_length : Side.testAt a mark a.length = .ok true := by
  unfold Side.testAt
  rw [List.getElem?_eq_none (Nat.le_refl _)]
  rfl

/-- A list falls apart at a turning place: the last element before it fails the test, the first one
after it passes. -/
structure Parts (mark : α → Except ε Bool) (before after : List α) : Prop where
  last : ∀ x ∈ before.getLast?, mark x = .ok false
  next : ∀ x ∈ after.head?, mark x = .ok true

theorem Turns.parts (h : Turns (Side.testAt a mark) 0 k) : Parts mark (a.take k) (a.drop k) := by
  have hhere := h.here
  constructor
  · intro x hx
    rw [Option.mem_def, List.getLast?_take] at hx
    split at hx
    · cases hx
    · next hk =>
      have hbefore := h.before (Nat.pos_of_ne_zero hk)
      unfold Side.testAt at hbefore
      cases hget : a[k - 1]? with
      | none =>
        rw [hget] at hbefore
        cases hbefore
      | some y =>
        rw [hget] at hbefore hx
        cases hx
        exact hbefore
  · intro x hx
    rw [Option.mem_def, List.head?_drop] at hx
    unfold Side.testAt at hhere
    rw [hx] at hhere
    exact hhere

theorem boundary_parts {start : Nat} (hle : start ≤ a.length) :
    Ensures (fun k => Parts mark (a.take k) (a.drop k))
      (boundary (Side.testAt a mark) a.length start) :=
  (turns_boundary hle testAt_length).imp (fun _ h => h.parts) fun _ h => h

/-- Searched from the other end, a list falls apart the other way round. -/
theorem boundary_reverse_parts {start : Nat} (hle : start ≤ a.length) :
    Ensures (fun k => (∀ x ∈ (a.take (a.length - k)).getLast?, mark x = .ok true) ∧
        ∀ x ∈ (a.drop (a.length - k)).head?, mark x = .ok false)
      (boundary (Side.testAt a.reverse mark) a.length start) := by
  have hend : Side.testAt a.reverse mark a.length = .ok true := by
    rw [← List.length_reverse]
    exact testAt_length
  refine (turns_boundary hle hend).imp ?_ fun _ h => h
  intro k hk
  have hparts := hk.parts
  rw [List.take_reverse, List.drop_reverse] at hparts
  refine ⟨fun x hx => hparts.next x ?_, fun x hx => hparts.last x ?_⟩
  · rw [List.head?_reverse]
    exact hx
  · rw [List.getLast?_reverse]
    exact hx

end NoteQuery.Order
