import Mathlib.Data.List.Chain
import NoteQuery.Proofs.Order.Failing
import NoteQuery.Proofs.Order.Turning

/-! Merging two neighbouring runs, whatever the comparison answers. The merge only ever asks whether an
element of the second run is less than one of the first, and the elements that stand next to each
other in its result are those whose order such an answer settles. No law of the comparison is used:
it need be neither transitive nor asymmetric. -/

namespace NoteQuery.Order
set_option autoImplicit false

variable {ε α : Type} {lt : α → α → Except ε Bool} {R : α → α → Prop}

/-- Comparing a later element with an earlier one tells which of them comes first in `R`. -/
structure Settles (lt : α → α → Except ε Bool) (R : α → α → Prop) (earlier later : α) : Prop where
  swap : lt later earlier = .ok true → R later earlier
  keep : lt later earlier = .ok false → R earlier later

/-- All elements of one list are settled against all of another one. -/
def SettlesAll (lt : α → α → Except ε Bool) (R : α → α → Prop) (a b : List α) : Prop :=
  ∀ x ∈ a, ∀ y ∈ b, Settles lt R x y

theorem SettlesAll.subset {a a' b b' : List α} (h : SettlesAll lt R a b) (ha : a' ⊆ a) (hb : b' ⊆ b) :
    SettlesAll lt R a' b' :=
  fun x hx y hy => h x (ha hx) y (hb hy)

/-- The last element of one list comes right before the first one of another. -/
def Meets (R : α → α → Prop) (a b : List α) : Prop := ∀ x ∈ a.getLast?, ∀ y ∈ b.head?, R x y

theorem meets_singleton_left {x : α} {b : List α} : Meets R [x] b ↔ ∀ y ∈ b.head?, R x y := by
  simp [Meets]

theorem meets_singleton_right {a : List α} {y : α} : Meets R a [y] ↔ ∀ x ∈ a.getLast?, R x y := by
  simp [Meets]

/-- Only the heads count. -/
theorem Meets.cons_right {a : List α} {y : α} (h : Meets R a [y]) (b : List α) : Meets R a (y :: b) :=
  fun x hx z hz => h x hx z (by simpa using hz)

theorem isChain_append_iff {a b : List α} :
    (a ++ b).IsChain R ↔ a.IsChain R ∧ b.IsChain R ∧ Meets R a b :=
  List.isChain_append

namespace Side

/-- The order in which a merge from this side of the range puts elements out. -/
def Before (R : α → α → Prop) : Side → α → α → Prop
  | front, x, y => R x y
  | back, x, y => R y x

theorem isChain_reverse_back {a : List α} :
    a.reverse.IsChain (back.Before R) ↔ a.IsChain R :=
  List.isChain_reverse

theorem secondFirst_spec (side : Side) {x y : α} (h : Settles lt R x y) :
    Ensures (fun b => if b then side.Before R y x else side.Before R x y)
      (side.secondFirst lt x y) := by
  rw [ensures_iff]
  intro b hb
  cases side with
  | front =>
    cases b with
    | true => exact h.swap hb
    | false => exact h.keep hb
  | back =>
    have hlt := map_not_eq_ok.mp hb
    cases b with
    | true => exact h.keep hlt
    | false => exact h.swap hlt

theorem stretchOfFirst_spec (side : Side) {y : α} {a : List α} (h : SettlesAll lt R a [y]) :
    Ensures (fun i => Meets (side.Before R) (a.take i) [y] ∧ Meets (side.Before R) [y] (a.drop i))
      (side.stretchOfFirst lt y a) := by
  simp only [meets_singleton_left, meets_singleton_right]
  have hset (x : α) (hx : x ∈ a) : Settles lt R x y := h x hx y List.mem_cons_self
  have htake (i : Nat) {x : α} (hx : x ∈ (a.take i).getLast?) : Settles lt R x y :=
    hset x (List.mem_of_mem_take (List.mem_of_getLast? hx))
  have hdrop (i : Nat) {x : α} (hx : x ∈ (a.drop i).head?) : Settles lt R x y :=
    hset x (List.mem_of_mem_drop (List.mem_of_head? hx))
  cases side with
  | front =>
    refine (boundary_parts (Nat.zero_le _)).imp ?_ fun _ h => h
    intro i hparts
    exact ⟨fun x hx => (htake i hx).keep (hparts.last x hx),
      fun x hx => (hdrop i hx).swap (hparts.next x hx)⟩
  | back =>
    refine (boundary_reverse_parts (Nat.sub_le _ _)).bind ?_
    rintro k ⟨hlast, hnext⟩
    exact ⟨fun x hx => (htake _ hx).swap (hlast x hx), fun x hx => (hdrop _ hx).keep (hnext x hx)⟩

theorem stretchOfSecond_spec (side : Side) {x : α} {b : List α} (h : SettlesAll lt R [x] b) :
    Ensures (fun j => Meets (side.Before R) (b.take j) [x] ∧ Meets (side.Before R) [x] (b.drop j))
      (side.stretchOfSecond lt x b) := by
  simp only [meets_singleton_left, meets_singleton_right]
  have hset (y : α) (hy : y ∈ b) : Settles lt R x y := h x List.mem_cons_self y hy
  have htake (j : Nat) {y : α} (hy : y ∈ (b.take j).getLast?) : Settles lt R x y :=
    hset y (List.mem_of_mem_take (List.mem_of_getLast? hy))
  have hdrop (j : Nat) {y : α} (hy : y ∈ (b.drop j).head?) : Settles lt R x y :=
    hset y (List.mem_of_mem_drop (List.mem_of_head? hy))
  cases side with
  | front =>
    refine (boundary_parts (Nat.zero_le _)).imp ?_ fun _ h => h
    intro j hparts
    refine ⟨fun y hy => (htake j hy).swap ?_, fun y hy => (hdrop j hy).keep ?_⟩
    · exact map_not_eq_ok.mp (hparts.last y hy)
    · exact map_not_eq_ok.mp (hparts.next y hy)
  | back =>
    refine (boundary_reverse_parts (Nat.sub_le _ _)).bind ?_
    rintro k ⟨hlast, hnext⟩
    refine ⟨fun y hy => (htake _ hy).keep ?_, fun y hy => (hdrop _ hy).swap ?_⟩
    · exact map_not_eq_ok.mp (hlast y hy)
    · exact map_not_eq_ok.mp (hnext y hy)

end Side

/-! ### The state of a merge -/

namespace Side

theorem rest_perm (side : Side) (a b : List α) : (side.rest a b).Perm (a ++ b) := by
  cases side with
  | front => exact List.perm_append_comm
  | back => exact .refl _

theorem some_of_not_done {side : Side} {x : α} {a b : List α} (h : ¬side.done (x :: a) b = true) :
    a ≠ [] ∨ b ≠ [] := by
  by_contra hnone
  rw [not_or, not_not, not_not] at hnone
  obtain ⟨rfl, rfl⟩ := hnone
  cases side <;> exact h rfl

end Side

/-- The last element of the first run may follow the last one of the second run. At the end of a merge
these two can meet. -/
def Ends (R : α → α → Prop) (a b : List α) : Prop := ∀ x ∈ a.getLast?, ∀ y ∈ b.getLast?, R y x

theorem Ends.suffix {a a' b b' : List α} (h : Ends R a b) (ha : a' <:+ a) (hb : b' <:+ b) :
    Ends R a' b' := by
  have hlast {c c' : List α} (hc : c' <:+ c) {x : α} (hx : x ∈ c'.getLast?) : x ∈ c.getLast? := by
    obtain ⟨before, rfl⟩ := hc
    exact List.mem_getLast?_append_of_mem_getLast? hx
  exact fun x hx y hy => h x (hlast ha hx) y (hlast hb hy)

/-- What has gone out may be followed by all that is left of either run, and that by what comes after
the merge. -/
structure Fits (R : α → α → Prop) (sofar a b post : List α) : Prop where
  first : a ≠ [] → (sofar ++ a ++ post).IsChain R
  second : b ≠ [] → (sofar ++ b ++ post).IsChain R
  some : a ≠ [] ∨ b ≠ []

namespace Fits

variable {sofar a b post taken : List α}

theorem swap (h : Fits R sofar a b post) : Fits R sofar b a post := ⟨h.second, h.first, h.some.symm⟩

/-- A stretch of the first run goes out. -/
theorem outFirst (h : Fits R sofar (taken ++ a) b post) (hmeets : Meets R taken b)
    (hsome : a ≠ [] ∨ b ≠ []) : Fits R (sofar ++ taken) a b post := by
  refine ⟨fun ha => ?_, fun hb => ?_, hsome⟩
  · have hall := h.first (by simp [ha])
    rwa [← List.append_assoc] at hall
  · by_cases hne : taken = []
    · rw [hne, List.append_nil]
      exact h.second hb
    · have hsofar : (sofar ++ taken).IsChain R := by
        have hall := h.first (by simp [hne])
        rw [← List.append_assoc, List.append_assoc] at hall
        exact hall.left_of_append
      have hrest : (b ++ post).IsChain R := by
        have hall := h.second hb
        rw [List.append_assoc] at hall
        exact hall.right_of_append
      have hover : (taken ++ (b ++ post)).IsChain R := by
        refine isChain_append_iff.mpr ⟨hsofar.right_of_append, hrest, ?_⟩
        intro x hx y hy
        rw [List.head?_append_of_ne_nil _ hb] at hy
        exact hmeets x hx y hy
      rw [List.append_assoc]
      exact hsofar.append_overlap hover hne

/-- All that is left goes out, one run after the other. -/
theorem close (h : Fits R sofar a b post) (hend : ∀ x ∈ a.getLast?, ∀ y ∈ b.getLast?, R x y)
    (hdone : a = [] ∨ b.length ≤ 1) : (sofar ++ (a ++ b) ++ post).IsChain R := by
  by_cases ha : a = []
  · subst ha
    exact h.second (h.some.resolve_left fun hne => hne rfl)
  · match b, hdone.resolve_left ha with
    | [], _ =>
      rw [List.append_nil]
      exact h.first ha
    | [y], _ =>
      have hmeets : Meets R a [y] := meets_singleton_right.mpr fun x hx => hend x hx y (by simp)
      have hall : Fits R sofar (a ++ []) [y] post := by rwa [List.append_nil]
      have hchain := (hall.outFirst hmeets (.inr (by simp))).second (by simp)
      rwa [← List.append_assoc sofar]

end Fits

/-- A merge from one side of the range, between `pre` and `post`: what is to come out in `whole`, what
has gone out, the latest first, and what is left of both runs. -/
structure Merging (lt : α → α → Except ε Bool) (R : α → α → Prop) (side : Side)
    (pre post whole out a b : List α) : Prop where
  perm : (out ++ (a ++ b)).Perm whole
  settled : SettlesAll lt R a b
  fits : Fits (side.Before R) (pre ++ out.reverse) a b post
  ends : Ends R a b

/-- What comes out of a merge between `pre` and `post`. -/
structure Merged (R : α → α → Prop) (pre post whole result : List α) : Prop where
  perm : result.Perm whole
  chain : (pre ++ result ++ post).IsChain R

namespace Merging

variable {side : Side} {pre post whole out a b : List α}

theorem outFirst (taken : List α) (h : Merging lt R side pre post whole out (taken ++ a) b)
    (hmeets : Meets (side.Before R) taken b) (hsome : a ≠ [] ∨ b ≠ []) :
    Merging lt R side pre post whole (taken.reverse ++ out) a b := by
  constructor
  · refine List.Perm.trans ?_ h.perm
    rw [List.append_assoc, List.append_assoc taken]
    have hmove : (taken.reverse ++ (out ++ (a ++ b))).Perm (taken ++ (out ++ (a ++ b))) :=
      taken.reverse_perm.append_right _
    refine hmove.trans ?_
    rw [← List.append_assoc, ← List.append_assoc out]
    exact List.perm_append_comm.append_right _
  · exact h.settled.subset (List.subset_append_right taken a) (List.Subset.refl b)
  · rw [List.reverse_append, List.reverse_reverse, ← List.append_assoc]
    exact h.fits.outFirst hmeets hsome
  · exact h.ends.suffix (List.suffix_append taken a) List.suffix_rfl

theorem outSecond (taken : List α) (h : Merging lt R side pre post whole out a (taken ++ b))
    (hmeets : Meets (side.Before R) taken a) (hsome : a ≠ [] ∨ b ≠ []) :
    Merging lt R side pre post whole (taken.reverse ++ out) a b := by
  constructor
  · refine List.Perm.trans ?_ h.perm
    rw [List.append_assoc]
    have hmove : (taken.reverse ++ (out ++ (a ++ b))).Perm (taken ++ (out ++ (a ++ b))) :=
      taken.reverse_perm.append_right _
    refine hmove.trans ?_
    simp only [← List.append_assoc]
    rw [List.append_assoc taken]
    exact List.perm_append_comm.append_right b
  · exact h.settled.subset (List.Subset.refl a) (List.subset_append_right taken b)
  · rw [List.reverse_append, List.reverse_reverse, ← List.append_assoc]
    exact (h.fits.swap.outFirst hmeets hsome.symm).swap
  · exact h.ends.suffix List.suffix_rfl (List.suffix_append taken b)

/-- Nothing is left to compare. -/
theorem rest (h : Merging lt R side pre post whole out a b) (hdone : side.done a b = true) :
    Merged (side.Before R) pre post whole (out.reverse ++ side.rest a b) := by
  constructor
  · refine List.Perm.trans ?_ h.perm
    exact (out.reverse_perm.append_right _).trans ((side.rest_perm a b).append_left out)
  · rw [← List.append_assoc pre]
    cases side with
    | front =>
      exact h.fits.swap.close (fun y hy x hx => h.ends x hx y hy) (by simpa [Side.done, or_comm] using hdone)
    | back => exact h.fits.close h.ends (by simpa [Side.done] using hdone)

/-- Only the second run is left. -/
theorem second (h : Merging lt R side pre post whole out [] b) :
    Merged (side.Before R) pre post whole (out.reverse ++ b) := by
  constructor
  · exact (out.reverse_perm.append_right b).trans h.perm
  · rw [← List.append_assoc pre]
    exact h.fits.second (h.fits.some.resolve_left fun hne => hne rfl)

end Merging

/-- A merge puts out the elements of both runs, and next to each other only elements whose order is
settled. -/
theorem mergeFrom_spec (side : Side) (pace : Pace) (patience : Nat) (a b out : List α)
    {pre post whole : List α} (h : Merging lt R side pre post whole out a b) :
    Ensures (fun r => Merged (side.Before R) pre post whole r.1)
      (mergeFrom lt side pace patience a b out) := by
  fun_induction mergeFrom lt side pace patience a b out with
  | case1 _ _ a b out hdone => exact h.rest hdone
  | case2 _ out x a y b first second _ searchFirst goOnFirst searchSecond goOnSecond =>
    refine Yields.bind (side.secondFirst_spec (h.settled x (by simp) y (by simp))) ?_
    intro c hc
    cases c with
    | true =>
      have hmeets : Meets (side.Before R) [y] (x :: a) := by simpa [Meets] using hc
      have hnext := h.outSecond [y] hmeets (.inl (by simp))
      rw [if_pos rfl]
      dsimp only
      split
      · exact searchFirst hnext
      · exact goOnFirst hnext
    | false =>
      have hmeets : Meets (side.Before R) [x] (y :: b) := by simpa [Meets] using hc
      have hnext := h.outFirst [x] hmeets (.inr (by simp))
      rw [if_neg Bool.false_ne_true]
      dsimp only
      split
      · exact searchSecond hnext
      · exact goOnSecond hnext
  | case3 _ out x a y b _ _ stretches single =>
    have hset : SettlesAll lt R (x :: a) [y] := h.settled.subset (by simp) (by simp)
    refine Yields.bind (side.stretchOfFirst_spec hset) ?_
    rintro i ⟨hbefore, hafter⟩
    have hfirst := h
    rw [← List.take_append_drop i (x :: a)] at hfirst
    -- a stretch of the first run goes out, then the head of the second run
    replace hfirst := hfirst.outFirst _ (hbefore.cons_right b) (.inr (by simp))
    dsimp only
    split
    · next hdrop =>
      rw [hdrop] at hfirst
      exact hfirst.second
    · next z left hdrop =>
      rw [hdrop] at hfirst hafter
      have hsecond := hfirst.outSecond [y] hafter (.inl (by simp))
      split
      · next hdone => exact hfirst.rest hdone
      · split
        · next hdone => exact hsecond.rest hdone
        · have hset : SettlesAll lt R [z] b := hsecond.settled.subset (by simp) (by simp)
          refine Yields.bind (side.stretchOfSecond_spec hset) ?_
          rintro j ⟨hbefore, hafter⟩
          have hthird := hsecond
          rw [← List.take_append_drop j b] at hthird
          -- then a stretch of the second run, and the head of what is left of the first one
          replace hthird := hthird.outSecond _ (hbefore.cons_right left) (.inl (by simp))
          split
          · next hdone => exact hthird.rest hdone
          · next hnot =>
            have hfourth := hthird.outFirst [z] hafter (Side.some_of_not_done hnot)
            split
            · exact stretches i z left hdrop j hfourth
            · split
              · next hdone => exact hfourth.rest hdone
              · exact single i z left hdrop j hfourth
  | case4 _ _ a b out hdone hno =>
    cases a with
    | nil => cases side <;> simp [Side.done] at hdone
    | cons x a =>
      cases b with
      | nil => cases side <;> simp [Side.done] at hdone
      | cons y b => exact (hno x a y b rfl rfl).elim

end NoteQuery.Order
