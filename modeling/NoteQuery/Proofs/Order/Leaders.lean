import Mathlib.Data.List.FinRange
import Mathlib.Data.List.Induction
import Mathlib.Data.List.Pairwise

/-! What is left of a list without the elements that are related to earlier ones: the first member of each
class, in the order of the list. -/

namespace NoteQuery.Order
set_option autoImplicit false

variable {α : Type} {rel : α → α → Bool} {x y : α}

theorem length_filter_lt (p : α → Bool) (x : α) (xs : List α) :
    (xs.filter p).length < (x :: xs).length :=
  Nat.lt_succ_of_le (List.length_filter_le p xs)

theorem eraseDupsBy_sublist (rel : α → α → Bool) (xs : List α) :
    (xs.eraseDupsBy rel).Sublist xs := by
  match xs with
  | [] => exact .slnil
  | x :: xs =>
    rw [List.eraseDupsBy_cons]
    exact .cons_cons x ((eraseDupsBy_sublist rel _).trans List.filter_sublist)
termination_by xs.length
decreasing_by exact length_filter_lt ..

theorem eraseDupsBy_pairwise (rel : α → α → Bool) (xs : List α) :
    (xs.eraseDupsBy rel).Pairwise fun x y => rel y x = false := by
  match xs with
  | [] => exact .nil
  | x :: xs =>
    rw [List.eraseDupsBy_cons]
    refine List.pairwise_cons.mpr ⟨fun y hy => ?_, eraseDupsBy_pairwise rel _⟩
    have hmem := (eraseDupsBy_sublist rel _).subset hy
    exact of_decide_eq_true (List.mem_filter.mp hmem).2
termination_by xs.length
decreasing_by exact length_filter_lt ..

/-- Every element is related to one that is left. -/
theorem exists_related (xs : List α) (hrefl : ∀ x ∈ xs, rel x x = true) (hy : y ∈ xs) :
    ∃ x ∈ xs.eraseDupsBy rel, rel y x = true := by
  match xs with
  | [] => cases hy
  | x :: xs =>
    rw [List.eraseDupsBy_cons]
    rw [List.forall_mem_cons] at hrefl
    by_cases hyx : rel y x = true
    · exact ⟨x, List.mem_cons_self, hyx⟩
    · have hmem : y ∈ xs.filter fun z => rel z x = false := by
        refine List.mem_filter.mpr ⟨(List.mem_cons.mp hy).resolve_left ?_, by simpa using hyx⟩
        rintro rfl
        exact hyx hrefl.1
      obtain ⟨z, hz, hyz⟩ :=
        exists_related _ (fun z hz => hrefl.2 z (List.mem_of_mem_filter hz)) hmem
      exact ⟨z, List.mem_cons_of_mem x hz, hyz⟩
termination_by xs.length
decreasing_by exact length_filter_lt ..

/-- The members of a class are among the elements that are not related to one outside it. -/
theorem filter_apart (htrans : ∀ x y z, rel x y = true → rel y z = true → rel x z = true)
    (hxy : rel y x = false) (xs : List α) :
    (x :: xs).filter (rel y) = (xs.filter fun z => rel z x = false).filter (rel y) := by
  rw [List.filter_cons_of_neg (by rw [hxy]; exact Bool.false_ne_true), List.filter_filter]
  refine List.filter_congr fun z _ => ?_
  cases hyz : rel y z with
  | false => rfl
  | true =>
    cases hzx : rel z x with
    | false => rfl
    | true =>
      rw [htrans y z x hyz hzx] at hxy
      cases hxy

/-- What is left of a class is its first member. -/
theorem filter_of_mem_eraseDupsBy
    (htrans : ∀ x y z, rel x y = true → rel y z = true → rel x z = true) (xs : List α)
    (hrefl : ∀ x ∈ xs, rel x x = true) (hy : y ∈ xs.eraseDupsBy rel) :
    xs.filter (rel y) = y :: (xs.filter (rel y)).tail := by
  match xs with
  | [] => cases hy
  | x :: xs =>
    rw [List.eraseDupsBy_cons] at hy
    rw [List.forall_mem_cons] at hrefl
    rcases List.mem_cons.mp hy with rfl | hy
    · rw [List.filter_cons_of_pos hrefl.1]
      rfl
    · have hmem := (eraseDupsBy_sublist rel _).subset hy
      have hyx : rel y x = false := of_decide_eq_true (List.mem_filter.mp hmem).2
      rw [filter_apart htrans hyx]
      exact filter_of_mem_eraseDupsBy htrans _ (fun z hz => hrefl.2 z (List.mem_of_mem_filter hz)) hy
termination_by xs.length
decreasing_by exact length_filter_lt ..

/-! ### Repeats -/

section
variable [BEq α] [LawfulBEq α]

/-- The members of a list, each once, in the order in which they first appear in it. -/
structure FirstAppearances (xs ys : List α) : Prop where
  members : ∀ x, x ∈ ys ↔ x ∈ xs
  once : ys.Nodup
  inOrder : ys.Pairwise fun x y => xs.idxOf x < xs.idxOf y

theorem eraseDups_filter (p : α → Bool) (xs : List α) :
    (xs.filter p).eraseDups = xs.eraseDups.filter p := by
  match xs with
  | [] => rfl
  | x :: xs =>
    have ih := eraseDups_filter p (xs.filter fun y => !y == x)
    rw [List.eraseDups_cons, List.filter_cons, List.filter_cons, ← ih, List.filter_filter]
    split
    · rw [List.eraseDups_cons, List.filter_filter]
      simp only [Bool.and_comm]
    · next hx =>
      -- no element that passes the test is the first one
      refine congrArg _ (List.filter_congr fun y _ => ?_)
      cases hy : p y with
      | false => rfl
      | true =>
        have hne : y ≠ x := by
          rintro rfl
          exact hx hy
        simp [hne]
termination_by xs.length
decreasing_by exact length_filter_lt ..

theorem eraseDups_eraseDups (xs : List α) : xs.eraseDups.eraseDups = xs.eraseDups := by
  match xs with
  | [] => rfl
  | x :: xs =>
    have ih := eraseDups_eraseDups (xs.filter fun y => !y == x)
    rw [List.eraseDups_cons, List.eraseDups_cons, ← eraseDups_filter, List.filter_filter]
    simp only [Bool.and_self, ih]
termination_by xs.length
decreasing_by exact length_filter_lt ..

/-- Repeats within a part are repeats within the whole. -/
theorem eraseDups_append_eraseDups (as bs : List α) :
    (as.eraseDups ++ bs.eraseDups).eraseDups = (as ++ bs).eraseDups := by
  have hseen (x : α) : as.eraseDups.elem x = as.elem x := by
    rw [Bool.eq_iff_iff, List.elem_iff, List.elem_iff, List.mem_eraseDups]
  rw [List.eraseDups_append, List.eraseDups_append, eraseDups_eraseDups]
  simp only [List.removeAll, hseen]
  rw [← eraseDups_filter, eraseDups_eraseDups]

theorem eraseDups_append_of_mem {xs : List α} (h : x ∈ xs) : (xs ++ [x]).eraseDups = xs.eraseDups := by
  rw [List.eraseDups_append, List.removeAll, List.filter_cons_of_neg (by simpa using h)]
  exact List.append_nil _

theorem eraseDups_append_of_notMem {xs : List α} (h : x ∉ xs) :
    (xs ++ [x]).eraseDups = xs.eraseDups ++ [x] := by
  rw [List.eraseDups_append, List.removeAll, List.filter_cons_of_pos (by simpa using h)]
  rfl

/-- An element that is added at the end appears after all others, unless it is among them. -/
theorem eraseDups_pairwise_idxOf (xs : List α) :
    xs.eraseDups.Pairwise fun x y => xs.idxOf x < xs.idxOf y := by
  induction xs using List.reverseRecOn with
  | nil => exact .nil
  | append_singleton xs x ih =>
    have hkept : xs.eraseDups.Pairwise fun y z => (xs ++ [x]).idxOf y < (xs ++ [x]).idxOf z := by
      refine ih.imp_of_mem fun hy hz hlt => ?_
      rwa [List.idxOf_append_of_mem (List.mem_eraseDups.mp hy),
        List.idxOf_append_of_mem (List.mem_eraseDups.mp hz)]
    by_cases hx : x ∈ xs
    · rwa [eraseDups_append_of_mem hx]
    · rw [eraseDups_append_of_notMem hx]
      refine List.pairwise_append.mpr ⟨hkept, List.pairwise_singleton _ _, fun y hy z hz => ?_⟩
      have hymem := List.mem_eraseDups.mp hy
      rw [List.mem_singleton.mp hz, List.idxOf_append_of_mem hymem, List.idxOf_append_of_notMem hx]
      exact Nat.lt_add_right _ (List.idxOf_lt_length_of_mem hymem)

theorem firstAppearances_eraseDups (xs : List α) : FirstAppearances xs xs.eraseDups where
  members _ := List.mem_eraseDups
  once := (eraseDups_pairwise_idxOf xs).imp fun hlt heq => by
    rw [heq] at hlt
    exact Nat.lt_irrefl _ hlt
  inOrder := eraseDups_pairwise_idxOf xs

variable {β : Type} [BEq β] [LawfulBEq β]

theorem eraseDups_map {f : α → β} (hf : Function.Injective f) (xs : List α) :
    (xs.map f).eraseDups = xs.eraseDups.map f := by
  induction xs using List.reverseRecOn with
  | nil => rfl
  | append_singleton xs x ih =>
    rw [List.map_append, List.map_singleton]
    by_cases hx : x ∈ xs
    · rw [eraseDups_append_of_mem hx, eraseDups_append_of_mem (List.mem_map_of_mem hx), ih]
    · have hfx : f x ∉ xs.map f := fun h => hx ((List.mem_map_of_injective hf).mp h)
      rw [eraseDups_append_of_notMem hx, eraseDups_append_of_notMem hfx, ih, List.map_append,
        List.map_singleton]

end

/-! ### Classes of positions -/

section
variable {n : Nat} {rel : Fin n → Fin n → Bool} (hrefl : ∀ i, rel i i = true)
  (hsymm : ∀ i j, rel i j = rel j i)
  (htrans : ∀ i j k, rel i j = true → rel j k = true → rel i k = true)
include hrefl htrans

include hsymm in
/-- Every position belongs to just one class; classes are numbered by their first members. -/
theorem exists_home :
    ∃ home : Fin n → Fin ((List.finRange n).eraseDupsBy rel).length,
      ∀ i k, home i = k ↔ rel (((List.finRange n).eraseDupsBy rel).get k) i = true := by
  have hleader (i : Fin n) : ∃ k, rel (((List.finRange n).eraseDupsBy rel).get k) i = true := by
    obtain ⟨m, hm, hrel⟩ := exists_related _ (fun j _ => hrefl j) (List.mem_finRange i)
    obtain ⟨k, rfl⟩ := List.mem_iff_get.mp hm
    exact ⟨k, (hsymm _ _).trans hrel⟩
  choose home hhome using hleader
  refine ⟨home, fun i k => ⟨fun h => h ▸ hhome i, fun hk => ?_⟩⟩
  have hboth := htrans _ _ _ (hhome i) ((hsymm _ _).trans hk)
  have hapart := List.pairwise_iff_get.mp (eraseDupsBy_pairwise rel (List.finRange n))
  rcases lt_trichotomy (home i) k with hlt | heq | hlt
  · rw [hsymm, hapart _ _ hlt] at hboth
    cases hboth
  · exact heq
  · rw [hapart _ _ hlt] at hboth
    cases hboth

/-- The first member of a class stands before all members of later classes. -/
theorem get_eraseDupsBy_lt {k l : Fin ((List.finRange n).eraseDupsBy rel).length} (hkl : k < l)
    {j : Fin n} (hj : rel (((List.finRange n).eraseDupsBy rel).get l) j = true) :
    ((List.finRange n).eraseDupsBy rel).get k < j := by
  have hsorted := List.pairwise_lt_finRange n
  have hlt := List.pairwise_iff_get.mp (hsorted.sublist (eraseDupsBy_sublist rel _)) k l hkl
  have hfirst := filter_of_mem_eraseDupsBy htrans _ (fun i _ => hrefl i)
    (List.get_mem ((List.finRange n).eraseDupsBy rel) l)
  have hclass := hsorted.filter (rel (((List.finRange n).eraseDupsBy rel).get l))
  have hmem : j ∈ (List.finRange n).filter (rel (((List.finRange n).eraseDupsBy rel).get l)) :=
    List.mem_filter.mpr ⟨List.mem_finRange j, hj⟩
  rw [hfirst] at hclass hmem
  rcases List.mem_cons.mp hmem with rfl | hmem
  · exact hlt
  · exact hlt.trans (List.rel_of_pairwise_cons hclass hmem)

end

end NoteQuery.Order
