import Mathlib.Data.List.FinRange
import Mathlib.Data.List.Sort
import NoteQuery.Proofs.Order.Relabelling
import NoteQuery.Proofs.Outcome.Together

/-! Stability. A sort puts the positions of its list in an order, so that equal elements at different
positions are told apart. Where the comparison ranks all elements, the order is by rank and then by
position. Where it ranks some of them only, it is so as long as no element without a rank stands
between two that have to change places. -/

namespace NoteQuery.Order
set_option autoImplicit false

variable {ε α : Type} {lt : α → α → Except ε Bool} {same : α → α → Prop} {ranked : α → Prop}
  {xs ys zs : List α}

/-- A list put in the order of a comparison; `same` elements stand as they did. -/
structure IsStableSort (lt : α → α → Except ε Bool) (same : α → α → Prop) [DecidableRel same]
    (xs ys : List α) : Prop where
  perm : ys.Perm xs
  ordered : ys.Pairwise fun x y => lt y x = .ok false
  stable : ∀ x ∈ xs, ys.filter (same x ·) = xs.filter (same x ·)

/-- A comparison that always answers and that ranks some elements of a list. Elements of one rank are
`same`; an element without a rank is not less than any other, nor any other less than it. -/
structure Ranking (lt : α → α → Except ε Bool) (same : α → α → Prop) (ranked : α → Prop)
    (xs : List α) : Prop where
  answers : ∀ x ∈ xs, ∀ y ∈ xs, ∃ b, lt x y = .ok b
  only_ranked : ∀ x ∈ xs, ∀ y ∈ xs, lt x y = .ok true → ranked x ∧ ranked y
  asymm : ∀ x ∈ xs, ∀ y ∈ xs, lt x y = .ok true → lt y x = .ok false
  /-- Every rank is above the lower or below the upper one of two different ranks. -/
  between : ∀ x ∈ xs, ∀ y ∈ xs, ∀ z ∈ xs, ranked y → lt x z = .ok true →
    lt x y = .ok true ∨ lt y z = .ok true
  same_iff : ∀ x ∈ xs, ∀ y ∈ xs, ranked x → ranked y →
    (same x y ↔ lt x y = .ok false ∧ lt y x = .ok false)

namespace Ranking

variable (h : Ranking lt same ranked xs) {x y : α}
include h

theorem irrefl (hx : x ∈ xs) : lt x x = .ok false := by
  obtain ⟨b, hb⟩ := h.answers x hx x hx
  cases b with
  | true => exact h.asymm x hx x hx hb
  | false => exact hb

omit h in
theorem not_true_of_false (hlt : lt x y = .ok false) : ¬lt x y = .ok true := by
  rw [hlt]
  exact nofun

theorem not_true (hx : x ∈ xs) (hy : y ∈ xs) (hlt : ¬lt x y = .ok true) : lt x y = .ok false := by
  obtain ⟨b, hb⟩ := h.answers x hx y hy
  cases b with
  | true => exact (hlt hb).elim
  | false => exact hb

theorem subset (hsub : ys ⊆ xs) : Ranking lt same ranked ys where
  answers x hx y hy := h.answers x (hsub hx) y (hsub hy)
  only_ranked x hx y hy := h.only_ranked x (hsub hx) y (hsub hy)
  asymm x hx y hy := h.asymm x (hsub hx) y (hsub hy)
  between x hx y hy z hz := h.between x (hsub hx) y (hsub hy) z (hsub hz)
  same_iff x hx y hy := h.same_iff x (hsub hx) y (hsub hy)

end Ranking

/-- Elements are ranked by their places in a linear order. -/
theorem Ranking.of_rank {β : Type} [LinearOrder β] [DecidablePred ranked] (rank : α → β)
    (hlt : ∀ x ∈ xs, ∀ y ∈ xs, lt x y = .ok (decide (ranked x ∧ ranked y ∧ rank x < rank y)))
    (hsame : ∀ x ∈ xs, ∀ y ∈ xs, ranked x → ranked y → (same x y ↔ rank x = rank y)) :
    Ranking lt same ranked xs := by
  have htrue (x : α) (hx : x ∈ xs) (y : α) (hy : y ∈ xs) :
      lt x y = .ok true ↔ ranked x ∧ ranked y ∧ rank x < rank y := by
    rw [hlt x hx y hy, Except.ok.injEq, decide_eq_true_iff]
  have hfalse (x : α) (hx : x ∈ xs) (y : α) (hy : y ∈ xs) :
      lt x y = .ok false ↔ ¬(ranked x ∧ ranked y ∧ rank x < rank y) := by
    rw [hlt x hx y hy, Except.ok.injEq, decide_eq_false_iff_not]
  constructor
  · intro x hx y hy
    exact ⟨_, hlt x hx y hy⟩
  · intro x hx y hy h
    obtain ⟨hrx, hry, -⟩ := (htrue x hx y hy).mp h
    exact ⟨hrx, hry⟩
  · intro x hx y hy h
    obtain ⟨-, -, hxy⟩ := (htrue x hx y hy).mp h
    refine (hfalse y hy x hx).mpr ?_
    rintro ⟨-, -, hyx⟩
    exact lt_asymm hxy hyx
  · intro x hx y hy z hz hry h
    obtain ⟨hrx, hrz, hxz⟩ := (htrue x hx z hz).mp h
    rcases lt_or_ge (rank x) (rank y) with hxy | hyx
    · exact .inl ((htrue x hx y hy).mpr ⟨hrx, hry, hxy⟩)
    · exact .inr ((htrue y hy z hz).mpr ⟨hry, hrz, lt_of_le_of_lt hyx hxz⟩)
  · intro x hx y hy hrx hry
    rw [hsame x hx y hy hrx hry, hfalse x hx y hy, hfalse y hy x hx]
    simp only [hrx, hry, true_and, not_lt]
    rw [le_antisymm_iff, and_comm]

/-! ### At most one stable sort -/

section
variable [DecidableRel same]

/-- The heads of two orders of the same elements are of one rank, so they are the same. -/
theorem eq_of_ordered (h : Ranking lt same ranked ys) (hall : ∀ x ∈ ys, ranked x) (hperm : zs.Perm ys)
    (hys : ys.Pairwise fun x y => lt y x = .ok false)
    (hzs : zs.Pairwise fun x y => lt y x = .ok false)
    (hsame : ∀ x ∈ ys, zs.filter (same x ·) = ys.filter (same x ·)) : zs = ys := by
  induction ys generalizing zs with
  | nil => exact hperm.eq_nil
  | cons y ys ih =>
    cases zs with
    | nil => exact hperm.symm.eq_nil.symm
    | cons z zs =>
      have hz : z ∈ y :: ys := hperm.subset List.mem_cons_self
      have hy : y ∈ z :: zs := hperm.symm.subset List.mem_cons_self
      have hzy : lt z y = .ok false := by
        rcases List.mem_cons.mp hz with rfl | hz
        · exact h.irrefl List.mem_cons_self
        · exact List.rel_of_pairwise_cons hys hz
      have hyz : lt y z = .ok false := by
        rcases List.mem_cons.mp hy with rfl | hy
        · exact h.irrefl List.mem_cons_self
        · exact List.rel_of_pairwise_cons hzs hy
      have hone : same y z := (h.same_iff y List.mem_cons_self z hz (hall y List.mem_cons_self)
        (hall z hz)).mpr ⟨hyz, hzy⟩
      have hself : same y y := (h.same_iff y List.mem_cons_self y List.mem_cons_self
        (hall y List.mem_cons_self) (hall y List.mem_cons_self)).mpr
        ⟨h.irrefl List.mem_cons_self, h.irrefl List.mem_cons_self⟩
      have hhead := hsame y List.mem_cons_self
      rw [List.filter_cons_of_pos (by simpa using hone),
        List.filter_cons_of_pos (by simpa using hself)] at hhead
      obtain rfl : z = y := (List.cons.inj hhead).1
      congr 1
      refine ih (h.subset (List.subset_cons_self z ys)) (fun x hx => hall x (by simp [hx]))
        hperm.cons_inv hys.of_cons hzs.of_cons fun x hx => ?_
      have hfilter := hsame x (List.mem_cons_of_mem z hx)
      rw [List.filter_cons, List.filter_cons] at hfilter
      split at hfilter
      · exact (List.cons.inj hfilter).2
      · exact hfilter

theorem IsStableSort.unique (h : Ranking lt same ranked xs) (hall : ∀ x ∈ xs, ranked x)
    (hys : IsStableSort lt same xs ys) (hzs : IsStableSort lt same xs zs) : zs = ys := by
  have hsub : ys ⊆ xs := hys.perm.subset
  refine eq_of_ordered (h.subset hsub) (fun x hx => hall x (hsub hx))
    (hzs.perm.trans hys.perm.symm) hys.ordered hzs.ordered fun x hx => ?_
  rw [hzs.stable x (hsub hx), hys.stable x (hsub hx)]

end

/-! ### The order of the positions -/

/-- The second position may come right after the first one in the result of a sort. -/
def Follows (lt : α → α → Except ε Bool) (xs : List α) (i j : Fin xs.length) : Prop :=
  i < j ∧ lt (xs.get j) (xs.get i) = .ok false ∨ j < i ∧ lt (xs.get i) (xs.get j) = .ok true

/-- A list that was sorted as its positions were. -/
structure Placed (lt : α → α → Except ε Bool) (xs ys : List α) (order : List (Fin xs.length)) :
    Prop where
  items : ys = order.map xs.get
  perm : order.Perm (List.finRange xs.length)
  chain : order.IsChain (Follows lt xs)

theorem map_sortM_finRange (lt : α → α → Except ε Bool) (xs : List α) :
    List.map xs.get <$> sortM (fun i j => lt (xs.get i) (xs.get j)) (List.finRange xs.length) =
      sortM lt xs := by
  rw [← sortM_map, List.map_get_finRange]

/-- Only what the comparison says of elements of the list counts. -/
theorem sortM_congr {lt' : α → α → Except ε Bool} (h : ∀ x ∈ xs, ∀ y ∈ xs, lt x y = lt' x y) :
    sortM lt xs = sortM lt' xs := by
  have hlt : (fun i j => lt (xs.get i) (xs.get j)) = fun i j => lt' (xs.get i) (xs.get j) :=
    funext₂ fun i j => h _ (xs.get_mem i) _ (xs.get_mem j)
  rw [← map_sortM_finRange lt, hlt, map_sortM_finRange]

theorem sortM_placed (xs : List α) :
    Ensures (fun ys => ∃ order, Placed lt xs ys order) (sortM lt xs) := by
  have hset : (List.finRange xs.length).Pairwise
      (Settles (fun i j => lt (xs.get i) (xs.get j)) (Follows lt xs)) := by
    refine (List.pairwise_lt_finRange xs.length).imp fun hij => ?_
    exact ⟨fun hlt => .inr ⟨hij, hlt⟩, fun hlt => .inl ⟨hij, hlt⟩⟩
  rw [← map_sortM_finRange]
  refine Yields.map ((sortM_arranged hset).imp ?_ fun _ h => h)
  exact fun order harranged => ⟨order, rfl, harranged.perm, harranged.chain⟩

/-- Whatever the comparison answers, a sort keeps all elements. -/
theorem sortM_perm (xs : List α) : Ensures (fun ys => ys.Perm xs) (sortM lt xs) := by
  refine (sortM_placed xs).imp ?_ fun _ h => h
  rintro ys ⟨order, rfl, hperm, -⟩
  simpa using hperm.map xs.get

/-- Lists of elements that compare in the same way, one by one, are sorted in the same way. -/
theorem sortM_forall₂ {β : Type} {rel : α → β → Prop} {lt' : β → β → Except ε Bool} {ys : List β}
    (h : List.Forall₂ rel xs ys)
    (hlt : ∀ x y, rel x y → ∀ x' y', rel x' y' → lt x x' = lt' y y') :
    Together (List.Forall₂ rel) (sortM lt xs) (sortM lt' ys) := by
  have hpairs : ∃ ps : List (α × β), (∀ p ∈ ps, rel p.1 p.2) ∧ ps.map (·.1) = xs ∧ ps.map (·.2) = ys := by
    refine ⟨xs.zip ys, fun p hp => ?_, List.map_fst_zip h.length_eq.le, List.map_snd_zip h.length_eq.ge⟩
    exact (List.forall₂_iff_zip.mp h).2 hp
  obtain ⟨ps, hrel, rfl, rfl⟩ := hpairs
  have hsame : sortM (fun p q : α × β => lt p.1 q.1) ps = sortM (fun p q => lt' p.2 q.2) ps :=
    sortM_congr fun p hp q hq => hlt _ _ (hrel p hp) _ _ (hrel q hq)
  rw [sortM_map, sortM_map, ← hsame]
  cases hsorted : sortM (fun p q : α × β => lt p.1 q.1) ps with
  | error e => exact .failures
  | ok sorted =>
    have hperm := ensures_iff.mp (sortM_perm ps) sorted hsorted
    refine .values (List.forall₂_map_left_iff.mpr (List.forall₂_map_right_iff.mpr ?_))
    exact List.forall₂_same.mpr fun p hp => hrel p (hperm.mem_iff.mp hp)

/-- A sort succeeds when the comparison answers on the elements of the list. -/
theorem exists_sortM (h : ∀ x ∈ xs, ∀ y ∈ xs, ∃ b, lt x y = .ok b) : ∃ ys, sortM lt xs = .ok ys := by
  have hlt (i j : Fin xs.length) : FailsOnly (fun _ => False) (lt (xs.get i) (xs.get j)) := by
    obtain ⟨b, hb⟩ := h _ (xs.get_mem i) _ (xs.get_mem j)
    rw [hb]
    trivial
  obtain ⟨order, horder, -⟩ := (failsOnly_sortM hlt (List.finRange xs.length)).exists_ok
  rw [← map_sortM_finRange, horder]
  exact ⟨_, rfl⟩

/-- No element without a rank stands between two that have to change places. -/
def Undisturbed (lt : α → α → Except ε Bool) (ranked : α → Prop) (xs : List α) : Prop :=
  ∀ before z after, xs = before ++ z :: after → ¬ranked z →
    ∀ x ∈ before, ∀ y ∈ after, lt y x = .ok false

theorem Undisturbed.of_forall (hall : ∀ x ∈ xs, ranked x) : Undisturbed lt ranked xs := by
  rintro before z after rfl hz
  exact (hz (hall z (by simp))).elim

theorem Undisturbed.get (h : Undisturbed lt ranked xs) {i j k : Fin xs.length} (hij : i < j)
    (hjk : j < k) (hj : ¬ranked (xs.get j)) : lt (xs.get k) (xs.get i) = .ok false := by
  refine h (xs.take j) (xs.get j) (xs.drop (j + 1)) ?_ hj _ ?_ _ ?_
  · simp
  · exact List.mem_take_iff_getElem.mpr ⟨i, by simpa using hij, rfl⟩
  · refine List.mem_drop_iff_getElem.mpr ⟨k - (j + 1), by omega, ?_⟩
    simp only [List.get_eq_getElem]
    congr 1
    omega

namespace Ranking

variable (h : Ranking lt same ranked xs) {i j k : Fin xs.length}
include h

theorem not_less_of_follows (hij : Follows lt xs i j) : lt (xs.get j) (xs.get i) = .ok false := by
  rcases hij with ⟨-, hlt⟩ | ⟨-, hlt⟩
  · exact hlt
  · exact h.asymm _ (xs.get_mem i) _ (xs.get_mem j) hlt

theorem follows_iff :
    Follows lt xs i j ↔
      lt (xs.get i) (xs.get j) = .ok true ∨ i < j ∧ lt (xs.get j) (xs.get i) = .ok false := by
  constructor
  · rintro (hij | ⟨-, hlt⟩)
    · exact .inr hij
    · exact .inl hlt
  · rintro (hlt | hij)
    · have hback := h.asymm _ (xs.get_mem i) _ (xs.get_mem j) hlt
      rcases lt_trichotomy i j with hij | rfl | hij
      · exact .inl ⟨hij, hback⟩
      · exact absurd hlt (not_true_of_false hback)
      · exact .inr ⟨hij, hlt⟩
    · exact .inl hij

/-- Among elements with a rank, the order is by rank and then by position. -/
theorem follows_trans_ranked (hi : ranked (xs.get i)) (hj : ranked (xs.get j))
    (hk : ranked (xs.get k)) (hij : Follows lt xs i j) (hjk : Follows lt xs j k) :
    Follows lt xs i k := by
  have hji := not_true_of_false (h.not_less_of_follows hij)
  have hkj := not_true_of_false (h.not_less_of_follows hjk)
  rw [h.follows_iff] at hij hjk ⊢
  rcases hij with hij | ⟨hij, -⟩
  · left
    exact (h.between _ (xs.get_mem i) _ (xs.get_mem k) _ (xs.get_mem j) hk hij).resolve_right hkj
  · rcases hjk with hjk | ⟨hjk, -⟩
    · left
      exact (h.between _ (xs.get_mem j) _ (xs.get_mem i) _ (xs.get_mem k) hi hjk).resolve_left hji
    · refine .inr ⟨hij.trans hjk, h.not_true (xs.get_mem k) (xs.get_mem i) fun hki => ?_⟩
      rcases h.between _ (xs.get_mem k) _ (xs.get_mem j) _ (xs.get_mem i) hj hki with hlt | hlt
      · exact hkj hlt
      · exact hji hlt

/-- An element without a rank keeps its place among the others. -/
theorem follows_unranked (hun : ¬ranked (xs.get i) ∨ ¬ranked (xs.get j)) :
    Follows lt xs i j ↔ i < j := by
  have hij : ¬lt (xs.get i) (xs.get j) = .ok true := fun hlt => by
    obtain ⟨hi, hj⟩ := h.only_ranked _ (xs.get_mem i) _ (xs.get_mem j) hlt
    exact hun.elim (· hi) (· hj)
  have hji : lt (xs.get j) (xs.get i) = .ok false := by
    refine h.not_true (xs.get_mem j) (xs.get_mem i) fun hlt => ?_
    obtain ⟨hj, hi⟩ := h.only_ranked _ (xs.get_mem j) _ (xs.get_mem i) hlt
    exact hun.elim (· hi) (· hj)
  rw [h.follows_iff]
  constructor
  · intro hfollows
    exact (hfollows.resolve_left hij).1
  · intro hlt
    exact .inr ⟨hlt, hji⟩

theorem follows_trans (hund : Undisturbed lt ranked xs) (hij : Follows lt xs i j)
    (hjk : Follows lt xs j k) : Follows lt xs i k := by
  by_cases hj : ranked (xs.get j)
  · by_cases hi : ranked (xs.get i)
    · by_cases hk : ranked (xs.get k)
      · exact h.follows_trans_ranked hi hj hk hij hjk
      · rw [h.follows_unranked (.inr hk)] at hjk ⊢
        rcases hij with ⟨hij, -⟩ | ⟨hji, hlt⟩
        · exact hij.trans hjk
        · -- Otherwise `k` stands between `j` and `i`, which change places.
          by_contra hik
          have hne : k ≠ i := fun hki => hk (hki ▸ hi)
          exact not_true_of_false (hund.get hjk (by omega) hk) hlt
    · rw [h.follows_unranked (.inl hi)] at hij ⊢
      rcases hjk with ⟨hjk, -⟩ | ⟨hkj, hlt⟩
      · exact hij.trans hjk
      · by_contra hik
        have hne : k ≠ i := by
          rintro rfl
          exact hi (h.only_ranked _ (xs.get_mem j) _ (xs.get_mem k) hlt).2
        exact not_true_of_false (hund.get (by omega) hij hi) hlt
  · rw [h.follows_unranked (.inr hj)] at hij
    rw [h.follows_unranked (.inl hj)] at hjk
    exact .inl ⟨hij.trans hjk, hund.get hij hjk hj⟩

/-- Of elements of one rank, the earlier one comes first. -/
theorem lt_of_same {x : α} (hx : x ∈ xs) (hrx : ranked x) (hi : ranked (xs.get i))
    (hj : ranked (xs.get j)) (hsi : same x (xs.get i)) (hsj : same x (xs.get j))
    (hij : Follows lt xs i j) : i < j := by
  rcases hij with ⟨hij, -⟩ | ⟨-, hlt⟩
  · exact hij
  · rw [h.same_iff x hx _ (xs.get_mem i) hrx hi] at hsi
    rw [h.same_iff x hx _ (xs.get_mem j) hrx hj] at hsj
    rcases h.between _ (xs.get_mem i) x hx _ (xs.get_mem j) hrx hlt with hlt | hlt
    · exact (not_true_of_false hsi.2 hlt).elim
    · exact (not_true_of_false hsj.1 hlt).elim

theorem ordered {stretch : List (Fin xs.length)} (hstretch : stretch.Pairwise (Follows lt xs)) :
    (stretch.map xs.get).Pairwise fun x y => lt y x = .ok false := by
  rw [List.pairwise_map]
  exact hstretch.imp h.not_less_of_follows

end Ranking

/-! ### Stable sorts -/

section
variable [DecidableRel same] {stretch : List (Fin xs.length)}

/-- The positions of one rank stand in order. -/
theorem Ranking.increasing (h : Ranking lt same ranked xs) (hstretch : stretch.Pairwise (Follows lt xs))
    (hranked : ∀ i ∈ stretch, ranked (xs.get i)) {x : α} (hx : x ∈ xs) (hrx : ranked x) :
    (stretch.filter fun i => same x (xs.get i)).Pairwise (· < ·) := by
  refine (hstretch.filter _).imp_of_mem fun hi hj hij => ?_
  rw [List.mem_filter, decide_eq_true_iff] at hi hj
  exact h.lt_of_same hx hrx (hranked _ hi.1) (hranked _ hj.1) hi.2 hj.2 hij

theorem sublist_finRange {n : Nat} {is : List (Fin n)} (h : is.Pairwise (· < ·)) :
    is.Sublist (List.finRange n) := by
  have hsub : is.Subperm (List.finRange n) :=
    List.subperm_of_subset h.nodup fun i _ => List.mem_finRange i
  exact List.sublist_of_subperm_of_pairwise hsub h (List.pairwise_lt_finRange n)

theorem filter_map_get (xs : List α) (c : α → Bool) :
    ((List.finRange xs.length).filter fun i => c (xs.get i)).map xs.get = xs.filter c := by
  conv_rhs => rw [← List.map_get_finRange xs, List.filter_map]
  rfl

/-- Elements with a rank that come out next to each other are in order, and those of one rank among them
stand as they did. -/
theorem sortM_stretch (h : Ranking lt same ranked xs) :
    Ensures (fun ys => ∀ u v w, ys = u ++ v ++ w → (∀ x ∈ v, ranked x) →
      (v.Pairwise fun x y => lt y x = .ok false) ∧
        ∀ x ∈ v, (v.filter (same x ·)).Sublist (xs.filter (same x ·))) (sortM lt xs) := by
  refine (sortM_placed xs).imp ?_ fun _ h => h
  rintro ys ⟨order, hplaced⟩ u v w hys hv
  obtain ⟨before, after, rfl, hbefore, -⟩ := List.map_eq_append_iff.mp (hplaced.items.symm.trans hys)
  obtain ⟨first, stretch, rfl, -, rfl⟩ := List.map_eq_append_iff.mp hbefore
  rw [List.forall_mem_map] at hv
  have hchain : stretch.IsChain fun i j => ranked (xs.get i) ∧ ranked (xs.get j) ∧ Follows lt xs i j := by
    refine hplaced.chain.left_of_append.right_of_append.imp_of_mem_imp ?_
    exact fun i j hi hj hij => ⟨hv i hi, hv j hj, hij⟩
  have htrans : Trans (fun i j => ranked (xs.get i) ∧ ranked (xs.get j) ∧ Follows lt xs i j)
      (fun i j => ranked (xs.get i) ∧ ranked (xs.get j) ∧ Follows lt xs i j)
      (fun i j => ranked (xs.get i) ∧ ranked (xs.get j) ∧ Follows lt xs i j) :=
    ⟨fun hij hjk => ⟨hij.1, hjk.2.1,
      h.follows_trans_ranked hij.1 hij.2.1 hjk.2.1 hij.2.2 hjk.2.2⟩⟩
  have hstretch : stretch.Pairwise (Follows lt xs) := hchain.pairwise.imp fun hij => hij.2.2
  refine ⟨h.ordered hstretch, fun x hx => ?_⟩
  obtain ⟨i, hi, rfl⟩ := List.mem_map.mp hx
  have hsub := sublist_finRange (h.increasing hstretch hv (xs.get_mem i) (hv i hi))
  have hfilter := (hsub.filter fun j => decide (same (xs.get i) (xs.get j))).map xs.get
  rw [List.filter_filter, filter_map_get xs fun y => decide (same (xs.get i) y)] at hfilter
  simp only [Bool.and_self] at hfilter
  rw [List.filter_map]
  exact hfilter

variable [DecidablePred ranked]

/-- As long as no element without a rank stands between two that have to change places, the elements
with a rank come out in order. -/
theorem sortM_undisturbed (h : Ranking lt same ranked xs) (hund : Undisturbed lt ranked xs) :
    Ensures (fun ys => IsStableSort lt same (xs.filter (ranked ·)) (ys.filter (ranked ·)))
      (sortM lt xs) := by
  refine (sortM_placed xs).imp ?_ fun _ h => h
  rintro ys ⟨order, rfl, hperm, hchain⟩
  have htrans : Trans (Follows lt xs) (Follows lt xs) (Follows lt xs) := ⟨h.follows_trans hund⟩
  have hpairwise := hchain.pairwise.filter fun i => decide (ranked (xs.get i))
  have hranked : ∀ i ∈ order.filter fun i => ranked (xs.get i), ranked (xs.get i) :=
    fun i hi => of_decide_eq_true (List.mem_filter.mp hi).2
  have hall := hperm.filter fun i => decide (ranked (xs.get i))
  rw [List.filter_map, ← filter_map_get xs]
  refine ⟨hall.map xs.get, h.ordered hpairwise, fun x hx => ?_⟩
  obtain ⟨i, hi, rfl⟩ := List.mem_map.mp hx
  have hone := (hall.filter fun j => decide (same (xs.get i) (xs.get j))).eq_of_pairwise'
    (h.increasing hpairwise hranked (xs.get_mem i) (hranked i (hall.symm.subset hi)))
    (((List.pairwise_lt_finRange xs.length).filter _).filter _)
  rw [List.filter_map, List.filter_map]
  exact congrArg (List.map xs.get) hone

/-- Where all elements have a rank, the result is the one stable sort. -/
theorem sortM_stable (h : Ranking lt same ranked xs) (hall : ∀ x ∈ xs, ranked x) :
    ∃ ys, sortM lt xs = .ok ys ∧ ∀ zs, IsStableSort lt same xs zs ↔ zs = ys := by
  obtain ⟨ys, hys⟩ := exists_sortM h.answers
  refine ⟨ys, hys, ?_⟩
  have hperm := ensures_iff.mp (sortM_perm xs) ys hys
  have hsort := ensures_iff.mp (sortM_undisturbed h (.of_forall hall)) ys hys
  rw [List.filter_eq_self.mpr fun x hx => by simpa using hall x hx,
    List.filter_eq_self.mpr fun x hx => by simpa using hall x (hperm.subset hx)] at hsort
  intro zs
  constructor
  · exact hsort.unique h hall
  · rintro rfl
    exact hsort

/-- Elements without a rank may be left out before the sort or after it. -/
theorem sortM_filter (h : Ranking lt same ranked xs) (hund : Undisturbed lt ranked xs) :
    ∃ ys, sortM lt xs = .ok ys ∧ sortM lt (xs.filter (ranked ·)) = .ok (ys.filter (ranked ·)) := by
  obtain ⟨ys, hys⟩ := exists_sortM h.answers
  have hsort := ensures_iff.mp (sortM_undisturbed h hund) ys hys
  have hranked : ∀ x ∈ xs.filter (ranked ·), ranked x :=
    fun x hx => of_decide_eq_true (List.mem_filter.mp hx).2
  obtain ⟨zs, hzs, hone⟩ := sortM_stable (h.subset (List.filter_subset_self xs)) hranked
  refine ⟨ys, hys, ?_⟩
  rw [hzs, (hone _).mp hsort]

end

end NoteQuery.Order
