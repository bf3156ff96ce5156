import NoteQuery.Proofs.Order.Merging

/-! The sort, whatever its comparison answers: it keeps all elements, and it puts next to each other only
elements whose order an answer settles. Every answer is about a later and an earlier element of the
list, so a relation that respects these answers holds along the result. -/

namespace NoteQuery.Order
set_option autoImplicit false

variable {ε α : Type} {lt : α → α → Except ε Bool} {R : α → α → Prop}

/-- The elements of a list in an order along which `R` holds. -/
structure Arranged (R : α → α → Prop) (whole result : List α) : Prop where
  perm : result.Perm whole
  chain : result.IsChain R

/-! ### Merging runs -/

/-- Two neighbouring runs, parted for a merge: the beginning of the first and the end of the second are
in place, `left` and `right` have to be merged. -/
structure Parted (lt : α → α → Except ε Bool) (R : α → α → Prop)
    (before left right after : List α) : Prop where
  settled : SettlesAll lt R (before ++ left) (right ++ after)
  first : (before ++ left).IsChain R
  second : (right ++ after).IsChain R
  some_left : left ≠ []
  some_right : right ≠ []
  /-- The head of `right` goes between `before` and `left`. -/
  head : ∀ y ∈ right.head?, Meets R before [y] ∧ Meets R [y] left
  /-- The end of `left` goes between `right` and `after`. -/
  last : ∀ x ∈ left.getLast?, Meets R right [x] ∧ Meets R [x] after

namespace Parted

variable {before left right after : List α}

theorem left_after (h : Parted lt R before left right after) : (left ++ after).IsChain R := by
  refine isChain_append_iff.mpr ⟨h.first.right_of_append, h.second.right_of_append, ?_⟩
  intro x hx z hz
  exact meets_singleton_left.mp (h.last x hx).2 z hz

theorem before_right (h : Parted lt R before left right after) : (before ++ right).IsChain R := by
  refine isChain_append_iff.mpr ⟨h.first.left_of_append, h.second.left_of_append, ?_⟩
  intro x hx y hy
  exact meets_singleton_right.mp (h.head y hy).1 x hx

theorem ends (h : Parted lt R before left right after) : Ends R left right := by
  intro x hx y hy
  exact meets_singleton_right.mp (h.last x hx).1 y hy

theorem mergeFront_spec (patience : Nat) (h : Parted lt R before left right after) :
    Ensures (fun r => Merged R before after (left ++ right) r.1)
      (mergeRuns.mergeFront lt patience left right) := by
  obtain ⟨y, rest, rfl⟩ := List.exists_cons_of_ne_nil h.some_right
  obtain ⟨hbefore, hafter⟩ := h.head y rfl
  refine mergeFrom_spec .front _ patience left rest [y] ⟨?_, ?_, ⟨?_, ?_, .inl h.some_left⟩, ?_⟩
  · rw [List.singleton_append]
    exact List.perm_middle.symm
  · exact h.settled.subset (by simp) (by intro z hz; simp [hz])
  · intro _
    have hhead : (before ++ [y]).IsChain R :=
      isChain_append_iff.mpr ⟨h.first.left_of_append, List.isChain_singleton y, hbefore⟩
    have hleft : ([y] ++ left).IsChain R :=
      isChain_append_iff.mpr ⟨List.isChain_singleton y, h.first.right_of_append, hafter⟩
    have hrest := hleft.append_overlap h.left_after h.some_left
    rw [List.append_assoc] at hrest
    rw [List.append_assoc (before ++ _)]
    exact hhead.append_overlap hrest (by simp)
  · intro _
    change (before ++ [y] ++ rest ++ after).IsChain R
    simpa using h.before_right.append_overlap h.second h.some_right
  · exact h.ends.suffix List.suffix_rfl (List.suffix_cons y rest)

theorem mergeBack_spec (patience : Nat) (h : Parted lt R before left right after) :
    Ensures (fun r => Merged R before after (left ++ right) r.1)
      (mergeRuns.mergeBack lt patience left right) := by
  obtain ⟨rest, x, rfl⟩ : ∃ rest x, left = rest ++ [x] :=
    ⟨_, _, (List.dropLast_append_getLast h.some_left).symm⟩
  obtain ⟨hbefore, hafter⟩ := h.last x (by simp)
  have hlast : ([x] ++ after).IsChain R :=
    isChain_append_iff.mpr ⟨List.isChain_singleton x, h.second.right_of_append, hafter⟩
  have hmerge : Merging lt R .back after.reverse before.reverse (rest ++ [x] ++ right) [x]
      rest.reverse right.reverse := by
    refine ⟨?_, ?_, ⟨?_, ?_, ?_⟩, ?_⟩
    · rw [← List.append_assoc]
      refine List.Perm.append ?_ right.reverse_perm
      exact List.perm_append_comm.trans (rest.reverse_perm.append_right [x])
    · refine h.settled.subset ?_ ?_
      · intro z hz
        simp [List.mem_reverse.mp hz]
      · intro z hz
        simp [List.mem_reverse.mp hz]
    · intro _
      have hall : (before ++ (rest ++ [x]) ++ after).IsChain R :=
        h.first.append_overlap h.left_after h.some_left
      simpa using Side.isChain_reverse_back.mpr hall
    · intro _
      have hright : (right ++ [x]).IsChain R :=
        isChain_append_iff.mpr ⟨h.second.left_of_append, List.isChain_singleton x, hbefore⟩
      have hrest : (right ++ ([x] ++ after)).IsChain R := by
        rw [← List.append_assoc]
        exact hright.append_overlap hlast (by simp)
      have hall : (before ++ right ++ ([x] ++ after)).IsChain R :=
        h.before_right.append_overlap hrest h.some_right
      simpa using Side.isChain_reverse_back.mpr hall
    · exact .inr (by simpa using h.some_right)
    · intro u hu y hy
      rw [List.getLast?_reverse] at hu hy
      refine meets_singleton_left.mp (h.head y hy).2 u ?_
      rw [List.head?_append, hu]
      rfl
  unfold mergeRuns.mergeBack
  rw [List.reverse_append, List.reverse_singleton]
  refine Yields.bind (mergeFrom_spec .back _ patience rest.reverse right.reverse [x] hmerge) ?_
  rintro ⟨merged, patience⟩ ⟨hperm, hchain⟩
  refine ⟨merged.reverse_perm.trans hperm, ?_⟩
  rw [← Side.isChain_reverse_back]
  simpa using hchain

end Parted

section
variable {a b : List α}

/-- Where an element of the second run goes in the first. -/
theorem boundary_first (hset : SettlesAll lt R a b) {y : α} (hy : y ∈ b) :
    Ensures (fun k => Meets R (a.take k) [y] ∧ Meets R [y] (a.drop k))
      (boundary (Side.testAt a fun x => lt y x) a.length 0) := by
  refine Yields.imp (boundary_parts (Nat.zero_le _)) (fun k hk => ⟨?_, ?_⟩) fun _ h => h
  · exact meets_singleton_right.mpr fun u hu =>
      (hset u (List.mem_of_mem_take (List.mem_of_getLast? hu)) y hy).keep (hk.last u hu)
  · exact meets_singleton_left.mpr fun u hu =>
      (hset u (List.mem_of_mem_drop (List.mem_of_head? hu)) y hy).swap (hk.next u hu)

/-- Where an element of the first run goes in the second. -/
theorem boundary_second (hset : SettlesAll lt R a b) {x : α} (hx : x ∈ a) :
    Ensures (fun n => Meets R (b.take n) [x] ∧ Meets R [x] (b.drop n))
      (boundary (Side.testAt b fun z => not <$> lt z x) b.length (b.length - 1)) := by
  refine Yields.imp (boundary_parts (Nat.sub_le _ _)) (fun n hn => ⟨?_, ?_⟩) fun _ h => h
  · exact meets_singleton_right.mpr fun u hu =>
      (hset x hx u (List.mem_of_mem_take (List.mem_of_getLast? hu))).swap
        (map_not_eq_ok.mp (hn.last u hu))
  · exact meets_singleton_left.mpr fun u hu =>
      (hset x hx u (List.mem_of_mem_drop (List.mem_of_head? hu))).keep
        (map_not_eq_ok.mp (hn.next u hu))

theorem Merged.arranged {k n : Nat} {result : List α}
    (h : Merged R (a.take k) (b.drop n) (a.drop k ++ b.take n) result) :
    Arranged R (a ++ b) (a.take k ++ result ++ b.drop n) := by
  refine ⟨?_, h.chain⟩
  have hall := (h.perm.append_left (a.take k)).append_right (b.drop n)
  rwa [← List.append_assoc, List.take_append_drop, List.append_assoc a, List.take_append_drop] at hall

theorem mergeRuns_spec (patience : Nat) (hset : SettlesAll lt R a b) (ha : a.IsChain R)
    (hb : b.IsChain R) : Ensures (fun r => Arranged R (a ++ b) r.1) (mergeRuns lt patience a b) := by
  have happend (hmeets : Meets R a b) : Arranged R (a ++ b) (a ++ b) :=
    ⟨.refl _, isChain_append_iff.mpr ⟨ha, hb, hmeets⟩⟩
  unfold mergeRuns
  split
  · rw [List.append_nil]
    exact ⟨.refl a, ha⟩
  · next y rest =>
    refine Yields.bind (boundary_first hset List.mem_cons_self) ?_
    rintro k ⟨hlast, hnext⟩
    dsimp only
    split
    · next hnone =>
      have hall : a.take k = a := by
        have hsplit := List.take_append_drop k a
        rwa [List.getLast?_eq_none_iff.mp hnone, List.append_nil] at hsplit
      rw [hall] at hlast
      exact happend (hlast.cons_right rest)
    · next x hx =>
      have hleft : a.drop k ≠ [] := by
        intro hnil
        rw [hnil] at hx
        cases hx
      have hxa : x ∈ a := List.mem_of_mem_drop (List.mem_of_getLast? hx)
      refine Yields.bind (boundary_second hset hxa) ?_
      rintro n ⟨hbefore, hafter⟩
      split
      · next hempty =>
        have hzero : n = 0 := by simpa using hempty
        subst hzero
        refine happend fun u hu z hz => ?_
        rw [← List.take_append_drop k a, List.getLast?_append_of_ne_nil _ hleft] at hu
        cases hu.symm.trans hx
        exact meets_singleton_left.mp hafter z hz
      · next hright =>
        have hparted : Parted lt R (a.take k) (a.drop k) ((y :: rest).take n)
            ((y :: rest).drop n) := by
          refine ⟨?_, ?_, ?_, hleft, by simpa using hright, ?_, ?_⟩
          · rwa [List.take_append_drop, List.take_append_drop]
          · rwa [List.take_append_drop]
          · rwa [List.take_append_drop]
          · intro z hz
            cases n with
            | zero => simp at hright
            | succ n =>
              cases hz
              exact ⟨hlast, hnext⟩
          · intro z hz
            cases hz.symm.trans hx
            exact ⟨hbefore, hafter⟩
        split
        · refine Yields.bind (hparted.mergeFront_spec patience) ?_
          exact fun r h => h.arranged
        · refine Yields.bind (hparted.mergeBack_spec patience) ?_
          exact fun r h => h.arranged

end

/-! ### Runs -/

theorem insertAll_spec {sorted xs : List α} (hchain : sorted.IsChain R)
    (hset : SettlesAll lt R sorted xs) (hxs : xs.Pairwise (Settles lt R)) :
    Ensures (Arranged R (sorted ++ xs)) (insertAll lt sorted xs) := by
  induction xs generalizing sorted with
  | nil =>
    rw [List.append_nil]
    exact ⟨.refl sorted, hchain⟩
  | cons x xs ih =>
    have hx (y : α) (hy : y ∈ sorted) : Settles lt R y x := hset y hy x List.mem_cons_self
    rw [List.pairwise_cons] at hxs
    rw [insertAll]
    refine Yields.bind (turns_bisect 0 sorted.length (Nat.zero_le _) testAt_length) ?_
    intro k hk
    have hperm : (sorted.take k ++ x :: sorted.drop k).Perm (sorted ++ [x]) := by
      refine List.perm_middle.trans ?_
      rw [List.take_append_drop]
      exact (List.perm_append_singleton x sorted).symm
    have hlast : Meets R (sorted.take k) [x] := meets_singleton_right.mpr fun u hu =>
      (hx u (List.mem_of_mem_take (List.mem_of_getLast? hu))).keep (hk.parts.last u hu)
    have hnext : Meets R [x] (sorted.drop k) := meets_singleton_left.mpr fun u hu =>
      (hx u (List.mem_of_mem_drop (List.mem_of_head? hu))).swap (hk.parts.next u hu)
    have hinserted : (sorted.take k ++ x :: sorted.drop k).IsChain R := by
      refine isChain_append_iff.mpr ⟨hchain.take k, ?_, hlast.cons_right _⟩
      exact isChain_append_iff (a := [x]).mpr ⟨List.isChain_singleton x, hchain.drop k, hnext⟩
    have hset' : SettlesAll lt R (sorted.take k ++ x :: sorted.drop k) xs := by
      intro y hy z hz
      rcases List.mem_append.mp (hperm.subset hy) with hy | hy
      · exact hset y hy z (List.mem_cons_of_mem x hz)
      · rw [List.mem_singleton] at hy
        subst hy
        exact hxs.1 z hz
    refine (ih hinserted hset' hxs.2).imp ?_ fun _ h => h
    intro ys hys
    refine ⟨hys.perm.trans ?_, hys.chain⟩
    have hmove := hperm.append_right xs
    rwa [List.append_assoc sorted] at hmove

/-- A run that is read backwards goes up or down. -/
theorem runFrom_spec (descending : Bool) {last : α} {taken xs : List α}
    (hchain : (last :: taken).IsChain fun x y => if descending then R x y else R y x)
    (hset : (last :: xs).Pairwise (Settles lt R)) :
    Ensures (fun r => (r.1.IsChain fun x y => if descending then R x y else R y x) ∧ r.1 ≠ [] ∧
      r.1.reverse ++ r.2 = (last :: taken).reverse ++ xs)
      (runFrom lt descending last (last :: taken) xs) := by
  induction xs generalizing last taken with
  | nil => exact ⟨hchain, by simp, rfl⟩
  | cons x xs ih =>
    rw [runFrom]
    apply ensures_bind
    intro b hb
    by_cases hsame : b = descending
    · have hx : Settles lt R last x := (List.pairwise_cons.mp hset).1 x List.mem_cons_self
      have hstep : if descending then R x last else R last x := by
        rw [hsame] at hb
        cases descending with
        | true => exact hx.swap hb
        | false => exact hx.keep hb
      have hset' : (x :: xs).Pairwise (Settles lt R) := (List.pairwise_cons.mp hset).2
      rw [if_pos hsame]
      refine (ih (List.isChain_cons_cons.mpr ⟨hstep, hchain⟩) hset').imp ?_ fun _ h => h
      rintro r ⟨hrun, hne, hall⟩
      refine ⟨hrun, hne, ?_⟩
      rw [hall]
      simp
    · rw [if_neg hsame]
      exact ⟨hchain, by simp, rfl⟩

/-- The first run takes a beginning of the list, and not nothing. -/
theorem firstRun_spec {xs : List α} (hset : xs.Pairwise (Settles lt R)) (hne : xs ≠ []) :
    Ensures (fun r => ∃ taken, taken ≠ [] ∧ xs = taken ++ r.2 ∧ Arranged R taken r.1)
      (firstRun lt xs) := by
  unfold firstRun
  split
  · exact (hne rfl).elim
  · next x => exact ⟨[x], by simp, by simp, .refl _, List.isChain_singleton x⟩
  · next x y rest =>
    rw [List.pairwise_cons] at hset
    have hxy : Settles lt R x y := hset.1 y List.mem_cons_self
    apply ensures_bind
    intro descending hb
    have hstep : if descending then R y x else R x y := by
      cases descending with
      | true => exact hxy.swap hb
      | false => exact hxy.keep hb
    have hchain : [y, x].IsChain fun x y => if descending then R x y else R y x :=
      List.isChain_pair.mpr hstep
    refine Yields.bind (runFrom_spec descending hchain hset.2) ?_
    rintro ⟨run, left⟩ ⟨hrun, hne, hall⟩
    refine ⟨run.reverse, ?_, ?_, ?_⟩
    · simpa using hne
    · exact hall.symm
    · cases descending with
      | true => exact ⟨run.reverse_perm.symm, hrun⟩
      | false => exact ⟨.refl _, List.isChain_reverse.mpr hrun⟩

/-! ### Stacks of runs -/

/-- Runs, the last one first, that have been taken from the beginning of a list, and the rest of it. -/
structure Stacked (lt : α → α → Except ε Bool) (R : α → α → Prop) (whole : List α)
    (runs : List (List α)) (rest : List α) : Prop where
  perm : (runs.flatten ++ rest).Perm whole
  chains : ∀ r ∈ runs, r.IsChain R
  settled : runs.Pairwise fun later earlier => SettlesAll lt R earlier later
  ahead : ∀ r ∈ runs, SettlesAll lt R r rest
  rest : rest.Pairwise (Settles lt R)

namespace Stacked

variable {whole rest later earlier merged run taken : List α} {above below runs : List (List α)}

theorem push (h : Stacked lt R whole runs (taken ++ rest)) (hrun : Arranged R taken run) :
    Stacked lt R whole (run :: runs) rest := by
  have hrest := List.pairwise_append.mp h.rest
  constructor
  · refine List.Perm.trans ?_ h.perm
    rw [List.flatten_cons, ← List.append_assoc]
    refine List.Perm.append_right rest ?_
    exact (hrun.perm.append_right _).trans List.perm_append_comm
  · exact List.forall_mem_cons.mpr ⟨hrun.chain, h.chains⟩
  · refine List.pairwise_cons.mpr ⟨fun r hr => ?_, h.settled⟩
    refine (h.ahead r hr).subset (List.Subset.refl r) fun x hx => ?_
    exact List.mem_append_left rest (hrun.perm.subset hx)
  · refine List.forall_mem_cons.mpr ⟨fun x hx y hy => ?_, fun r hr => ?_⟩
    · exact hrest.2.2 x (hrun.perm.subset hx) y hy
    · exact (h.ahead r hr).subset (List.Subset.refl r) (List.subset_append_right taken rest)
  · exact hrest.2.1

/-- Two neighbouring runs of the stack are merged. -/
theorem merge (h : Stacked lt R whole (above ++ later :: earlier :: below) rest)
    (hmerged : Arranged R (earlier ++ later) merged) :
    Stacked lt R whole (above ++ merged :: below) rest := by
  have hmem {x : α} (hx : x ∈ merged) : x ∈ earlier ∨ x ∈ later :=
    List.mem_append.mp (hmerged.perm.subset hx)
  obtain ⟨habove, hbelow, hcross⟩ := List.pairwise_append.mp h.settled
  rw [List.pairwise_cons, List.pairwise_cons] at hbelow
  constructor
  · refine List.Perm.trans ?_ h.perm
    refine List.Perm.append_right rest ?_
    simp only [List.flatten_append, List.flatten_cons]
    refine List.Perm.append_left _ ?_
    rw [← List.append_assoc]
    exact (hmerged.perm.trans List.perm_append_comm).append_right _
  · intro r hr
    rcases List.mem_append.mp hr with hr | hr
    · exact h.chains r (by simp [hr])
    · rcases List.mem_cons.mp hr with rfl | hr
      · exact hmerged.chain
      · exact h.chains r (by simp [hr])
  · refine List.pairwise_append.mpr ⟨habove, List.pairwise_cons.mpr ⟨?_, hbelow.2.2⟩, ?_⟩
    · intro r hr x hx y hy
      rcases hmem hy with hy | hy
      · exact hbelow.2.1 r hr x hx y hy
      · exact hbelow.1 r (by simp [hr]) x hx y hy
    · intro r hr s hs x hx y hy
      rcases List.mem_cons.mp hs with rfl | hs
      · rcases hmem hx with hx | hx
        · exact hcross r hr earlier (by simp) x hx y hy
        · exact hcross r hr later (by simp) x hx y hy
      · exact hcross r hr s (by simp [hs]) x hx y hy
  · intro r hr x hx y hy
    rcases List.mem_append.mp hr with hr | hr
    · exact h.ahead r (by simp [hr]) x hx y hy
    · rcases List.mem_cons.mp hr with rfl | hr
      · rcases hmem hx with hx | hx
        · exact h.ahead earlier (by simp) x hx y hy
        · exact h.ahead later (by simp) x hx y hy
      · exact h.ahead r (by simp [hr]) x hx y hy
  · exact h.rest

theorem mergeRuns_spec (patience : Nat) (above : List (List α))
    (h : Stacked lt R whole (above ++ later :: earlier :: below) rest) :
    Ensures (fun r => Stacked lt R whole (above ++ r.1 :: below) rest)
      (mergeRuns lt patience earlier later) := by
  have hset : SettlesAll lt R earlier later := by
    have hpair := (List.pairwise_append.mp h.settled).2.1
    exact (List.pairwise_cons.mp hpair).1 earlier List.mem_cons_self
  refine (Order.mergeRuns_spec patience hset ?_ ?_).imp (fun r hr => h.merge hr) fun _ h => h
  · exact h.chains earlier (by simp)
  · exact h.chains later (by simp)

end Stacked

section
variable {whole rest : List α}

theorem collapse_spec (power : Nat) (last : Run α) (runs : List (Run α)) (patience : Nat)
    (h : Stacked lt R whole ((last :: runs).map Run.items) rest) :
    Ensures (fun r => Stacked lt R whole (r.1.map Run.items) rest)
      (settle.collapse lt power last runs patience) := by
  induction runs generalizing last patience with
  | nil => exact h
  | cons before earlier ih =>
    rw [settle.collapse]
    split
    · refine Yields.bind (h.mergeRuns_spec patience []) ?_
      intro r hr
      exact ih { before with items := r.1 } r.2 hr
    · exact h

theorem settle_spec (size next patience : Nat) {runs : List (Run α)}
    (h : Stacked lt R whole (runs.map Run.items) rest) :
    Ensures (fun r => Stacked lt R whole (r.1.map Run.items) rest)
      (settle lt size next patience runs) := by
  cases runs with
  | nil => exact h
  | cons last earlier => exact collapse_spec _ last earlier patience h

theorem mergeAll_spec (patience : Nat) (runs : List (Run α))
    (h : Stacked lt R whole (runs.map Run.items) []) :
    Ensures (Arranged R whole) (mergeAll lt patience runs) := by
  fun_induction mergeAll lt patience runs with
  | case1 => exact ⟨h.perm, List.isChain_nil⟩
  | case2 _ r => exact ⟨by simpa using h.perm, h.chains r.items (by simp)⟩
  | case3 patience last before third rest _ ih =>
    refine Yields.bind (h.mergeRuns_spec patience [last.items]) ?_
    exact fun r hr => ih r.1 r.2 hr
  | case4 patience last before third rest _ ih =>
    refine Yields.bind (h.mergeRuns_spec patience []) ?_
    exact fun r hr => ih r.1 r.2 hr
  | case5 patience last before =>
    refine Yields.bind (h.mergeRuns_spec patience []) ?_
    intro r hr
    exact ⟨by simpa using hr.perm, hr.chains r.1 (by simp)⟩

/-- All of the list is taken: every round takes a run, and there is fuel for one of each element. -/
theorem collect_spec (size fuel start patience : Nat) (runs : List (Run α)) (hfuel : rest.length ≤ fuel)
    (h : Stacked lt R whole (runs.map Run.items) rest) :
    Ensures (fun r => Stacked lt R whole (r.1.map Run.items) [])
      (collect lt size fuel start runs patience rest) := by
  induction fuel generalizing start runs patience rest with
  | zero =>
    have hnil : rest = [] := List.length_eq_zero_iff.mp (Nat.le_zero.mp hfuel)
    rw [hnil] at h
    exact h
  | succ fuel ih =>
    rw [collect]
    split
    · next hempty =>
      rw [List.isEmpty_iff.mp hempty] at h
      exact h
    · next hne =>
      rw [List.isEmpty_iff] at hne
      refine Yields.bind (firstRun_spec h.rest hne) ?_
      rintro ⟨run, left⟩ ⟨taken, hsome, hsplit, hrun⟩
      dsimp only at hsplit hrun ⊢
      generalize min (leastRun size) rest.length - run.length = more
      rw [hsplit, ← List.take_append_drop more left, ← List.append_assoc] at h
      obtain ⟨hall, -, -⟩ := List.pairwise_append.mp h.rest
      obtain ⟨-, hmore, hcross⟩ := List.pairwise_append.mp hall
      have hset : SettlesAll lt R run (left.take more) :=
        fun x hx y hy => hcross x (hrun.perm.subset hx) y hy
      refine Yields.bind (insertAll_spec hrun.chain hset hmore) ?_
      intro items hitems
      have harranged : Arranged R (taken ++ left.take more) items :=
        ⟨hitems.perm.trans (hrun.perm.append_right _), hitems.chain⟩
      refine Yields.bind (settle_spec size items.length patience h) ?_
      rintro ⟨settled, patience⟩ hsettled
      refine ih _ _ _ ?_ (hsettled.push harranged)
      have hlength := congrArg List.length hsplit
      have hpos := List.length_pos_iff.mpr hsome
      rw [List.length_append] at hlength
      rw [List.length_drop]
      omega

end

/-- Whatever the comparison answers, a sort keeps all elements, and a relation that respects the answers
about later and earlier elements holds along its result. -/
theorem sortM_arranged {xs : List α} (h : xs.Pairwise (Settles lt R)) :
    Ensures (Arranged R xs) (sortM lt xs) := by
  unfold sortM
  split
  · exact ⟨.refl _, List.isChain_nil⟩
  · next x => exact ⟨.refl _, List.isChain_singleton x⟩
  · have hstart : Stacked lt R xs (([] : List (Run α)).map Run.items) xs :=
      ⟨.refl xs, by simp, by simp, by simp, h⟩
    refine Yields.bind (collect_spec xs.length xs.length 0 shortestStretch [] (Nat.le_refl _) hstart) ?_
    intro r hr
    exact mergeAll_spec r.2 r.1 hr

end NoteQuery.Order
