import NoteQuery.Proofs.Expr.Misses

/-! What a parser does not look at does not matter. It looks at the tokens that it takes and at those where it
misses something, and wherever it fails it misses something. So it answers the same when the tokens behind
everything that it missed are replaced by others, unless it took some of these. -/

namespace NoteQuery
set_option autoImplicit false
open NoteQuery.Parser

section
variable {α β : Type}

/-- On fewer than `k` tokens a parser answers the same whatever stands behind all that it took and missed. -/
structure Local (k : Nat) (p : Parser α) : Prop where
  suffix : ∀ {ts : List Token} {a : α} {rest : List Token}, ts.length < k → run p ts = some (a, rest) →
    rest <:+ ts
  left_le : ∀ {ts : List Token}, ts.length < k → (misses p ts).left ≤ ts.length
  missed : ∀ {ts : List Token}, ts.length < k → run p ts = none → (misses p ts).expected ≠ []
  keepsNone : ∀ {xs tail : List Token}, (xs ++ tail).length < k →
    (misses p (xs ++ tail)).Before tail.length → run p (xs ++ tail) = none →
      ∀ tail', run p (xs ++ tail') = none
  keepsSome : ∀ {xs tail : List Token} {a : α} {ys : List Token}, (xs ++ tail).length < k →
    (misses p (xs ++ tail)).Before tail.length → run p (xs ++ tail) = some (a, ys ++ tail) →
      ∀ tail', run p (xs ++ tail') = some (a, ys ++ tail')

theorem exists_append_of_suffix {xs tail us : List Token} (h : us <:+ xs ++ tail)
    (hle : tail.length ≤ us.length) : ∃ ys, us = ys ++ tail := by
  obtain ⟨ys, hys⟩ := List.suffix_of_suffix_length_le (List.suffix_append xs tail) h hle
  exact ⟨ys, hys.symm⟩

namespace Local

variable {k : Nat} {p q : Parser α}

theorem pure (a : α) : Local k (Pure.pure a : Parser α) where
  suffix := by
    rintro ts b rest _ ⟨⟩
    exact List.suffix_refl _
  left_le _ := Nat.zero_le _
  missed := by rintro ts _ ⟨⟩
  keepsNone := by rintro xs tail _ _ ⟨⟩
  keepsSome := by
    intro xs tail b ys _ _ hrun tail'
    simp only [run_pure, Option.some.injEq, Prod.mk.injEq, List.append_cancel_right_eq] at hrun
    simp only [run_pure, hrun.1, hrun.2]

theorem token (expectation : Expectation) (test : Token → Bool) :
    Local k (Parser.token expectation test) where
  suffix := by
    intro ts t rest _ hrun
    obtain ⟨rfl, _⟩ := run_token_eq_some.mp hrun
    exact List.suffix_cons t rest
  left_le := by
    intro ts _
    rw [misses_token]
    split
    · exact Nat.le_refl _
    · exact Nat.zero_le _
  missed := by
    intro ts _ hnone
    rw [misses_token, if_pos hnone]
    simp
  keepsNone := by
    intro xs tail _ hbefore hnone tail'
    rw [misses_token, if_pos hnone] at hbefore
    have hlt := hbefore (by simp)
    cases xs with
    | nil => exact absurd hlt (Nat.lt_irrefl _)
    | cons t xs =>
      rw [List.cons_append, run_token, ite_eq_right_iff] at hnone ⊢
      intro ht
      cases hnone ht
  keepsSome := by
    intro xs tail t ys _ _ hrun tail'
    obtain ⟨heq, ht⟩ := run_token_eq_some.mp hrun
    have hxs : xs = t :: ys := List.append_cancel_right (heq.trans (List.cons_append).symm)
    exact run_token_eq_some.mpr ⟨by rw [hxs, List.cons_append], ht⟩

theorem bindBelow {j : Nat} {f : α → Parser β} (h : Local k p)
    (hj : ∀ {ts a rest}, ts.length < k → run p ts = some (a, rest) → rest.length < j)
    (hf : ∀ a, Local j (f a)) : Local k (p >>= f) where
  suffix := by
    intro ts b rest hlt hrun
    obtain ⟨a, us, ha, hb⟩ := run_bind_eq_some.mp hrun
    exact ((hf a).suffix (hj hlt ha) hb).trans (h.suffix hlt ha)
  left_le := by
    intro ts hlt
    cases ha : run p ts with
    | none =>
      rw [misses_bind_none ha]
      exact h.left_le hlt
    | some r =>
      obtain ⟨a, us⟩ := r
      rw [misses_bind_some ha]
      have hle := (h.suffix hlt ha).length_le
      exact Misses.left_join_le (Nat.le_trans ((hf a).left_le (hj hlt ha)) hle) (h.left_le hlt)
  missed := by
    intro ts hlt hnone
    cases ha : run p ts with
    | none =>
      rw [misses_bind_none ha]
      exact h.missed hlt ha
    | some r =>
      obtain ⟨a, us⟩ := r
      rw [run_bind_some ha] at hnone
      rw [misses_bind_some ha, Misses.expected_join]
      exact .inl ((hf a).missed (hj hlt ha) hnone)
  keepsNone := by
    intro xs tail hlt hbefore hnone tail'
    cases ha : run p (xs ++ tail) with
    | none =>
      rw [misses_bind_none ha] at hbefore
      exact run_bind_none (h.keepsNone hlt hbefore ha tail') f
    | some r =>
      obtain ⟨a, us⟩ := r
      have hj' := hj hlt ha
      rw [misses_bind_some ha] at hbefore
      rw [run_bind_some ha] at hnone
      obtain ⟨hsecond, hfirst⟩ := Misses.before_join hbefore
      -- What the second parser misses lies before `tail`, so the first one did not take any of it.
      have hlonger := hsecond ((hf a).missed hj' hnone)
      have hle := (hf a).left_le hj'
      obtain ⟨ys, rfl⟩ := exists_append_of_suffix (h.suffix hlt ha) (by omega)
      rw [run_bind_some (h.keepsSome hlt hfirst ha tail')]
      exact (hf a).keepsNone hj' hsecond hnone tail'
  keepsSome := by
    intro xs tail b ys hlt hbefore hrun tail'
    obtain ⟨a, us, ha, hb⟩ := run_bind_eq_some.mp hrun
    have hj' := hj hlt ha
    rw [misses_bind_some ha] at hbefore
    obtain ⟨hsecond, hfirst⟩ := Misses.before_join hbefore
    have hle := ((hf a).suffix hj' hb).length_le
    rw [List.length_append] at hle
    obtain ⟨zs, rfl⟩ := exists_append_of_suffix (h.suffix hlt ha) (by omega)
    rw [run_bind_some (h.keepsSome hlt hfirst ha tail')]
    exact (hf a).keepsSome hj' hsecond hb tail'

theorem orElse (h : Local k p) (h' : Local k q) : Local k (orElse p q) where
  suffix := by
    intro ts a rest hlt hrun
    rw [run_orElse, Option.or_eq_some_iff] at hrun
    rcases hrun with hrun | ⟨_, hrun⟩
    · exact h.suffix hlt hrun
    · exact h'.suffix hlt hrun
  left_le := by
    intro ts hlt
    by_cases hp : run p ts = none
    · rw [misses_orElse_none hp]
      exact Misses.left_join_le (h'.left_le hlt) (h.left_le hlt)
    · rw [misses_orElse_some hp]
      exact h.left_le hlt
  missed := by
    intro ts hlt hnone
    rw [run_orElse, Option.or_eq_none_iff] at hnone
    rw [misses_orElse_none hnone.1, Misses.expected_join]
    exact .inr (h.missed hlt hnone.1)
  keepsNone := by
    intro xs tail hlt hbefore hnone tail'
    rw [run_orElse, Option.or_eq_none_iff] at hnone ⊢
    rw [misses_orElse_none hnone.1] at hbefore
    obtain ⟨hsecond, hfirst⟩ := Misses.before_join hbefore
    exact ⟨h.keepsNone hlt hfirst hnone.1 tail', h'.keepsNone hlt hsecond hnone.2 tail'⟩
  keepsSome := by
    intro xs tail a ys hlt hbefore hrun tail'
    rw [run_orElse, Option.or_eq_some_iff] at hrun ⊢
    rcases hrun with hp | ⟨hp, hq⟩
    · rw [misses_orElse_some (by simp [hp])] at hbefore
      exact .inl (h.keepsSome hlt hbefore hp tail')
    · rw [misses_orElse_none hp] at hbefore
      obtain ⟨hsecond, hfirst⟩ := Misses.before_join hbefore
      exact .inr ⟨h.keepsNone hlt hfirst hp tail', h'.keepsSome hlt hsecond hq tail'⟩

theorem run_repeated_ne_none (p : Parser α) (ts : List Token) : run (repeated p) ts ≠ none := by
  induction ts using repeated_induction p with
  | none ts ha => simp [run_repeated_none ha]
  | more ts a us ha hshorter ih => simpa [run_repeated_some ha hshorter] using ih
  | stuck ts a us ha hshorter => simp [run_repeated_stuck ha hshorter]

theorem suffix_repeated (h : Local k p) {ts : List Token} {as : List α} {rest : List Token}
    (hlt : ts.length < k) (hrun : run (repeated p) ts = some (as, rest)) : rest <:+ ts := by
  induction ts using repeated_induction p generalizing as with
  | none ts ha =>
    rw [run_repeated_none ha] at hrun
    cases hrun
    exact List.suffix_refl _
  | more ts a us ha hshorter ih =>
    rw [run_repeated_some ha hshorter] at hrun
    obtain ⟨⟨bs, vs⟩, hbs, heq⟩ := Option.map_eq_some_iff.mp hrun
    cases heq
    exact (ih (Nat.lt_trans hshorter hlt) hbs).trans (h.suffix hlt ha)
  | stuck ts a us ha hshorter =>
    rw [run_repeated_stuck ha hshorter] at hrun
    cases hrun
    exact h.suffix hlt ha

theorem repeated (h : Local k p) : Local k (repeated p) where
  suffix := h.suffix_repeated
  left_le := by
    intro ts hlt
    induction ts using repeated_induction p with
    | none ts ha =>
      rw [misses_repeated_none ha]
      exact h.left_le hlt
    | more ts a us ha hshorter ih =>
      have hmore := ih (Nat.lt_trans hshorter hlt)
      rw [misses_repeated_some ha hshorter]
      exact Misses.left_join_le (by omega) (h.left_le hlt)
    | stuck ts a us ha hshorter =>
      rw [misses_repeated_stuck ha hshorter]
      exact h.left_le hlt
  missed hlt hnone := absurd hnone (run_repeated_ne_none p _)
  keepsNone hlt _ hnone := absurd hnone (run_repeated_ne_none p _)
  keepsSome := by
    intro xs tail as ys hlt hbefore hrun tail'
    generalize hts : xs ++ tail = ts at hlt hbefore hrun
    induction ts using repeated_induction p generalizing xs as with
    | none ts ha =>
      subst hts
      rw [misses_repeated_none ha] at hbefore
      rw [run_repeated_none ha, Option.some.injEq, Prod.mk.injEq, List.append_cancel_right_eq] at hrun
      rw [run_repeated_none (h.keepsNone hlt hbefore ha tail'), hrun.1, hrun.2]
    | more ts a us ha hshorter ih =>
      subst hts
      rw [misses_repeated_some ha hshorter] at hbefore
      rw [run_repeated_some ha hshorter] at hrun
      obtain ⟨hmore, hfirst⟩ := Misses.before_join hbefore
      obtain ⟨⟨bs, vs⟩, hbs, heq⟩ := Option.map_eq_some_iff.mp hrun
      cases heq
      have hle := (h.suffix_repeated (Nat.lt_trans hshorter hlt) hbs).length_le
      change (ys ++ tail).length ≤ us.length at hle
      rw [List.length_append] at hle
      obtain ⟨zs, rfl⟩ := exists_append_of_suffix (h.suffix hlt ha) (by omega)
      have hitem := h.keepsSome hlt hfirst ha tail'
      have hrest := ih rfl (Nat.lt_trans hshorter hlt) hmore hbs
      have hshorter' : (zs ++ tail').length < (xs ++ tail').length := by
        simp only [List.length_append] at hshorter ⊢
        omega
      rw [run_repeated_some hitem hshorter', hrest]
      rfl
    | stuck ts a us ha hshorter =>
      subst hts
      rw [misses_repeated_stuck ha hshorter] at hbefore
      rw [run_repeated_stuck ha hshorter] at hrun
      cases hrun
      refine run_repeated_stuck (h.keepsSome hlt hbefore ha tail') ?_
      simp only [List.length_append] at hshorter ⊢
      omega

end Local
end
end NoteQuery
