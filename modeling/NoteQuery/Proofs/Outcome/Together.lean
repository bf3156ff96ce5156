import NoteQuery.Proofs.Outcome.Yields

/-! Two computations compared. What they fail with is left open: where steps come in another order, another one
of several failures may come first. -/

namespace NoteQuery
set_option autoImplicit false

/-- Both computations have values, which are related, or both fail. -/
inductive Together {ε δ α β : Type} (rel : α → β → Prop) : Except ε α → Except δ β → Prop where
  | values {a : α} {b : β} (h : rel a b) : Together rel (.ok a) (.ok b)
  | failures {e : ε} {d : δ} : Together rel (.error e) (.error d)

namespace Together

variable {ε δ ζ η α β γ α' β' : Type} {rel : α → β → Prop} {rel' : α' → β' → Prop} {x : Except ε α}
  {y : Except δ β}

theorem refl (x : Except ε α) : Together Eq x x := by
  cases x with
  | ok a => exact .values rfl
  | error e => exact .failures

theorem symm {y : Except δ α} (h : Together Eq x y) : Together Eq y x := by
  cases h with
  | values h => exact .values h.symm
  | failures => exact .failures

/-- Either computation may be replaced by one that has the same value or fails too. -/
theorem congr {x' : Except ζ α} {y' : Except η β} (hx : Together Eq x x') (hy : Together Eq y y')
    (h : Together rel x' y') : Together rel x y := by
  cases h with
  | values h =>
    cases hx with | values hx =>
    cases hy with | values hy =>
    exact .values (hx ▸ hy ▸ h)
  | failures =>
    cases hx with | failures =>
    cases hy with | failures =>
    exact .failures

theorem bind {f : α → Except ε α'} {g : β → Except δ β'} (h : Together rel x y)
    (hnext : ∀ a b, rel a b → Together rel' (f a) (g b)) : Together rel' (x >>= f) (y >>= g) := by
  cases h with
  | values h => exact hnext _ _ h
  | failures => exact .failures

theorem andThen {z : Except ε γ} {z' : Except ε γ} (h : Together Eq z z') (f : γ → Except ε α) :
    Together Eq (z >>= f) (z' >>= f) := by
  refine h.bind fun c c' hc => ?_
  rw [hc]
  exact refl _

/-- After the same step. -/
theorem after {f : γ → Except ε α} {g : γ → Except ε β} (z : Except ε γ)
    (hnext : ∀ c, z = .ok c → Together rel (f c) (g c)) : Together rel (z >>= f) (z >>= g) := by
  cases z with
  | ok c => exact hnext c rfl
  | error e => exact .failures

theorem map {y : Except δ α} {f : α → α'} {g : α → β'} (h : Together Eq x y)
    (hnext : ∀ a, rel' (f a) (g a)) : Together rel' (f <$> x) (g <$> y) := by
  cases h with
  | @values a _ h => exact .values (h ▸ hnext a)
  | failures => exact .failures

theorem mapError (h : Together rel x y) (f : ε → ζ) (g : δ → η) :
    Together rel (x.mapError f) (y.mapError g) := by
  cases h with
  | values h => exact .values h
  | failures => exact .failures

/-- The steps of two computations that do not look at each other can come in either order. -/
theorem comm (x : Except ε α) (y : Except ε β) (f : α → β → Except ε γ) :
    Together Eq (x >>= fun a => y >>= f a) (y >>= fun b => x >>= fun a => f a b) := by
  cases x with
  | ok a => exact refl _
  | error e =>
    cases y with
    | ok b => exact refl _
    | error d => exact .failures

theorem mapM {f : γ → Except ε α} {g : γ → Except δ β} {cs : List γ}
    (h : ∀ c ∈ cs, Together rel (f c) (g c)) :
    Together (List.Forall₂ rel) (cs.mapM f) (cs.mapM g) := by
  induction cs with
  | nil => exact .values .nil
  | cons c cs ih =>
    rw [List.forall_mem_cons] at h
    rw [List.mapM_cons, List.mapM_cons]
    refine h.1.bind fun a b hab => ?_
    exact (ih h.2).bind fun as bs hall => .values (.cons hab hall)

/-- Two passes over a list, or one with both steps for each element. -/
theorem twoPasses (f : α → Except ε β) (g : β → Except ε γ) (as : List α) :
    Together Eq (as.mapM f >>= fun bs => bs.mapM g) (as.mapM fun a => f a >>= g) := by
  induction as with
  | nil => exact refl _
  | cons a as ih =>
    rw [List.mapM_cons, List.mapM_cons, bind_assoc, bind_assoc]
    refine after _ fun b _ => ?_
    simp only [bind_assoc, pure_bind, List.mapM_cons]
    refine .congr (comm _ _ _) (refl _) (after _ fun c _ => ?_)
    rw [← bind_assoc]
    exact ih.andThen _

end Together

end NoteQuery
