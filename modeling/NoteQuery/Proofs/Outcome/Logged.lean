import NoteQuery.Log.Basic
import NoteQuery.Proofs.Outcome.Yields

/-! What a computation with a log comes to, whatever was logged before: the same computation without a
log, if each of its steps comes to the same step without one. -/

namespace NoteQuery
set_option autoImplicit false

/-- A filter asks of every element, and then leaves out those of which the answer is no. -/
theorem filterM_eq_mapM {m : Type → Type} [Monad m] [LawfulMonad m] {α : Type} (p : α → m Bool)
    (as : List α) : as.filterM p =
      (fun bs => (bs.filter (·.2)).map (·.1)) <$> as.mapM fun a => (fun b => (a, b)) <$> p a := by
  -- the filter of the library collects what it keeps from the end
  have haux (kept : List α) : List.filterAuxM p as kept =
      (fun bs => ((bs.filter (·.2)).map (·.1)).reverse ++ kept) <$>
        as.mapM fun a => (fun b => (a, b)) <$> p a := by
    induction as generalizing kept with
    | nil => simp [List.filterAuxM]
    | cons a as ih =>
      simp only [List.filterAuxM, List.mapM_cons, map_bind, bind_map_left, map_pure]
      refine bind_congr fun b => ?_
      rw [ih, ← bind_pure_comp]
      refine bind_congr fun bs => ?_
      cases b <;> simp
  simp [List.filterM, haux, ← bind_pure_comp]

theorem filterM_eq_ok {ε α : Type} {f : α → Except ε Bool} {g : α → Bool} {as : List α}
    (h : ∀ a ∈ as, f a = .ok (g a)) : as.filterM f = .ok (as.filter g) := by
  have hasked (a : α) (ha : a ∈ as) : (fun b => (a, b)) <$> f a = .ok (a, g a) := by
    rw [h a ha]
    rfl
  have hkept : ((as.map fun a => (a, g a)).filter (·.2)).map (·.1) = as.filter g := by
    rw [List.filter_map, List.map_map]
    exact List.map_id _
  rw [filterM_eq_mapM, mapM_eq_ok hasked]
  exact congrArg Except.ok hkept

/-- A filter keeps elements only. -/
theorem mem_of_filterM {ε α : Type} (f : α → Except ε Bool) (as : List α) :
    Ensures (fun kept => ∀ a ∈ kept, a ∈ as) (as.filterM f) := by
  have hasked : Ensures (fun bs : List (α × Bool) => ∀ b ∈ bs, b.1 ∈ as)
      (as.mapM fun a => (fun b => (a, b)) <$> f a) :=
    Yields.mapM fun a ha => Yields.map (ensures_iff.mpr fun _ _ => ha)
  rw [filterM_eq_mapM]
  refine Yields.map (hasked.imp (fun bs hbs a ha => ?_) fun _ _ => trivial)
  obtain ⟨b, hb, rfl⟩ := List.mem_map.mp ha
  exact hbs b (List.mem_of_mem_filter hb)

namespace Logged

variable {ε α β : Type}

/-- The result of a computation does not depend on the log before it. -/
def ComesTo (x : Logged ε α) (r : Except ε α) : Prop :=
  ∀ log, (StateT.run (ExceptT.run x) log).1 = r

variable {x : Logged ε α} {f : α → Logged ε β} {a : α} {e : ε} {r : Except ε β}

theorem ComesTo.result_fst {r : Except ε α} (h : x.ComesTo r) : x.result.1 = r := h []

theorem comesTo_pure (a : α) : (pure a : Logged ε α).ComesTo (.ok a) := fun _ => rfl

theorem comesTo_throw (e : ε) : (throw e : Logged ε α).ComesTo (.error e) := fun _ => rfl

theorem comesTo_note (level : LogLevel) (text : String) :
    (note level text : Logged ε Unit).ComesTo (.ok ()) := fun _ => rfl

theorem comesTo_ofResult (p : Except ε α × List LogLine) : (ofResult p).ComesTo p.1 := fun _ => rfl

theorem ComesTo.bind (hx : x.ComesTo (.ok a)) (hf : (f a).ComesTo r) : (x >>= f).ComesTo r := by
  intro log
  have hrun : StateT.run (ExceptT.run x) log = (.ok a, (StateT.run (ExceptT.run x) log).2) :=
    Prod.ext (hx log) rfl
  change (StateT.run (ExceptT.run x >>= ExceptT.bindCont f) log).1 = r
  rw [StateT.run_bind, hrun]
  exact hf _

theorem ComesTo.bind_error (hx : x.ComesTo (.error e)) : (x >>= f).ComesTo (.error e) := by
  intro log
  have hrun : StateT.run (ExceptT.run x) log = (.error e, (StateT.run (ExceptT.run x) log).2) :=
    Prod.ext (hx log) rfl
  change (StateT.run (ExceptT.run x >>= ExceptT.bindCont f) log).1 = _
  rw [StateT.run_bind, hrun]
  rfl

theorem ComesTo.mapM {f : α → Logged ε β} {g : α → β} {as : List α}
    (h : ∀ a ∈ as, (f a).ComesTo (.ok (g a))) : (as.mapM f).ComesTo (.ok (as.map g)) := by
  induction as with
  | nil => exact comesTo_pure []
  | cons a as ih =>
    rw [List.mapM_cons]
    refine (h a List.mem_cons_self).bind ?_
    refine (ih fun b hb => h b (List.mem_cons_of_mem a hb)).bind ?_
    exact comesTo_pure _

/-- The first element that fails ends the whole. -/
theorem ComesTo.mapM_error {f : α → Logged ε β} {g : α → β} {before after : List α}
    (h : ∀ b ∈ before, (f b).ComesTo (.ok (g b))) (ha : (f a).ComesTo (.error e)) :
    ((before ++ a :: after).mapM f).ComesTo (.error e) := by
  induction before with
  | nil =>
    rw [List.nil_append, List.mapM_cons]
    exact ha.bind_error
  | cons b before ih =>
    rw [List.cons_append, List.mapM_cons]
    refine (h b List.mem_cons_self).bind ?_
    exact (ih fun c hc => h c (List.mem_cons_of_mem b hc)).bind_error

/-- Whatever was logged before, a value of the computation is `good`. -/
def Returns (good : α → Prop) (x : Logged ε α) : Prop :=
  ∀ log, Ensures good (StateT.run (ExceptT.run x) log).1

variable {good good' : α → Prop} {image : β → Prop}

theorem ComesTo.returns {r : Except ε α} (h : x.ComesTo r) (hr : Ensures good r) :
    x.Returns good := by
  intro log
  rw [h log]
  exact hr

theorem Returns.imp (h : x.Returns good) (himp : ∀ a, good a → good' a) : x.Returns good' :=
  fun log => (h log).imp himp fun _ he => he

theorem Returns.bind (hx : x.Returns good) (hf : ∀ a, good a → (f a).Returns image) :
    (x >>= f).Returns image := by
  intro log
  have hlog := hx log
  change Ensures image (StateT.run (ExceptT.run x >>= ExceptT.bindCont f) log).1
  rw [StateT.run_bind]
  rcases hrun : StateT.run (ExceptT.run x) log with ⟨r, log'⟩
  rw [hrun] at hlog
  cases r with
  | ok a => exact hf a hlog log'
  | error e => trivial

/-- Whatever was logged before, a failure of the computation is `bad`. -/
def Fails (bad : ε → Prop) (x : Logged ε α) : Prop :=
  ∀ log, FailsOnly bad (StateT.run (ExceptT.run x) log).1

variable {bad : ε → Prop}

theorem ComesTo.fails {r : Except ε α} (h : x.ComesTo r) (hr : FailsOnly bad r) : x.Fails bad := by
  intro log
  rw [h log]
  exact hr

theorem Fails.bind (hx : x.Fails bad) (hf : ∀ a, (f a).Fails bad) : (x >>= f).Fails bad := by
  intro log
  have hlog := hx log
  change FailsOnly bad (StateT.run (ExceptT.run x >>= ExceptT.bindCont f) log).1
  rw [StateT.run_bind]
  rcases hrun : StateT.run (ExceptT.run x) log with ⟨r, log'⟩
  rw [hrun] at hlog
  cases r with
  | ok a => exact hf a log'
  | error e => exact hlog

/-- Elements that can be read back from their values can be read back from all of them. -/
theorem Returns.mapM {f : α → Logged ε β} (origin : β → α) {as : List α}
    (h : ∀ a ∈ as, (f a).Returns fun b => origin b = a) :
    (as.mapM f).Returns fun bs => bs.map origin = as := by
  induction as with
  | nil => exact (comesTo_pure []).returns rfl
  | cons a as ih =>
    rw [List.mapM_cons]
    refine (h a List.mem_cons_self).bind fun b hb => ?_
    refine (ih fun c hc => h c (List.mem_cons_of_mem a hc)).bind fun bs hbs => ?_
    refine (comesTo_pure (b :: bs)).returns ?_
    change (b :: bs).map origin = a :: as
    rw [List.map_cons, hb, hbs]

/-! ### The computation without its log -/

theorem ComesTo.unique {r r' : Except ε α} (h : x.ComesTo r) (h' : x.ComesTo r') : r = r' :=
  (h []).symm.trans (h' [])

variable {g : α → Except ε β}

theorem ComesTo.andThen {r : Except ε α} (hx : x.ComesTo r) (hf : ∀ a, (f a).ComesTo (g a)) :
    (x >>= f).ComesTo (r >>= g) := by
  cases r with
  | ok a => exact hx.bind (hf a)
  | error e => exact hx.bind_error

theorem ComesTo.map {r : Except ε α} (hx : x.ComesTo r) (h : α → β) :
    (h <$> x).ComesTo (h <$> r) := by
  rw [map_eq_pure_bind, map_eq_pure_bind]
  exact hx.andThen fun a => comesTo_pure (h a)

theorem comesTo_mapM (hf : ∀ a, (f a).ComesTo (g a)) (as : List α) :
    (as.mapM f).ComesTo (as.mapM g) := by
  induction as with
  | nil => exact comesTo_pure []
  | cons a as ih =>
    rw [List.mapM_cons, List.mapM_cons]
    exact (hf a).andThen fun b => ih.andThen fun bs => comesTo_pure (b :: bs)

theorem comesTo_filterM {p : α → Logged ε Bool} {q : α → Except ε Bool}
    (hp : ∀ a, (p a).ComesTo (q a)) (as : List α) : (as.filterM p).ComesTo (as.filterM q) := by
  rw [filterM_eq_mapM, filterM_eq_mapM]
  exact (comesTo_mapM (fun a => (hp a).map _) as).map _

end Logged

end NoteQuery
