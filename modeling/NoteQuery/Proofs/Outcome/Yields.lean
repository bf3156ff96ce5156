import Mathlib.Data.List.Forall2
import NoteQuery.Eval.Failure

/-! What a computation that may fail comes to: a value with one property, or a failure with another. The
statement about a computation is put together from statements about its steps. -/

namespace NoteQuery
set_option autoImplicit false

/-- The value of a computation is `good`, or its failure is `bad`. -/
def Yields {ε α : Type} (good : α → Prop) (bad : ε → Prop) : Except ε α → Prop
  | .ok a => good a
  | .error e => bad e

/-- A computation that fails, if it does, with a `bad` failure. -/
abbrev FailsOnly {ε α : Type} (bad : ε → Prop) (x : Except ε α) : Prop :=
  Yields (fun _ => True) bad x

/-- A computation whose value, if it has one, is `good`. -/
abbrev Ensures {ε α : Type} (good : α → Prop) (x : Except ε α) : Prop :=
  Yields good (fun _ => True) x

namespace Failure

/-- A failure that is local, or out of range as `bad` says. -/
def IsLocalOr (bad : RangeError → Prop) (f : Failure) : Prop :=
  f.isLocal = true ∨ ∃ e, f = .outOfRange e ∧ bad e

end Failure

/-- Whether a computation fails in a given way can be told without comparing values. -/
instance decidableFailure {ε α : Type} [DecidableEq ε] (x : Except ε α) (e : ε) :
    Decidable (x = .error e) :=
  match x with
  | .ok _ => .isFalse nofun
  | .error d => decidable_of_iff (d = e) ⟨congrArg _, Except.error.inj⟩

section
variable {ε δ α β : Type} {good good' : α → Prop} {image : β → Prop} {bad bad' : ε → Prop}
  {x : Except ε α}

theorem yields_iff : Yields good bad x ↔
    (∀ a, x = .ok a → good a) ∧ ∀ e, x = .error e → bad e := by
  cases x with
  | ok a =>
    refine ⟨fun h => ⟨fun b hb => ?_, fun e he => ?_⟩, fun h => h.1 a rfl⟩
    · cases hb
      exact h
    · cases he
  | error e =>
    refine ⟨fun h => ⟨fun b hb => ?_, fun d hd => ?_⟩, fun h => h.2 e rfl⟩
    · cases hb
    · cases hd
      exact h

theorem failsOnly_iff : FailsOnly bad x ↔ ∀ e, x = .error e → bad e :=
  yields_iff.trans ⟨And.right, fun h => ⟨fun _ _ => trivial, h⟩⟩

theorem ensures_iff : Ensures good x ↔ ∀ a, x = .ok a → good a :=
  yields_iff.trans ⟨And.left, fun h => ⟨h, fun _ _ => trivial⟩⟩

theorem Yields.exists_ok (h : Yields good (fun _ : ε => False) x) : ∃ a, x = .ok a ∧ good a := by
  cases x with
  | ok a => exact ⟨a, rfl, h⟩
  | error e => exact h.elim

theorem Yields.imp (h : Yields good bad x) (hgood : ∀ a, good a → good' a)
    (hbad : ∀ e, bad e → bad' e) : Yields good' bad' x := by
  cases x with
  | ok a => exact hgood a h
  | error e => exact hbad e h

theorem Yields.weaken (h : Yields good bad x) (hbad : ∀ e, bad e → bad' e) : Yields good bad' x :=
  h.imp (fun _ ha => ha) hbad

theorem Yields.failsOnly (h : Yields good bad x) : FailsOnly bad x :=
  h.imp (fun _ _ => trivial) fun _ he => he

theorem Yields.pure {a : α} (h : good a) : Yields good bad (Pure.pure a : Except ε α) := h

theorem Yields.bind {f : α → Except ε β} (hx : Yields good bad x)
    (hf : ∀ a, good a → Yields image bad (f a)) : Yields image bad (x >>= f) := by
  cases x with
  | ok a => exact hf a hx
  | error e => exact hx

/-- A sequence of steps has a value when each step has one. -/
theorem bind_eq_ok {f : α → Except ε β} {b : β} :
    (x >>= f) = .ok b ↔ ∃ a, x = .ok a ∧ f a = .ok b := by
  cases x with
  | ok a =>
    refine ⟨fun h => ⟨a, rfl, h⟩, fun ⟨c, hc, h⟩ => ?_⟩
    cases hc
    exact h
  | error e => exact ⟨nofun, nofun⟩

theorem map_eq_ok {f : α → β} {b : β} : f <$> x = .ok b ↔ ∃ a, x = .ok a ∧ f a = b := by
  cases x with
  | ok a =>
    refine ⟨fun h => ⟨a, rfl, Except.ok.inj h⟩, fun ⟨c, hc, h⟩ => ?_⟩
    cases hc
    exact congrArg Except.ok h
  | error e => exact ⟨nofun, nofun⟩

theorem bind_mapError {f : ε → δ} (x : Except ε α) (g : α → Except ε β) :
    (x.mapError f >>= fun a => (g a).mapError f) = (x >>= g).mapError f := by
  cases x <;> rfl

theorem mapError_eq_ok {f : ε → δ} {a : α} : x.mapError f = .ok a ↔ x = .ok a := by
  cases x with
  | ok b => exact ⟨fun h => congrArg _ (Except.ok.inj h), fun h => congrArg _ (Except.ok.inj h)⟩
  | error e => exact ⟨nofun, nofun⟩

theorem toOption_bind (x : Except ε α) (f : α → Except ε β) :
    (x >>= f).toOption = x.toOption >>= fun a => (f a).toOption := by
  cases x <;> rfl

theorem toOption_eq_some {a : α} : x.toOption = some a ↔ x = .ok a := by
  cases x with
  | ok b => exact ⟨fun h => congrArg _ (Option.some.inj h), fun h => congrArg _ (Except.ok.inj h)⟩
  | error e => exact ⟨nofun, nofun⟩

theorem toOption_eq_none : x.toOption = none ↔ ∃ e, x = .error e := by
  cases x with
  | ok b => exact ⟨nofun, nofun⟩
  | error e => exact ⟨fun _ => ⟨e, rfl⟩, fun _ => rfl⟩

theorem exists_map_ok_iff {f : α → β} : (∃ b, f <$> x = .ok b) ↔ ∃ a, x = .ok a := by
  constructor
  · rintro ⟨b, hb⟩
    obtain ⟨a, ha, -⟩ := map_eq_ok.mp hb
    exact ⟨a, ha⟩
  · rintro ⟨a, ha⟩
    exact ⟨f a, map_eq_ok.mpr ⟨a, ha, rfl⟩⟩

theorem ensures_bind {f : α → Except ε β} (h : ∀ a, x = .ok a → Ensures image (f a)) :
    Ensures image (x >>= f) := by
  cases x with
  | ok a => exact h a rfl
  | error e => trivial

theorem Yields.map {f : α → β} (h : Yields (fun a => image (f a)) bad x) :
    Yields image bad (f <$> x) := by
  cases x with
  | ok a => exact h
  | error e => exact h

theorem Yields.mapError {f : ε → δ} {bad' : δ → Prop} (h : Yields good (fun e => bad' (f e)) x) :
    Yields good bad' (x.mapError f) := by
  cases x with
  | ok a => exact h
  | error e => exact h

/-- What is out of range is so for the whole evaluation. -/
theorem Yields.lift {x : Except RangeError α} {bad : Failure → Prop}
    (h : Yields good (fun e => bad (.outOfRange e)) x) :
    Yields good bad (liftM x : Outcome α) := by
  cases x with
  | ok a => exact h
  | error e => exact h

theorem lift_eq_ok {x : Except RangeError α} {a : α} :
    (liftM x : Outcome α) = .ok a ↔ x = .ok a := by
  cases x with
  | ok b => exact ⟨fun h => congrArg _ (Except.ok.inj h), fun h => congrArg _ (Except.ok.inj h)⟩
  | error e => exact ⟨nofun, nofun⟩

theorem Yields.orLocal {x : Except RangeError α} {bad : RangeError → Prop} (h : Yields good bad x) :
    Yields good (Failure.IsLocalOr bad) (liftM x : Outcome α) :=
  (h.weaken fun e he => .inr ⟨e, rfl, he⟩).lift

variable {as : List α}

theorem Yields.mapM {f : α → Except ε β} (h : ∀ a ∈ as, Yields image bad (f a)) :
    Yields (fun bs => ∀ b ∈ bs, image b) bad (as.mapM f) := by
  induction as with
  | nil => exact fun b hb => absurd hb List.not_mem_nil
  | cons a as ih =>
    rw [List.mapM_cons]
    refine (h a List.mem_cons_self).bind fun b hb => ?_
    refine (ih fun c hc => h c (List.mem_cons_of_mem a hc)).bind fun bs hbs => ?_
    exact List.forall_mem_cons.mpr ⟨hb, hbs⟩

theorem mapM_eq_ok {f : α → Except ε β} {g : α → β} (h : ∀ a ∈ as, f a = .ok (g a)) :
    as.mapM f = .ok (as.map g) := by
  induction as with
  | nil => rfl
  | cons a as ih =>
    rw [List.mapM_cons, h a List.mem_cons_self, ih fun c hc => h c (List.mem_cons_of_mem a hc)]
    rfl

theorem exists_mapM_error {f : α → Except ε β} {a : α} {e : ε} (ha : a ∈ as) (h : f a = .error e) :
    ∃ e, as.mapM f = .error e := by
  induction as with
  | nil => cases ha
  | cons c as ih =>
    rw [List.mapM_cons]
    cases hc : f c with
    | error d => exact ⟨d, rfl⟩
    | ok b =>
      obtain rfl | hmem := List.mem_cons.mp ha
      · rw [h] at hc
        cases hc
      · obtain ⟨d, hd⟩ := ih hmem
        exact ⟨d, by rw [hd]; rfl⟩

theorem exists_ok_of_mapM {f : α → Except ε β} {bs : List β} (h : as.mapM f = .ok bs) :
    ∀ a ∈ as, ∃ b, f a = .ok b := by
  intro a ha
  cases hfa : f a with
  | ok b => exact ⟨b, rfl⟩
  | error e =>
    obtain ⟨d, hd⟩ := exists_mapM_error ha hfa
    rw [h] at hd
    cases hd

theorem exists_mapM_ok_iff {f : α → Except ε β} :
    (∃ bs, as.mapM f = .ok bs) ↔ ∀ a ∈ as, ∃ b, f a = .ok b := by
  constructor
  · rintro ⟨bs, hbs⟩
    exact exists_ok_of_mapM hbs
  · intro h
    have hall : ∀ a ∈ as, FailsOnly (fun _ => False) (f a) := by
      intro a ha
      obtain ⟨b, hb⟩ := h a ha
      rw [hb]
      trivial
    obtain ⟨bs, hbs, -⟩ := (Yields.mapM hall).exists_ok
    exact ⟨bs, hbs⟩

theorem mapM_map {γ : Type} {f : α → Except ε β} {g : β → γ} :
    (as.mapM fun a => g <$> f a) = List.map g <$> as.mapM f := by
  induction as with
  | nil => rfl
  | cons a as ih =>
    rw [List.mapM_cons, List.mapM_cons, ih]
    cases f a with
    | error e => rfl
    | ok b => cases as.mapM f <;> rfl

theorem forall₂_of_mapM {f : α → Except ε β} {bs : List β} (h : as.mapM f = .ok bs) :
    List.Forall₂ (fun a b => f a = .ok b) as bs := by
  induction as generalizing bs with
  | nil =>
    cases h
    exact .nil
  | cons a as ih =>
    rw [List.mapM_cons] at h
    obtain ⟨b, hb, h⟩ := bind_eq_ok.mp h
    obtain ⟨rest, hrest, h⟩ := bind_eq_ok.mp h
    cases h
    exact .cons hb (ih hrest)

theorem mapM_of_forall₂ {f : α → Except ε β} {bs : List β}
    (h : List.Forall₂ (fun a b => f a = .ok b) as bs) : as.mapM f = .ok bs := by
  induction h with
  | nil => rfl
  | cons hab _ ih =>
    rw [List.mapM_cons, hab, ih]
    rfl

/-- Results of the same elements are related when they are for each element. -/
theorem forall₂_mapM {γ : Type} {f : α → Except ε β} {g : α → Except ε γ} {rel : β → γ → Prop}
    {bs : List β} {cs : List γ} (hf : as.mapM f = .ok bs) (hg : as.mapM g = .ok cs)
    (h : ∀ a ∈ as, ∀ b c, f a = .ok b → g a = .ok c → rel b c) : List.Forall₂ rel bs cs := by
  have hbs := forall₂_of_mapM hf
  clear hf
  induction hbs generalizing cs with
  | nil =>
    cases hg
    exact .nil
  | cons hab _ ih =>
    rw [List.mapM_cons] at hg
    obtain ⟨c, hc, hg⟩ := bind_eq_ok.mp hg
    obtain ⟨rest, hrest, hg⟩ := bind_eq_ok.mp hg
    cases hg
    rw [List.forall_mem_cons] at h
    exact .cons (h.1 _ c hab hc) (ih hrest h.2)

theorem filterMap_of_mapM {γ : Type} {f : α → Except ε β} {bs : List β} (h : as.mapM f = .ok bs)
    (g : β → Option γ) : bs.filterMap g = as.filterMap fun a => (f a).toOption.bind g := by
  have hall := forall₂_of_mapM h
  clear h
  induction hall with
  | nil => rfl
  | cons hab _ ih =>
    rw [List.filterMap_cons, List.filterMap_cons, hab, ih]
    rfl

/-- What holds of every result of an element holds of all of them. -/
theorem forall_of_forall₂ {rel : α → β → Prop} {bs : List β} (h : List.Forall₂ rel as bs)
    (himage : ∀ a b, rel a b → image b) : ∀ b ∈ bs, image b := by
  induction h with
  | nil => exact fun b hb => absurd hb List.not_mem_nil
  | cons hab _ ih => exact List.forall_mem_cons.mpr ⟨himage _ _ hab, ih⟩

theorem exists_mem_left {rel : α → β → Prop} {bs : List β} (h : List.Forall₂ rel as bs) :
    ∀ b ∈ bs, ∃ a ∈ as, rel a b :=
  forall_of_forall₂ ((List.forall₂_and_left _ _).mpr ⟨fun _ ha => ha, h⟩) fun a _ ha => ⟨a, ha⟩

theorem exists_mem_right {rel : α → β → Prop} {bs : List β} (h : List.Forall₂ rel as bs) :
    ∀ a ∈ as, ∃ b ∈ bs, rel a b :=
  exists_mem_left h.flip

theorem Yields.foldlM {f : β → α → Except ε β} {init : β} (hinit : image init)
    (h : ∀ b, image b → ∀ a ∈ as, Yields image bad (f b a)) :
    Yields image bad (as.foldlM f init) := by
  induction as generalizing init with
  | nil => exact hinit
  | cons a as ih =>
    rw [List.foldlM_cons]
    refine (h init hinit a List.mem_cons_self).bind fun b hb => ?_
    exact ih hb fun c hc d hd => h c hc d (List.mem_cons_of_mem a hd)

theorem FailsOnly.andThen {f : α → Except ε β} (hx : FailsOnly bad x)
    (hf : ∀ a, FailsOnly bad (f a)) : FailsOnly bad (x >>= f) :=
  Yields.bind hx fun a _ => hf a

theorem FailsOnly.returning (hx : FailsOnly bad x) (g : α → β) :
    FailsOnly bad (x >>= fun a => Pure.pure (g a)) :=
  hx.andThen fun _ => trivial

theorem FailsOnly.mapped (hx : FailsOnly bad x) (g : α → β) : FailsOnly bad (g <$> x) := by
  cases x <;> exact hx

theorem FailsOnly.mapM {f : α → Except ε β} (h : ∀ a, FailsOnly bad (f a)) :
    FailsOnly bad (as.mapM f) :=
  (Yields.mapM fun a _ => h a).failsOnly

theorem FailsOnly.anyM {f : α → Except ε Bool} (h : ∀ a ∈ as, FailsOnly bad (f a)) :
    FailsOnly bad (as.anyM f) := by
  induction as with
  | nil => trivial
  | cons a as ih =>
    rw [List.anyM]
    refine (h a List.mem_cons_self).bind fun b _ => ?_
    cases b with
    | true => trivial
    | false => exact ih fun c hc => h c (List.mem_cons_of_mem a hc)

end

end NoteQuery
