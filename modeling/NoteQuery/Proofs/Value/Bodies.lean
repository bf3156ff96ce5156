import NoteQuery.Eval.Context

/-! The functions in a value. What holds of the body of every function in a value holds of every part of it,
and of a value without functions anything does. -/

namespace NoteQuery
set_option autoImplicit false

namespace Value

mutual

/-- What holds of the body of every function in a value. -/
def Bodies (P : Expr → Prop) : Value → Prop
  | function _ _ body => P body
  | array items => AllBodies P items
  | object entries => EntriesBodies P entries
  | _ => True

def AllBodies (P : Expr → Prop) : List Value → Prop
  | [] => True
  | v :: vs => v.Bodies P ∧ AllBodies P vs

def EntriesBodies (P : Expr → Prop) : List (String × Value) → Prop
  | [] => True
  | (_, v) :: es => v.Bodies P ∧ EntriesBodies P es

end

section
variable {P Q : Expr → Prop}

theorem allBodies_iff {vs : List Value} : AllBodies P vs ↔ ∀ v ∈ vs, v.Bodies P := by
  induction vs with
  | nil => simp [AllBodies]
  | cons v vs ih => rw [AllBodies, ih, List.forall_mem_cons]

mutual

theorem Bodies.imp (h : ∀ e, P e → Q e) : (v : Value) → v.Bodies P → v.Bodies Q
  | function _ _ body, hv => h body hv
  | array items, hv => AllBodies.imp h items hv
  | object entries, hv => EntriesBodies.imp h entries hv
  | null, _ | bool _, _ | number _, _ | text _, _ | date _, _ => trivial

theorem AllBodies.imp (h : ∀ e, P e → Q e) : (vs : List Value) → AllBodies P vs → AllBodies Q vs
  | [], _ => trivial
  | v :: vs, hv => ⟨Bodies.imp h v hv.1, AllBodies.imp h vs hv.2⟩

theorem EntriesBodies.imp (h : ∀ e, P e → Q e) :
    (es : List (String × Value)) → EntriesBodies P es → EntriesBodies Q es
  | [], _ => trivial
  | (_, v) :: es, hv => ⟨Bodies.imp h v hv.1, EntriesBodies.imp h es hv.2⟩

end

theorem bodies_get {r : Record} (h : EntriesBodies P r) (key : String) :
    (Record.get r key).Bodies P := by
  unfold Record.get Record.get?
  induction r with
  | nil => trivial
  | cons e r ih =>
    obtain ⟨k, v⟩ := e
    rw [List.lookup_cons]
    by_cases hk : key == k
    · rw [hk]
      exact h.1
    · rw [Bool.eq_false_iff.mpr hk]
      exact ih h.2

theorem bodies_getD {vs : List Value} (h : AllBodies P vs) {d : Value} (hd : d.Bodies P) (i : Nat) :
    (vs.getD i d).Bodies P := by
  rw [List.getD_eq_getElem?_getD]
  cases hv : vs[i]? with
  | none => exact hd
  | some v => exact allBodies_iff.mp h v (List.mem_of_getElem? hv)

theorem bodies_itemAt {vs : List Value} (h : AllBodies P vs) (n : Number) :
    (itemAt vs n).Bodies P := by
  unfold itemAt
  split
  · next i _ =>
    have hitem := bodies_getD h (d := .null) trivial i
    rwa [List.getD_eq_getElem?_getD] at hitem
  · trivial

theorem bodies_ofLiteral (v : Literal) : (ofLiteral v).Bodies P := by
  cases v <;> trivial

end

/-- A value with no function in it. -/
abbrev HasNoFunction (v : Value) : Prop := v.Bodies fun _ => False

end Value

/-- No function can be reached in a context. -/
structure Context.HasNoFunction (c : Context) : Prop where
  fields : Value.EntriesBodies (fun _ => False) c.fields
  file : Value.EntriesBodies (fun _ => False) c.file
  scope : Value.EntriesBodies (fun _ => False) c.scope

theorem Context.HasNoFunction.resolve {c : Context} (h : c.HasNoFunction) (name : String) :
    (c.resolve name).HasNoFunction := by
  unfold Context.resolve
  split
  · next v hv =>
    have hget := Value.bodies_get h.scope name
    rw [Record.get, hv] at hget
    exact hget
  · split
    · exact h.file
    · exact Value.bodies_get h.fields name

end NoteQuery
