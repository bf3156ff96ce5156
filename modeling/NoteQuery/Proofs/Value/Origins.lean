import Mathlib.Logic.Function.Basic
import NoteQuery.Eval.Context
import NoteQuery.Eval.NumberFunctions
import NoteQuery.Eval.Operator

/-! Where the functions in a value come from shows in one place only: two functions are equal if they have
one origin. So other origins may be put in the place of those in a value. No text, number or date in it
changes, no comparison changes, and equality does not either if different origins stay different. -/

namespace NoteQuery
set_option autoImplicit false

namespace Value

variable (f : Origin → Origin)

mutual

/-- The value with other origins of the functions in it. -/
def relabel : Value → Value
  | null => null
  | bool b => bool b
  | number n => number n
  | text s => text s
  | date d => date d
  | array items => array (relabelAll items)
  | object entries => object (relabelEntries entries)
  | function o x body => function (f o) x body

def relabelAll : List Value → List Value
  | [] => []
  | v :: vs => relabel v :: relabelAll vs

def relabelEntries : List (String × Value) → List (String × Value)
  | [] => []
  | (k, v) :: es => (k, relabel v) :: relabelEntries es

end

@[simp] theorem relabelAll_eq (vs : List Value) : relabelAll f vs = vs.map (relabel f) := by
  induction vs with
  | nil => rfl
  | cons v vs ih => rw [relabelAll, ih, List.map_cons]

@[simp] theorem relabelEntries_eq (es : List (String × Value)) :
    relabelEntries f es = es.map fun e => (e.1, e.2.relabel f) := by
  induction es with
  | nil => rfl
  | cons e es ih => rw [relabelEntries, ih, List.map_cons]

mutual

/-- The origins put in last hide the ones before. -/
theorem relabel_relabel (g : Origin → Origin) :
    (v : Value) → (v.relabel f).relabel g = v.relabel (g ∘ f)
  | null => rfl
  | bool _ => rfl
  | number _ => rfl
  | text _ => rfl
  | date _ => rfl
  | array items => congrArg array (relabelAll_relabelAll g items)
  | object entries => congrArg object (relabelEntries_relabelEntries g entries)
  | function _ _ _ => rfl

theorem relabelAll_relabelAll (g : Origin → Origin) :
    (vs : List Value) → relabelAll g (relabelAll f vs) = relabelAll (g ∘ f) vs
  | [] => rfl
  | v :: vs => congrArg₂ List.cons (relabel_relabel g v) (relabelAll_relabelAll g vs)

theorem relabelEntries_relabelEntries (g : Origin → Origin) :
    (es : List (String × Value)) → relabelEntries g (relabelEntries f es) = relabelEntries (g ∘ f) es
  | [] => rfl
  | (k, v) :: es =>
    congrArg₂ List.cons (congrArg (k, ·) (relabel_relabel g v)) (relabelEntries_relabelEntries g es)

end

/-! ### What a value shows -/

section
variable (v w : Value)

@[simp] theorem kind_relabel : (v.relabel f).kind = v.kind := by cases v <;> rfl

@[simp] theorem isNull_relabel : (v.relabel f).isNull = v.isNull := by cases v <;> rfl

@[simp] theorem isDate_relabel : (v.relabel f).isDate = v.isDate := by cases v <;> rfl

@[simp] theorem isTrue_relabel : (v.relabel f).isTrue = v.isTrue := by
  cases v <;> simp [relabel, isTrue]

@[simp] theorem moment?_relabel : (v.relabel f).moment? = v.moment? := by cases v <;> rfl

@[simp] theorem number?_relabel : (v.relabel f).number? = v.number? := by cases v <;> rfl

@[simp] theorem asOperand_relabel (symbol : String) :
    (v.relabel f).asOperand symbol = v.asOperand symbol := by
  cases v <;> rfl

end

mutual

theorem toJson_relabel : (v : Value) → (v.relabel f).toJson = v.toJson
  | null => rfl
  | bool _ => rfl
  | number _ => rfl
  | text _ => rfl
  | date _ => rfl
  | array items => congrArg (Json.array <$> ·) (itemsToJson_relabel items)
  | object entries => congrArg (Json.object <$> ·) (entriesToJson_relabel entries)
  | function _ _ _ => rfl

theorem itemsToJson_relabel : (vs : List Value) → itemsToJson (relabelAll f vs) = itemsToJson vs
  | [] => rfl
  | v :: vs => by
    rw [relabelAll, itemsToJson, itemsToJson, toJson_relabel v, itemsToJson_relabel vs]

theorem entriesToJson_relabel :
    (es : List (String × Value)) → entriesToJson (relabelEntries f es) = entriesToJson es
  | [] => rfl
  | (k, v) :: es => by
    rw [relabelEntries, entriesToJson, entriesToJson, toJson_relabel v, entriesToJson_relabel es]

end

mutual

theorem display_relabel : (v : Value) → (v.relabel f).display = v.display
  | null => rfl
  | bool _ => rfl
  | number _ => rfl
  | text _ => rfl
  | date _ => rfl
  | array items => by rw [relabel, display, display, displayAll_relabel items]
  | object entries => by rw [relabel, display, display, entriesToJson_relabel f entries]
  | function _ _ _ => rfl

theorem displayAll_relabel : (vs : List Value) → displayAll (relabelAll f vs) = displayAll vs
  | [] => rfl
  | v :: vs => by rw [relabelAll, displayAll, displayAll, display_relabel v, displayAll_relabel vs]

end

mutual

theorem inspect_relabel : (v : Value) → (v.relabel f).inspect = v.inspect
  | null => rfl
  | bool _ => rfl
  | number _ => rfl
  | text _ => rfl
  | date _ => rfl
  | array items => by rw [relabel, inspect, inspect, inspectAll_relabel items]
  | object entries => by rw [relabel, inspect, inspect, inspectEntries_relabel entries]
  | function _ _ _ => rfl

theorem inspectAll_relabel : (vs : List Value) → inspectAll (relabelAll f vs) = inspectAll vs
  | [] => rfl
  | v :: vs => by rw [relabelAll, inspectAll, inspectAll, inspect_relabel v, inspectAll_relabel vs]

theorem inspectEntries_relabel :
    (es : List (String × Value)) → inspectEntries (relabelEntries f es) = inspectEntries es
  | [] => rfl
  | (k, v) :: es => by
    rw [relabelEntries, inspectEntries, inspectEntries, inspect_relabel v, inspectEntries_relabel es]

end

theorem mention_relabel (v : Value) : (v.relabel f).mention = v.mention := by
  cases v with
  | array items => exact inspect_relabel f (array items)
  | object entries => exact inspect_relabel f (object entries)
  | _ => rfl

mutual

theorem numbers_relabel : (v : Value) → (v.relabel f).numbers = v.numbers
  | null => rfl
  | bool _ => rfl
  | number _ => rfl
  | text _ => rfl
  | date _ => rfl
  | array items => by rw [relabel, numbers, numbers, allNumbers_relabel items]
  | object _ => rfl
  | function _ _ _ => rfl

theorem allNumbers_relabel : (vs : List Value) → allNumbers (relabelAll f vs) = allNumbers vs
  | [] => rfl
  | v :: vs => by rw [relabelAll, allNumbers, allNumbers, numbers_relabel v, allNumbers_relabel vs]

end

/-! ### Members -/

theorem get?_relabel (r : Record) (key : String) :
    Record.get? (relabelEntries f r) key = (Record.get? r key).map (relabel f) := by
  unfold Record.get?
  induction r with
  | nil => rfl
  | cons e r ih =>
    rw [relabelEntries, List.lookup_cons, List.lookup_cons]
    cases key == e.1 with
    | true => rfl
    | false => exact ih

theorem get_relabel (r : Record) (key : String) :
    Record.get (relabelEntries f r) key = (Record.get r key).relabel f := by
  rw [Record.get, Record.get, get?_relabel]
  cases Record.get? r key <;> rfl

theorem has_relabel (r : Record) (key : String) :
    Record.has (relabelEntries f r) key = Record.has r key := by
  rw [Record.has, Record.has, get?_relabel, Option.isSome_map]

theorem insert_relabel (r : Record) (key : String) (v : Value) :
    relabelEntries f (Record.insert r key v) =
      Record.insert (relabelEntries f r) key (v.relabel f) := by
  induction r with
  | nil => rfl
  | cons e r ih =>
    obtain ⟨k, w⟩ := e
    rw [Record.insert, relabelEntries, Record.insert]
    split
    · rfl
    · rw [relabelEntries, ih]

theorem ofList_relabel (es : List (String × Value)) :
    relabelEntries f (Record.ofList es) = Record.ofList (relabelEntries f es) := by
  have hfold (r : Record) : relabelEntries f (es.foldl (fun r e => Record.insert r e.1 e.2) r) =
      (relabelEntries f es).foldl (fun r e => Record.insert r e.1 e.2) (relabelEntries f r) := by
    induction es generalizing r with
    | nil => rfl
    | cons e es ih => rw [List.foldl_cons, ih, insert_relabel, relabelEntries, List.foldl_cons]
  exact hfold []

theorem itemAt_relabel (items : List Value) (n : Number) :
    itemAt (relabelAll f items) n = (itemAt items n).relabel f := by
  unfold itemAt
  split
  · next i _ =>
    rw [relabelAll_eq, List.getElem?_map]
    cases items[i]? <;> rfl
  · rfl

theorem member_relabel (v key : Value) :
    (v.relabel f).member (key.relabel f) = relabel f <$> v.member key := by
  cases v with
  | array items =>
    cases key with
    | text s =>
      simp only [relabel, member, relabelAll_eq, List.length_map]
      split <;> rfl
    | number n => exact congrArg Except.ok (itemAt_relabel f items n)
    | _ => rfl
  | object entries =>
    simp only [relabel, member, display_relabel]
    cases key.display with
    | ok s => exact congrArg Except.ok (get_relabel f entries s)
    | error e => rfl
  | _ => cases key <;> rfl

/-! ### Comparisons -/

mutual

theorem deepEqual_relabel : (a b : Value) → (a.relabel f).deepEqual (b.relabel f) = a.deepEqual b
  | array as, b => by
    cases b with
    | array bs =>
      rw [relabel, relabel, deepEqual, deepEqual, itemsEqual_relabel as bs]
      simp only [relabelAll_eq, List.length_map]
    | _ => rfl
  | object as, b => by
    cases b with
    | object bs =>
      rw [relabel, relabel, deepEqual, deepEqual, entriesEqual_relabel as bs]
      simp only [relabelEntries_eq, List.all_map, Function.comp_def]
      simp only [← relabelEntries_eq, has_relabel]
    | _ => rfl
  | function _ _ _, b => by cases b <;> rfl
  | null, b => by cases b <;> rfl
  | bool _, b => by cases b <;> rfl
  | number _, b => by cases b <;> rfl
  | text _, b => by cases b <;> rfl
  | date _, b => by cases b <;> rfl

theorem itemsEqual_relabel : (as bs : List Value) →
    itemsEqual (relabelAll f as) (relabelAll f bs) = itemsEqual as bs
  | [], [] => rfl
  | [], _ :: _ => rfl
  | _ :: _, [] => rfl
  | a :: as, b :: bs => by
    rw [relabelAll, relabelAll, itemsEqual, itemsEqual, deepEqual_relabel a b,
      itemsEqual_relabel as bs]

theorem entriesEqual_relabel : (as : List (String × Value)) → (bs : Record) →
    entriesEqual (relabelEntries f as) (relabelEntries f bs) = entriesEqual as bs
  | [], _ => rfl
  | (k, a) :: as, bs => by
    rw [relabelEntries, entriesEqual, entriesEqual, get_relabel, deepEqual_relabel a,
      entriesEqual_relabel as bs]

end

theorem onMoments_relabel (test : Moment → Moment → Bool) (a b : Value) :
    onMoments test (a.relabel f) (b.relabel f) = onMoments test a b := by
  simp only [onMoments, moment?_relabel]

theorem less_relabel (a b : Value) : (a.relabel f).less (b.relabel f) = a.less b := by
  unfold less
  rw [isDate_relabel, isDate_relabel, onMoments_relabel]
  cases a <;> cases b <;> rfl

theorem compare_relabel (a b : Value) : (a.relabel f).compare (b.relabel f) = a.compare b := by
  simp only [compare, less_relabel]

/-- Functions of different origins stay different. -/
theorem equal_relabel {f : Origin → Origin} (hf : Function.Injective f) (a b : Value) :
    (a.relabel f).equal (b.relabel f) = a.equal b := by
  unfold equal
  rw [isDate_relabel, isDate_relabel, onMoments_relabel]
  split
  · rfl
  · cases a with
    | function o x body =>
      cases b with
      | function p y body' =>
        have hsame : (f o == f p) = (o == p) := by
          rw [Bool.eq_iff_iff, beq_iff_eq, beq_iff_eq]
          exact hf.eq_iff
        simp only [relabel, hsame]
      | _ => rfl
    | _ => cases b <;> first | rfl | exact deepEqual_relabel f _ _

end Value
end NoteQuery
