import NoteQuery.Eval.Evaluate
import NoteQuery.Proofs.Order.Stability
import NoteQuery.Proofs.Value.WellFormed

/-! Evaluation keeps values well-formed. Each function of the library makes such values from such values, and
so does an expression whose numbers are rounded; by induction on how deep functions are applied, and on the
tree within. -/

namespace NoteQuery
set_option autoImplicit false
open Value

variable {v w : Value}

/-! ### Functions of the library -/

namespace TextFunction

theorem wellFormed_onText (g : List Char → List Char) (v : Value) : Ensures WellFormed (onText g v) :=
  ensures_bind fun _ _ => trivial

theorem wellFormed_startsWith (v w : Value) : Ensures WellFormed (startsWith v w) :=
  ensures_bind fun _ _ => ensures_bind fun _ _ => trivial

theorem wellFormed_endsWith (v w : Value) : Ensures WellFormed (endsWith v w) :=
  ensures_bind fun _ _ => ensures_bind fun _ _ => trivial

theorem wellFormed_split (v w : Value) : Ensures WellFormed (split v w) :=
  ensures_bind fun _ _ => ensures_bind fun _ _ => allWellFormed_map fun _ _ => trivial

theorem wellFormed_join (v w : Value) : Ensures WellFormed (join v w) := by
  cases v with
  | array items => exact ensures_bind fun _ _ => ensures_bind fun _ _ => trivial
  | _ => exact ensures_bind fun _ _ => trivial

theorem wellFormed_substring (v start stop : Value) : Ensures WellFormed (substring v start stop) :=
  ensures_bind fun _ _ => ensures_bind fun _ _ => ensures_bind fun _ _ => trivial

theorem wellFormed_replace (v pattern replacement : Value) :
    Ensures WellFormed (replace v pattern replacement) := by
  unfold replace
  split
  · refine ensures_bind fun p? _ => ?_
    cases p? with
    | none => trivial
    | some p =>
      refine ensures_bind fun _ _ => ensures_bind fun t? _ => ?_
      cases t? <;> trivial
  · trivial
  · exact ensures_bind fun _ _ => trivial

theorem wellFormed_regexReplace (v pattern replacement : Value) :
    Ensures WellFormed (regexReplace v pattern replacement) := by
  unfold regexReplace
  split
  · refine ensures_bind fun p? _ => ?_
    cases p? with
    | none => trivial
    | some p => exact ensures_bind fun _ _ => ensures_bind fun _ _ => trivial
  · exact ensures_bind fun _ _ => trivial

theorem wellFormed_regexMatch (v pattern : Value) : Ensures WellFormed (regexMatch v pattern) := by
  unfold regexMatch
  split
  · refine ensures_bind fun p? _ => ?_
    cases p? <;> trivial
  · trivial

end TextFunction

namespace DateFunction

/-- The dates that are computed have no zone. -/
theorem wellFormed_ofMoment? (m? : Option Moment) : (ofMoment? m?).WellFormed := by
  cases m? <;> trivial

theorem wellFormed_date (now : Moment) (v : Value) : Ensures WellFormed (date now v) := by
  have hmoment : Ensures WellFormed (do return ofMoment? (← v.moment?) : Outcome Value) :=
    ensures_bind fun _ _ => wellFormed_ofMoment? _
  cases v with
  | text s =>
    unfold date
    dsimp only
    generalize named? now (Text.lower (Text.strip s)) = named
    refine ensures_bind fun m? _ => ?_
    cases m? with
    | none => exact hmoment
    | some m => exact wellFormed_ofMoment? (some m)
  | _ => exact hmoment

theorem wellFormed_fill (v : Value) (s : String) : Ensures WellFormed (dateFormat.fill v s) := by
  refine ensures_bind fun m? _ => ?_
  cases m? <;> trivial

theorem wellFormed_dateFormat (v format : Value) : Ensures WellFormed (dateFormat v format) := by
  unfold dateFormat
  split
  · exact wellFormed_fill v _
  · exact wellFormed_fill v _
  · trivial

theorem wellFormed_duration (v : Value) : Ensures WellFormed (duration v) := by
  unfold duration
  split
  · exact ensures_bind fun _ _ => trivial
  · trivial

end DateFunction

namespace Value

theorem rounded_number? (h : v.WellFormed) : ∀ n ∈ v.number?, n.IsRounded := by
  intro n hn
  unfold number? at hn
  split at hn
  · next m =>
    split at hn
    · cases hn
    · cases hn
      exact h
  · obtain ⟨x, hx, rfl⟩ := Option.map_eq_some_iff.mp hn
    exact Numeral.canonical_leading? _ x hx
  · cases hn

mutual

theorem rounded_numbers : (v : Value) → v.WellFormed → ∀ n ∈ v.numbers, n.IsRounded
  | array items, h => rounded_allNumbers items h
  | null, h | bool _, h | number _, h | text _, h | date _, h | object _, h | function .., h => by
    intro n hn
    exact rounded_number? h n (Option.mem_toList.mp hn)

theorem rounded_allNumbers : (vs : List Value) → AllWellFormed vs → ∀ n ∈ allNumbers vs, n.IsRounded
  | [], _ => fun _ hn => absurd hn List.not_mem_nil
  | v :: vs, h =>
    List.forall_mem_append.mpr ⟨rounded_numbers v h.1, rounded_allNumbers vs h.2⟩

end

end Value

namespace NumberFunction

theorem wellFormed_ofNumber? {n? : Option Number} (h : ∀ n ∈ n?, n.IsRounded) :
    (ofNumber? n?).WellFormed := by
  cases n? with
  | none => trivial
  | some n => exact h n rfl

theorem wellFormed_round (v places : Value) : Ensures WellFormed (round v places) := by
  unfold round
  split
  · trivial
  · exact trivial
  · exact ensures_bind fun _ _ => (Number.rounded_roundTo _ _).lift.bind fun n hn => hn

theorem wellFormed_sum (args : List Value) : Ensures WellFormed (sum args) :=
  (Number.rounded_sum _).lift.bind fun _ hn => hn

theorem wellFormed_average (args : List Value) : Ensures WellFormed (average args) :=
  (Number.rounded_average? _).lift.bind fun _ hn => wellFormed_ofNumber? hn

end NumberFunction

namespace ArrayFunction

theorem wellFormed_contains (container v : Value) : Ensures WellFormed (contains container v) := by
  unfold contains
  split
  · exact ensures_bind fun _ _ => trivial
  · trivial
  · trivial
  · trivial
  · exact ensures_bind fun _ _ => ensures_bind fun _ _ => trivial

theorem wellFormed_length (v : Value) : (length v).WellFormed := by
  cases v <;> trivial

theorem wellFormed_reverse (h : v.WellFormed) : (reverse v).WellFormed := by
  cases v with
  | array items =>
    exact allWellFormed_iff.mpr fun w hw => allWellFormed_iff.mp h w (List.mem_reverse.mp hw)
  | _ => exact h

theorem wellFormed_sort (h : v.WellFormed) (direction : Value) :
    Ensures WellFormed (sort v direction) := by
  cases v with
  | array items =>
    refine ensures_bind fun word _ => ensures_bind fun sorted hsorted => ?_
    have hperm := ensures_iff.mp (Order.sortM_perm _) sorted hsorted
    exact allWellFormed_iff.mpr fun w hw => allWellFormed_iff.mp h w (hperm.mem_iff.mp hw)
  | _ => exact h

theorem wellFormed_keepFrom {vs : List Value} (h : AllWellFormed vs) (test : Nat → Value → Outcome Bool)
    (n : Nat) : Ensures AllWellFormed (keepFrom test n vs) := by
  induction vs generalizing n with
  | nil => trivial
  | cons v vs ih =>
    refine ensures_bind fun kept _ => (ih h.2 (n + 1)).bind fun rest hrest => ?_
    cases kept with
    | true => exact ⟨h.1, hrest⟩
    | false => exact hrest

theorem wellFormed_mapFrom {vs : List Value} (h : AllWellFormed vs) {image : Nat → Value → Outcome Value}
    (himage : ∀ n v, v.WellFormed → Ensures WellFormed (image n v)) (n : Nat) :
    Ensures AllWellFormed (mapFrom image n vs) := by
  induction vs generalizing n with
  | nil => trivial
  | cons v vs ih =>
    exact (himage n v h.1).bind fun w hw => (ih h.2 (n + 1)).bind fun ws hws => ⟨hw, hws⟩

end ArrayFunction

/-- Functions with rounded numbers in them make well-formed values of such values. -/
def Applier.KeepsForm (apply : Applier) : Prop :=
  ∀ n x body v, body.IsRounded → v.WellFormed → Ensures WellFormed (apply n x body v)

section
variable {apply : Applier}

theorem ArrayFunction.wellFormed_filter (hv : v.WellFormed) (apply : Applier) (w : Value) :
    Ensures WellFormed (filter apply v w) := by
  unfold filter
  split
  · next items _ x body =>
    have hkept (test : Nat → Value → Outcome Bool) :
        Ensures (fun kept => (array kept).WellFormed) (keepFrom test 0 items) :=
      wellFormed_keepFrom hv test 0
    exact (hkept _).map
  · exact hv

theorem ArrayFunction.wellFormed_map (happly : apply.KeepsForm) (hv : v.WellFormed)
    (hw : w.WellFormed) : Ensures WellFormed (map apply v w) := by
  unfold map
  split
  · next items _ x body =>
    have himage (n : Nat) (item : Value) (hitem : item.WellFormed) := happly n x body item hw hitem
    have hmapped : Ensures (fun images => (array images).WellFormed) (mapFrom _ 0 items) :=
      wellFormed_mapFrom hv himage 0
    exact hmapped.map
  · exact hv

theorem Builtin.wellFormed_result (happly : apply.KeepsForm) (now : Moment) (b : Builtin)
    {args : List Value} (h : AllWellFormed args) : Ensures WellFormed (b.result now apply args) := by
  have harg (i : Nat) : (args.getD i .null).WellFormed := wellFormed_getD h (d := .null) trivial i
  have hnumbers := rounded_allNumbers args h
  unfold result
  cases b with
  | date => exact DateFunction.wellFormed_date now _
  | dateFormat => exact DateFunction.wellFormed_dateFormat _ _
  | duration => exact DateFunction.wellFormed_duration _
  | contains => exact ArrayFunction.wellFormed_contains _ _
  | length => exact ArrayFunction.wellFormed_length _
  | join => exact TextFunction.wellFormed_join _ _
  | list => exact h
  | sort => exact ArrayFunction.wellFormed_sort (harg 0) _
  | reverse => exact ArrayFunction.wellFormed_reverse (harg 0)
  | filter => exact ArrayFunction.wellFormed_filter (harg 0) apply _
  | map => exact ArrayFunction.wellFormed_map happly (harg 0) (harg 1)
  | lower => exact TextFunction.wellFormed_onText _ _
  | upper => exact TextFunction.wellFormed_onText _ _
  | replace => exact TextFunction.wellFormed_replace _ _ _
  | split => exact TextFunction.wellFormed_split _ _
  | regexMatch => exact TextFunction.wellFormed_regexMatch _ _
  | regexReplace => exact TextFunction.wellFormed_regexReplace _ _ _
  | substring => exact TextFunction.wellFormed_substring _ _ _
  | startsWith => exact TextFunction.wellFormed_startsWith _ _
  | endsWith => exact TextFunction.wellFormed_endsWith _ _
  | default =>
    dsimp only
    split
    · exact harg 1
    · exact harg 0
  | choice =>
    dsimp only
    split
    · exact harg 1
    · exact harg 2
  | round => exact NumberFunction.wellFormed_round _ _
  | min => exact NumberFunction.wellFormed_ofNumber? (Number.rounded_least? hnumbers)
  | max => exact NumberFunction.wellFormed_ofNumber? (Number.rounded_greatest? hnumbers)
  | sum => exact NumberFunction.wellFormed_sum args
  | average => exact NumberFunction.wellFormed_average args

theorem wellFormed_callByName (happly : apply.KeepsForm) (now : Moment) (name : String)
    {args : List Value} (h : AllWellFormed args) :
    Ensures WellFormed (callByName now apply name args) := by
  unfold callByName
  split
  · trivial
  · next b _ => exact ensures_bind fun _ _ => (b.wellFormed_result happly now h).mapError

end

/-! ### Operators -/

theorem Value.rounded_asOperand (h : v.WellFormed) (symbol : String) :
    Ensures Number.IsRounded (v.asOperand symbol) := by
  cases v with
  | number n => exact h
  | _ => trivial

theorem Arithmetic.rounded_result (op : Arithmetic) {a : Number} (ha : a.IsRounded) (b : Number) :
    Ensures Number.IsRounded (op.result a b) := by
  unfold result
  cases op with
  | add => exact (Number.rounded_add a b).mapError
  | sub => exact (Number.rounded_sub a b).mapError
  | mul => exact (Number.rounded_mul a b).mapError
  | div =>
    dsimp only
    split
    · trivial
    · exact (Number.rounded_div a b).mapError
  | rem =>
    dsimp only
    split
    · trivial
    · exact (Number.rounded_rem ha b).mapError

theorem BinaryOp.wellFormed_apply (op : BinaryOp) (hv : v.WellFormed) (w : Value) :
    Ensures WellFormed (op.apply v w) := by
  cases op with
  | compare c => exact ensures_bind fun _ _ => trivial
  | compute c =>
    refine (rounded_asOperand hv c.symbol).bind fun m hm => ensures_bind fun n _ => ?_
    exact (c.rounded_result hm n).bind fun _ hresult => hresult

theorem UnaryOp.wellFormed_apply (op : UnaryOp) (hv : v.WellFormed) :
    Ensures WellFormed (op.apply v) := by
  cases op with
  | not => trivial
  | negate => exact (rounded_asOperand hv _).bind fun _ hn => Number.rounded_neg hn

/-! ### Expressions -/

/-- What can be reached in a context is well-formed. -/
structure Context.WellFormed (c : Context) : Prop where
  fields : EntriesWellFormed c.fields
  file : (object c.file).WellFormed
  scope : EntriesWellFormed c.scope

namespace Context

variable {c : Context}

theorem WellFormed.resolve (h : c.WellFormed) (name : String) : (c.resolve name).WellFormed := by
  unfold Context.resolve
  split
  · next w hw =>
    have hget := wellFormed_get h.scope name
    rwa [Record.get, hw] at hget
  · split
    · exact h.file
    · exact wellFormed_get h.fields name

theorem WellFormed.bind (h : c.WellFormed) (hv : v.WellFormed) (x : String) :
    (c.bind x v).WellFormed :=
  ⟨h.fields, h.file, wellFormed_insert h.scope hv x⟩

end Context

/-- The same of functions that are applied in a well-formed context. -/
def Application.KeepsForm (apply : Application) : Prop :=
  ∀ site c x body v, c.WellFormed → body.IsRounded → v.WellFormed →
    Ensures WellFormed (apply site c x body v)

section
variable {apply : Application} {c : Context}

mutual

theorem Expr.wellFormed_evaluateWith (happly : apply.KeepsForm) (hc : c.WellFormed) (now : Moment)
    (site : List Nat) : (e : Expr) → e.IsRounded →
    Ensures Value.WellFormed (e.evaluateWith now apply site c)
  | .literal v, h => by
    simp only [evaluateWith]
    exact wellFormed_ofLiteral h
  | .name n, _ => by
    simp only [evaluateWith]
    exact hc.resolve n
  | .property base key, h => by
    simp only [evaluateWith]
    exact (wellFormed_evaluateWith happly hc now _ base h.1).bind fun b hb =>
      (wellFormed_member hb _).lift
  | .index base key, h => by
    simp only [evaluateWith]
    exact (wellFormed_evaluateWith happly hc now _ base h.1).bind fun b hb =>
      ensures_bind fun k _ => (wellFormed_member hb k).lift
  | .binary op left right, h => by
    simp only [evaluateWith]
    exact (wellFormed_evaluateWith happly hc now _ left h.1).bind fun a ha =>
      ensures_bind fun b _ => op.wellFormed_apply ha b
  | .connect op left right, h => by
    simp only [evaluateWith]
    refine ensures_bind fun a _ => ?_
    split
    · trivial
    · trivial
    · exact ensures_bind fun _ _ => trivial
  | .unary op operand, h => by
    simp only [evaluateWith]
    exact (wellFormed_evaluateWith happly hc now _ operand h).bind fun a ha => op.wellFormed_apply ha
  | .call called args, h => by
    simp only [evaluateWith]
    exact (wellFormed_evaluateAllWith happly hc now site 0 args h).bind fun vs hvs =>
      wellFormed_callByName (fun n x body v hbody hv => happly _ c x body v hc hbody hv) now called hvs
  | .lambda x body, h => by
    simp only [evaluateWith]
    exact h

theorem Expr.wellFormed_evaluateAllWith (happly : apply.KeepsForm) (hc : c.WellFormed) (now : Moment)
    (site : List Nat) (n : Nat) : (es : List Expr) → AllRounded es →
    Ensures AllWellFormed (Expr.evaluateAllWith now apply site c n es)
  | [], _ => by
    simp only [evaluateAllWith]
    trivial
  | e :: es, h => by
    simp only [evaluateAllWith]
    exact (wellFormed_evaluateWith happly hc now _ e h.1).bind fun v hv =>
      (wellFormed_evaluateAllWith happly hc now site (n + 1) es h.2).bind fun vs hvs => ⟨hv, hvs⟩

end

end

theorem keepsForm_applyUpTo (now : Moment) (depth : Nat) : (applyUpTo now depth).KeepsForm := by
  induction depth with
  | zero => exact fun _ _ _ _ _ _ _ _ => trivial
  | succ depth ih =>
    intro site c x body v hc hbody hv
    exact body.wellFormed_evaluateWith ih (hc.bind hv x) now site hbody

theorem Expr.wellFormed_evaluate {c : Context} (hc : c.WellFormed) {e : Expr} (he : e.IsRounded)
    (now : Moment) : Ensures Value.WellFormed (e.evaluate now c) :=
  e.wellFormed_evaluateWith (keepsForm_applyUpTo now deepest) hc now [] he

end NoteQuery
