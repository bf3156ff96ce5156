import NoteQuery.Eval.Evaluate
import NoteQuery.Proofs.Order.Stability
import NoteQuery.Proofs.Outcome.Yields
import NoteQuery.Proofs.Value.Bodies

/-! An expression depends on the names that it mentions only. A function keeps no context of where it was
made, so the names in its body are looked up where it is applied; they are names of the expression all the
same, for every function that can be reached has its body from there. By induction on how deep functions
are applied, and on the tree within. -/

namespace NoteQuery
set_option autoImplicit false
open Value

namespace Expr

mutual

/-- The names that are looked up in an expression, in the bodies of its functions too. -/
def names : Expr → List String
  | literal _ => []
  | name n => [n]
  | property base _ => base.names
  | index base key => base.names ++ key.names
  | binary _ left right => left.names ++ right.names
  | connect _ left right => left.names ++ right.names
  | unary _ operand => operand.names
  | call _ args => namesAll args
  | lambda _ body => body.names

def namesAll : List Expr → List String
  | [] => []
  | e :: es => e.names ++ namesAll es

end

/-- All names in an expression are among those of `S`. -/
def Over (S : String → Prop) (e : Expr) : Prop := ∀ n ∈ e.names, S n

end Expr

/-- Two computations come to the same, and to something good if to a value. -/
structure Coincide {α : Type} (good : α → Prop) (x y : Outcome α) : Prop where
  eq : x = y
  ensures : Ensures good x

namespace Coincide

variable {α β : Type} {good : α → Prop} {image : β → Prop} {x y : Outcome α}

theorem of_ensures (h : Ensures good x) : Coincide good x x := ⟨rfl, h⟩

theorem of_eq (h : x = y) : Coincide (fun _ => True) x y := ⟨h, ensures_iff.mpr fun _ _ => trivial⟩

theorem bind {f g : α → Outcome β} (h : Coincide good x y)
    (hf : ∀ a, good a → Coincide image (f a) (g a)) : Coincide image (x >>= f) (y >>= g) := by
  obtain ⟨rfl, hx⟩ := h
  cases x with
  | ok a => exact hf a hx
  | error e => exact ⟨rfl, trivial⟩

theorem map {f : α → β} (h : Coincide good x y) (hf : ∀ a, good a → image (f a)) :
    Coincide image (f <$> x) (f <$> y) := by
  obtain ⟨rfl, hx⟩ := h
  exact of_ensures (Yields.map (hx.imp hf fun _ _ => trivial))

theorem mapError (f : Failure → Failure) (h : Coincide good x y) :
    Coincide good (x.mapError f) (y.mapError f) := by
  obtain ⟨rfl, hx⟩ := h
  exact of_ensures hx.mapError

end Coincide

/-! ### Functions of the library -/

section
variable {P : Expr → Prop} {v w : Value}

namespace TextFunction

theorem onText_bodies (g : List Char → List Char) (v : Value) : Ensures (Bodies P) (onText g v) :=
  ensures_bind fun _ _ => trivial

theorem startsWith_bodies (v w : Value) : Ensures (Bodies P) (startsWith v w) :=
  ensures_bind fun _ _ => ensures_bind fun _ _ => trivial

theorem endsWith_bodies (v w : Value) : Ensures (Bodies P) (endsWith v w) :=
  ensures_bind fun _ _ => ensures_bind fun _ _ => trivial

theorem split_bodies (v w : Value) : Ensures (Bodies P) (split v w) := by
  refine ensures_bind fun cs _ => ensures_bind fun separator _ => ?_
  refine allBodies_iff.mpr ?_
  intro part hpart
  obtain ⟨p, -, rfl⟩ := List.mem_map.mp hpart
  trivial

theorem join_bodies (v w : Value) : Ensures (Bodies P) (join v w) := by
  cases v with
  | array items => exact ensures_bind fun _ _ => ensures_bind fun _ _ => trivial
  | _ => exact ensures_bind fun _ _ => trivial

theorem substring_bodies (v start stop : Value) : Ensures (Bodies P) (substring v start stop) :=
  ensures_bind fun _ _ => ensures_bind fun _ _ => ensures_bind fun _ _ => trivial

theorem replace_bodies (v pattern replacement : Value) :
    Ensures (Bodies P) (replace v pattern replacement) := by
  unfold replace
  split
  · refine ensures_bind fun p? _ => ?_
    cases p? with
    | none => trivial
    | some p =>
      refine ensures_bind fun _ _ => ensures_bind fun t? _ => ?_
      cases t? <;> trivial
  · trivial
  · exact ensures_bind fun _ _ => trivial

theorem regexReplace_bodies (v pattern replacement : Value) :
    Ensures (Bodies P) (regexReplace v pattern replacement) := by
  unfold regexReplace
  split
  · refine ensures_bind fun p? _ => ?_
    cases p? with
    | none => trivial
    | some p => exact ensures_bind fun _ _ => ensures_bind fun _ _ => trivial
  · exact ensures_bind fun _ _ => trivial

theorem regexMatch_bodies (v pattern : Value) : Ensures (Bodies P) (regexMatch v pattern) := by
  unfold regexMatch
  split
  · refine ensures_bind fun p? _ => ?_
    cases p? <;> trivial
  · trivial

end TextFunction

namespace DateFunction

theorem ofMoment?_bodies (m? : Option Moment) : (ofMoment? m?).Bodies P := by
  cases m? <;> trivial

theorem date_bodies (now : Moment) (v : Value) : Ensures (Bodies P) (date now v) := by
  have hmoment : Ensures (Bodies P) (do return ofMoment? (← v.moment?) : Outcome Value) :=
    ensures_bind fun _ _ => ofMoment?_bodies _
  cases v with
  | text s =>
    unfold date
    dsimp only
    generalize named? now (Text.lower (Text.strip s)) = named
    refine ensures_bind fun m? _ => ?_
    cases m? with
    | none => exact hmoment
    | some m => trivial
  | _ => exact hmoment

theorem fill_bodies (v : Value) (s : String) : Ensures (Bodies P) (dateFormat.fill v s) := by
  refine ensures_bind fun m? _ => ?_
  cases m? <;> trivial

theorem dateFormat_bodies (v format : Value) : Ensures (Bodies P) (dateFormat v format) := by
  unfold dateFormat
  split
  · exact fill_bodies v _
  · exact fill_bodies v _
  · trivial

theorem duration_bodies (v : Value) : Ensures (Bodies P) (duration v) := by
  unfold duration
  split
  · exact ensures_bind fun _ _ => trivial
  · trivial

end DateFunction

namespace NumberFunction

theorem ofNumber?_bodies (n? : Option Number) : (ofNumber? n?).Bodies P := by
  cases n? <;> trivial

theorem round_bodies (v places : Value) : Ensures (Bodies P) (round v places) := by
  unfold round
  split
  · trivial
  · trivial
  · exact ensures_bind fun _ _ => ensures_bind fun _ _ => trivial

theorem sum_bodies (args : List Value) : Ensures (Bodies P) (sum args) :=
  ensures_bind fun _ _ => trivial

theorem average_bodies (args : List Value) : Ensures (Bodies P) (average args) :=
  ensures_bind fun _ _ => ofNumber?_bodies _

end NumberFunction

namespace ArrayFunction

theorem contains_bodies (container v : Value) : Ensures (Bodies P) (contains container v) := by
  unfold contains
  split
  · exact ensures_bind fun _ _ => trivial
  · trivial
  · trivial
  · trivial
  · exact ensures_bind fun _ _ => ensures_bind fun _ _ => trivial

theorem length_bodies (v : Value) : (length v).Bodies P := by
  cases v <;> trivial

theorem reverse_bodies (h : v.Bodies P) : (reverse v).Bodies P := by
  cases v with
  | array items => exact allBodies_iff.mpr fun w hw => allBodies_iff.mp h w (List.mem_reverse.mp hw)
  | _ => exact h

/-- Sorting only moves the items. -/
theorem sort_bodies (h : v.Bodies P) (direction : Value) : Ensures (Bodies P) (sort v direction) := by
  cases v with
  | array items =>
    refine ensures_bind fun word _ => ensures_bind fun sorted hsorted => ?_
    have hperm := ensures_iff.mp (Order.sortM_perm _) sorted hsorted
    exact allBodies_iff.mpr fun w hw => allBodies_iff.mp h w (hperm.mem_iff.mp hw)
  | _ => exact h

theorem keepFrom_coincide {test test' : Nat → Value → Outcome Bool} {vs : List Value}
    (htest : ∀ n v, v.Bodies P → test n v = test' n v) (h : AllBodies P vs) (n : Nat) :
    Coincide (AllBodies P) (keepFrom test n vs) (keepFrom test' n vs) := by
  induction vs generalizing n with
  | nil => exact ⟨rfl, trivial⟩
  | cons v vs ih =>
    have hfirst := Coincide.of_eq (htest n v h.1)
    refine hfirst.bind fun kept _ => (ih h.2 (n + 1)).bind fun rest hrest => ?_
    refine .of_ensures ?_
    cases kept with
    | true => exact ⟨h.1, hrest⟩
    | false => exact hrest

theorem mapFrom_coincide {image image' : Nat → Value → Outcome Value} {vs : List Value}
    (himage : ∀ n v, v.Bodies P → Coincide (Bodies P) (image n v) (image' n v))
    (h : AllBodies P vs) (n : Nat) :
    Coincide (AllBodies P) (mapFrom image n vs) (mapFrom image' n vs) := by
  induction vs generalizing n with
  | nil => exact ⟨rfl, trivial⟩
  | cons v vs ih =>
    refine (himage n v h.1).bind fun w hw => (ih h.2 (n + 1)).bind fun ws hws => ?_
    exact .of_ensures ⟨hw, hws⟩

end ArrayFunction

/-- Two ways to apply functions agree on those whose bodies satisfy `P`, and make no others. -/
def Applier.Agree (P : Expr → Prop) (apply apply' : Applier) : Prop :=
  ∀ n x body v, P body → v.Bodies P → Coincide (Bodies P) (apply n x body v) (apply' n x body v)

section
variable {apply apply' : Applier} (happly : Applier.Agree P apply apply')
include happly

theorem ArrayFunction.filter_coincide (hv : v.Bodies P) (hw : w.Bodies P) :
    Coincide (Bodies P) (filter apply v w) (filter apply' v w) := by
  unfold filter
  split
  · next items _ x body =>
    have htest (n : Nat) (item : Value) (hitem : item.Bodies P) :
        Value.isTrue <$> apply n x body item = Value.isTrue <$> apply' n x body item := by
      rw [(happly n x body item hw hitem).eq]
    exact (keepFrom_coincide htest hv 0).map fun items hitems => hitems
  · exact .of_ensures hv

theorem ArrayFunction.map_coincide (hv : v.Bodies P) (hw : w.Bodies P) :
    Coincide (Bodies P) (map apply v w) (map apply' v w) := by
  unfold map
  split
  · next items _ x body =>
    have himage (n : Nat) (item : Value) (hitem : item.Bodies P) := happly n x body item hw hitem
    exact (mapFrom_coincide himage hv 0).map fun items hitems => hitems
  · exact .of_ensures hv

theorem Builtin.result_coincide (now : Moment) (b : Builtin) {args : List Value}
    (h : AllBodies P args) :
    Coincide (Bodies P) (b.result now apply args) (b.result now apply' args) := by
  have harg (i : Nat) : (args.getD i .null).Bodies P := bodies_getD h (d := .null) trivial i
  unfold result
  cases b with
  | date => exact .of_ensures (DateFunction.date_bodies now _)
  | dateFormat => exact .of_ensures (DateFunction.dateFormat_bodies _ _)
  | duration => exact .of_ensures (DateFunction.duration_bodies _)
  | contains => exact .of_ensures (ArrayFunction.contains_bodies _ _)
  | length => exact .of_ensures (ArrayFunction.length_bodies _)
  | join => exact .of_ensures (TextFunction.join_bodies _ _)
  | list => exact .of_ensures h
  | sort => exact .of_ensures (ArrayFunction.sort_bodies (harg 0) _)
  | reverse => exact .of_ensures (ArrayFunction.reverse_bodies (harg 0))
  | filter => exact ArrayFunction.filter_coincide happly (harg 0) (harg 1)
  | map => exact ArrayFunction.map_coincide happly (harg 0) (harg 1)
  | lower => exact .of_ensures (TextFunction.onText_bodies _ _)
  | upper => exact .of_ensures (TextFunction.onText_bodies _ _)
  | replace => exact .of_ensures (TextFunction.replace_bodies _ _ _)
  | split => exact .of_ensures (TextFunction.split_bodies _ _)
  | regexMatch => exact .of_ensures (TextFunction.regexMatch_bodies _ _)
  | regexReplace => exact .of_ensures (TextFunction.regexReplace_bodies _ _ _)
  | substring => exact .of_ensures (TextFunction.substring_bodies _ _ _)
  | startsWith => exact .of_ensures (TextFunction.startsWith_bodies _ _)
  | endsWith => exact .of_ensures (TextFunction.endsWith_bodies _ _)
  | default =>
    refine .of_ensures ?_
    dsimp only
    split
    · exact harg 1
    · exact harg 0
  | choice =>
    refine .of_ensures ?_
    dsimp only
    split
    · exact harg 1
    · exact harg 2
  | round => exact .of_ensures (NumberFunction.round_bodies _ _)
  | min => exact .of_ensures (NumberFunction.ofNumber?_bodies _)
  | max => exact .of_ensures (NumberFunction.ofNumber?_bodies _)
  | sum => exact .of_ensures (NumberFunction.sum_bodies args)
  | average => exact .of_ensures (NumberFunction.average_bodies args)

theorem callByName_coincide (now : Moment) (name : String) {args : List Value}
    (h : AllBodies P args) :
    Coincide (Bodies P) (callByName now apply name args) (callByName now apply' name args) := by
  unfold callByName
  split
  · exact ⟨rfl, trivial⟩
  · next b _ =>
    have hcheck := Coincide.of_eq (Eq.refl (b.signature.check name args.length))
    exact hcheck.bind fun _ _ => (b.result_coincide happly now h).mapError _

end

end

/-! ### Expressions -/

/-- Two contexts have the same value under every name of `S`, and the functions in it mention such names
only. -/
structure Context.Agree (S : String → Prop) (c c' : Context) : Prop where
  same : ∀ n, S n → c.resolve n = c'.resolve n
  bodies : ∀ n, S n → (c.resolve n).Bodies (Expr.Over S)

section
variable {S : String → Prop} {c c' : Context} {apply : Application}

theorem Context.Agree.bind (h : Agree S c c') {v : Value} (hv : v.Bodies (Expr.Over S))
    (x : String) : Agree S (c.bind x v) (c'.bind x v) where
  same := by
    intro n hn
    rw [resolve_bind, resolve_bind, h.same n hn]
  bodies := by
    intro n hn
    rw [resolve_bind]
    split
    · exact hv
    · exact h.bodies n hn

/-- Functions whose bodies are over `S` are applied to one effect in contexts that agree on `S`. -/
def Application.Respects (S : String → Prop) (apply : Application) : Prop :=
  ∀ site c c' x body v, Context.Agree S c c' → Expr.Over S body → v.Bodies (Expr.Over S) →
    Coincide (Bodies (Expr.Over S)) (apply site c x body v) (apply site c' x body v)

theorem member_coincide {P : Expr → Prop} {v : Value} (hv : v.Bodies P) (key : Value) :
    Coincide (Bodies P) (liftM (v.member key) : Outcome Value) (liftM (v.member key)) := by
  refine .of_ensures (Yields.lift ?_)
  unfold Value.member
  split
  · split <;> trivial
  · exact bodies_itemAt hv _
  · exact ensures_bind fun _ _ => bodies_get hv _
  · trivial

theorem Arithmetic.apply_bodies {P : Expr → Prop} (op : Arithmetic) (a b : Value) :
    Ensures (Bodies P) (op.apply a b) :=
  ensures_bind fun _ _ => ensures_bind fun _ _ => ensures_bind fun _ _ => trivial

theorem BinaryOp.apply_bodies {P : Expr → Prop} (op : BinaryOp) (a b : Value) :
    Ensures (Bodies P) (op.apply a b) := by
  cases op with
  | compare c => exact ensures_bind fun _ _ => trivial
  | compute c => exact c.apply_bodies a b

theorem UnaryOp.apply_bodies {P : Expr → Prop} (op : UnaryOp) (a : Value) :
    Ensures (Bodies P) (op.apply a) := by
  cases op with
  | not => trivial
  | negate => exact ensures_bind fun _ _ => trivial

mutual

theorem Expr.evaluateWith_coincide (happly : apply.Respects S) (hc : Context.Agree S c c')
    (now : Moment) (site : List Nat) : (e : Expr) → e.Over S →
    Coincide (Bodies (Expr.Over S)) (e.evaluateWith now apply site c)
      (e.evaluateWith now apply site c')
  | .literal v, _ => by
    simp only [evaluateWith]
    exact .of_ensures (bodies_ofLiteral v)
  | .name n, h => by
    have hn : S n := h n List.mem_cons_self
    simp only [evaluateWith]
    exact ⟨congrArg _ (hc.same n hn), hc.bodies n hn⟩
  | .property base key, h => by
    have hbase := evaluateWith_coincide happly hc now (0 :: site) base h
    simp only [evaluateWith]
    exact hbase.bind fun b hb => member_coincide hb _
  | .index base key, h => by
    obtain ⟨hb, hk⟩ := List.forall_mem_append.mp h
    have hbase := evaluateWith_coincide happly hc now (0 :: site) base hb
    have hkey := evaluateWith_coincide happly hc now (1 :: site) key hk
    simp only [evaluateWith]
    exact hbase.bind fun b hb => hkey.bind fun k _ => member_coincide hb k
  | .binary op left right, h => by
    obtain ⟨hl, hr⟩ := List.forall_mem_append.mp h
    have hleft := evaluateWith_coincide happly hc now (0 :: site) left hl
    have hright := evaluateWith_coincide happly hc now (1 :: site) right hr
    simp only [evaluateWith]
    exact hleft.bind fun a _ => hright.bind fun b _ => .of_ensures (op.apply_bodies a b)
  | .connect op left right, h => by
    obtain ⟨hl, hr⟩ := List.forall_mem_append.mp h
    have hleft := evaluateWith_coincide happly hc now (0 :: site) left hl
    have hright := evaluateWith_coincide happly hc now (1 :: site) right hr
    simp only [evaluateWith]
    refine hleft.bind fun a _ => ?_
    split
    · exact .of_ensures trivial
    · exact .of_ensures trivial
    · exact hright.bind fun b _ => .of_ensures trivial
  | .unary op operand, h => by
    have hoperand := evaluateWith_coincide happly hc now (0 :: site) operand h
    simp only [evaluateWith]
    exact hoperand.bind fun a _ => .of_ensures (op.apply_bodies a)
  | .call called args, h => by
    have hargs := evaluateAllWith_coincide happly hc now site 0 args h
    have hcall : Applier.Agree (Expr.Over S) (fun n => apply ((args.length + n) :: site) c)
        (fun n => apply ((args.length + n) :: site) c') :=
      fun n x body v hbody hv => happly _ c c' x body v hc hbody hv
    simp only [evaluateWith]
    exact hargs.bind fun vs hvs => callByName_coincide hcall now called hvs
  | .lambda x body, h => by
    simp only [evaluateWith]
    exact .of_ensures h

theorem Expr.evaluateAllWith_coincide (happly : apply.Respects S) (hc : Context.Agree S c c')
    (now : Moment) (site : List Nat) (n : Nat) : (es : List Expr) → (∀ x ∈ namesAll es, S x) →
    Coincide (AllBodies (Expr.Over S)) (Expr.evaluateAllWith now apply site c n es)
      (Expr.evaluateAllWith now apply site c' n es)
  | [], _ => by
    simp only [evaluateAllWith]
    exact .of_ensures trivial
  | e :: es, h => by
    obtain ⟨he, hes⟩ := List.forall_mem_append.mp h
    have hfirst := evaluateWith_coincide happly hc now (n :: site) e he
    have hrest := evaluateAllWith_coincide happly hc now site (n + 1) es hes
    simp only [evaluateAllWith]
    exact hfirst.bind fun v hv => hrest.bind fun vs hvs => .of_ensures ⟨hv, hvs⟩

end

theorem respects_applyUpTo (S : String → Prop) (now : Moment) (depth : Nat) :
    (applyUpTo now depth).Respects S := by
  induction depth with
  | zero => exact fun _ _ _ _ _ _ _ _ _ => ⟨rfl, trivial⟩
  | succ depth ih =>
    intro site c c' x body v hc hbody hv
    exact body.evaluateWith_coincide ih (hc.bind hv x) now site hbody

theorem Context.Agree.evaluate (hc : Context.Agree S c c') {e : Expr} (he : e.Over S)
    (now : Moment) : e.evaluate now c = e.evaluate now c' :=
  (e.evaluateWith_coincide (respects_applyUpTo S now deepest) hc now [] he).eq

end

/-- An expression depends only on the names that it mentions, where no function comes in from outside; what
comes in is the same in both contexts, so that one of them is asked about functions. -/
theorem Expr.evaluate_congr {c c' : Context} (hc : c.HasNoFunction) (e : Expr)
    (h : ∀ n ∈ e.names, c.resolve n = c'.resolve n) (now : Moment) :
    e.evaluate now c = e.evaluate now c' := by
  have hagree : Context.Agree (· ∈ e.names) c c' :=
    ⟨h, fun n _ => Bodies.imp (fun _ hfalse => hfalse.elim) _ (hc.resolve n)⟩
  exact hagree.evaluate (fun _ hn => hn) now

/-- What a name stands for may come from a field or a parameter; the file and the other names do not
matter. -/
theorem Expr.evaluate_congr_filter :
    let e : Expr := .call "filter"
      [.name "tags", .lambda "x" (.binary (.compare .ne) (.name "x") (.name "status"))]
    let tags : Value := .array [.text "open", .text "done"]
    let c : Context := ⟨[("status", .text "open"), ("tags", tags)], [("name", .text "note")], []⟩
    let c' : Context := ⟨[("tags", .null), ("rating", .int 5)], [],
      [("tags", tags), ("status", .text "open")]⟩
    (c.HasNoFunction ∧ ∀ n ∈ e.names, c.resolve n = c'.resolve n) ∧
      e.evaluate default c = e.evaluate default c' ∧
      e.evaluate default c' = .ok (.array [.text "done"]) := by
  intro e tags c c'
  have hnone : c.HasNoFunction :=
    ⟨⟨trivial, ⟨trivial, trivial, trivial⟩, trivial⟩, ⟨trivial, trivial⟩, trivial⟩
  have hsame : ∀ n ∈ e.names, c.resolve n = c'.resolve n := by
    intro n hn
    have hcases : n = "tags" ∨ n = "x" ∨ n = "status" := by
      simpa [e, names, namesAll] using hn
    obtain rfl | rfl | rfl := hcases <;> rfl
  exact ⟨⟨hnone, hsame⟩, evaluate_congr hnone e hsame default, rfl⟩

end NoteQuery
