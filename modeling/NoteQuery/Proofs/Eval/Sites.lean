import NoteQuery.Eval.Evaluate
import NoteQuery.Proofs.Order.Relabelling
import NoteQuery.Proofs.Value.Origins

/-! Where an expression is evaluated. The site of an evaluation only tells apart the functions that are made,
so at another site there is the same value with other origins in it, or the same failure. By induction
on how deep functions are applied, and on the tree within. -/

namespace NoteQuery
set_option autoImplicit false
open Value

variable {f : Origin → Origin}

/-! ### Operators -/

section
variable (hf : Function.Injective f)
include hf

theorem Comparison.holds_relabel (c : Comparison) (a b : Value) :
    c.holds (a.relabel f) (b.relabel f) = c.holds a b := by
  cases c <;> simp only [holds, equal_relabel hf, less_relabel]

theorem BinaryOp.apply_relabel (op : BinaryOp) (a b : Value) :
    op.apply (a.relabel f) (b.relabel f) = relabel f <$> op.apply a b := by
  cases op with
  | compare c => simp only [apply, c.holds_relabel hf, map_bind, map_pure, relabel]
  | compute c =>
    simp only [apply, Arithmetic.apply, asOperand_relabel, map_bind, map_pure, relabel]

end

theorem UnaryOp.apply_relabel (op : UnaryOp) (a : Value) :
    op.apply (a.relabel f) = relabel f <$> op.apply a := by
  cases op <;>
    simp only [apply, isTrue_relabel, asOperand_relabel, map_bind, map_pure, relabel]

/-! ### Functions of the library -/

namespace TextFunction

theorem onText_relabel (g : List Char → List Char) (v : Value) :
    onText g (v.relabel f) = relabel f <$> onText g v := by
  simp only [onText, display_relabel, map_bind, map_pure, relabel]

theorem startsWith_relabel (v w : Value) :
    startsWith (v.relabel f) (w.relabel f) = relabel f <$> startsWith v w := by
  simp only [startsWith, display_relabel, map_bind, map_pure, relabel]

theorem endsWith_relabel (v w : Value) :
    endsWith (v.relabel f) (w.relabel f) = relabel f <$> endsWith v w := by
  simp only [endsWith, display_relabel, map_bind, map_pure, relabel]

theorem split_relabel (v w : Value) :
    split (v.relabel f) (w.relabel f) = relabel f <$> split v w := by
  simp only [split, display_relabel, map_bind, map_pure, relabel, relabelAll_eq, List.map_map,
    Function.comp_def]

/-- Functions on texts show any other value as it is displayed. -/
theorem text_display_relabel (v : Value) :
    (do return Value.text (← (v.relabel f).display) : Outcome Value) =
      relabel f <$> (do return Value.text (← v.display) : Outcome Value) := by
  simp only [display_relabel, map_bind, map_pure, relabel]

theorem join_relabel (v w : Value) :
    join (v.relabel f) (w.relabel f) = relabel f <$> join v w := by
  cases v with
  | array items =>
    simp only [join, relabel, display_relabel, displayAll_relabel, map_bind, map_pure]
  | _ => exact text_display_relabel _

theorem position_relabel (v : Value) (default : Int) :
    position (v.relabel f) default = position v default := by
  cases v <;> rfl

theorem substring_relabel (v start stop : Value) :
    substring (v.relabel f) (start.relabel f) (stop.relabel f) =
      relabel f <$> substring v start stop := by
  simp only [substring, display_relabel, position_relabel, map_bind, map_pure, relabel]

theorem replace_relabel (v pattern replacement : Value) :
    replace (v.relabel f) (pattern.relabel f) (replacement.relabel f) =
      relabel f <$> replace v pattern replacement := by
  cases v with
  | text s =>
    cases pattern with
    | text source =>
      simp only [replace, relabel, display_relabel, mention_relabel, map_bind]
      refine bind_congr fun p? => ?_
      cases p? with
      | none => rfl
      | some p =>
        simp only [map_bind]
        refine bind_congr fun w => bind_congr fun t? => ?_
        cases t? <;> rfl
    | _ => rfl
  | _ => exact text_display_relabel _

theorem regexReplace_relabel (v pattern replacement : Value) :
    regexReplace (v.relabel f) (pattern.relabel f) (replacement.relabel f) =
      relabel f <$> regexReplace v pattern replacement := by
  cases v with
  | text s =>
    cases pattern with
    | text source =>
      simp only [regexReplace, relabel, display_relabel, map_bind]
      refine bind_congr fun p? => ?_
      cases p? with
      | none => rfl
      | some p => simp only [map_bind, map_pure, relabel]
    | _ => exact text_display_relabel (.text s)
  | _ => exact text_display_relabel _

theorem regexMatch_relabel (v pattern : Value) :
    regexMatch (v.relabel f) (pattern.relabel f) = relabel f <$> regexMatch v pattern := by
  cases v with
  | text s =>
    cases pattern with
    | text source =>
      simp only [regexMatch, relabel, map_bind]
      refine bind_congr fun p? => ?_
      cases p? <;> rfl
    | _ => rfl
  | _ => rfl

end TextFunction

namespace DateFunction

theorem ofMoment?_relabel (m? : Option Moment) : (ofMoment? m?).relabel f = ofMoment? m? := by
  cases m? <;> rfl

theorem date_relabel (now : Moment) (v : Value) :
    date now (v.relabel f) = relabel f <$> date now v := by
  cases v with
  | text s =>
    simp only [date, relabel, map_bind]
    refine bind_congr fun m? => ?_
    cases m? with
    | none => simp only [map_bind, map_pure, ofMoment?_relabel]
    | some m => rfl
  | _ => simp only [date, relabel, moment?, map_bind, map_pure, ofMoment?_relabel]

theorem dateFormat_relabel (v format : Value) :
    dateFormat (v.relabel f) (format.relabel f) = relabel f <$> dateFormat v format := by
  have hfill (s : String) : dateFormat.fill (v.relabel f) s = relabel f <$> dateFormat.fill v s := by
    simp only [dateFormat.fill, moment?_relabel, map_bind]
    refine bind_congr fun m? => ?_
    cases m? <;> rfl
  cases format with
  | text s =>
    simp only [dateFormat, kind_relabel, relabel]
    cases v.kind with
    | date => exact hfill s
    | text => exact hfill s
    | _ => rfl
  | _ => cases v <;> rfl

theorem duration_relabel (v : Value) : duration (v.relabel f) = relabel f <$> duration v := by
  cases v with
  | text s => simp only [duration, relabel, map_bind, map_pure, Value.int]
  | _ => rfl

end DateFunction

namespace NumberFunction

theorem ofNumber?_relabel (n? : Option Number) : (ofNumber? n?).relabel f = ofNumber? n? := by
  cases n? <;> rfl

theorem round_relabel (v places : Value) :
    round (v.relabel f) (places.relabel f) = relabel f <$> round v places := by
  simp only [round, number?_relabel, TextFunction.position_relabel]
  split
  · rfl
  · rfl
  · simp only [map_bind, map_pure, relabel]

theorem min_relabel (args : List Value) : (min args).relabel f = min (args.map (relabel f)) := by
  rw [min, min, ofNumber?_relabel, ← relabelAll_eq, allNumbers_relabel]

theorem max_relabel (args : List Value) : (max args).relabel f = max (args.map (relabel f)) := by
  rw [max, max, ofNumber?_relabel, ← relabelAll_eq, allNumbers_relabel]

theorem sum_relabel (args : List Value) :
    sum (args.map (relabel f)) = relabel f <$> sum args := by
  simp only [sum, ← relabelAll_eq, allNumbers_relabel, map_bind, map_pure, relabel]

theorem average_relabel (args : List Value) :
    average (args.map (relabel f)) = relabel f <$> average args := by
  simp only [average, ← relabelAll_eq, allNumbers_relabel, map_bind, map_pure, ofNumber?_relabel]

end NumberFunction

namespace ArrayFunction

theorem anyM_relabel (items : List Value) (v : Value) :
    ((relabelAll f items).anyM fun item => liftM (item.deepEqual (v.relabel f)) : Outcome Bool) =
      items.anyM fun item => liftM (item.deepEqual v) := by
  induction items with
  | nil => rfl
  | cons item items ih =>
    rw [relabelAll, List.anyM, List.anyM, deepEqual_relabel]
    exact bind_congr fun found => by cases found <;> [exact ih; rfl]

theorem contains_relabel (container v : Value) :
    contains (container.relabel f) (v.relabel f) = relabel f <$> contains container v := by
  have hdisplayed (c v : Value) : (do
      return Value.bool (Text.occursIn (← (v.relabel f).display).toList
        (← (c.relabel f).display).toList) : Outcome Value) = relabel f <$> (do
      return Value.bool (Text.occursIn (← v.display).toList (← c.display).toList)) := by
    simp only [display_relabel, map_bind, map_pure, relabel]
  cases container with
  | array items => simp only [contains, relabel, anyM_relabel, map_bind, map_pure]
  | null => cases v <;> rfl
  | text s =>
    cases v with
    | text t => rfl
    | null => rfl
    | _ => exact hdisplayed (.text s) _
  | _ =>
    cases v with
    | null => rfl
    | _ => exact hdisplayed _ _

theorem length_relabel (v : Value) : (length v).relabel f = length (v.relabel f) := by
  cases v <;> simp [length, relabel, Value.int]

theorem stands_relabel (before : Ordering) (a b : Value) :
    stands before (a.relabel f) (b.relabel f) = stands before a b := by
  simp only [stands, compare_relabel]

theorem sort_relabel (v direction : Value) :
    sort (v.relabel f) (direction.relabel f) = relabel f <$> sort v direction := by
  cases v with
  | array items =>
    simp only [sort, relabel, relabelAll_eq, display_relabel, Order.sortM_map, stands_relabel,
      map_bind, map_pure, bind_map_left]
  | _ => rfl

theorem reverse_relabel (v : Value) : (reverse v).relabel f = reverse (v.relabel f) := by
  cases v <;> simp [reverse, relabel]

theorem keepFrom_relabel {test test' : Nat → Value → Outcome Bool}
    (htest : ∀ n v, test' n (v.relabel f) = test n v) (n : Nat) (vs : List Value) :
    keepFrom test' n (relabelAll f vs) = relabelAll f <$> keepFrom test n vs := by
  induction vs generalizing n with
  | nil => rfl
  | cons v vs ih =>
    simp only [relabelAll, keepFrom, htest, ih, map_bind, bind_map_left]
    refine bind_congr fun kept => bind_congr fun rest => ?_
    cases kept <;> rfl

theorem mapFrom_relabel {image image' : Nat → Value → Outcome Value}
    (himage : ∀ n v, image' n (v.relabel f) = relabel f <$> image n v) (n : Nat) (vs : List Value) :
    mapFrom image' n (relabelAll f vs) = relabelAll f <$> mapFrom image n vs := by
  induction vs generalizing n with
  | nil => rfl
  | cons v vs ih =>
    simp only [relabelAll, mapFrom, himage, ih, map_bind, bind_map_left, map_pure]

section
variable {apply apply' : Applier}
  (happly : ∀ n x body v, apply' n x body (v.relabel f) = relabel f <$> apply n x body v)
include happly

theorem filter_relabel (v test : Value) :
    filter apply' (v.relabel f) (test.relabel f) = relabel f <$> filter apply v test := by
  cases v with
  | array items =>
    cases test with
    | function o x body =>
      have htest (n : Nat) (v : Value) :
          Value.isTrue <$> apply' n x body (v.relabel f) = Value.isTrue <$> apply n x body v := by
        simp only [happly, Functor.map_map, isTrue_relabel]
      have h : keepFrom (fun n item => Value.isTrue <$> apply' n x body item) 0
            (relabelAll f items) = relabelAll f <$>
          keepFrom (fun n item => Value.isTrue <$> apply n x body item) 0 items :=
        keepFrom_relabel htest 0 items
      simp only [filter, relabel, h, Functor.map_map]
    | _ => rfl
  | _ => rfl

theorem map_relabel (v image : Value) :
    map apply' (v.relabel f) (image.relabel f) = relabel f <$> map apply v image := by
  cases v with
  | array items =>
    cases image with
    | function o x body =>
      have h := mapFrom_relabel (fun n v => happly n x body v) 0 items
      simp only [map, relabel, h, Functor.map_map]
    | _ => rfl
  | _ => rfl

end

end ArrayFunction

theorem getD_relabel (args : List Value) (i : Nat) {d : Value} (hd : d.relabel f = d) :
    (args.map (relabel f)).getD i d = (args.getD i d).relabel f := by
  rw [List.getD_eq_getElem?_getD, List.getElem?_map, List.getD_eq_getElem?_getD]
  cases args[i]? with
  | none => exact hd.symm
  | some v => rfl

theorem ite_relabel {b b' : Bool} (hb : b' = b) (v w : Value) :
    (if b' then v.relabel f else w.relabel f) = (if b then v else w).relabel f := by
  rw [hb]
  cases b <;> rfl

section
variable {apply apply' : Applier}
  (happly : ∀ n x body v, apply' n x body (v.relabel f) = relabel f <$> apply n x body v)
include happly

theorem Builtin.result_relabel (now : Moment) (b : Builtin) (args : List Value) :
    b.result now apply' (args.map (relabel f)) = relabel f <$> b.result now apply args := by
  have harg (i : Nat) : (args.map (relabel f)).getD i .null = (args.getD i .null).relabel f :=
    getD_relabel args i rfl
  have hint (i : Nat) (n : Int) :
      (args.map (relabel f)).getD i (.int n) = (args.getD i (.int n)).relabel f :=
    getD_relabel args i rfl
  have htext (i : Nat) (s : String) :
      (args.map (relabel f)).getD i (.text s) = (args.getD i (.text s)).relabel f :=
    getD_relabel args i rfl
  simp only [result, harg, hint, htext]
  cases b with
  | date => exact DateFunction.date_relabel now _
  | dateFormat => exact DateFunction.dateFormat_relabel _ _
  | duration => exact DateFunction.duration_relabel _
  | contains => exact ArrayFunction.contains_relabel _ _
  | length => exact congrArg Except.ok (ArrayFunction.length_relabel _).symm
  | join => exact TextFunction.join_relabel _ _
  | list => exact congrArg (Except.ok ∘ Value.array) (relabelAll_eq f args).symm
  | sort => exact ArrayFunction.sort_relabel _ _
  | reverse => exact congrArg Except.ok (ArrayFunction.reverse_relabel _).symm
  | filter => exact ArrayFunction.filter_relabel happly _ _
  | map => exact ArrayFunction.map_relabel happly _ _
  | lower => exact TextFunction.onText_relabel _ _
  | upper => exact TextFunction.onText_relabel _ _
  | replace => exact TextFunction.replace_relabel _ _ _
  | split => exact TextFunction.split_relabel _ _
  | regexMatch => exact TextFunction.regexMatch_relabel _ _
  | regexReplace => exact TextFunction.regexReplace_relabel _ _ _
  | substring => exact TextFunction.substring_relabel _ _ _
  | startsWith => exact TextFunction.startsWith_relabel _ _
  | endsWith => exact TextFunction.endsWith_relabel _ _
  | default => exact congrArg Except.ok (ite_relabel (isNull_relabel f _) _ _)
  | choice => exact congrArg Except.ok (ite_relabel (isTrue_relabel f _) _ _)
  | round => exact NumberFunction.round_relabel _ _
  | min => exact congrArg Except.ok (NumberFunction.min_relabel args).symm
  | max => exact congrArg Except.ok (NumberFunction.max_relabel args).symm
  | sum => exact NumberFunction.sum_relabel args
  | average => exact NumberFunction.average_relabel args

theorem callByName_relabel (now : Moment) (name : String) (args : List Value) :
    callByName now apply' name (args.map (relabel f)) =
      relabel f <$> callByName now apply name args := by
  unfold callByName
  cases Builtin.ofName? name with
  | none => rfl
  | some b =>
    simp only [List.length_map, b.result_relabel happly, map_bind]
    refine bind_congr fun _ => ?_
    cases b.result now apply args <;> rfl

end

/-! ### Expressions -/

/-- The context with other origins of the functions in it. -/
def Context.relabel (f : Origin → Origin) (c : Context) : Context where
  fields := relabelEntries f c.fields
  file := relabelEntries f c.file
  scope := relabelEntries f c.scope

theorem Context.resolve_relabel (c : Context) (name : String) :
    (c.relabel f).resolve name = (c.resolve name).relabel f := by
  unfold resolve relabel
  rw [get?_relabel]
  cases Record.get? c.scope name with
  | some v => rfl
  | none =>
    simp only [Option.map_none, get_relabel]
    split <;> rfl

theorem Context.bind_relabel (c : Context) (name : String) (v : Value) :
    (c.bind name v).relabel f = (c.relabel f).bind name (v.relabel f) := by
  simp only [bind, relabel, insert_relabel]

theorem liftM_member_relabel (v key : Value) :
    (liftM ((v.relabel f).member (key.relabel f)) : Outcome Value) =
      relabel f <$> (liftM (v.member key) : Outcome Value) := by
  rw [member_relabel]
  cases v.member key <;> rfl

theorem ofLiteral_relabel (v : Literal) : (ofLiteral v).relabel f = ofLiteral v := by
  cases v <;> rfl

/-- Applications at two sites have one result, but for the origins that `f` puts in. -/
structure Moves (f : Origin → Origin) (here there : List Nat) (apply apply' : Application) :
    Prop where
  injective : Function.Injective f
  made : ∀ s, f (.made (s ++ here)) = .made (s ++ there)
  applied : ∀ s c x body v, apply' (s ++ there) (c.relabel f) x body (v.relabel f) =
    relabel f <$> apply (s ++ here) c x body v

section
variable {here there : List Nat} {apply apply' : Application}

mutual

theorem Expr.evaluateWith_relabel (h : Moves f here there apply apply') (now : Moment)
    (c : Context) (s : List Nat) : (e : Expr) →
    e.evaluateWith now apply' (s ++ there) (c.relabel f) =
      relabel f <$> e.evaluateWith now apply (s ++ here) c
  | .literal v => by
    simp only [evaluateWith]
    exact congrArg Except.ok (ofLiteral_relabel v).symm
  | .name n => by
    simp only [evaluateWith]
    exact congrArg Except.ok (c.resolve_relabel n)
  | .property base key => by
    have hb := evaluateWith_relabel h now c (0 :: s) base
    simp only [List.cons_append] at hb
    simp only [evaluateWith, hb, map_bind, bind_map_left]
    refine bind_congr fun b => ?_
    rw [← ofLiteral_relabel (f := f) key, liftM_member_relabel, ofLiteral_relabel]
  | .index base key => by
    have hb := evaluateWith_relabel h now c (0 :: s) base
    have hk := evaluateWith_relabel h now c (1 :: s) key
    simp only [List.cons_append] at hb hk
    simp only [evaluateWith, hb, hk, map_bind, bind_map_left]
    exact bind_congr fun b => bind_congr fun k => liftM_member_relabel b k
  | .binary op left right => by
    have hl := evaluateWith_relabel h now c (0 :: s) left
    have hr := evaluateWith_relabel h now c (1 :: s) right
    simp only [List.cons_append] at hl hr
    simp only [evaluateWith, hl, hr, map_bind, bind_map_left, op.apply_relabel h.injective]
  | .connect op left right => by
    have hl := evaluateWith_relabel h now c (0 :: s) left
    have hr := evaluateWith_relabel h now c (1 :: s) right
    simp only [List.cons_append] at hl hr
    simp only [evaluateWith, hl, hr, map_bind, bind_map_left, isTrue_relabel]
    refine bind_congr fun a => ?_
    cases op <;> cases a.isTrue <;> simp only [map_bind, map_pure, relabel]
  | .unary op operand => by
    have ho := evaluateWith_relabel h now c (0 :: s) operand
    simp only [List.cons_append] at ho
    simp only [evaluateWith, ho, map_bind, bind_map_left, op.apply_relabel]
  | .call called args => by
    have happlied (n : Nat) (x : String) (body : Expr) (v : Value) :=
      h.applied ((args.length + n) :: s) c x body v
    simp only [List.cons_append] at happlied
    simp only [evaluateWith, evaluateAllWith_relabel h now c s 0 args, map_bind, bind_map_left,
      callByName_relabel happlied]
  | .lambda x body => by
    simp only [evaluateWith]
    exact congrArg (fun o => Except.ok (function o x body)) (h.made s).symm

theorem Expr.evaluateAllWith_relabel (h : Moves f here there apply apply') (now : Moment)
    (c : Context) (s : List Nat) (n : Nat) : (es : List Expr) →
    Expr.evaluateAllWith now apply' (s ++ there) (c.relabel f) n es =
      List.map (relabel f) <$> Expr.evaluateAllWith now apply (s ++ here) c n es
  | [] => rfl
  | e :: es => by
    have he := evaluateWith_relabel h now c (n :: s) e
    have hes := evaluateAllWith_relabel h now c s (n + 1) es
    simp only [List.cons_append] at he
    simp only [evaluateAllWith, he, hes, map_bind, bind_map_left, map_pure, List.map_cons]

end

end

theorem moves_applyUpTo {here there : List Nat} (hf : Function.Injective f)
    (hmade : ∀ s, f (.made (s ++ here)) = .made (s ++ there)) (now : Moment) (depth : Nat) :
    Moves f here there (applyUpTo now depth) (applyUpTo now depth) := by
  refine ⟨hf, hmade, ?_⟩
  induction depth with
  | zero => intro s c x body v; rfl
  | succ depth ih =>
    intro s c x body v
    have h := Expr.evaluateWith_relabel ⟨hf, hmade, ih⟩ now (c.bind x v) s body
    rwa [c.bind_relabel] at h

/-! ### Contexts from outside -/

namespace Origin

/-- An origin from outside stays what it is. -/
def asGiven : Origin → Origin
  | given n => given n
  | made _ => given 0

/-- What is made at the first site is made as far below another one. -/
def below (site : List Nat) : Origin → Origin
  | given n => given n
  | made s => made (s ++ site)

theorem below_injective (site : List Nat) : Function.Injective (below site) := by
  intro o p h
  cases o <;> cases p <;> simp_all [below]

theorem below_comp_asGiven (site : List Nat) : below site ∘ asGiven = asGiven := by
  funext o
  cases o <;> rfl

end Origin

/-- All functions in the context, if any, are given from outside: none is made by an evaluation. -/
def Context.IsGiven (c : Context) : Prop := c.relabel Origin.asGiven = c

theorem Context.IsGiven.relabel_below {c : Context} (hc : c.IsGiven) (site : List Nat) :
    c.relabel (Origin.below site) = c := by
  conv_lhs => rw [← hc]
  simp only [relabel, relabelEntries_relabelEntries, Origin.below_comp_asGiven]
  exact hc

theorem Expr.evaluateWith_site (now : Moment) {c : Context} (hc : c.IsGiven) (site : List Nat)
    (e : Expr) : e.evaluateWith now (applyUpTo now deepest) site c =
      relabel (Origin.below site) <$> e.evaluate now c := by
  have hmoves : Moves (Origin.below site) [] site (applyUpTo now deepest) (applyUpTo now deepest) :=
    moves_applyUpTo (Origin.below_injective site)
      (fun s => by rw [List.append_nil]; rfl) now deepest
  have h := evaluateWith_relabel hmoves now c [] e
  rwa [hc.relabel_below, List.nil_append, List.append_nil] at h

end NoteQuery
