import NoteQuery.Proofs.Eval.Mentions

/-! The parameter of a function can have any other name. Functions are applied where they are written, by
`filter` and `map`, so that two expressions whose names correspond come to the same in contexts that have
the same under names that correspond. By induction on how deep functions are applied, and on how the two
expressions correspond within. -/

namespace NoteQuery
set_option autoImplicit false
open Value

namespace Expr

mutual

/-- The names that functions in an expression give to their parameters. -/
def parameters : Expr → List String
  | literal _ => []
  | name _ => []
  | property base _ => base.parameters
  | index base key => base.parameters ++ key.parameters
  | binary _ left right => left.parameters ++ right.parameters
  | connect _ left right => left.parameters ++ right.parameters
  | unary _ operand => operand.parameters
  | call _ args => parametersAll args
  | lambda x body => x :: body.parameters

def parametersAll : List Expr → List String
  | [] => []
  | e :: es => e.parameters ++ parametersAll es

end

mutual

/-- The expression with `y` for `x`, except within functions whose parameter is called `x`. -/
def rename (x y : String) : Expr → Expr
  | literal v => literal v
  | name n => name (if n = x then y else n)
  | property base key => property (base.rename x y) key
  | index base key => index (base.rename x y) (key.rename x y)
  | binary op left right => binary op (left.rename x y) (right.rename x y)
  | connect op left right => connect op (left.rename x y) (right.rename x y)
  | unary op operand => unary op (operand.rename x y)
  | call f args => call f (renameAll x y args)
  | lambda z body => lambda z (if z = x then body else body.rename x y)

def renameAll (x y : String) : List Expr → List Expr
  | [] => []
  | e :: es => e.rename x y :: renameAll x y es

end

/-- The parameter of one function in an expression has become `y`, and so have the names bound by it. -/
inductive Renamed (y : String) : Expr → Expr → Prop where
  | here (x : String) (body : Expr) : Renamed y (lambda x body) (lambda y (body.rename x y))
  | property {base base' : Expr} (key : Literal) (h : Renamed y base base') :
      Renamed y (property base key) (property base' key)
  | base {base base' : Expr} (key : Expr) (h : Renamed y base base') :
      Renamed y (index base key) (index base' key)
  | key (base : Expr) {key key' : Expr} (h : Renamed y key key') :
      Renamed y (index base key) (index base key')
  | left (op : BinaryOp) {left left' : Expr} (right : Expr) (h : Renamed y left left') :
      Renamed y (binary op left right) (binary op left' right)
  | right (op : BinaryOp) (left : Expr) {right right' : Expr} (h : Renamed y right right') :
      Renamed y (binary op left right) (binary op left right')
  | first (op : Connective) {left left' : Expr} (right : Expr) (h : Renamed y left left') :
      Renamed y (connect op left right) (connect op left' right)
  | second (op : Connective) (left : Expr) {right right' : Expr} (h : Renamed y right right') :
      Renamed y (connect op left right) (connect op left right')
  | operand (op : UnaryOp) {operand operand' : Expr} (h : Renamed y operand operand') :
      Renamed y (unary op operand) (unary op operand')
  | argument (f : String) (before : List Expr) {arg arg' : Expr} (after : List Expr)
      (h : Renamed y arg arg') :
      Renamed y (call f (before ++ arg :: after)) (call f (before ++ arg' :: after))
  | body (x : String) {body body' : Expr} (h : Renamed y body body') :
      Renamed y (lambda x body) (lambda x body')

/-- The names of the calls that apply a function to the items of an array. -/
def AppliesFunction (f : String) : Prop :=
  Builtin.ofName? f = some .filter ∨ Builtin.ofName? f = some .map

/-- Every function in an expression is the second of two arguments of a call that applies it. -/
inductive Applied : Expr → Prop where
  | literal (v : Literal) : Applied (literal v)
  | name (n : String) : Applied (name n)
  | property {base : Expr} (key : Literal) (h : Applied base) : Applied (property base key)
  | index {base key : Expr} (hbase : Applied base) (hkey : Applied key) : Applied (index base key)
  | binary (op : BinaryOp) {left right : Expr} (hleft : Applied left) (hright : Applied right) :
      Applied (binary op left right)
  | connect (op : Connective) {left right : Expr} (hleft : Applied left) (hright : Applied right) :
      Applied (connect op left right)
  | unary (op : UnaryOp) {operand : Expr} (h : Applied operand) : Applied (unary op operand)
  | call (f : String) {args : List Expr} (h : ∀ a ∈ args, Applied a) : Applied (call f args)
  | apply {f : String} (hf : AppliesFunction f) {v : Expr} (x : String) {body : Expr}
      (hv : Applied v) (hbody : Applied body) : Applied (call f [v, lambda x body])

/-- Which names correspond in the bodies of two functions. -/
def Under (R : String → String → Prop) (x x' n n' : String) : Prop :=
  n = x ∧ n' = x' ∨ n ≠ x ∧ n' ≠ x' ∧ R n n'

mutual

/-- Two expressions whose functions are applied where they stand, and whose names correspond. -/
inductive Alike : (String → String → Prop) → Expr → Expr → Prop where
  | literal {R : String → String → Prop} (v : Literal) : Alike R (literal v) (literal v)
  | name {R : String → String → Prop} {n n' : String} (h : R n n') : Alike R (name n) (name n')
  | property {R : String → String → Prop} {base base' : Expr} (key : Literal)
      (h : Alike R base base') : Alike R (property base key) (property base' key)
  | index {R : String → String → Prop} {base base' key key' : Expr} (hbase : Alike R base base')
      (hkey : Alike R key key') : Alike R (index base key) (index base' key')
  | binary {R : String → String → Prop} (op : BinaryOp) {left left' right right' : Expr}
      (hleft : Alike R left left') (hright : Alike R right right') :
      Alike R (binary op left right) (binary op left' right')
  | connect {R : String → String → Prop} (op : Connective) {left left' right right' : Expr}
      (hleft : Alike R left left') (hright : Alike R right right') :
      Alike R (connect op left right) (connect op left' right')
  | unary {R : String → String → Prop} (op : UnaryOp) {operand operand' : Expr}
      (h : Alike R operand operand') : Alike R (unary op operand) (unary op operand')
  | call {R : String → String → Prop} (f : String) {args args' : List Expr}
      (h : AllAlike R args args') : Alike R (call f args) (call f args')
  | apply {R : String → String → Prop} {f : String} (hf : AppliesFunction f) {v v' : Expr}
      {x x' : String} {body body' : Expr} (hv : Alike R v v')
      (hbody : Alike (Under R x x') body body') :
      Alike R (call f [v, lambda x body]) (call f [v', lambda x' body'])

inductive AllAlike : (String → String → Prop) → List Expr → List Expr → Prop where
  | nil {R : String → String → Prop} : AllAlike R [] []
  | cons {R : String → String → Prop} {e e' : Expr} {es es' : List Expr} (h : Alike R e e')
      (hs : AllAlike R es es') : AllAlike R (e :: es) (e' :: es')

end

/-! ### Renaming -/

section
variable {R : String → String → Prop} {x y : String} {e e' : Expr}

theorem under_self {n : String} (h : R n n) (x : String) : Under R x x n n := by
  by_cases hn : n = x
  · exact .inl ⟨hn, hn⟩
  · exact .inr ⟨hn, hn, h⟩

theorem names_of_mem {es : List Expr} (h : e ∈ es) {n : String} (hn : n ∈ e.names) :
    n ∈ namesAll es := by
  induction es with
  | nil => cases h
  | cons d es ih =>
    rw [namesAll, List.mem_append]
    obtain rfl | h := List.mem_cons.mp h
    · exact .inl hn
    · exact .inr (ih h)

theorem parameters_of_mem {es : List Expr} (h : e ∈ es) {n : String} (hn : n ∈ e.parameters) :
    n ∈ parametersAll es := by
  induction es with
  | nil => cases h
  | cons d es ih =>
    rw [parametersAll, List.mem_append]
    obtain rfl | h := List.mem_cons.mp h
    · exact .inl hn
    · exact .inr (ih h)

theorem renameAll_eq (x y : String) (es : List Expr) : renameAll x y es = es.map (rename x y) := by
  induction es with
  | nil => rfl
  | cons e es ih => rw [renameAll, ih, List.map_cons]

theorem allAlike_map {f : Expr → Expr} {es : List Expr} (h : ∀ e ∈ es, Alike R e (f e)) :
    AllAlike R es (es.map f) := by
  induction es with
  | nil => exact .nil
  | cons e es ih =>
    rw [List.forall_mem_cons] at h
    exact .cons h.1 (ih h.2)

theorem AllAlike.append {es es' ds ds' : List Expr} (h : AllAlike R es es') (k : AllAlike R ds ds') :
    AllAlike R (es ++ ds) (es' ++ ds') := by
  induction es generalizing es' with
  | nil =>
    cases h
    exact k
  | cons e es ih =>
    cases h with
    | cons hfirst hrest => exact .cons hfirst (ih hrest)

/-- One argument of a call is another one, and the rest are alike themselves. -/
theorem allAlike_replace {before after : List Expr} (hbefore : ∀ a ∈ before, Alike R a a)
    (hafter : ∀ a ∈ after, Alike R a a) (h : Alike R e e') :
    AllAlike R (before ++ e :: after) (before ++ e' :: after) := by
  have hself {es : List Expr} (hes : ∀ a ∈ es, Alike R a a) : AllAlike R es es := by
    simpa using allAlike_map (f := id) hes
  exact (hself hbefore).append (.cons h (hself hafter))

/-- An expression is alike itself where each of its names corresponds to itself. -/
theorem Applied.alike (h : Applied e) (hnames : ∀ n ∈ e.names, R n n) : Alike R e e := by
  induction h generalizing R with
  | literal v => exact .literal v
  | name n => exact .name (hnames n List.mem_cons_self)
  | property key _ ih => exact .property key (ih hnames)
  | index _ _ ihbase ihkey =>
    obtain ⟨hbase, hkey⟩ := List.forall_mem_append.mp hnames
    exact .index (ihbase hbase) (ihkey hkey)
  | binary op _ _ ihleft ihright =>
    obtain ⟨hleft, hright⟩ := List.forall_mem_append.mp hnames
    exact .binary op (ihleft hleft) (ihright hright)
  | connect op _ _ ihleft ihright =>
    obtain ⟨hleft, hright⟩ := List.forall_mem_append.mp hnames
    exact .connect op (ihleft hleft) (ihright hright)
  | unary op _ ih => exact .unary op (ih hnames)
  | @call f args _ ih =>
    refine .call f ?_
    rw [← List.map_id args]
    simpa using allAlike_map (f := id) fun a ha => ih a ha fun n hn => hnames n (names_of_mem ha hn)
  | apply hf x _ _ ihv ihbody =>
    simp only [names, namesAll, List.append_nil, List.forall_mem_append] at hnames
    exact .apply hf (ihv hnames.1) (ihbody fun n hn => under_self (hnames.2 n hn) x)

/-- An expression is alike the one in which `x` has become a name `y` that it does not mention. -/
theorem Applied.alike_rename (h : Applied e) (hy : y ∉ e.parameters) (hxy : R x y)
    (hnames : ∀ n ∈ e.names, n ≠ x → R n n) : Alike R e (e.rename x y) := by
  induction h generalizing R with
  | literal v => exact .literal v
  | name n =>
    refine .name ?_
    split
    · next hn => rwa [hn]
    · next hn => exact hnames n List.mem_cons_self hn
  | property key _ ih => exact .property key (ih hy hxy hnames)
  | index _ _ ihbase ihkey =>
    simp only [parameters, List.mem_append, not_or] at hy
    obtain ⟨hbase, hkey⟩ := List.forall_mem_append.mp hnames
    exact .index (ihbase hy.1 hxy hbase) (ihkey hy.2 hxy hkey)
  | binary op _ _ ihleft ihright =>
    simp only [parameters, List.mem_append, not_or] at hy
    obtain ⟨hleft, hright⟩ := List.forall_mem_append.mp hnames
    exact .binary op (ihleft hy.1 hxy hleft) (ihright hy.2 hxy hright)
  | connect op _ _ ihleft ihright =>
    simp only [parameters, List.mem_append, not_or] at hy
    obtain ⟨hleft, hright⟩ := List.forall_mem_append.mp hnames
    exact .connect op (ihleft hy.1 hxy hleft) (ihright hy.2 hxy hright)
  | unary op _ ih => exact .unary op (ih hy hxy hnames)
  | call f _ ih =>
    rw [rename, renameAll_eq]
    refine .call f (allAlike_map fun a ha => ?_)
    exact ih a ha (fun h => hy (parameters_of_mem ha h)) hxy fun n hn => hnames n (names_of_mem ha hn)
  | @apply f hf v z body hv hbody ihv ihbody =>
    simp only [parameters, parametersAll, List.append_nil, List.mem_append, List.mem_cons,
      not_or] at hy
    simp only [names, namesAll, List.append_nil, List.forall_mem_append] at hnames
    refine .apply hf (ihv hy.1 hxy hnames.1) ?_
    -- a function with the parameter `x` hides the `x` around it
    split
    · next hz =>
      subst hz
      refine hbody.alike fun n hn => ?_
      by_cases hnz : n = z
      · exact .inl ⟨hnz, hnz⟩
      · exact .inr ⟨hnz, hnz, hnames.2 n hn hnz⟩
    · next hz =>
      refine ihbody hy.2.2 (.inr ⟨Ne.symm hz, hy.2.1, hxy⟩) fun n hn hnx => ?_
      exact under_self (hnames.2 n hn hnx) z

/-- What a renaming comes to: where functions are applied the two expressions are alike, and so are the
bodies where the expression is itself the function. -/
theorem Renamed.alike (h : Renamed y e e') (hnames : y ∉ e.names) (hparameters : y ∉ e.parameters)
    (hR : ∀ n ∈ e.names, R n n) :
    (Applied e → Alike R e e') ∧ ∀ x body, e = lambda x body → Applied body →
      ∃ x' body', e' = lambda x' body' ∧ Alike (Under R x x') body body' := by
  induction h generalizing R with
  | here x body =>
    refine ⟨by rintro ⟨⟩, ?_⟩
    rintro x body ⟨⟩ hbody
    simp only [parameters, List.mem_cons, not_or] at hparameters
    refine ⟨y, _, rfl, hbody.alike_rename hparameters.2 (.inl ⟨rfl, rfl⟩) fun n hn hne => ?_⟩
    refine .inr ⟨hne, ?_, hR n hn⟩
    rintro rfl
    exact hnames hn
  | property key h ih =>
    refine ⟨fun happ => ?_, by rintro _ _ ⟨⟩⟩
    cases happ with
    | property _ happ => exact .property key ((ih hnames hparameters hR).1 happ)
  | base key h ih =>
    simp only [names, parameters, List.mem_append, not_or] at hnames hparameters
    obtain ⟨hRbase, hRkey⟩ := List.forall_mem_append.mp hR
    refine ⟨fun happ => ?_, by rintro _ _ ⟨⟩⟩
    cases happ with
    | index hbase hkey =>
      exact .index ((ih hnames.1 hparameters.1 hRbase).1 hbase) (hkey.alike hRkey)
  | key base h ih =>
    simp only [names, parameters, List.mem_append, not_or] at hnames hparameters
    obtain ⟨hRbase, hRkey⟩ := List.forall_mem_append.mp hR
    refine ⟨fun happ => ?_, by rintro _ _ ⟨⟩⟩
    cases happ with
    | index hbase hkey =>
      exact .index (hbase.alike hRbase) ((ih hnames.2 hparameters.2 hRkey).1 hkey)
  | left op right h ih =>
    simp only [names, parameters, List.mem_append, not_or] at hnames hparameters
    obtain ⟨hRleft, hRright⟩ := List.forall_mem_append.mp hR
    refine ⟨fun happ => ?_, by rintro _ _ ⟨⟩⟩
    cases happ with
    | binary _ hleft hright =>
      exact .binary op ((ih hnames.1 hparameters.1 hRleft).1 hleft) (hright.alike hRright)
  | right op left h ih =>
    simp only [names, parameters, List.mem_append, not_or] at hnames hparameters
    obtain ⟨hRleft, hRright⟩ := List.forall_mem_append.mp hR
    refine ⟨fun happ => ?_, by rintro _ _ ⟨⟩⟩
    cases happ with
    | binary _ hleft hright =>
      exact .binary op (hleft.alike hRleft) ((ih hnames.2 hparameters.2 hRright).1 hright)
  | first op right h ih =>
    simp only [names, parameters, List.mem_append, not_or] at hnames hparameters
    obtain ⟨hRleft, hRright⟩ := List.forall_mem_append.mp hR
    refine ⟨fun happ => ?_, by rintro _ _ ⟨⟩⟩
    cases happ with
    | connect _ hleft hright =>
      exact .connect op ((ih hnames.1 hparameters.1 hRleft).1 hleft) (hright.alike hRright)
  | second op left h ih =>
    simp only [names, parameters, List.mem_append, not_or] at hnames hparameters
    obtain ⟨hRleft, hRright⟩ := List.forall_mem_append.mp hR
    refine ⟨fun happ => ?_, by rintro _ _ ⟨⟩⟩
    cases happ with
    | connect _ hleft hright =>
      exact .connect op (hleft.alike hRleft) ((ih hnames.2 hparameters.2 hRright).1 hright)
  | operand op h ih =>
    refine ⟨fun happ => ?_, by rintro _ _ ⟨⟩⟩
    cases happ with
    | unary _ happ => exact .unary op ((ih hnames hparameters hR).1 happ)
  | @argument f before arg arg' after h ih =>
    have hmem : arg ∈ before ++ arg :: after := by simp
    have harg := @ih R (fun hy => hnames (names_of_mem hmem hy))
      (fun hy => hparameters (parameters_of_mem hmem hy)) fun n hn => hR n (names_of_mem hmem hn)
    refine ⟨fun happ => ?_, by rintro _ _ ⟨⟩⟩
    generalize hargs : before ++ arg :: after = args at happ hR
    cases happ with
    | call _ hall =>
      subst hargs
      have hself (a : Expr) (ha : a ∈ before ++ arg :: after) : Alike R a a :=
        (hall a ha).alike fun n hn => hR n (names_of_mem ha hn)
      refine .call f (allAlike_replace (fun a ha => hself a ?_) (fun a ha => hself a ?_) ?_)
      · exact List.mem_append_left _ ha
      · exact List.mem_append_right _ (List.mem_cons_of_mem _ ha)
      · exact harg.1 (hall arg hmem)
    | @apply _ hf v x body hv hbody =>
      simp only [names, namesAll, List.append_nil, List.forall_mem_append] at hR
      -- the argument is the array or the function
      rcases before with - | ⟨_, - | ⟨_, before⟩⟩
      · cases hargs
        exact .apply hf (harg.1 hv) (hbody.alike fun n hn => under_self (hR.2 n hn) x)
      · cases hargs
        obtain ⟨x', body', rfl, halike⟩ := harg.2 x body rfl hbody
        exact .apply hf (hv.alike hR.1) halike
      · simp at hargs
  | body x h ih =>
    simp only [parameters, List.mem_cons, not_or] at hparameters
    refine ⟨by rintro ⟨⟩, ?_⟩
    rintro x body ⟨⟩ hbody
    exact ⟨x, _, rfl, (ih hnames hparameters.2 fun n hn => under_self (hR n hn) x).1 hbody⟩

end
end Expr

/-! ### Evaluation -/

/-- Names that correspond stand for one value without functions. -/
structure Context.Match (R : String → String → Prop) (c c' : Context) : Prop where
  same : ∀ n n', R n n' → c.resolve n = c'.resolve n'
  bodies : ∀ n n', R n n' → (c.resolve n).HasNoFunction

section
variable {R : String → String → Prop} {c c' : Context} {apply : Application} {now : Moment}

theorem Context.Match.bind (h : Match R c c') {v : Value} (hv : v.HasNoFunction) (x x' : String) :
    Match (Expr.Under R x x') (c.bind x v) (c'.bind x' v) where
  same := by
    rintro n n' (⟨rfl, rfl⟩ | ⟨hn, hn', hR⟩)
    · rw [resolve_bind, resolve_bind, if_pos rfl, if_pos rfl]
    · rw [resolve_bind, resolve_bind, if_neg hn, if_neg hn', h.same n n' hR]
  bodies := by
    rintro n n' (⟨rfl, -⟩ | ⟨hn, -, hR⟩)
    · rwa [resolve_bind, if_pos rfl]
    · rw [resolve_bind, if_neg hn]
      exact h.bodies n n' hR

/-- Functions with bodies that are alike are applied to one effect. -/
def Application.Matches (apply : Application) : Prop :=
  ∀ {R x x' body body' c c'} (site : List Nat) (v : Value), Expr.Alike (Expr.Under R x x') body body' →
    Context.Match R c c' → v.HasNoFunction →
      Coincide HasNoFunction (apply site c x body v) (apply site c' x' body' v)

/-- Without functions nothing is applied. -/
theorem agree_of_noFunction (apply apply' : Applier) : Applier.Agree (fun _ => False) apply apply' :=
  fun _ _ _ _ hfalse _ => hfalse.elim

/-- Two functions that come to the same for each item filter an array alike, and map it alike. -/
theorem callByName_alike {f : String} (hf : Expr.AppliesFunction f) {apply apply' : Applier}
    {v : Value} (hv : v.HasNoFunction) (o : Origin) {x x' : String} {body body' : Expr}
    (h : ∀ n item, HasNoFunction item →
      Coincide HasNoFunction (apply n x body item) (apply' n x' body' item)) :
    Coincide HasNoFunction (callByName now apply f [v, .function o x body])
      (callByName now apply' f [v, .function o x' body']) := by
  obtain hf | hf := hf
  · have hcall (a : Applier) (w : Value) : callByName now a f [v, w] =
        (ArrayFunction.filter a v w).mapError (Failure.inCall f) := by
      simp only [callByName, hf]
      rfl
    rw [hcall, hcall]
    refine Coincide.mapError _ ?_
    cases v with
    | array items =>
      have htest (n : Nat) (item : Value) (hitem : item.HasNoFunction) :
          Value.isTrue <$> apply n x body item = Value.isTrue <$> apply' n x' body' item := by
        rw [(h n item hitem).eq]
      exact (ArrayFunction.keepFrom_coincide htest hv 0).map fun _ hitems => hitems
    | _ => exact .of_ensures hv
  · have hcall (a : Applier) (w : Value) : callByName now a f [v, w] =
        (ArrayFunction.map a v w).mapError (Failure.inCall f) := by
      simp only [callByName, hf]
      rfl
    rw [hcall, hcall]
    refine Coincide.mapError _ ?_
    cases v with
    | array items => exact (ArrayFunction.mapFrom_coincide h hv 0).map fun _ hitems => hitems
    | _ => exact .of_ensures hv

mutual

theorem Expr.Alike.coincide (happly : apply.Matches) {R : String → String → Prop}
    {c c' : Context} (hc : Context.Match R c c') (site : List Nat) {e e' : Expr} :
    Alike R e e' → Coincide HasNoFunction (e.evaluateWith now apply site c)
      (e'.evaluateWith now apply site c')
  | .literal v => by
    simp only [evaluateWith]
    exact .of_ensures (bodies_ofLiteral v)
  | .name h => by
    simp only [evaluateWith]
    exact ⟨congrArg _ (hc.same _ _ h), hc.bodies _ _ h⟩
  | .property key h => by
    have hbase := h.coincide happly hc (0 :: site)
    simp only [evaluateWith]
    exact hbase.bind fun b hb => member_coincide hb _
  | .index hbase hkey => by
    have hb := hbase.coincide happly hc (0 :: site)
    have hk := hkey.coincide happly hc (1 :: site)
    simp only [evaluateWith]
    exact hb.bind fun b hb => hk.bind fun k _ => member_coincide hb k
  | .binary op hleft hright => by
    have hl := hleft.coincide happly hc (0 :: site)
    have hr := hright.coincide happly hc (1 :: site)
    simp only [evaluateWith]
    exact hl.bind fun a _ => hr.bind fun b _ => .of_ensures (op.apply_bodies a b)
  | .connect op hleft hright => by
    have hl := hleft.coincide happly hc (0 :: site)
    have hr := hright.coincide happly hc (1 :: site)
    simp only [evaluateWith]
    refine hl.bind fun a _ => ?_
    split
    · exact .of_ensures trivial
    · exact .of_ensures trivial
    · exact hr.bind fun b _ => .of_ensures trivial
  | .unary op h => by
    have hoperand := h.coincide happly hc (0 :: site)
    simp only [evaluateWith]
    exact hoperand.bind fun a _ => .of_ensures (op.apply_bodies a)
  | .call f h => by
    have hargs := h.coincide happly hc site 0
    simp only [evaluateWith]
    exact hargs.bind fun vs hvs => callByName_coincide (agree_of_noFunction _ _) now f hvs
  | .apply hf hv hbody => by
    have hfirst := hv.coincide happly hc (0 :: site)
    simp only [evaluateWith, evaluateAllWith, bind_assoc, pure_bind]
    refine hfirst.bind fun v hv => ?_
    exact callByName_alike hf hv _ fun n item hitem => happly _ item hbody hc hitem

theorem Expr.AllAlike.coincide (happly : apply.Matches) {R : String → String → Prop}
    {c c' : Context} (hc : Context.Match R c c') (site : List Nat) (n : Nat) {es es' : List Expr} :
    AllAlike R es es' → Coincide (AllBodies fun _ => False)
      (evaluateAllWith now apply site c n es) (evaluateAllWith now apply site c' n es')
  | .nil => by
    simp only [evaluateAllWith]
    exact .of_ensures trivial
  | .cons h hs => by
    have hfirst := h.coincide happly hc (n :: site)
    have hrest := hs.coincide happly hc site (n + 1)
    simp only [evaluateAllWith]
    exact hfirst.bind fun v hv => hrest.bind fun vs hvs => .of_ensures ⟨hv, hvs⟩

end

theorem matches_applyUpTo (now : Moment) (depth : Nat) : (applyUpTo now depth).Matches := by
  induction depth with
  | zero => exact fun _ _ _ _ _ => ⟨rfl, trivial⟩
  | succ depth ih =>
    intro R x x' body body' c c' site v halike hc hv
    exact halike.coincide ih (hc.bind hv x x') site

end

/-- Another name for the parameter of a function, one that an expression does not mention, changes nothing in
what the expression comes to, if functions are applied where they stand and none comes in from outside. -/
theorem Expr.evaluate_renamed {e e' : Expr} {y : String} {c : Context} (happlied : e.Applied)
    (hnames : y ∉ e.names) (hparameters : y ∉ e.parameters) (h : Renamed y e e')
    (hc : c.HasNoFunction) (now : Moment) : e'.evaluate now c = e.evaluate now c := by
  have halike : Alike Eq e e' := (h.alike hnames hparameters fun _ _ => rfl).1 happlied
  have hmatch : Context.Match Eq c c :=
    ⟨fun n n' hn => hn ▸ rfl, fun n _ _ => hc.resolve n⟩
  exact (halike.coincide (matches_applyUpTo now deepest) hmatch []).eq.symm

/-- The inner function hides the parameter of the outer one and keeps its own; the new name is that of the
file and of a field, which it hides in turn. -/
theorem Expr.evaluate_renamed_file :
    let inner : Expr := .call "filter" [.name "x", .lambda "x" (.binary (.compare .gt) (.name "x")
      (.name "limit"))]
    let e : Expr := .call "MAP" [.name "rows", .lambda "x" inner]
    let e' : Expr := .call "MAP" [.name "rows", .lambda "file" (.call "filter" [.name "file",
      .lambda "x" (.binary (.compare .gt) (.name "x") (.name "limit"))])]
    let c : Context := ⟨[("rows", .array [.array [.int 1, .int 5], .text "a"]), ("limit", .int 2),
      ("x", .int 9), ("file", .int 7)], [("name", .text "note")], []⟩
    (e.Applied ∧ "file" ∉ e.names ∧ "file" ∉ e.parameters ∧ Renamed "file" e e' ∧ c.HasNoFunction) ∧
      e'.evaluate default c = e.evaluate default c ∧
      e.evaluate default c = .ok (.array [.array [.int 5], .text "a"]) := by
  intro inner e e' c
  have hinner : inner.Applied :=
    .apply (.inl (by decide +kernel)) _ (.name _) (.binary _ (.name _) (.name _))
  have happlied : e.Applied := .apply (.inr (by decide +kernel)) _ (.name _) hinner
  have hrenamed : Renamed "file" e e' := .argument "MAP" [.name "rows"] [] (.here "x" inner)
  have hnone : c.HasNoFunction := by
    refine ⟨?_, ?_, trivial⟩
    · simp [c, EntriesBodies, AllBodies, Bodies, Value.int]
    · simp [c, EntriesBodies, Bodies]
  have hnames : "file" ∉ e.names := by decide
  have hparameters : "file" ∉ e.parameters := by decide
  exact ⟨⟨happlied, hnames, hparameters, hrenamed, hnone⟩,
    evaluate_renamed happlied hnames hparameters hrenamed hnone default, rfl⟩

end NoteQuery
