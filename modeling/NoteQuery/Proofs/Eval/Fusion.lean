import NoteQuery.Proofs.Eval.Sites
import NoteQuery.Proofs.Outcome.Together

/-! Two filters in one another keep what one filter keeps whose test asks for both. The items come from another
site then, and so do the functions that the tests make. No test can tell, as long as what it makes stays
different from what is in the items. -/

namespace NoteQuery
set_option autoImplicit false
open Value

/-! ### Sites that are apart -/

namespace Origin

/-- No site lies below both. -/
def Apart (s t : List Nat) : Prop := ∀ r, s <:+ r → ¬t <:+ r

/-- Puts what is made below `s` below one site, what is made below `t` below another one, and the rest out
of the way. -/
def arrange (s t : List Nat) : Origin → Origin
  | given n => given n
  | made r =>
    made (if s <:+ r then r.take (r.length - s.length) ++ [0]
      else if t <:+ r then r.take (r.length - t.length) ++ [1]
      else r ++ [2])

variable {s t : List Nat}

theorem arrange_first (s t q : List Nat) : arrange s t (made (q ++ s)) = made (q ++ [0]) := by
  rw [arrange, if_pos (List.suffix_append q s), List.length_append, Nat.add_sub_cancel, List.take_left]

theorem arrange_second (h : Apart s t) (q : List Nat) : arrange s t (made (q ++ t)) = made (q ++ [1]) := by
  have hs : ¬s <:+ q ++ t := fun hs => h _ hs (List.suffix_append q t)
  rw [arrange, if_neg hs, if_pos (List.suffix_append q t), List.length_append, Nat.add_sub_cancel,
    List.take_left]

/-- Two sites are apart where the ways to them part. -/
theorem apart_of_ne {i j : Nat} (h : i ≠ j) (s t way : List Nat) :
    Apart (s ++ i :: way) (t ++ j :: way) := by
  intro r hs ht
  have hi : i :: way <:+ r := (List.suffix_append s _).trans hs
  have hj : j :: way <:+ r := (List.suffix_append t _).trans ht
  exact h (List.cons.inj ((List.suffix_of_suffix_length_le hi hj le_rfl).eq_of_length rfl)).1

/-- What is put below a site tells where it was. -/
theorem exists_arrange (s t r : List Nat) : ∃ q i, arrange s t (made r) = made (q ++ [i]) ∧
    r = q ++ if i = 0 then s else if i = 1 then t else [] := by
  rw [arrange]
  split
  · next hs =>
    obtain ⟨q, rfl⟩ := hs
    exact ⟨_, 0, rfl, by simp⟩
  · split
    · next ht =>
      obtain ⟨q, rfl⟩ := ht
      exact ⟨_, 1, rfl, by simp⟩
    · exact ⟨r, 2, rfl, by simp⟩

theorem arrange_injective (s t : List Nat) : Function.Injective (arrange s t) := by
  intro o p h
  cases o with
  | given m =>
    cases p with
    | given n => exact h
    | made r => cases h
  | made r =>
    cases p with
    | given n => cases h
    | made r' =>
      obtain ⟨q, i, himage, hr⟩ := exists_arrange s t r
      obtain ⟨q', i', himage', hr'⟩ := exists_arrange s t r'
      rw [himage, himage'] at h
      obtain ⟨hq, hi⟩ := List.append_inj' (made.inj h) rfl
      rw [hr, hr', hq, List.singleton_inj.mp hi]

theorem arrange_comp_below (s t : List Nat) : arrange s t ∘ below s = below [0] := by
  funext o
  cases o with
  | given n => rfl
  | made q => exact arrange_first s t q

theorem arrange_comp_asGiven (s t : List Nat) : arrange s t ∘ asGiven = asGiven := by
  funext o
  cases o <;> rfl

end Origin

theorem Context.IsGiven.relabel_arrange {c : Context} (hc : c.IsGiven) (s t : List Nat) :
    c.relabel (Origin.arrange s t) = c := by
  conv_lhs => rw [← hc]
  simp only [relabel, relabelEntries_relabelEntries, Origin.arrange_comp_asGiven]
  exact hc

/-! ### Tests of items -/

section
variable {now : Moment} {depth : Nat} {c : Context} {x : String} {s t : List Nat}

/-- What a test says of an item that was made below `s` when it is evaluated at `t`. -/
def Expr.testAt (now : Moment) (depth : Nat) (c : Context) (x : String) (s t : List Nat) (body : Expr)
    (item : Value) : Outcome Bool :=
  isTrue <$> body.evaluateWith now (applyUpTo now depth) t (c.bind x (item.relabel (Origin.below s)))

/-- A test says the same of an item wherever it is evaluated, apart from where the item was made. -/
theorem Expr.testAt_apart (hc : c.IsGiven) (h : Origin.Apart s t) (body : Expr) (item : Value) :
    body.testAt now depth c x s t item = body.testAt now depth c x [0] [1] item := by
  have hmoves := moves_applyUpTo (Origin.arrange_injective s t) (Origin.arrange_second h) now depth
  have hbody := evaluateWith_relabel hmoves now (c.bind x (item.relabel (Origin.below s))) [] body
  rw [Context.bind_relabel, hc.relabel_arrange, relabel_relabel, Origin.arrange_comp_below,
    List.nil_append, List.nil_append] at hbody
  rw [testAt, testAt, hbody, Functor.map_map]
  simp only [isTrue_relabel]

end

/-! ### Filters -/

namespace ArrayFunction

/-- One test and then, where it holds, another one. -/
def both (p q : Value → Outcome Bool) (v : Value) : Outcome Bool := do
  if ← p v then q v else return false

/-- The items of an array for which a test holds; any other value stays as it is. -/
def keep (test : Value → Outcome Bool) : Value → Outcome Value
  | .array items => .array <$> keepFrom (fun _ => test) 0 items
  | v => .ok v

theorem keepFrom_both (p q : Value → Outcome Bool) (n m k : Nat) (vs : List Value) :
    Together Eq (keepFrom (fun _ => p) n vs >>= keepFrom (fun _ => q) m)
      (keepFrom (fun _ => both p q) k vs) := by
  induction vs generalizing n m k with
  | nil => exact .refl _
  | cons v vs ih =>
    simp only [keepFrom, both, bind_assoc, pure_bind]
    refine .after _ fun kept _ => ?_
    cases kept with
    | false =>
      simp only [Bool.false_eq_true, if_false, pure_bind, bind_pure]
      exact ih (n + 1) m (k + 1)
    | true =>
      simp only [if_true, keepFrom]
      -- the second test of the item moves before the tests of the items after it
      refine .congr (.comm _ _ _) (.refl _) (.after _ fun kept _ => ?_)
      rw [← bind_assoc]
      exact (ih (n + 1) (m + 1) (k + 1)).andThen _

theorem keep_both (p q : Value → Outcome Bool) (v : Value) :
    Together Eq (keep p v >>= keep q) (keep (both p q) v) := by
  cases v with
  | array items =>
    simp only [keep, bind_map_left]
    rw [← map_bind]
    exact (keepFrom_both p q 0 0 0 items).map fun _ => rfl
  | _ => exact .refl _

theorem filter_below {apply : Applier} {s : List Nat} {x : String} {body : Expr}
    {test : Value → Outcome Bool}
    (h : ∀ n item, isTrue <$> apply n x body (item.relabel (Origin.below s)) = test item) (o : Origin)
    (v : Value) :
    filter apply (v.relabel (Origin.below s)) (.function o x body) =
      relabel (Origin.below s) <$> keep test v := by
  cases v with
  | array items =>
    have hkeep : keepFrom (fun n item => isTrue <$> apply n x body item) 0
        (relabelAll (Origin.below s) items) =
          relabelAll (Origin.below s) <$> keepFrom (fun _ => test) 0 items := keepFrom_relabel h 0 items
    simp only [filter, keep, relabel, hkeep, Functor.map_map]
  | _ => rfl

end ArrayFunction

section
variable {now : Moment} {c : Context} {x : String}

/-- A call of `filter` with a function that is written in the call. -/
def Expr.filtered (e : Expr) (x : String) (body : Expr) : Expr := .call "filter" [e, .lambda x body]

theorem Expr.evaluateWith_filtered (now : Moment) (apply : Application) (site : List Nat) (c : Context)
    (e : Expr) (x : String) (body : Expr) :
    (e.filtered x body).evaluateWith now apply site c = e.evaluateWith now apply (0 :: site) c >>= fun v =>
      (ArrayFunction.filter (fun n => apply ((2 + n) :: site) c) v
        (.function (.made (1 :: site)) x body)).mapError (Failure.inCall "filter") := by
  have hname : Builtin.ofName? "filter" = some .filter := by decide +kernel
  simp only [filtered, evaluateWith, evaluateAllWith, bind_assoc, pure_bind, callByName, hname]
  rfl

/-- One value, but for where the functions in it were made: those that are the same stay the same, different
ones stay different, and those from outside stay what they are. -/
def Value.IsVariant (v w : Value) : Prop :=
  ∃ f, Function.Injective f ∧ (∀ n, f (.given n) = .given n) ∧ w = v.relabel f

theorem Value.isVariant_below (v : Value) :
    IsVariant (v.relabel (Origin.below [0, 0])) (v.relabel (Origin.below [0])) := by
  refine ⟨Origin.arrange [0, 0] [1], Origin.arrange_injective _ _, fun _ => rfl, ?_⟩
  rw [relabel_relabel, Origin.arrange_comp_below]

theorem Expr.evaluateWith_filtered_below {apply : Application} {s : List Nat} {e body : Expr}
    {o : Outcome Value} {test : Value → Outcome Bool} (site : List Nat)
    (he : e.evaluateWith now apply (0 :: site) c = relabel (Origin.below s) <$> o)
    (htest : ∀ n item,
      isTrue <$> apply ((2 + n) :: site) c x body (item.relabel (Origin.below s)) = test item) :
    (e.filtered x body).evaluateWith now apply site c = relabel (Origin.below s) <$> (o >>= fun v =>
      (ArrayFunction.keep test v).mapError (Failure.inCall "filter")) := by
  rw [evaluateWith_filtered, he, bind_map_left, map_bind]
  refine bind_congr fun v => ?_
  rw [ArrayFunction.filter_below htest]
  cases ArrayFunction.keep test v <;> rfl

/-- A conjunction asks its right side only where its left side holds. -/
theorem Expr.testAt_and {depth : Nat} {s t : List Nat} (p q : Expr) (item : Value) :
    (connect .and p q).testAt now depth c x s t item =
      ArrayFunction.both (p.testAt now depth c x s (0 :: t)) (q.testAt now depth c x s (1 :: t)) item := by
  rw [testAt, evaluateWith, ArrayFunction.both, testAt, testAt, map_bind, bind_map_left]
  refine bind_congr fun v => ?_
  cases v.isTrue with
  | false => rfl
  | true =>
    rw [if_pos rfl]
    cases q.evaluateWith now (applyUpTo now depth) (1 :: t) _ <;> rfl

/-- Filtering twice, by one test and then by another, comes to filtering once by both: either both fail, or
both have one value. -/
theorem Expr.evaluate_filtered_filtered (hc : c.IsGiven) (now : Moment) (e p q : Expr) (x : String) :
    Together Value.IsVariant (((e.filtered x p).filtered x q).evaluate now c)
      ((e.filtered x (.connect .and p q)).evaluate now c) := by
  obtain ⟨depth, hdepth⟩ : ∃ depth, deepest = depth + 1 := ⟨999, rfl⟩
  let test (body : Expr) := body.testAt now depth c x [0] [1]
  have happlied {s t : List Nat} (h : Origin.Apart s t) (body : Expr) (item : Value) :
      isTrue <$> applyUpTo now deepest t c x body (item.relabel (Origin.below s)) = test body item := by
    rw [hdepth]
    exact testAt_apart hc h body item
  have hboth (n : Nat) (item : Value) :
      isTrue <$> applyUpTo now deepest [2 + n] c x (.connect .and p q) (item.relabel (Origin.below [0])) =
        ArrayFunction.both (test p) (test q) item := by
    have hp : p.testAt now depth c x [0] [0, 2 + n] item = test p item :=
      testAt_apart hc (Origin.apart_of_ne (by omega) [] [0] []) p item
    have hq : q.testAt now depth c x [0] [1, 2 + n] item = test q item :=
      testAt_apart hc (Origin.apart_of_ne (by omega) [] [1] []) q item
    rw [hdepth]
    change (connect .and p q).testAt now depth c x [0] [2 + n] item = _
    rw [testAt_and, ArrayFunction.both, hp, hq]
    rfl
  have hinner := evaluateWith_filtered_below (x := x) [0] (evaluateWith_site now hc [0, 0] e)
    fun n => happlied (t := [2 + n, 0]) (Origin.apart_of_ne (by omega) [] [] [0]) p
  have houter := evaluateWith_filtered_below (x := x) [] hinner
    fun n => happlied (t := [2 + n]) (Origin.apart_of_ne (by omega) [0] [] []) q
  have hfused := evaluateWith_filtered_below (x := x) [] (evaluateWith_site now hc [0] e) hboth
  unfold evaluate
  rw [houter, hfused, bind_assoc]
  refine Together.map (.after _ fun v _ => ?_) fun u => u.isVariant_below
  rw [bind_mapError]
  exact (ArrayFunction.keep_both (test p) (test q) v).mapError _ _

end

/-- The function in the list is another one each time, and the text fails no test. -/
theorem Expr.evaluate_filtered_filtered_function :
    let c : Context := ⟨[("n", .int 1)], [], []⟩
    let e : Expr := .call "list" [.name "n", .lambda "y" (.name "y"), .literal (.text "t"), .literal .null]
    let p : Expr := .name "x"
    let q : Expr := .unary .not (.binary (.compare .eq) (.name "x") (.name "n"))
    c.IsGiven ∧ ∃ v w, ((e.filtered "x" p).filtered "x" q).evaluate default c = .ok v ∧
      (e.filtered "x" (.connect .and p q)).evaluate default c = .ok w ∧ v.kind = .array ∧ v.IsVariant w := by
  intro c e p q
  have hc : c.IsGiven := rfl
  have hkind : (((e.filtered "x" p).filtered "x" q).evaluate default c).toOption.map Value.kind =
      some .array := by decide +kernel
  obtain ⟨v, hv, hv'⟩ := Option.map_eq_some_iff.mp hkind
  have h := evaluate_filtered_filtered hc default e p q "x"
  rw [toOption_eq_some.mp hv] at h ⊢
  cases hw : (e.filtered "x" (.connect .and p q)).evaluate default c with
  | error f => rw [hw] at h; cases h
  | ok w =>
    rw [hw] at h
    cases h with
    | values h => exact ⟨hc, v, w, rfl, rfl, hv', h⟩

end NoteQuery
