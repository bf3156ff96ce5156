import NoteQuery.Eval.Evaluate
import NoteQuery.Proofs.Expr.Dotted
import NoteQuery.Proofs.Text.Pieces
import NoteQuery.Row.Basic

/-! A path of names leads to the same value whether it is looked up or evaluated. The two walks differ in
the order in which they look at fields and file, and in the length of an array, which is a member for
expressions only; past these they take the same step at every name. -/

namespace NoteQuery
set_option autoImplicit false
open Text

namespace Value

def named (v : Value) (x : String) : Value :=
  match v with
  | array items => if x = "length" then int items.length else null
  | object entries => Record.get entries x
  | _ => null

def entry (v : Value) (x : String) : Value :=
  match v with
  | object entries => Record.get entries x
  | _ => null

theorem member_text (v : Value) (x : String) : v.member (text x) = .ok (v.named x) := by
  cases v <;> rfl

theorem named_eq_entry {v : Value} {x : String} (h : ∀ items, v = array items → x ≠ "length") :
    v.named x = v.entry x := by
  cases v with
  | array items => exact if_neg (h items rfl)
  | _ => rfl

theorem foldl_named_null (names : List String) : names.foldl named null = null := by
  induction names with
  | nil => rfl
  | cons x names ih => exact ih

theorem foldl_entry_null (names : List String) : names.foldl entry null = null := by
  induction names with
  | nil => rfl
  | cons x names ih => exact ih

/-- The walks part only at the length of an array, and meet again if they do not end there. -/
theorem foldl_named_eq_entry (v : Value) (names : List String)
    (h : ∀ before items, names = before ++ ["length"] → before.foldl entry v ≠ array items) :
    names.foldl named v = names.foldl entry v := by
  induction names generalizing v with
  | nil => rfl
  | cons x names ih =>
    by_cases hlength : ∃ items, v = array items ∧ x = "length"
    · obtain ⟨items, rfl, rfl⟩ := hlength
      cases names with
      | nil => exact absurd rfl (h [] items rfl)
      | cons y names =>
        change names.foldl named null = names.foldl entry null
        rw [foldl_named_null, foldl_entry_null]
    · have hstep : v.named x = v.entry x :=
        named_eq_entry fun items hv hx => hlength ⟨items, hv, hx⟩
      rw [List.foldl_cons, List.foldl_cons, hstep]
      apply ih
      intro before items hnames
      exact h (x :: before) items (by rw [hnames, List.cons_append])

end Value

theorem evaluateWith_dotted (now : Moment) (apply : Application) (site : List Nat) (c : Context)
    (first : String) (rest : List String) :
    (Expr.dotted first rest).evaluateWith now apply site c =
      .ok (rest.foldl Value.named (c.resolve first)) := by
  have hfold (e : Expr) (v : Value) (he : ∀ site, e.evaluateWith now apply site c = .ok v) :
      (rest.foldl (fun e x => Expr.property e (.text x)) e).evaluateWith now apply site c =
        .ok (rest.foldl Value.named v) := by
    induction rest generalizing e v with
    | nil => exact he site
    | cons x rest ih =>
      refine ih (.property e (.text x)) (v.named x) ?_
      intro site
      have hmember := v.member_text x
      rw [Expr.evaluateWith, he (0 :: site)]
      change (monadLift (v.member (.text x)) : Outcome Value) = _
      rw [hmember]
      rfl
  exact hfold (.name first) (c.resolve first) fun _ => by rw [Expr.evaluateWith]

section
variable {x : String}

theorem isPlainName_chars (h : isPlainName x) :
    ∃ c cs, x.toList = c :: cs ∧ Lexeme.isWordStart c ∧ ∀ d ∈ cs, Lexeme.isWordPart d := by
  unfold isPlainName at h
  cases hx : x.toList with
  | nil =>
    rw [hx] at h
    cases h
  | cons c cs =>
    rw [hx] at h
    simp only [Bool.and_eq_true, List.all_eq_true] at h
    exact ⟨c, cs, rfl, h.1.1, h.1.2⟩

theorem point_not_mem (h : isPlainName x) : '.' ∉ x.toList := by
  obtain ⟨c, cs, hx, hc, hcs⟩ := isPlainName_chars h
  rw [hx, List.mem_cons]
  rintro (rfl | hmem)
  · exact absurd hc (by decide)
  · exact absurd (hcs '.' hmem) (by decide)

theorem isDigitLike_of_isWordStart {c : Char} (h : Lexeme.isWordStart c) : isDigitLike c = false := by
  have hbounds := isWordStart_bounds h
  have hlow : ∀ r ∈ loneDigitRanges, 128 ≤ r.1 := by decide
  rw [isDigitLike, isDecimal_of_isWordStart h, Bool.false_or, inRanges, List.any_eq_false]
  intro r hr
  have hr := hlow r hr
  simp only [Bool.and_eq_true, decide_eq_true_eq]
  omega

/-- No name is a position. -/
theorem child_of_isPlainName (h : isPlainName x) (v : Value) : Row.child v x = .ok (v.entry x) := by
  cases v with
  | array items =>
    obtain ⟨c, cs, hx, hc, _⟩ := isPlainName_chars h
    have hnot : (x.toList.isEmpty || !x.toList.all isDigitLike) = true := by
      rw [hx, List.all_cons, isDigitLike_of_isWordStart hc]
      rfl
    simp only [Row.child, hnot, if_true]
    rfl
  | _ => rfl

theorem descend_of_isPlainName {names : List String} (h : ∀ x ∈ names, isPlainName x) (v : Value) :
    Row.descend v names = .ok (names.foldl Value.entry v) := by
  induction names generalizing v with
  | nil => rfl
  | cons x names ih =>
    have hrest := ih fun y hy => h y (List.mem_cons_of_mem x hy)
    rw [Row.descend, child_of_isPlainName (h x List.mem_cons_self), List.foldl_cons]
    cases hv : v.entry x with
    | null =>
      rw [Value.foldl_entry_null]
      rfl
    | _ => exact hrest _

end

namespace Row

section
variable {first : String} {rest : List String}

theorem pathParts_path (h : ∀ x ∈ first :: rest, isPlainName x) :
    pathParts (path first rest) = first :: rest := by
  have hfirst := point_not_mem (h first List.mem_cons_self)
  have hrest : ∀ p ∈ rest.map String.toList, '.' ∉ p := by
    intro p hp
    obtain ⟨x, hx, rfl⟩ := List.mem_map.mp hp
    exact point_not_mem (h x (List.mem_cons_of_mem first hx))
  rw [pathParts, toList_path, pointed, pieces_flatMap hfirst hrest, List.map_cons, List.map_map,
    String.ofList_toList]
  congr 1
  have hid : String.ofList ∘ String.toList = id := funext fun _ => String.ofList_toList
  rw [hid, List.map_id]

/-- Where no field stands in front of the file, both walks start at the same value. -/
theorem lookup_path (r : Row) (h : ∀ x ∈ first :: rest, isPlainName x)
    (hfile : first = Context.fileName → r.fields.get? first = none) :
    r.lookup (path first rest) = .ok (rest.foldl Value.entry (r.context.resolve first)) := by
  have hrest : ∀ x ∈ rest, isPlainName x := fun x hx => h x (List.mem_cons_of_mem first hx)
  have hscope : r.context.scope.get? first = none := rfl
  rw [lookup, pathParts_path h, Context.resolve, hscope]
  by_cases hf : first = Context.fileName
  · simp only [hfile hf, if_pos hf]
    exact descend_of_isPlainName hrest _
  · simp only [if_neg hf]
    change _ = Except.ok (rest.foldl Value.entry ((r.fields.get? first).getD .null))
    cases hv : r.fields.get? first with
    | none => rw [Option.getD_none, Value.foldl_entry_null]
    | some v => exact descend_of_isPlainName hrest v

/-- A path is evaluated to what is looked up under it, unless it starts with a field called like the
file, or ends with the length of an array. -/
theorem lookup_eq_evaluate (r : Row) (now : Moment) (first : String) (rest : List String)
    (h : ∀ x ∈ first :: rest, isPlainName x)
    (hfile : first = Context.fileName → r.fields.get? first = none)
    (hlength : ∀ before items, rest = before ++ ["length"] →
      r.lookup (path first before) ≠ .ok (.array items)) :
    ∃ e, Expr.parse (path first rest) = .ok e ∧
      e.evaluate now r.context = r.lookup (path first rest) := by
  refine ⟨Expr.dotted first rest, parse_path h, ?_⟩
  have hsame : rest.foldl Value.named (r.context.resolve first) =
      rest.foldl Value.entry (r.context.resolve first) := by
    apply Value.foldl_named_eq_entry
    intro before items hrest harray
    have hbefore : ∀ x ∈ first :: before, isPlainName x := by
      intro x hx
      apply h x
      rw [hrest, ← List.cons_append]
      exact List.mem_append_left _ hx
    exact hlength before items hrest (by rw [lookup_path r hbefore hfile, harray])
  rw [Expr.evaluate, evaluateWith_dotted, hsame, lookup_path r h hfile]

/-- A member of an object, whose name is that of the length of an array. -/
theorem lookup_eq_evaluate_member :
    (Row.lookup ⟨.ofPath "a.md" none .null .null .null [],
      [("a", .object [("length", .text "long")])], none⟩ (path "a" []) =
        .ok (.object [("length", .text "long")])) ∧
    ∃ e, Expr.parse (path "a" ["length"]) = .ok e ∧
      e.evaluate ⟨default, .midnight⟩ (Row.context ⟨.ofPath "a.md" none .null .null .null [],
        [("a", .object [("length", .text "long")])], none⟩) =
      Row.lookup ⟨.ofPath "a.md" none .null .null .null [],
        [("a", .object [("length", .text "long")])], none⟩ (path "a" ["length"]) := by
  have hobject : Row.lookup ⟨.ofPath "a.md" none .null .null .null [],
      [("a", .object [("length", .text "long")])], none⟩ (path "a" []) =
        .ok (.object [("length", .text "long")]) :=
    lookup_path _ (by decide) (by decide)
  refine ⟨hobject, lookup_eq_evaluate _ _ "a" ["length"] (by decide) (by decide) ?_⟩
  intro before items hbefore
  cases before with
  | nil =>
    rw [hobject]
    intro h
    cases h
  | cons x before =>
    have hlength := congrArg List.length hbefore
    simp at hlength

/-- The length of an array is null for one walk, and a field called like the file hides it from one
walk only. -/
theorem lookup_ne_evaluate :
    (∃ e, Expr.parse "a.length" = .ok e ∧
      e.evaluate ⟨default, .midnight⟩ (Row.context ⟨.ofPath "a.md" none .null .null .null [],
        [("a", .array [.int 1, .int 2])], none⟩) = .ok (.int 2) ∧
      Row.lookup ⟨.ofPath "a.md" none .null .null .null [],
        [("a", .array [.int 1, .int 2])], none⟩ "a.length" = .ok .null) ∧
    (∃ e, Expr.parse "file.name" = .ok e ∧
      e.evaluate ⟨default, .midnight⟩ (Row.context ⟨.ofPath "a.md" none .null .null .null [],
        [("file", .object [("name", .text "b")])], none⟩) = .ok (.text "a") ∧
      Row.lookup ⟨.ofPath "a.md" none .null .null .null [],
        [("file", .object [("name", .text "b")])], none⟩ "file.name" = .ok (.text "b")) := by
  have harray : path "a" ["length"] = "a.length" := rfl
  have hfile : path "file" ["name"] = "file.name" := rfl
  refine ⟨⟨Expr.dotted "a" ["length"], ?_, ?_, ?_⟩, ⟨Expr.dotted "file" ["name"], ?_, ?_, ?_⟩⟩
  · exact harray ▸ parse_path (by decide)
  · exact evaluateWith_dotted ..
  · exact harray ▸ lookup_path _ (by decide) (by decide)
  · exact hfile ▸ parse_path (by decide)
  · exact evaluateWith_dotted ..
  · have hnames : ∀ x ∈ ["file", "name"], isPlainName x := by decide
    rw [← hfile, lookup, pathParts_path hnames]
    exact descend_of_isPlainName (by decide) _

end

end Row

end NoteQuery
