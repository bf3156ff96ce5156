import NoteQuery.Proofs.Expr.RoundTrip

/-! Names with points between them are read as a name with properties, the first one innermost. The
induction is on the names after the first: each takes the phrase before it one member further. -/

namespace NoteQuery
set_option autoImplicit false
open Text NoteQuery.Expr

/-- The expression for names with points between them. -/
def Expr.dotted (first : String) (rest : List String) : Expr :=
  rest.foldl (fun e x => property e (.text x)) (name first)

/-- Names with points between them. -/
def path (first : String) (rest : List String) : String := ".".intercalate (first :: rest)

/-- Names with a point before each. -/
def pointed (names : List String) : List Char := (names.map String.toList).flatMap ('.' :: ·)

theorem toList_path (first : String) (rest : List String) :
    (path first rest).toList = first.toList ++ pointed rest := by
  unfold path pointed
  induction rest generalizing first with
  | nil => rw [String.intercalate_singleton, List.map_nil, List.flatMap_nil, List.append_nil]
  | cons x rest ih =>
    rw [String.intercalate_cons_cons, String.toList_append, String.toList_append, ih, List.map_cons,
      List.flatMap_cons, List.append_assoc]
    rfl

theorem pointed_not_isWordPart (names : List String) :
    ∀ c ∈ (pointed names).head?, Lexeme.isWordPart c = false := by
  intro c hc
  cases names with
  | nil => cases hc
  | cons x names =>
    cases hc
    decide

theorem lexes_pointed {names : List String} (h : ∀ x ∈ names, isPlainName x)
    (previous : Option Token) (offset : Nat) :
    ∃ us, Lexes previous offset (pointed names) [] us ∧ ∀ ts e, Readable .postfixed ts e us →
      Readable .postfixed ts (names.foldl (fun e x => property e (.text x)) e) [] := by
  induction names generalizing previous offset with
  | nil =>
    exact ⟨[], .nil, fun ts e he => he⟩
  | cons x names ih =>
    have hname : Lexes (some (markAt '.' offset)) (offset + 1) x.toList (pointed names ++ [])
        [⟨.identifier, x, offset + 1⟩] := by
      refine lexes_name (h x List.mem_cons_self) ?_
      rw [List.append_nil]
      exact pointed_not_isWordPart names
    obtain ⟨us, hus, hread⟩ := ih (fun y hy => h y (List.mem_cons_of_mem x hy))
      (some ⟨.identifier, x, offset + 1⟩) (offset + 1 + x.toList.length)
    refine ⟨markAt '.' offset :: ⟨.identifier, x, offset + 1⟩ :: us, ?_, ?_⟩
    · exact (hname.append hus).mark (by decide)
    · intro ts e he
      exact hread ts _ (.member he (isMark_markAt '.' offset) rfl)

theorem parse_path {first : String} {rest : List String} (h : ∀ x ∈ first :: rest, isPlainName x) :
    parse (path first rest) = .ok (dotted first rest) := by
  have hname : Lexes none 0 first.toList (pointed rest ++ []) [⟨.identifier, first, 0⟩] := by
    refine lexes_name (h first List.mem_cons_self) ?_
    rw [List.append_nil]
    exact pointed_not_isWordPart rest
  obtain ⟨us, hus, hread⟩ := lexes_pointed (fun x hx => h x (List.mem_cons_of_mem first hx))
    (some ⟨.identifier, first, 0⟩) (0 + first.toList.length)
  have htokens : tokenize (path first rest) = .ok (⟨.identifier, first, 0⟩ :: us) := by
    rw [tokenize, toList_path]
    exact (hname.append hus).tokensFrom_eq
  have hfirst : Readable .primary (⟨.identifier, first, 0⟩ :: us) (name first) us := .name rfl
  have hphrase := hread _ _ (hfirst.of_primary .postfixed)
  rw [parse, htokens]
  exact ofTokens_of_derives hphrase.expression _

end NoteQuery
