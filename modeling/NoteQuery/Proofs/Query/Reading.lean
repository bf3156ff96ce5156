import NoteQuery.Proofs.Query.Cutting

/-! Reading a query from its pieces. Whatever the order of the clauses, the case of the keywords and the
blanks between the pieces are, each piece is read as if it stood alone. -/

namespace NoteQuery
set_option autoImplicit false
open Text

/-- What a query says: a statement, a header, and the content of some of the clauses. -/
structure QueryText where
  statement : Statement
  header : List Char
  content? : ClauseKey → Option (List Char)
  isHeader : IsPiece header
  isContent : ∀ key, ∀ p ∈ content? key, IsPiece p ∧ p ≠ []

namespace QueryText

def text? (q : QueryText) (key : ClauseKey) : Option String := (q.content? key).map String.ofList

def fields (q : QueryText) : Except ClauseFault (List FieldSpec) :=
  match q.statement with
  | .task => .ok []
  | _ => do
    let named ← FieldSpec.readList (String.ofList q.header)
    return if named.isEmpty then Query.defaultFields else named

/-- Every piece is read alone. -/
def outcome (q : QueryText) : Except ClauseFault Query := do
  let fields ← q.fields
  let source? ← (q.text? .source).mapM SourceClause.read
  let sort? ← (q.text? .sort).mapM SortClause.read
  let limit? ← (q.text? .limit).mapM readLimit
  return {
    statement := q.statement, fields, source?, sort?
    filter? := q.text? .filter
    groups := splitFields ((q.text? .group).getD "")
    flatten? := q.text? .flatten
    limit? := limit?.join }

end QueryText

/-- An order of the clauses of a query and a case of its keywords. -/
structure Arrangement (q : QueryText) where
  word : List Char
  order : List ClauseKey
  spelling : ClauseKey → List (List Char)
  spells : Spells q.statement.name.toList word
  spellsAll : ∀ key, SpellsAll key.words (spelling key)
  nodup : order.Nodup
  complete : ∀ key, key ∈ order ↔ (q.content? key).isSome

namespace Arrangement
variable {q : QueryText}

def content (_ : Arrangement q) (key : ClauseKey) : List Char := (q.content? key).getD []

/-- The keywords and the contents of the clauses in their order. -/
def clauseWords (a : Arrangement q) : List (List Char) :=
  a.order.flatMap fun key => a.spelling key ++ [a.content key]

/-- What the text of a query consists of, apart from blanks. -/
def words (a : Arrangement q) : List (List Char) :=
  a.word :: ((if q.header = [] then [] else [q.header]) ++ a.clauseWords)

theorem isContent (a : Arrangement q) {key : ClauseKey} (h : key ∈ a.order) :
    IsPiece (a.content key) ∧ a.content key ≠ [] := by
  obtain ⟨p, hp⟩ := Option.isSome_iff_exists.mp ((a.complete key).mp h)
  rw [content, hp]
  exact q.isContent key p hp

theorem text?_eq (a : Arrangement q) (key : ClauseKey) :
    q.text? key = if key ∈ a.order then some (String.ofList (a.content key)) else none := by
  rw [QueryText.text?, content]
  split
  · next h =>
    obtain ⟨p, hp⟩ := Option.isSome_iff_exists.mp ((a.complete key).mp h)
    rw [hp]
    rfl
  · next h =>
    rw [Option.not_isSome_iff_eq_none.mp fun hs => h ((a.complete key).mpr hs)]
    rfl

end Arrangement

theorem Statement.name_upper (s : Statement) :
    s.name.toList ≠ [] ∧ ∀ c ∈ s.name.toList, c.isUpper := by
  cases s <;> decide

theorem Statement.ofName?_name (s : Statement) : Statement.ofName? s.name = some s := by
  cases s <;> rfl

theorem ClauseKey.name_injective {k l : ClauseKey} (h : k.name = l.name) : k = l := by
  revert h
  cases k <;> cases l <;> decide

theorem Cased.oneLine {cs : List Char} (h : ∀ c ∈ cs, Cased c) : OneLine cs :=
  fun c hc => isLineBreak_of_notBlank (h c hc).notBlank

/-- Cuts at different keywords with contents are the clauses. -/
theorem collect_cuts {keys : List ClauseKey} {content : ClauseKey → List Char}
    {cuts : List (Cut String)} {seen : List String} (hnodup : keys.Nodup)
    (hseen : ∀ key ∈ keys, key.name ∉ seen) (hne : ∀ key ∈ keys, content key ≠ [])
    (hcuts : cuts.map (fun cut => (cut.key, stripChars (Cell.text cut.piece))) =
      keys.map fun key => (key.name, content key)) :
    Clause.collect seen cuts =
      .ok (keys.map fun key => ⟨key.name, String.ofList (content key)⟩) := by
  induction keys generalizing cuts seen with
  | nil =>
    rw [List.map_eq_nil_iff.mp hcuts]
    rfl
  | cons key keys ih =>
    obtain ⟨hfresh, hnodup⟩ := List.nodup_cons.mp hnodup
    cases cuts with
    | nil => cases hcuts
    | cons cut cuts =>
      obtain ⟨hcut, hmore⟩ := List.cons.inj hcuts
      obtain ⟨hkey, hstrip⟩ := Prod.mk.inj hcut
      have hnew : seen.contains key.name = false := by
        rw [List.contains_eq_mem, decide_eq_false_iff_not]
        exact hseen key List.mem_cons_self
      have hfull : (content key).isEmpty = false := by
        rw [List.isEmpty_eq_false_iff]
        exact hne key List.mem_cons_self
      have hother : ∀ k ∈ keys, k.name ∉ key.name :: seen := by
        intro k hk hmem
        rcases List.mem_cons.mp hmem with hname | hmem
        · rw [ClauseKey.name_injective hname] at hk
          exact hfresh hk
        · exact hseen k (List.mem_cons_of_mem key hk) hmem
      have hrest := ih hnodup hother (fun k hk => hne k (List.mem_cons_of_mem key hk)) hmore
      rw [Clause.collect]
      simp only [hkey, hstrip, hnew, hfull, hrest]
      rfl

theorem find?_clauses (keys : List ClauseKey) (content : ClauseKey → List Char) (key : ClauseKey) :
    Clause.find? (keys.map fun k => ⟨k.name, String.ofList (content k)⟩) key.name =
      if key ∈ keys then some (String.ofList (content key)) else none := by
  induction keys with
  | nil => rfl
  | cons k keys ih =>
    rw [List.map_cons, Clause.find?]
    by_cases hk : k = key
    · subst hk
      rw [List.find?_cons_of_pos (by simp), if_pos List.mem_cons_self]
      rfl
    · have hname : (k.name == key.name) = false := by
        rw [beq_eq_false_iff_ne]
        exact fun h => hk (ClauseKey.name_injective h)
      have hmem : key ∈ k :: keys ↔ key ∈ keys := by
        rw [List.mem_cons]
        exact ⟨fun h => h.resolve_left fun he => hk he.symm, .inr⟩
      rw [List.find?_cons_of_neg (by simp [hname])]
      simp only [hmem]
      exact ih

/-- The statement ends where the blanks or the text after it end. -/
theorem readStatement_append {s : Statement} {word more : List Char} {ps : List (List Char)}
    (h : Spells s.name.toList word) (hmore : Followed ps more) :
    Query.readStatement (word ++ more) = .ok (s, more) := by
  have hcased := h.cased s.name_upper.2
  have hsolid := h.solid s.name_upper.2 s.name_upper.1
  have hletters : ∀ c ∈ word, isLatin c := fun c hc => (hcased c hc).letter
  have hhead : ∀ c ∈ more.head?, isBlank c := by
    cases hmore with
    | nil =>
      intro c hc
      cases hc
    | @cons p gap more _ hne hgap _ =>
      intro c hc
      cases gap with
      | nil => exact absurd rfl hne
      | cons d gap =>
        cases hc
        exact hgap c List.mem_cons_self
  have hnot : ∀ c ∈ more.head?, isLatin c = false := by
    intro c hc
    exact forall_isBlank (p := fun c => isLatin c = false) (by decide +kernel) (hhead c hc)
  have htake := takeWhile_append hletters hnot
  have hdrop := dropWhile_append hletters hnot
  have hend : (word.isEmpty || !(more.isEmpty || more.head?.any isBlank)) = false := by
    have hfull : word.isEmpty = false := List.isEmpty_eq_false_iff.mpr hsolid.1
    cases more with
    | nil => rw [hfull]; rfl
    | cons c more => simp [hfull, hhead c rfl]
  rw [Query.readStatement]
  simp only [htake, hdrop, hend, h.upperChars s.name_upper.2, String.ofList_toList, s.ofName?_name]
  rfl

namespace Arrangement
variable {q : QueryText}

/-- The text after the statement is cut into the header and the clauses. -/
theorem exists_cuts (a : Arrangement q) {more : List Char}
    (h : Followed ((if q.header = [] then [] else [q.header]) ++ a.clauseWords) more) :
    ∃ header cuts, stripChars (Cell.text header) = q.header ∧
      Cell.cut Clause.readKeyword more = (header, cuts) ∧
        cuts.map (fun cut => (cut.key, stripChars (Cell.text cut.piece))) =
          a.order.map fun key => (key.name, a.content key) := by
  have hspell : ∀ key ∈ a.order, SpellsAll key.words (a.spelling key) := fun key _ => a.spellsAll key
  have hcontent : ∀ key ∈ a.order, IsUncut (a.content key) ∧ a.content key ≠ [] :=
    fun key hkey => ⟨(a.isContent hkey).1.uncut, (a.isContent hkey).2⟩
  by_cases hnil : q.header = []
  · rw [if_pos hnil, List.nil_append] at h
    rw [hnil]
    obtain ⟨gap, cuts, hgap, hcut, hcuts⟩ := cutAt_clauses hspell hcontent h none []
    exact ⟨gap, cuts, stripChars_blanks hgap, hcut, hcuts⟩
  · rw [if_neg hnil, List.singleton_append] at h
    cases h with
    | @cons _ lead rest _ hne hlead hrest =>
      have hafter := parted_of_followed hspell hrest
      obtain ⟨last, hpass⟩ := cutAt_padded hne hlead q.isHeader.uncut hnil hafter.1 hafter.2 none []
      obtain ⟨gap, cuts, hgap, hcut, hcuts⟩ := cutAt_clauses hspell hcontent hrest last
        (Cell.ofChars lead ++ Cell.ofChars q.header).reverse
      rw [List.append_nil, hcut, List.reverse_reverse] at hpass
      refine ⟨Cell.ofChars lead ++ Cell.ofChars q.header ++ gap, cuts, ?_, ?_, hcuts⟩
      · rw [text_append, text_append, Cell.text_ofChars, Cell.text_ofChars]
        exact stripChars_around hlead (q.isHeader.uncut.solid hnil) hgap
      · rw [Cell.cut, (balanced_of_isPlain (isPlain_of_blanks hlead)).ofChars_append,
          q.isHeader.balanced.ofChars_append]
        exact hpass

theorem split (a : Arrangement q) {more : List Char}
    (h : Followed ((if q.header = [] then [] else [q.header]) ++ a.clauseWords) more) :
    ∃ header, stripChars header = q.header ∧ Clause.split more =
      .ok (header, a.order.map fun key => ⟨key.name, String.ofList (a.content key)⟩) := by
  obtain ⟨header, cuts, hheader, hcut, hcuts⟩ := a.exists_cuts h
  have hcollect := collect_cuts a.nodup (fun _ _ => List.not_mem_nil)
    (fun key hkey => (a.isContent hkey).2) hcuts
  refine ⟨Cell.text header, hheader, ?_⟩
  rw [Clause.split, hcut]
  simp only [hcollect]
  rfl

theorem find?_name (a : Arrangement q) (key : ClauseKey) :
    Clause.find? (a.order.map fun k => ⟨k.name, String.ofList (a.content k)⟩) key.name =
      q.text? key := by
  rw [find?_clauses, a.text?_eq]

theorem words_solid (a : Arrangement q) : ∀ p ∈ a.words, Solid p ∧ OneLine p := by
  intro p hp
  rcases List.mem_cons.mp hp with rfl | hp
  · have hupper := q.statement.name_upper
    exact ⟨a.spells.solid hupper.2 hupper.1, Cased.oneLine (a.spells.cased hupper.2)⟩
  rcases List.mem_append.mp hp with hp | hp
  · by_cases hnil : q.header = []
    · rw [if_pos hnil] at hp
      cases hp
    · rw [if_neg hnil] at hp
      rw [List.mem_singleton.mp hp]
      exact ⟨q.isHeader.uncut.solid hnil, q.isHeader.line⟩
  · obtain ⟨key, hkey, hp⟩ := List.mem_flatMap.mp hp
    rcases List.mem_append.mp hp with hp | hp
    · have hcased := SpellsAll.cased (a.spellsAll key) p hp
      exact ⟨solid_of_cased hcased.1 hcased.2, Cased.oneLine hcased.2⟩
    · rw [List.mem_singleton.mp hp]
      have hcontent := a.isContent hkey
      exact ⟨hcontent.1.uncut.solid hcontent.2, hcontent.1.line⟩

end Arrangement

/-- A query is read piece by piece, however it is laid out. -/
theorem Query.read_layout (q : QueryText) (a : Arrangement q) {lead core trail : List Char}
    (hlead : Blanks lead) (htrail : Blanks trail) (h : Spaced a.words core) :
    Query.read (String.ofList (lead ++ core ++ trail)) = q.outcome := by
  have hsolid : ∀ p ∈ a.words, Solid p := fun p hp => (a.words_solid p hp).1
  obtain ⟨l, ls, hlines, hspaced⟩ := spaced_shownLines h hsolid fun p hp => (a.words_solid p hp).2
  have hsource : Query.sourceLines (lead ++ core ++ trail) = l :: ls := by
    have hstrip := stripChars_around hlead (h.solid hsolid) htrail
    change shownLines (stripChars (lead ++ core ++ trail)) = l :: ls
    rw [hstrip, hlines]
  obtain ⟨word, ps, more, hwords, htext, hmore⟩ := hspaced.followed
  obtain ⟨rfl, rfl⟩ := List.cons.inj hwords
  have hstatement := readStatement_append a.spells hmore
  obtain ⟨header, hheader, hsplit⟩ := a.split hmore
  have hok {α β : Type} (x : α) (f : α → Except ClauseFault β) : (Except.ok x >>= f) = f x := rfl
  have hfind := a.find?_name
  rw [Query.read, String.toList_ofList, hsource, htext]
  simp only [List.isEmpty_cons, Bool.false_eq_true, if_false, hstatement, hok, hsplit, hheader]
  rw [QueryText.outcome, QueryText.fields, ← hfind .source, ← hfind .filter, ← hfind .sort,
    ← hfind .group, ← hfind .flatten, ← hfind .limit]
  cases q.statement with
  | task => rfl
  | table => cases FieldSpec.readList (String.ofList q.header) <;> rfl
  | list => cases FieldSpec.readList (String.ofList q.header) <;> rfl

theorem isPiece_of_word {p : List Char} (hline : ∀ c ∈ p, isLineBreak c = false ∧ isPlain c)
    (hstrip : stripChars p = p) (hfree : (Cell.cut Clause.readKeyword p).2 = []) : IsPiece p where
  line := fun c hc => (hline c hc).1
  strip := hstrip
  balanced := balanced_of_isPlain fun c hc => (hline c hc).2
  free := hfree

def limitedList : QueryText where
  statement := .list
  header := "title".toList
  content? key := if key = .limit then some "5".toList else none
  isHeader := isPiece_of_word (by decide +kernel) (by decide +kernel) (by decide +kernel)
  isContent := by
    intro key p hp
    split at hp
    · cases hp
      exact ⟨isPiece_of_word (by decide +kernel) (by decide +kernel) (by decide +kernel), by decide⟩
    · cases hp

def limitedListArrangement : Arrangement limitedList where
  word := "list".toList
  order := [.limit]
  spelling := ClauseKey.words
  spells := rfl
  spellsAll := by
    intro key
    cases key <;> rfl
  nodup := by decide
  complete := by
    intro key
    cases key <;> decide

theorem Query.read_layout_limitedList :
    Query.read "\nlist title\n\n\tLIMIT 5 " = limitedList.outcome ∧
      limitedList.outcome.toOption.map (·.limit?) = some (some 5) := by
  have hblanks (gap : List Char) (h : gap.all isBlank) : Blanks gap := List.all_eq_true.mp h
  have hlimit : Spaced ["LIMIT".toList, "5".toList] ("LIMIT".toList ++ [' '] ++ "5".toList) :=
    .more (by decide) (hblanks _ (by decide)) (.one _)
  have hheader := Spaced.more (p := "title".toList) (by decide)
    (hblanks ['\n', '\n', '\t'] (by decide)) hlimit
  have hwords := Spaced.more (p := "list".toList) (by decide) (hblanks [' '] (by decide)) hheader
  have hread := Query.read_layout limitedList limitedListArrangement (hblanks ['\n'] (by decide))
    (hblanks [' '] (by decide)) hwords
  exact ⟨hread, by decide +kernel⟩

/-- The header of a task query is a field anywhere else. -/
theorem Query.fields_task_title : IsPiece "title".toList ∧
    (Query.read "TASK title").toOption.map (·.fields) = some [] ∧
      (FieldSpec.readList "title").toOption = some [⟨"title", none⟩] := by
  refine ⟨isPiece_of_word ?_ ?_ ?_, ?_, ?_⟩
  · decide +kernel
  · decide +kernel
  · decide +kernel
  · decide +kernel
  · decide +kernel

end NoteQuery
