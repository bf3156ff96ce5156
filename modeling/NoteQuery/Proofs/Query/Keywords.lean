import NoteQuery.Proofs.Query.Cells
import NoteQuery.Query.Clause

/-! Keywords of clauses in any case. The words of a keyword are read wherever blanks stand around them,
and what a reader finds inside a text without blanks at its end does not change when blanks and another
keyword come after it. -/

namespace NoteQuery
set_option autoImplicit false
open Text

inductive ClauseKey where
  | source
  | filter
  | sort
  | group
  | flatten
  | limit
  deriving DecidableEq

namespace ClauseKey

/-- The words of a keyword, in upper case. -/
def words : ClauseKey → List (List Char)
  | source => ["FROM".toList]
  | filter => ["WHERE".toList]
  | sort => ["SORT".toList]
  | group => ["GROUP".toList, "BY".toList]
  | flatten => ["FLATTEN".toList]
  | limit => ["LIMIT".toList]

def name : ClauseKey → String
  | source => "FROM"
  | filter => "WHERE"
  | sort => "SORT"
  | group => "GROUP BY"
  | flatten => "FLATTEN"
  | limit => "LIMIT"

end ClauseKey

/-- The spelling of a keyword that its reader is given. -/
def ClauseKey.readers (key : ClauseKey) : List String :=
  key.words.map fun w => String.ofList (w.map Char.toLower)

/-- A word in any case of ASCII letters. -/
def Spells (word cs : List Char) : Prop := cs.map Char.toUpper = word

theorem lowerChar_of_isBlank {c : Char} (h : isBlank c) : lowerChar c = c := by
  exact forall_isBlank (p := fun c => lowerChar c = c) (by decide +kernel) h

def keywordLetters : List Char := "abdefghilmnoprstuwy".toList

theorem isLetter_of_isBlank {l c : Char} (hl : l ∈ keywordLetters) (h : isBlank c) :
    isLetter l c = false := by
  have hall : ∀ l ∈ keywordLetters, ∀ d ∈ alike l, isBlank d = false := by decide +kernel
  rw [isLetter, lowerChar_of_isBlank h, List.contains_eq_mem, decide_eq_false_iff_not]
  intro hc
  have hnot := hall l hl c hc
  rw [h] at hnot
  cases hnot

/-- What is left in front of a reader of words: nothing, or a blank. -/
def Parted (cs : List Char) : Prop := ∀ c ∈ cs.head?, isBlank c

theorem Parted.nil : Parted [] := by
  intro c hc
  cases hc

theorem readWord?_append_parted {word : List Char} (hword : ∀ l ∈ word, l ∈ keywordLetters)
    (cs : List Char) {rest : List Char} (hrest : Parted rest) :
    readWord? word (cs ++ rest) = (readWord? word cs).map fun r => (r.1, r.2 ++ rest) := by
  induction word generalizing cs with
  | nil => rfl
  | cons l word ih =>
    have hmore : ∀ k ∈ word, k ∈ keywordLetters := fun k hk => hword k (List.mem_cons_of_mem l hk)
    cases cs with
    | nil =>
      cases rest with
      | nil => rfl
      | cons c rest =>
        have hnot := isLetter_of_isBlank (hword l List.mem_cons_self) (hrest c rfl)
        change (if isLetter l c then _ else none) = none
        rw [hnot, if_neg (by decide)]
    | cons c cs =>
      rw [List.cons_append, readWord?, readWord?]
      split
      · rw [ih hmore cs, Option.map_map, Option.map_map]
        rfl
      · rfl

theorem isPlain_of_isLetter {l x : Char} (hl : l ∈ keywordLetters) (h : isLetter l x) : isPlain x := by
  have hall : ∀ l ∈ keywordLetters, ∀ x ∈ ['"', '\'', '(', '[', ')', ']'], isLetter l x = false := by
    decide +kernel
  cases hx : isPlain x with
  | true => rfl
  | false =>
    have hmem : x ∈ ['"', '\'', '(', '[', ')', ']'] := by
      simp only [isPlain, Quoting.isQuote, opensBracket, closesBracket, Bool.not_eq_false',
        Bool.or_eq_true, beq_iff_eq] at hx
      rcases hx with ((rfl | rfl) | rfl | rfl) | rfl | rfl <;> simp
    rw [hall l hl x hmem] at h
    cases h

theorem isPlain_of_readWord? {word cs read rest : List Char} (hword : ∀ l ∈ word, l ∈ keywordLetters)
    (h : readWord? word cs = some (read, rest)) : ∀ x ∈ read, isPlain x := by
  induction word generalizing cs read with
  | nil =>
    cases h
    intro x hx
    cases hx
  | cons l word ih =>
    cases cs with
    | nil => cases h
    | cons x cs =>
      rw [readWord?] at h
      split at h
      · next hx =>
        obtain ⟨⟨more, end'⟩, hmore, h⟩ := Option.map_eq_some_iff.mp h
        cases h
        refine List.forall_mem_cons.mpr ⟨isPlain_of_isLetter (hword l List.mem_cons_self) hx, ?_⟩
        exact ih (fun k hk => hword k (List.mem_cons_of_mem l hk)) hmore
      · cases h

theorem keywords_letters : ∀ ws ∈ Clause.keywords, ∀ w ∈ ws, ∀ l ∈ w.toList, l ∈ keywordLetters := by
  decide

/-- A letter of a keyword, in upper case, in any case. -/
structure Cased (c : Char) : Prop where
  upper : upperChar c = [c.toUpper]
  lower : lowerChar c = c.toUpper.toLower
  letter : isLatin c
  plain : isPlain c
  notBlank : isBlank c = false

theorem cased_of_toUpper {c : Char} (h : c.toUpper.isUpper) : Cased c := by
  have hlow : c.toNat < 128 := by
    unfold Char.toUpper at h
    split at h
    · next hc =>
      have hle : c.toNat ≤ 122 := UInt32.le_iff_toNat_le.mp hc.2
      omega
    · have hle := toNat_of_isUpper h
      omega
  have hall : ∀ n < 128, (Char.ofNat n).toUpper.isUpper →
      upperChar (Char.ofNat n) = [(Char.ofNat n).toUpper] ∧
        lowerChar (Char.ofNat n) = (Char.ofNat n).toUpper.toLower ∧ isLatin (Char.ofNat n) ∧
          isPlain (Char.ofNat n) ∧ isBlank (Char.ofNat n) = false := by decide +kernel
  have hc := hall c.toNat hlow
  rw [Char.ofNat_toNat] at hc
  obtain ⟨hupper, hlower, hletter, hplain, hblank⟩ := hc h
  exact ⟨hupper, hlower, hletter, hplain, hblank⟩

section
variable {word cs rest : List Char}

theorem solid_of_cased (hne : cs ≠ []) (h : ∀ c ∈ cs, Cased c) : Solid cs := by
  refine ⟨hne, ?_, ?_⟩
  · intro c hc
    exact (h c (List.mem_of_mem_head? hc)).notBlank
  · intro c hc
    exact (h c (List.mem_of_mem_getLast? hc)).notBlank

theorem spells_self (p : List Char) : Spells (p.map Char.toUpper) p := rfl

theorem Spells.cased (h : Spells word cs) (hword : ∀ c ∈ word, c.isUpper) : ∀ c ∈ cs, Cased c := by
  intro c hc
  apply cased_of_toUpper
  apply hword
  rw [← h]
  exact List.mem_map_of_mem hc

theorem Spells.upperChars (h : Spells word cs) (hword : ∀ c ∈ word, c.isUpper) :
    upperChars cs = word := by
  have hcased := h.cased hword
  rw [← h]
  clear h hword
  induction cs with
  | nil => rfl
  | cons c cs ih =>
    rw [Text.upperChars, List.flatMap_cons, (hcased c List.mem_cons_self).upper,
      List.singleton_append, List.map_cons]
    exact congrArg _ (ih fun d hd => hcased d (List.mem_cons_of_mem c hd))

theorem Spells.solid (h : Spells word cs) (hword : ∀ c ∈ word, c.isUpper) (hne : word ≠ []) :
    Solid cs := by
  apply solid_of_cased _ (h.cased hword)
  rintro rfl
  exact hne h.symm

/-- A keyword is read in any case, up to its last letter. -/
theorem Spells.readWord? (h : Spells word cs) (hword : ∀ c ∈ word, c.isUpper) (rest : List Char) :
    readWord? (word.map Char.toLower) (cs ++ rest) = some (cs, rest) := by
  have hcased := h.cased hword
  rw [← h]
  clear h hword
  induction cs with
  | nil => rfl
  | cons c cs ih =>
    have hletter : isLetter c.toUpper.toLower c := by
      rw [isLetter, (hcased c List.mem_cons_self).lower, alike, List.contains_cons, beq_self_eq_true,
        Bool.true_or]
    rw [List.map_cons, List.map_cons, List.cons_append, Text.readWord?, if_pos hletter,
      ih fun d hd => hcased d (List.mem_cons_of_mem c hd)]
    rfl

/-- Two words differ at some letter that both have. -/
def clash : List Char → List Char → Bool
  | l :: word, c :: cs => !(alike l).contains c || clash word cs
  | _, _ => false

theorem readWord?_of_clash {other : List Char} (h : Spells word cs)
    (hword : ∀ c ∈ word, c.isUpper) (hclash : clash other (word.map Char.toLower))
    (rest : List Char) : readWord? other (cs ++ rest) = none := by
  have hcased := h.cased hword
  rw [← h] at hclash
  clear h hword
  induction other generalizing cs with
  | nil =>
    cases cs <;> cases hclash
  | cons l other ih =>
    cases cs with
    | nil => cases hclash
    | cons c cs =>
      rw [List.cons_append, readWord?, isLetter, (hcased c List.mem_cons_self).lower]
      rw [List.map_cons, List.map_cons, clash, Bool.or_eq_true, Bool.not_eq_true'] at hclash
      split
      · next hl =>
        rcases hclash with hclash | hclash
        · rw [hl] at hclash
          cases hclash
        · rw [ih hclash fun d hd => hcased d (List.mem_cons_of_mem c hd)]
          rfl
      · rfl

end

/-- What a keyword says where it is read, and how many of `n` further characters it takes. -/
def keywordAt (ws : List String) (shown : List Char) (n : Nat) : Option (String × Nat) :=
  match Clause.readWords? ws shown with
  | some (words, rest) =>
    if rest.isEmpty || rest.head?.any isBlank then
      some (String.ofList (joinWith [' '] (words.map upperChars)), n - rest.length)
    else none
  | none => none

theorem keywordAt_none {ws : List String} {w : String} {shown : List Char} (hw : w ∈ ws.head?)
    (h : readWord? w.toList shown = none) (n : Nat) : keywordAt ws shown n = none := by
  have hwords : Clause.readWords? ws shown = none := by
    cases ws with
    | nil => cases hw
    | cons v more =>
      cases hw
      cases more with
      | nil =>
        rw [Clause.readWords?, h]
        rfl
      | cons u more =>
        rw [Clause.readWords?, h]
        · rfl
        · intro hnil
          cases hnil
  rw [keywordAt, hwords]

theorem readKeyword_eq (before : Option Cell) (c : Cell) (cs : List Cell) :
    Clause.readKeyword before c cs =
      if before.all fun b => Clause.mayPrecede b.shown then
        Clause.keywords.findSome? fun ws => keywordAt ws (c.shown :: Cell.shownText cs) cs.length
      else none := rfl

theorem findSome?_congr {α β : Type} {f g : α → Option β} {as : List α} (h : ∀ a ∈ as, f a = g a) :
    as.findSome? f = as.findSome? g := by
  induction as with
  | nil => rfl
  | cons a as ih =>
    rw [List.findSome?_cons, List.findSome?_cons, h a List.mem_cons_self,
      ih fun b hb => h b (List.mem_cons_of_mem a hb)]

theorem keywords_shape : ∀ ws ∈ Clause.keywords, (∃ w, ws = [w]) ∨ ws = ["group", "by"] := by
  intro ws hws
  simp only [Clause.keywords, List.mem_cons, List.not_mem_nil, or_false] at hws
  rcases hws with rfl | rfl | rfl | rfl | rfl | rfl
  · exact .inl ⟨_, rfl⟩
  · exact .inl ⟨_, rfl⟩
  · exact .inl ⟨_, rfl⟩
  · exact .inr rfl
  · exact .inl ⟨_, rfl⟩
  · exact .inl ⟨_, rfl⟩

section
variable {s rest : List Char}

theorem skipBlanks_append_of_last (hne : s ≠ []) (hlast : ∀ c ∈ s.getLast?, isBlank c = false)
    (rest : List Char) : skipBlanks (s ++ rest) = skipBlanks s ++ rest := by
  rw [skipBlanks, List.dropWhile_append, if_neg]
  · rfl
  · intro hempty
    have hall := List.takeWhile_append_dropWhile (p := isBlank) (l := s)
    rw [List.isEmpty_iff.mp hempty, List.append_nil] at hall
    have hmem : s.getLast hne ∈ s.takeWhile isBlank := by
      rw [hall]
      exact List.getLast_mem hne
    have hlastblank := List.all_eq_true.mp List.all_takeWhile (s.getLast hne) hmem
    rw [hlast (s.getLast hne) (List.getLast?_eq_some_getLast hne)] at hlastblank
    cases hlastblank

/-- Only the two words of one keyword could reach over the end of a text. -/
theorem readWords?_append {ws : List String} (hws : ws ∈ Clause.keywords)
    (hlast : ∀ c ∈ s.getLast?, isBlank c = false) (hrest : Parted rest)
    (hby : readWord? "by".toList (skipBlanks rest) = none) :
    Clause.readWords? ws (s ++ rest) =
      (Clause.readWords? ws s).map fun r => (r.1, r.2 ++ rest) := by
  have hletters := keywords_letters ws hws
  rcases keywords_shape ws hws with ⟨w, rfl⟩ | rfl
  · rw [Clause.readWords?, Clause.readWords?,
      readWord?_append_parted (hletters w List.mem_cons_self) s hrest, Option.map_map, Option.map_map]
    rfl
  · have hgroup := readWord?_append_parted (hletters "group" List.mem_cons_self) s hrest
    have hbyletters := hletters "by" (List.mem_cons_of_mem _ List.mem_cons_self)
    rw [Clause.readWords?, Clause.readWords?, hgroup]
    · cases hr : readWord? "group".toList s with
      | none => rfl
      | some r =>
        obtain ⟨word, more⟩ := r
        have hs := readWord?_append _ _ _ _ hr
        simp only [Option.map_some, Option.bind_eq_bind, Option.bind_some]
        cases more with
        | nil =>
          rw [List.nil_append]
          have hnone : Clause.readWords? ["by"] (skipBlanks rest) = none := by
            rw [Clause.readWords?, hby]
            rfl
          rw [hnone]
          cases rest.head?.any isBlank <;> rfl
        | cons c more =>
          have hmore : ∀ d ∈ (c :: more).getLast?, isBlank d = false := by
            intro d hd
            apply hlast d
            rw [hs, List.getLast?_append, hd]
            rfl
          have hskip := skipBlanks_append_of_last (List.cons_ne_nil c more) hmore rest
          rw [hskip, Clause.readWords?, Clause.readWords?, readWord?_append_parted hbyletters _ hrest]
          by_cases hc : isBlank c
          · simp only [List.cons_append, List.head?_cons, Option.any_some, hc, if_true]
            cases readWord? "by".toList (skipBlanks (c :: more)) <;> rfl
          · simp only [List.cons_append, List.head?_cons, Option.any_some, hc]
            rfl
    · intro h
      cases h
    · intro h
      cases h

theorem keywordAt_append {ws : List String} (hws : ws ∈ Clause.keywords)
    (hlast : ∀ c ∈ s.getLast?, isBlank c = false) (hrest : Parted rest)
    (hby : readWord? "by".toList (skipBlanks rest) = none) (n : Nat) :
    keywordAt ws (s ++ rest) (n + rest.length) = keywordAt ws s n := by
  rw [keywordAt, keywordAt, readWords?_append hws hlast hrest hby]
  cases Clause.readWords? ws s with
  | none => rfl
  | some r =>
    obtain ⟨words, more⟩ := r
    have hlength : n + rest.length - (more ++ rest).length = n - more.length := by
      rw [List.length_append]
      omega
    have hend : ((more ++ rest).isEmpty || (more ++ rest).head?.any isBlank) =
        (more.isEmpty || more.head?.any isBlank) := by
      cases more with
      | nil =>
        cases rest with
        | nil => rfl
        | cons c rest =>
          have hc := hrest c rfl
          simp [hc]
      | cons c more => rfl
    simp only [Option.map_some, hlength, hend]

end

/-- What comes after a text does not change which keywords are read in it. -/
theorem readKeyword_append (before : Option Cell) (c : Cell) (cs rest : List Cell)
    (hlast : ∀ d ∈ (c :: cs).getLast?, isBlank d.shown = false)
    (hrest : Parted (Cell.shownText rest))
    (hby : readWord? "by".toList (skipBlanks (Cell.shownText rest)) = none) :
    Clause.readKeyword before c (cs ++ rest) = Clause.readKeyword before c cs := by
  have hlength : (cs ++ rest).length = cs.length + (Cell.shownText rest).length := by
    rw [List.length_append, Cell.shownText, List.length_map]
  have hshown : Cell.shownText (cs ++ rest) = Cell.shownText cs ++ Cell.shownText rest :=
    List.map_append
  have hend : ∀ d ∈ (c.shown :: Cell.shownText cs).getLast?, isBlank d = false := by
    intro d hd
    have hmap : (c.shown :: Cell.shownText cs).getLast? = ((c :: cs).getLast?).map (·.shown) := by
      rw [← List.getLast?_map]
      rfl
    rw [hmap] at hd
    obtain ⟨b, hb, rfl⟩ := Option.map_eq_some_iff.mp hd
    exact hlast b hb
  rw [readKeyword_eq, readKeyword_eq, hlength, hshown, ← List.cons_append]
  split
  · exact findSome?_congr fun ws hws => keywordAt_append hws hend hrest hby cs.length
  · rfl

/-- A keyword starts with one of its letters. -/
theorem readKeyword_none (before : Option Cell) (c : Cell) (cs : List Cell)
    (h : ∀ l ∈ keywordLetters, isLetter l c.shown = false) : Clause.readKeyword before c cs = none := by
  have hnone : ∀ ws ∈ Clause.keywords,
      keywordAt ws (c.shown :: Cell.shownText cs) cs.length = none := by
    have hfirst : ∀ ws ∈ Clause.keywords, ∃ w ∈ ws.head?, w.toList ≠ [] := by decide
    intro ws hws
    obtain ⟨w, hw, hne⟩ := hfirst ws hws
    apply keywordAt_none hw
    have hletters := keywords_letters ws hws w (List.mem_of_mem_head? hw)
    cases hchars : w.toList with
    | nil => exact absurd hchars hne
    | cons l letters =>
      have hl : l ∈ keywordLetters := by
        apply hletters
        rw [hchars]
        exact List.mem_cons_self
      rw [readWord?, h l hl, if_neg (by decide)]
  rw [readKeyword_eq]
  split
  · rw [List.findSome?_eq_none_iff]
    exact hnone
  · rfl

theorem readKeyword_blank (before : Option Cell) (c : Cell) (cs : List Cell)
    (h : isBlank c.shown) : Clause.readKeyword before c cs = none :=
  readKeyword_none before c cs fun _ hl => isLetter_of_isBlank hl h

namespace ClauseKey

def all : List ClauseKey := [source, filter, sort, group, flatten, limit]

theorem keywords_eq : Clause.keywords = all.map readers := by decide

theorem words_upper (key : ClauseKey) : ∀ w ∈ key.words, w ≠ [] ∧ ∀ c ∈ w, c.isUpper := by
  cases key <;> decide

/-- A keyword is found before another one could be. -/
theorem exists_split (key : ClauseKey) : ∃ tried rest, Clause.keywords = tried ++ key.readers :: rest ∧
    ∀ ws ∈ tried, ∃ w ∈ ws.head?, ∀ v ∈ key.words.head?, clash w.toList (v.map Char.toLower) := by
  rw [keywords_eq]
  cases key with
  | source => exact ⟨[], _, rfl, by decide⟩
  | filter => exact ⟨[source.readers], _, rfl, by decide⟩
  | sort => exact ⟨[source.readers, filter.readers], _, rfl, by decide⟩
  | group => exact ⟨[source.readers, filter.readers, sort.readers], _, rfl, by decide⟩
  | flatten =>
    exact ⟨[source.readers, filter.readers, sort.readers, group.readers], _, rfl, by decide⟩
  | limit =>
    exact ⟨[source.readers, filter.readers, sort.readers, group.readers, flatten.readers], _, rfl,
      by decide⟩

theorem clash_by (key : ClauseKey) :
    ∀ v ∈ key.words.head?, clash "by".toList (v.map Char.toLower) := by
  cases key <;> decide

theorem name_eq (key : ClauseKey) : String.ofList (joinWith [' '] key.words) = key.name := by
  cases key <;> decide

end ClauseKey

def SpellsAll (words ps : List (List Char)) : Prop := ps.map (·.map Char.toUpper) = words

section
variable {words ps : List (List Char)} {kw rest : List Char}

theorem SpellsAll.upperChars (h : SpellsAll words ps) (hupper : ∀ w ∈ words, ∀ c ∈ w, c.isUpper) :
    ps.map Text.upperChars = words := by
  rw [← h]
  apply List.map_congr_left
  intro p hp
  apply (spells_self p).upperChars
  intro c hc
  exact hupper _ (h ▸ List.mem_map_of_mem hp) c hc

theorem readWords?_spaced (hs : Spaced ps kw) (h : SpellsAll words ps)
    (hupper : ∀ w ∈ words, w ≠ [] ∧ ∀ c ∈ w, c.isUpper) (rest : List Char) :
    Clause.readWords? (words.map fun w => String.ofList (w.map Char.toLower)) (kw ++ rest) =
      some (ps, rest) := by
  rw [← h] at hupper ⊢
  clear h
  induction hs with
  | one p =>
    have hp := hupper _ (List.mem_map_of_mem List.mem_cons_self)
    have hread := (spells_self p).readWord? hp.2 rest
    rw [List.map_cons, List.map_nil, List.map_cons, List.map_nil, Clause.readWords?,
      String.toList_ofList, hread]
    rfl
  | @more p gap text ps hne hgap htext ih =>
    have hp := hupper _ (List.mem_map_of_mem List.mem_cons_self)
    have hmore : ∀ w ∈ ps.map (·.map Char.toUpper), w ≠ [] ∧ ∀ c ∈ w, c.isUpper :=
      fun w hw => hupper w (List.mem_cons_of_mem _ hw)
    have hsolid : ∀ q ∈ ps, Solid q := by
      intro q hq
      have hq := hmore _ (List.mem_map_of_mem hq)
      exact (spells_self q).solid hq.2 hq.1
    have hread := (spells_self p).readWord? hp.2 (gap ++ (text ++ rest))
    have hskip : skipBlanks (gap ++ (text ++ rest)) = text ++ rest := by
      have htextsolid := htext.solid hsolid
      rw [skipBlanks_append hgap, skipBlanks_of_head]
      rw [head?_append_of_solid htextsolid]
      exact htextsolid.2.1
    have hhead : (gap ++ (text ++ rest)).head?.any isBlank = true := by
      cases gap with
      | nil => exact absurd rfl hne
      | cons c gap => exact hgap c List.mem_cons_self
    have hrest := ih hmore
    rw [List.append_assoc, List.append_assoc, List.map_cons, List.map_cons, Clause.readWords?,
      String.toList_ofList, hread]
    · simp only [Option.bind_eq_bind, Option.bind_some, hhead, if_true, hskip, hrest]
      rfl
    · intro hnil
      cases htext <;> cases hnil

theorem readWord?_clash_spaced {other : List Char} {key : ClauseKey} (hs : Spaced ps kw)
    (h : SpellsAll key.words ps)
    (hclash : ∀ v ∈ key.words.head?, clash other (v.map Char.toLower)) (rest : List Char) :
    readWord? other (kw ++ rest) = none := by
  have hupper := key.words_upper
  obtain ⟨p, more, hp, hkw⟩ : ∃ p more, ps.head? = some p ∧ kw = p ++ more := by
    cases hs with
    | one => exact ⟨kw, [], rfl, (List.append_nil kw).symm⟩
    | @more p gap text =>
      exact ⟨p, gap ++ text, rfl, List.append_assoc p gap text⟩
  have hhead : p.map Char.toUpper ∈ key.words.head? := by
    rw [← h, List.head?_map, hp]
    rfl
  have hcapital := (hupper _ (List.mem_of_mem_head? hhead)).2
  rw [hkw, List.append_assoc]
  exact readWord?_of_clash (spells_self p) hcapital (hclash _ hhead) (more ++ rest)

/-- A keyword with blanks around it is read. -/
theorem readKeyword_key {key : ClauseKey} {before : Option Cell} {c : Cell} {cs : List Cell}
    (hbefore : before.all fun b => Clause.mayPrecede b.shown) (hs : Spaced ps kw)
    (h : SpellsAll key.words ps) (hshown : c.shown :: Cell.shownText cs = kw ++ rest)
    (hrest : Parted rest) :
    Clause.readKeyword before c cs = some (key.name, kw.length - 1) := by
  have hupper := key.words_upper
  obtain ⟨tried, others, hkeywords, htried⟩ := key.exists_split
  have hlength : cs.length + 1 = kw.length + rest.length := by
    have hlength := congrArg List.length hshown
    rw [List.length_cons, Cell.shownText, List.length_map, List.length_append] at hlength
    exact hlength
  have hfound : keywordAt key.readers (kw ++ rest) cs.length = some (key.name, kw.length - 1) := by
    have hend : (rest.isEmpty || rest.head?.any isBlank) = true := by
      cases rest with
      | nil => rfl
      | cons d rest => exact hrest d rfl
    rw [keywordAt, ClauseKey.readers, readWords?_spaced hs h hupper rest]
    simp only [hend, if_true, h.upperChars fun w hw => (hupper w hw).2, key.name_eq]
    congr 2
    omega
  have hnone : ∀ ws ∈ tried, keywordAt ws (kw ++ rest) cs.length = none := by
    intro ws hws
    obtain ⟨w, hw, hclash⟩ := htried ws hws
    exact keywordAt_none hw (readWord?_clash_spaced hs h hclash rest) cs.length
  rw [readKeyword_eq, if_pos hbefore, hshown, hkeywords, List.findSome?_append, List.findSome?_cons,
    hfound, List.findSome?_eq_none_iff.mpr hnone]
  rfl

end

end NoteQuery
