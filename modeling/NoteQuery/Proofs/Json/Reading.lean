import Mathlib.Data.List.Basic
import NoteQuery.Proofs.Json.Scalars

/-! The reader of interchange data finds the value that the grammar gives a text, and finds none where the
grammar gives none. Sound by induction on the fuel; complete by the same induction, since the fuel that is
enough grows with the text. -/

namespace NoteQuery.Json
set_option autoImplicit false
open Text

section
variable {cs part rest : List Char}

/-! ### Words and numerals -/

theorem word?_eq_some {w : String} {i j : Json} :
    word? w i cs = some (j, rest) ↔ j = i ∧ cs = w.toList ++ rest := by
  unfold word?
  split
  · next htake =>
    have hsplit := List.take_append_drop w.length cs
    rw [htake] at hsplit
    simp only [Option.some.injEq, Prod.mk.injEq]
    refine ⟨fun ⟨hj, hrest⟩ => ⟨hj.symm, by rw [← hrest, hsplit]⟩, fun ⟨hj, hcs⟩ => ⟨hj.symm, ?_⟩⟩
    rw [hcs] at hsplit ⊢
    exact List.append_cancel_left hsplit
  · next htake =>
    refine iff_of_false (Option.some_ne_none _).symm fun ⟨_, hcs⟩ => htake ?_
    rw [hcs, ← String.length_toList, List.take_left]

theorem scalar?_sound {j : Json} (h : scalar? cs = some (j, rest)) :
    ∃ part, cs = part ++ rest ∧ DenotesBare lenientWords part j := by
  obtain h | ⟨-, h⟩ := Option.or_eq_some_iff.mp h
  · obtain ⟨⟨w, i⟩, hmem, hword⟩ := List.exists_of_findSome?_eq_some h
    obtain ⟨rfl, hcs⟩ := word?_eq_some.mp hword
    exact ⟨_, hcs, .word hmem⟩
  · obtain ⟨⟨n, tail⟩, hnumber, h⟩ := Option.map_eq_some_iff.mp h
    cases h
    obtain ⟨part, hcs, hpart⟩ := number?_sound hnumber
    exact ⟨part, hcs, .number hpart⟩

/-- Each word of a reader is told from the others by its first character. -/
theorem lenientWords_pairwise :
    lenientWords.Pairwise fun v w => v.1.toList.head? ≠ w.1.toList.head? := by
  decide

theorem lenientWords_ne_nil : ∀ w ∈ lenientWords, w.1.toList ≠ [] := by
  decide

theorem scalar?_word {w : String} {j : Json} (h : (w, j) ∈ lenientWords) (rest : List Char) :
    scalar? (w.toList ++ rest) = some (j, rest) := by
  have hword : word? w j (w.toList ++ rest) = some (j, rest) := word?_eq_some.mpr ⟨rfl, rfl⟩
  obtain ⟨before, after, hsplit⟩ := List.append_of_mem h
  have hpairwise := lenientWords_pairwise
  rw [hsplit] at hpairwise
  have hbefore : ∀ v ∈ before, word? v.1 v.2 (w.toList ++ rest) = none := by
    intro v hv
    by_contra hsome
    obtain ⟨⟨i, back⟩, hother⟩ := Option.ne_none_iff_exists'.mp hsome
    have hhead := congrArg List.head? (word?_eq_some.mp hother).2
    rw [List.head?_append_of_ne_nil _ (lenientWords_ne_nil _ h), List.head?_append_of_ne_nil _
      (lenientWords_ne_nil v (hsplit ▸ List.mem_append_left _ hv))] at hhead
    exact (List.pairwise_append.mp hpairwise).2.2 v hv _ List.mem_cons_self hhead.symm
  have hfirst := List.findSome?_eq_some_iff.mpr ⟨before, (w, j), after, hsplit, hword, hbefore⟩
  rw [scalar?, hfirst]
  rfl

/-- A digit, or a minus and a digit. -/
def startsNumeral : List Char → Bool
  | '-' :: c :: _ => c.isDigit
  | c :: _ => c.isDigit
  | [] => false

theorem startsNumeral_word {w : String} {j : Json} (h : (w, j) ∈ lenientWords) (rest : List Char) :
    startsNumeral (w.toList ++ rest) = false := by
  simp only [lenientWords, standardWords, List.cons_append, List.nil_append, List.mem_cons,
    Prod.mk.injEq, List.not_mem_nil, or_false] at h
  obtain ⟨rfl, -⟩ | ⟨rfl, -⟩ | ⟨rfl, -⟩ | ⟨rfl, -⟩ | ⟨rfl, -⟩ | ⟨rfl, -⟩ := h <;> rfl

theorem IsNumeral.startsNumeral {n : Number} (h : IsNumeral part n) (rest : List Char) :
    startsNumeral (part ++ rest) = true := by
  have hsign {negative : Bool} {whole : List Char} (hwhole : IsWhole whole) (more : List Char) :
      Json.startsNumeral (Binary64.signText negative ++ (whole ++ more)) = true := by
    obtain ⟨c, ds, rfl⟩ := List.exists_cons_of_ne_nil hwhole.ne_nil
    have hc := hwhole.isDigit c List.mem_cons_self
    cases negative with
    | true => exact hc
    | false =>
      change Json.startsNumeral (c :: (ds ++ more)) = true
      unfold Json.startsNumeral
      split
      · next heq =>
        rw [(List.cons.inj heq).1] at hc
        exact absurd hc (by decide)
      · next heq =>
        rw [← (List.cons.inj heq).1]
        exact hc
      · next heq => cases heq
  cases h with
  | int hwhole =>
    rw [List.append_assoc]
    exact hsign hwhole rest
  | real hwhole =>
    rw [List.append_assoc, List.append_assoc]
    exact hsign hwhole _

theorem IsNumeral.scalar? {n : Number} (h : IsNumeral part n) (hrest : EndsNumeral rest) :
    scalar? (part ++ rest) = some (number n, rest) := by
  have hwords : (lenientWords.findSome? fun w => word? w.1 w.2 (part ++ rest)) = none := by
    refine List.findSome?_eq_none_iff.mpr fun w hmem => ?_
    by_contra hsome
    obtain ⟨⟨j, back⟩, hword⟩ := Option.ne_none_iff_exists'.mp hsome
    have hstart := h.startsNumeral rest
    rw [(word?_eq_some.mp hword).2, startsNumeral_word hmem] at hstart
    cases hstart
  rw [Json.scalar?, hwords, h.read hrest]
  rfl

/-! ### What is read is a value -/

theorem skipGaps_append {gap : List Char} (h : IsGap gap) (cs : List Char) :
    skipGaps (gap ++ cs) = skipGaps cs := List.dropWhile_append_of_pos h

theorem skipGaps_sound (cs : List Char) : ∃ gap, IsGap gap ∧ cs = gap ++ skipGaps cs :=
  ⟨cs.takeWhile isGap, fun _ hc => List.mem_takeWhile_imp hc,
    (List.takeWhile_append_dropWhile (p := isGap)).symm⟩

theorem skipGaps_of_head (h : ∀ c ∈ cs.head?, isGap c = false) : skipGaps cs = cs := by
  cases cs with
  | nil => rfl
  | cons c cs => rw [skipGaps, List.dropWhile_cons_of_neg (by simp [h c rfl])]

theorem skipGaps_cons {c : Char} (h : isGap c = false) (cs : List Char) :
    skipGaps (c :: cs) = c :: cs := by
  rw [skipGaps, List.dropWhile_cons_of_neg (by simp [h])]

theorem IsGap.append {gap gap' : List Char} (h : IsGap gap) (h' : IsGap gap') : IsGap (gap ++ gap') := by
  intro c hc
  obtain hc | hc := List.mem_append.mp hc
  · exact h c hc
  · exact h' c hc

theorem IsGap.nil : IsGap [] := fun _ hc => absurd hc List.not_mem_nil

variable {words : List (String × Json)}

theorem Denotes.gap {gap : List Char} {j : Json} (hgap : IsGap gap) (h : Denotes words cs j) :
    Denotes words (gap ++ cs) j := by
  cases h with
  | padded hlead hbare htrail =>
    rw [← List.append_assoc]
    exact .padded (hgap.append hlead) hbare htrail

theorem DenotesItems.gap {gap : List Char} {js : List Json} (hgap : IsGap gap)
    (h : DenotesItems words cs js) : DenotesItems words (gap ++ cs) js := by
  cases h with
  | one hj => exact .one (hj.gap hgap)
  | more hj hjs =>
    rw [← List.append_assoc]
    exact .more (hj.gap hgap) hjs

theorem IsName.gap {gap : List Char} {k : String} (hgap : IsGap gap) (h : IsName cs k) :
    IsName (gap ++ cs) k := by
  cases h with
  | padded hlead htext htrail =>
    rw [← List.append_assoc]
    exact .padded (hgap.append hlead) htext htrail

theorem DenotesMembers.gap {gap : List Char} {ms : List (String × Json)} (hgap : IsGap gap)
    (h : DenotesMembers words cs ms) : DenotesMembers words (gap ++ cs) ms := by
  cases h with
  | one hname hj =>
    rw [← List.append_assoc]
    exact .one (hname.gap hgap) hj
  | more hname hj hms =>
    rw [← List.append_assoc]
    exact .more (hname.gap hgap) hj hms

theorem text_sound {fuel : Nat} {s : String} (h : text? fuel [] cs = some (s, rest)) :
    ∃ part, '"' :: cs = part ++ rest ∧ IsText part s := by
  obtain ⟨body, ds, rfl, hbody, rfl⟩ := text?_sound h
  exact ⟨_, by simp, .quoted hbody⟩

/-- What the readers have read is what the grammar says. -/
structure IsSound (fuel : Nat) : Prop where
  value {cs rest : List Char} {j : Json} : value? fuel cs = some (j, rest) →
    ∃ part, cs = part ++ rest ∧ DenotesBare lenientWords part j
  items {out : List Json} {cs rest : List Char} {j : Json} : items? fuel out cs = some (j, rest) →
    ∃ part js, cs = part ++ ']' :: rest ∧ DenotesItems lenientWords part js ∧
      j = array (out.reverse ++ js)
  members {out : List (String × Json)} {cs rest : List Char} {j : Json} :
    members? fuel out cs = some (j, rest) →
    ∃ part ms, cs = part ++ '\x7d' :: rest ∧ DenotesMembers lenientWords part ms ∧
      j = object (ms.foldl (fun out m => insertMember out m.1 m.2) out)

theorem IsSound.value_succ {fuel : Nat} {j : Json} (ih : IsSound fuel)
    (h : value? (fuel + 1) cs = some (j, rest)) :
    ∃ part, cs = part ++ rest ∧ DenotesBare lenientWords part j := by
  unfold value? at h
  split at h
  · obtain ⟨⟨s, back⟩, htext, h⟩ := Option.map_eq_some_iff.mp h
    cases h
    obtain ⟨part, hcs, hpart⟩ := text_sound htext
    exact ⟨part, hcs, .text hpart⟩
  · next tail =>
    obtain ⟨gap, hgap, htail⟩ := skipGaps_sound tail
    split at h
    · next heq =>
      cases h
      rw [heq] at htail
      exact ⟨_, by rw [htail]; simp, .noItems hgap⟩
    · obtain ⟨part, js, hrest, hpart, rfl⟩ := ih.items h
      rw [hrest] at htail
      exact ⟨_, by rw [htail]; simp, .array (hpart.gap hgap)⟩
  · next tail =>
    obtain ⟨gap, hgap, htail⟩ := skipGaps_sound tail
    split at h
    · next heq =>
      cases h
      rw [heq] at htail
      exact ⟨_, by rw [htail]; simp, .noMembers hgap⟩
    · obtain ⟨part, ms, hrest, hpart, rfl⟩ := ih.members h
      rw [hrest] at htail
      exact ⟨_, by rw [htail]; simp, .object (hpart.gap hgap)⟩
  · exact scalar?_sound h

theorem IsSound.items_succ {fuel : Nat} {out : List Json} {j : Json} (ih : IsSound fuel)
    (h : items? (fuel + 1) out cs = some (j, rest)) :
    ∃ part js, cs = part ++ ']' :: rest ∧ DenotesItems lenientWords part js ∧
      j = array (out.reverse ++ js) := by
  unfold items? at h
  simp only [Option.bind_eq_bind, Option.bind_eq_some_iff] at h
  obtain ⟨⟨i, tail⟩, hvalue, h⟩ := h
  obtain ⟨part, rfl, hpart⟩ := ih.value hvalue
  obtain ⟨gap, hgap, htail⟩ := skipGaps_sound tail
  have hitem : Denotes lenientWords (part ++ gap) i := .padded .nil hpart hgap
  dsimp only at h
  split at h
  · next back heq =>
    obtain ⟨lead, hlead, hback⟩ := skipGaps_sound back
    obtain ⟨more, js, hmore, hjs, rfl⟩ := ih.items h
    rw [heq, hback, hmore] at htail
    exact ⟨_, _, by rw [htail]; simp, .more hitem (hjs.gap hlead), by simp⟩
  · next back heq =>
    cases h
    rw [heq] at htail
    exact ⟨_, _, by rw [htail]; simp, .one hitem, by simp⟩
  · cases h

theorem IsSound.members_succ {fuel : Nat} {out : List (String × Json)} {j : Json} (ih : IsSound fuel)
    (h : members? (fuel + 1) out cs = some (j, rest)) :
    ∃ part ms, cs = part ++ '\x7d' :: rest ∧ DenotesMembers lenientWords part ms ∧
      j = object (ms.foldl (fun out m => insertMember out m.1 m.2) out) := by
  unfold members? at h
  split at h
  · next start =>
    simp only [Option.bind_eq_bind, Option.bind_eq_some_iff] at h
    obtain ⟨⟨k, afterName⟩, htext, h⟩ := h
    obtain ⟨name, hstart, hname⟩ := text_sound htext
    obtain ⟨gap, hgap, hafterName⟩ := skipGaps_sound afterName
    have hname : IsName (name ++ gap) k := .padded .nil hname hgap
    rw [hafterName] at hstart
    dsimp only at h
    split at h
    · next afterColon hcolon =>
      obtain ⟨⟨i, tail⟩, hvalue, h⟩ := Option.bind_eq_some_iff.mp h
      obtain ⟨before, hbefore, hafterColon⟩ := skipGaps_sound afterColon
      obtain ⟨part, hvalueText, hpart⟩ := ih.value hvalue
      obtain ⟨after, hafter, htail⟩ := skipGaps_sound tail
      have hvalue : Denotes lenientWords (before ++ (part ++ after)) i := .padded hbefore hpart hafter
      rw [hcolon, hafterColon, hvalueText, htail] at hstart
      dsimp only at h
      split at h
      · next back heq =>
        obtain ⟨lead, hlead, hback⟩ := skipGaps_sound back
        obtain ⟨more, ms, hmore, hms, rfl⟩ := ih.members h
        rw [heq, hback, hmore] at hstart
        exact ⟨_, _, by rw [hstart]; simp, .more hname hvalue (hms.gap hlead), rfl⟩
      · next back heq =>
        cases h
        rw [heq] at hstart
        exact ⟨_, _, by rw [hstart]; simp, .one hname hvalue, rfl⟩
      · cases h
    · cases h
  · cases h

theorem isSound (fuel : Nat) : IsSound fuel := by
  induction fuel with
  | zero =>
    constructor
    · intro _ _ _ h
      cases h
    · intro _ _ _ _ h
      cases h
    · intro _ _ _ _ h
      cases h
  | succ fuel ih => exact ⟨ih.value_succ, ih.items_succ, ih.members_succ⟩

/-! ### Every value is read -/

/-- What follows a value is the end of an array or an object, or of one of its parts, or nothing. -/
def EndsValue (rest : List Char) : Prop := ∀ c ∈ rest.head?, c = ',' ∨ c = ']' ∨ c = '\x7d'

theorem EndsValue.skipGaps {gap : List Char} (hgap : IsGap gap) (h : EndsValue rest) :
    skipGaps (gap ++ rest) = rest := by
  rw [skipGaps_append hgap, skipGaps_of_head]
  intro c hc
  obtain rfl | rfl | rfl := h c hc <;> decide

theorem EndsValue.endsNumeral {gap : List Char} (hgap : IsGap gap) (h : EndsValue rest) :
    EndsNumeral (gap ++ rest) := by
  intro c hc
  cases gap with
  | nil => obtain rfl | rfl | rfl := h c hc <;> decide
  | cons d gap =>
    cases hc
    have hd := hgap c List.mem_cons_self
    simp only [isGap, Bool.or_eq_true, beq_iff_eq] at hd
    obtain ((rfl | rfl) | rfl) | rfl := hd <;> decide

/-- A character that no blank, text, array or object starts with, and that ends none. -/
def startsScalar (c : Char) : Bool :=
  !(isGap c || c == '"' || c == '[' || c == ']' || c == '\x7b' || c == '\x7d')

theorem value?_scalar {fuel : Nat} (h : ∀ c ∈ cs.head?, startsScalar c = true) :
    value? (fuel + 1) cs = scalar? cs := by
  unfold value?
  split
  · exact absurd (h '"' rfl) (by decide)
  · exact absurd (h '[' rfl) (by decide)
  · exact absurd (h '\x7b' rfl) (by decide)
  · rfl

theorem startsScalar_of_isDigit {c : Char} (h : c.isDigit = true) : startsScalar c = true := by
  have hne {d : Char} (hd : d.isDigit = false) : (c == d) = false := by
    rw [beq_eq_false_iff_ne]
    rintro rfl
    rw [h] at hd
    cases hd
  simp only [startsScalar, isGap, Bool.not_eq_true', Bool.or_eq_false_iff]
  exact ⟨⟨⟨⟨⟨⟨⟨⟨hne rfl, hne rfl⟩, hne rfl⟩, hne rfl⟩, hne rfl⟩, hne rfl⟩, hne rfl⟩, hne rfl⟩, hne rfl⟩

theorem startsScalar_of_startsNumeral (h : startsNumeral cs = true) :
    ∀ c ∈ cs.head?, startsScalar c = true := by
  intro c hc
  unfold startsNumeral at h
  split at h
  · cases hc
    decide
  · cases hc
    exact startsScalar_of_isDigit h
  · cases hc

theorem startsScalar_word : ∀ w ∈ lenientWords, ∀ c ∈ w.1.toList.head?, startsScalar c = true := by
  have hall : ∀ w ∈ lenientWords, w.1.toList.head?.all startsScalar = true := by decide
  exact fun w hw => (Option.all_eq_true _ _).mp (hall w hw)

theorem IsText.value? {s : String} (h : IsText part s) {fuel : Nat} (rest : List Char) :
    value? (fuel + 1) (part ++ rest) = some (text s, rest) := by
  cases h with
  | @quoted cs ds hbody =>
    have hlength : cs.length < (cs ++ '"' :: rest).length + 1 := by
      rw [List.length_append]
      omega
    have hread := hbody.read hlength [] rest
    rw [List.cons_append, List.append_assoc, List.singleton_append, Json.value?, hread]
    rfl

/-- Where a value starts after blanks: at no blank, and at no end. -/
theorem DenotesBare.head {j : Json} (h : DenotesBare lenientWords part j) (rest : List Char) :
    ∃ c tail, part ++ rest = c :: tail ∧ isGap c = false ∧ c ≠ ']' := by
  have hscalar (hstart : ∀ c ∈ (part ++ rest).head?, startsScalar c = true)
      (hne : part ++ rest ≠ []) : ∃ c tail, part ++ rest = c :: tail ∧ isGap c = false ∧ c ≠ ']' := by
    obtain ⟨c, tail, heq⟩ := List.exists_cons_of_ne_nil hne
    rw [heq] at hstart
    have hc := hstart c rfl
    simp only [startsScalar, Bool.not_eq_true', Bool.or_eq_false_iff, beq_eq_false_iff_ne] at hc
    exact ⟨c, tail, heq, hc.1.1.1.1.1, hc.1.1.2⟩
  cases h with
  | @word w _ hmem =>
    have hne := lenientWords_ne_nil _ hmem
    refine hscalar ?_ (List.append_ne_nil_of_left_ne_nil hne rest)
    rw [List.head?_append_of_ne_nil _ hne]
    exact startsScalar_word _ hmem
  | number hn =>
    have hstart := hn.startsNumeral rest
    refine hscalar (startsScalar_of_startsNumeral hstart) fun hnil => ?_
    rw [hnil] at hstart
    cases hstart
  | text ht =>
    cases ht
    exact ⟨_, _, rfl, rfl, by decide⟩
  | noItems => exact ⟨_, _, rfl, rfl, by decide⟩
  | array => exact ⟨_, _, rfl, rfl, by decide⟩
  | noMembers => exact ⟨_, _, rfl, rfl, by decide⟩
  | object => exact ⟨_, _, rfl, rfl, by decide⟩

theorem DenotesBare.skipGaps {j : Json} (h : DenotesBare lenientWords part j) (rest : List Char) :
    skipGaps (part ++ rest) = part ++ rest := by
  obtain ⟨c, tail, heq, hgap, -⟩ := h.head rest
  rw [heq, skipGaps_cons hgap]

/-- A name is read up to its colon. -/
theorem IsName.read {k : String} (h : IsName part k) (tail : List Char) :
    ∃ inner after, skipGaps (part ++ ':' :: tail) = '"' :: inner ∧
      text? (inner.length + 1) [] inner = some (k, after) ∧ skipGaps after = ':' :: tail := by
  cases h with
  | @padded gap _ gap' _ hgap htext hgap' =>
    cases htext with
    | @quoted cs ds hbody =>
      have hlength : cs.length < (cs ++ '"' :: (gap' ++ ':' :: tail)).length + 1 := by
        rw [List.length_append]
        omega
      refine ⟨cs ++ '"' :: (gap' ++ ':' :: tail), gap' ++ ':' :: tail, ?_,
        hbody.read hlength [] _, ?_⟩
      · rw [List.append_assoc, skipGaps_append hgap, List.append_assoc, List.cons_append,
          List.append_assoc, List.singleton_append]
        exact skipGaps_cons rfl _
      · rw [skipGaps_append hgap', skipGaps_cons rfl]

theorem DenotesItems.head {js : List Json} (h : DenotesItems lenientWords part js) (rest : List Char) :
    ∃ c tail, skipGaps (part ++ rest) = c :: tail ∧ c ≠ ']' := by
  have hitem {cs : List Char} {j : Json} (hj : Denotes lenientWords cs j) (rest : List Char) :
      ∃ c tail, skipGaps (cs ++ rest) = c :: tail ∧ c ≠ ']' := by
    cases hj with
    | padded hgap hbare =>
      obtain ⟨c, tail, heq, hc, hne⟩ := hbare.head (_ ++ rest)
      rw [List.append_assoc, List.append_assoc, skipGaps_append hgap, heq, skipGaps_cons hc]
      exact ⟨c, tail, rfl, hne⟩
  cases h with
  | one hj => exact hitem hj rest
  | more hj =>
    rw [List.append_assoc]
    exact hitem hj _

theorem DenotesMembers.head {ms : List (String × Json)} (h : DenotesMembers lenientWords part ms)
    (rest : List Char) : ∃ inner, skipGaps (part ++ rest) = '"' :: inner := by
  cases h with
  | one hname =>
    rw [List.append_assoc, List.cons_append]
    obtain ⟨inner, -, heq, -⟩ := hname.read _
    exact ⟨inner, heq⟩
  | more hname =>
    rw [List.append_assoc, List.cons_append]
    obtain ⟨inner, -, heq, -⟩ := hname.read _
    exact ⟨inner, heq⟩

theorem endsValue_cons {c : Char} (h : c = ',' ∨ c = ']' ∨ c = '\x7d') (rest : List Char) :
    EndsValue (c :: rest) := by
  intro d hd
  cases hd
  exact h

/-- What the grammar says is read, as far as the fuel allows. -/
structure IsComplete (fuel : Nat) : Prop where
  value {part rest : List Char} {j : Json} : DenotesBare lenientWords part j → part.length ≤ fuel →
    EndsNumeral rest → value? fuel (part ++ rest) = some (j, rest)
  items {part : List Char} {js : List Json} : DenotesItems lenientWords part js → part.length < fuel →
    ∀ out rest, items? fuel out (skipGaps (part ++ ']' :: rest)) =
      some (array (out.reverse ++ js), rest)
  members {part : List Char} {ms : List (String × Json)} : DenotesMembers lenientWords part ms →
    part.length < fuel → ∀ out rest, members? fuel out (skipGaps (part ++ '\x7d' :: rest)) =
      some (object (ms.foldl (fun out m => insertMember out m.1 m.2) out), rest)

section
variable {fuel : Nat} {j : Json} {js : List Json} {ms : List (String × Json)}

theorem IsComplete.padded (ih : IsComplete fuel) (h : Denotes lenientWords part j)
    (hfuel : part.length ≤ fuel) (hrest : EndsValue rest) :
    ∃ tail, value? fuel (skipGaps (part ++ rest)) = some (j, tail) ∧ skipGaps tail = rest := by
  cases h with
  | @padded gap cs gap' _ hgap hbare hgap' =>
    simp only [List.length_append] at hfuel
    have hread := ih.value hbare (by omega) (hrest.endsNumeral hgap')
    refine ⟨gap' ++ rest, ?_, hrest.skipGaps hgap'⟩
    rw [List.append_assoc, List.append_assoc, skipGaps_append hgap, hbare.skipGaps, hread]

theorem IsComplete.value_succ (ih : IsComplete fuel) (h : DenotesBare lenientWords part j)
    (hfuel : part.length ≤ fuel + 1) (hrest : EndsNumeral rest) :
    value? (fuel + 1) (part ++ rest) = some (j, rest) := by
  cases h with
  | @word w _ hmem =>
    rw [value?_scalar, scalar?_word hmem]
    rw [List.head?_append_of_ne_nil _ (lenientWords_ne_nil _ hmem)]
    exact startsScalar_word _ hmem
  | number hn =>
    rw [value?_scalar, hn.scalar? hrest]
    exact startsScalar_of_startsNumeral (hn.startsNumeral rest)
  | text ht => exact ht.value? rest
  | @noItems gap hgap =>
    have hskip : skipGaps (gap ++ ']' :: rest) = ']' :: rest := by
      rw [skipGaps_append hgap, skipGaps_cons rfl]
    rw [List.cons_append, List.append_assoc, List.singleton_append, value?, hskip]
    rfl
  | @array cs js hitems =>
    simp only [List.length_cons, List.length_append, List.length_nil] at hfuel
    have hread := ih.items hitems (by omega) [] rest
    obtain ⟨c, tail, heq, hne⟩ := hitems.head (']' :: rest)
    rw [List.cons_append, List.append_assoc, List.singleton_append, value?, heq]
    split
    · next hclose => exact absurd (List.cons.inj hclose).1 hne
    · rw [← heq, hread]
      rfl
  | @noMembers gap hgap =>
    have hskip : skipGaps (gap ++ '\x7d' :: rest) = '\x7d' :: rest := by
      rw [skipGaps_append hgap, skipGaps_cons rfl]
    rw [List.cons_append, List.append_assoc, List.singleton_append, value?, hskip]
    rfl
  | @object cs ms hmembers =>
    simp only [List.length_cons, List.length_append, List.length_nil] at hfuel
    have hread := ih.members hmembers (by omega) [] rest
    obtain ⟨inner, heq⟩ := hmembers.head ('\x7d' :: rest)
    rw [List.cons_append, List.append_assoc, List.singleton_append, value?, heq]
    split
    · next hclose => cases hclose
    · rw [← heq, hread]
      rfl

theorem IsComplete.items_succ (ih : IsComplete fuel) (h : DenotesItems lenientWords part js)
    (hfuel : part.length < fuel + 1) (out : List Json) (rest : List Char) :
    items? (fuel + 1) out (skipGaps (part ++ ']' :: rest)) =
      some (array (out.reverse ++ js), rest) := by
  cases h with
  | one hj =>
    obtain ⟨tail, hvalue, hskip⟩ :=
      ih.padded hj (by omega) (endsValue_cons (.inr (.inl rfl)) rest)
    simp [items?, hvalue, hskip]
  | @more cs items j js hj hjs =>
    simp only [List.length_append, List.length_cons] at hfuel
    obtain ⟨tail, hvalue, hskip⟩ :=
      ih.padded hj (by omega) (endsValue_cons (.inl rfl) (items ++ ']' :: rest))
    have hread := ih.items hjs (by omega) (j :: out) rest
    rw [List.append_assoc, List.cons_append]
    simp [items?, hvalue, hskip, hread]

theorem IsComplete.members_succ (ih : IsComplete fuel) (h : DenotesMembers lenientWords part ms)
    (hfuel : part.length < fuel + 1) (out : List (String × Json)) (rest : List Char) :
    members? (fuel + 1) out (skipGaps (part ++ '\x7d' :: rest)) =
      some (object (ms.foldl (fun out m => insertMember out m.1 m.2) out), rest) := by
  cases h with
  | @one name cs k j hname hj =>
    simp only [List.length_append, List.length_cons] at hfuel
    obtain ⟨tail, hvalue, hskip⟩ :=
      ih.padded hj (by omega) (endsValue_cons (.inr (.inr rfl)) rest)
    obtain ⟨inner, after, hstart, htext, hcolon⟩ := hname.read (cs ++ '\x7d' :: rest)
    rw [List.append_assoc, List.cons_append, hstart]
    simp [members?, htext, hcolon, hvalue, hskip]
  | @more name cs more k j ms hname hj hms =>
    simp only [List.length_append, List.length_cons] at hfuel
    obtain ⟨tail, hvalue, hskip⟩ :=
      ih.padded hj (by omega) (endsValue_cons (.inl rfl) (more ++ '\x7d' :: rest))
    obtain ⟨inner, after, hstart, htext, hcolon⟩ := hname.read (cs ++ ',' :: (more ++ '\x7d' :: rest))
    have hread := ih.members hms (by omega) (insertMember out k j) rest
    rw [List.append_assoc, List.cons_append, List.append_assoc, List.cons_append, hstart]
    simp [members?, htext, hcolon, hvalue, hskip, hread]

theorem isComplete (fuel : Nat) : IsComplete fuel := by
  induction fuel with
  | zero =>
    constructor
    · intro part _ _ h hfuel
      obtain ⟨c, tail, heq, -⟩ := h.head []
      rw [List.append_nil] at heq
      rw [heq] at hfuel
      cases hfuel
    · intro _ _ _ hfuel
      cases hfuel
    · intro _ _ _ hfuel
      cases hfuel
  | succ fuel ih => exact ⟨ih.value_succ, ih.items_succ, ih.members_succ⟩

end

/-- A text is read as the value that it denotes, and any other text not at all. -/
theorem read?_eq_some {j : Json} : read? cs = some j ↔ Denotes lenientWords cs j := by
  constructor
  · intro h
    unfold read? at h
    obtain ⟨gap, hgap, hcs⟩ := skipGaps_sound cs
    split at h
    · next i rest hvalue =>
      obtain ⟨part, hpart, hdenotes⟩ := (isSound _).value hvalue
      obtain ⟨gap', hgap', hrest⟩ := skipGaps_sound rest
      split at h
      · next hempty =>
        cases h
        rw [List.isEmpty_iff.mp hempty, List.append_nil] at hrest
        rw [hpart, hrest] at hcs
        rw [hcs]
        exact .padded hgap hdenotes hgap'
      · cases h
    · cases h
  · intro h
    have hend : EndsValue [] := fun c hc => by cases hc
    obtain ⟨tail, hvalue, hskip⟩ :=
      (isComplete (2 * cs.length + 2)).padded h (by omega) hend
    rw [List.append_nil] at hvalue
    simp [read?, hvalue, hskip]

end

end NoteQuery.Json
