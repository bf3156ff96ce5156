import NoteQuery.Proofs.Query.Brackets
import NoteQuery.Proofs.Query.Keywords

/-! Words that a text shows between blanks. Outside quotes such a word is a token of the text: the blank
before it ends every lexeme, and the word ends where no further character belongs to it. So a text with no
token `as` shows no `as` between blanks. -/

namespace NoteQuery
set_option autoImplicit false
open Text

section
variable {cs front more run : List Char} {b c : Char} {offset : Nat} {ts : List Token}

/-- What comes after a character that a front part does not have lies behind that part. -/
theorem exists_of_append_eq {p ms : List Char} (h : p ++ ms = front ++ b :: more) (hb : b ∉ p) :
    ∃ front', ms = front' ++ b :: more := by
  induction p generalizing front with
  | nil => exact ⟨front, h⟩
  | cons x p ih =>
    cases front with
    | nil =>
      cases h
      exact absurd List.mem_cons_self hb
    | cons y front =>
      refine ih (List.cons.inj h).2 ?_
      intro hp
      exact hb (List.mem_cons_of_mem x hp)

theorem head?_maskFrom (cs : List Char) : (maskFrom .outside cs).head? = cs.head? := by
  cases cs <;> rfl

theorem takeWhile_eq_of_length {p : Char → Bool} {as bs : List Char}
    (h : ((as ++ bs).takeWhile p).length = as.length) :
    (∀ a ∈ as, p a) ∧ ∀ b ∈ bs.head?, p b = false := by
  induction as with
  | nil =>
    refine ⟨fun a ha => absurd ha List.not_mem_nil, ?_⟩
    intro b hb
    cases bs with
    | nil => cases hb
    | cons d ds =>
      cases hb
      cases hp : p b with
      | false => rfl
      | true =>
        rw [List.nil_append, List.takeWhile_cons_of_pos hp] at h
        cases h
  | cons a as ih =>
    cases hp : p a with
    | false =>
      rw [List.cons_append, List.takeWhile_cons_of_neg (by simp [hp])] at h
      cases h
    | true =>
      rw [List.cons_append, List.takeWhile_cons_of_pos hp] at h
      obtain ⟨hall, hend⟩ := ih (Nat.succ.inj h)
      refine ⟨?_, hend⟩
      intro d hd
      rcases List.mem_cons.mp hd with rfl | hd
      · exact hp
      · exact hall d hd

theorem isInner_of_isWordStart (h : Lexeme.isWordStart c) : isInner c := by
  apply isInner_of_isWordPart
  simp only [Lexeme.isWordStart, Bool.or_eq_true] at h
  simp only [Lexeme.isWordPart, Char.isAlphanum, Bool.or_eq_true]
  rcases h with h | h
  · exact .inl (.inl h)
  · exact .inr h

/-- The word that a text shows first is its first token. -/
theorem Segmented.head_word (h : Segmented [] offset cs ts)
    (hmask : maskFrom .outside cs = c :: (run ++ more)) (hc : Lexeme.isWordStart c)
    (hrun : ∀ d ∈ run, Lexeme.isWordPart d) (hmore : ∀ d ∈ more.head?, Lexeme.isWordPart d = false)
    (hword : keyword? (c :: run) = none) :
    ∃ t ∈ ts, t.kind = .identifier ∧ t.text = String.ofList (c :: run) := by
  cases h with
  | nil => cases hmask
  | blank hd _ =>
    rw [maskFrom_blank hd] at hmask
    rw [(List.cons.inj hmask).1, isBlank_of_isWordStart hc] at hd
    cases hd
  | quoted hquote hinner _ =>
    rw [hinner.maskFrom_append hquote] at hmask
    rw [(List.cons.inj hmask).1, isQuote_of_isInner (isInner_of_isWordStart hc)] at hquote
    cases hquote
  | @lexeme _ _ d run' cs token? ts hd hquote hread _ =>
    rw [← List.cons_append, maskFrom_append_of_noQuote (noQuote_of_lexeme hquote hread)] at hmask
    obtain ⟨rfl, hshown⟩ := List.cons.inj hmask
    rw [ofChars_of_isWordStart hc] at hread
    have hextra := extra_word d (run' ++ (cs ++ []))
    rw [hread] at hextra
    obtain ⟨hrun', hend⟩ := takeWhile_eq_of_length hextra.symm
    rw [List.append_nil, ← head?_maskFrom] at hend
    have hsame : run' = run := by
      rw [← takeWhile_append hrun' hend, ← takeWhile_append hrun hmore]
      exact congrArg _ hshown
    subst hsame
    rw [Lexeme.word] at hread
    simp only [List.append_nil, takeWhile_append hrun' (head?_maskFrom cs ▸ hend), List.take_left,
      hword] at hread
    obtain ⟨rfl, -⟩ := Lexeme.mk.inj hread
    refine ⟨_, List.mem_append_left _ (List.mem_singleton_self _), rfl, ?_⟩
    rw [Lexeme.leading, List.take_left]

/-- A word that a text shows after a blank is a token of it. -/
theorem Segmented.mem_word (h : Segmented [] offset cs ts)
    (hmask : maskFrom .outside cs = front ++ b :: c :: (run ++ more)) (hb : isBlank b)
    (hc : Lexeme.isWordStart c) (hrun : ∀ d ∈ run, Lexeme.isWordPart d)
    (hmore : ∀ d ∈ more.head?, Lexeme.isWordPart d = false) (hword : keyword? (c :: run) = none) :
    ∃ t ∈ ts, t.kind = .identifier ∧ t.text = String.ofList (c :: run) := by
  induction h generalizing front with
  | nil => simp [maskFrom] at hmask
  | blank hd hcs ih =>
    rw [maskFrom_blank hd] at hmask
    cases front with
    | nil => exact hcs.head_word (List.cons.inj hmask).2 hc hrun hmore hword
    | cons y front => exact ih (List.cons.inj hmask).2
  | @quoted _ quote inner _ _ _ hquote hinner _ ih =>
    rw [hinner.maskFrom_append hquote] at hmask
    have hnot : b ∉ quote :: (List.replicate inner.length Quoting.mask ++ [quote]) := by
      intro hmem
      have hne : b ≠ quote := by
        rintro rfl
        rw [isQuote_of_isBlank hb] at hquote
        cases hquote
      simp only [List.mem_cons, hne, List.mem_append, List.not_mem_nil, or_false, false_or] at hmem
      rw [List.eq_of_mem_replicate hmem] at hb
      cases hb
    obtain ⟨front', hmask'⟩ := exists_of_append_eq hmask hnot
    obtain ⟨t, ht, hkind⟩ := ih hmask'
    exact ⟨t, List.mem_cons_of_mem _ ht, hkind⟩
  | @lexeme _ _ d run' _ _ _ hd hquote hread _ ih =>
    rw [← List.cons_append, maskFrom_append_of_noQuote (noQuote_of_lexeme hquote hread)] at hmask
    have hnot : b ∉ d :: run' := by
      intro hmem
      rcases List.mem_cons.mp hmem with rfl | hmem
      · rw [hb] at hd
        cases hd
      · have hinner := isInner_of_lexeme hread b hmem
        simp [isInner, hb] at hinner
    obtain ⟨front', hmask'⟩ := exists_of_append_eq hmask hnot
    obtain ⟨t, ht, hkind⟩ := ih hmask'
    exact ⟨t, List.mem_append_right _ ht, hkind⟩

end

/-! ### The word `as` -/

/-- No `as` stands between blanks, or between a blank and the end. -/
def ShowsNoAs (shown : List Char) : Prop :=
  ∀ ⦃front more : List Char⦄ ⦃b c d : Char⦄, shown = front ++ b :: c :: d :: more → isBlank b →
    isLetter 'a' c → isLetter 's' d → ¬ Parted more

def Ascii (cs : List Char) : Prop := ∀ c ∈ cs, c.toNat < 128

section
variable {cs p lead trail read rest : List Char} {c d : Char} {offset : Nat} {ts : List Token}

theorem mem_maskFrom {q : Quoting} (h : c ∈ maskFrom q cs) : c ∈ cs ∨ c = Quoting.mask := by
  induction cs generalizing q with
  | nil => cases h
  | cons x cs ih =>
    rw [maskFrom] at h
    rcases List.mem_cons.mp h with rfl | h
    · split
      · exact .inr rfl
      · exact .inl List.mem_cons_self
    · rcases ih h with h | h
      · exact .inl (List.mem_cons_of_mem x h)
      · exact .inr h

theorem Ascii.maskQuoted (h : Ascii cs) : Ascii (maskQuoted cs) := by
  intro c hc
  rcases mem_maskFrom hc with hc | rfl
  · exact h c hc
  · decide

/-- Of the ASCII characters only the letters themselves are read as the letters of `as`. -/
theorem as_of_isLetter (hc : c.toNat < 128) (hd : d.toNat < 128) (ha : isLetter 'a' c)
    (hs : isLetter 's' d) : (c = 'a' ∨ c = 'A') ∧ (d = 's' ∨ d = 'S') := by
  have hfirst : ∀ n < 128, isLetter 'a' (Char.ofNat n) → Char.ofNat n = 'a' ∨ Char.ofNat n = 'A' := by
    decide +kernel
  have hsecond : ∀ n < 128, isLetter 's' (Char.ofNat n) →
      Char.ofNat n = 's' ∨ Char.ofNat n = 'S' := by
    decide +kernel
  have hc' := hfirst c.toNat hc
  have hd' := hsecond d.toNat hd
  rw [Char.ofNat_toNat] at hc' hd'
  exact ⟨hc' ha, hd' hs⟩

/-- A text with no token `as` shows none between blanks. -/
theorem Segmented.showsNoAs (h : Segmented [] offset cs ts) (hascii : Ascii cs)
    (has : ∀ t ∈ ts, t.kind = .identifier → t.text.toList.map Char.toLower ≠ "as".toList) :
    ShowsNoAs (maskQuoted cs) := by
  intro front more b c d hmask hb hc hd hmore
  have hchars := hascii.maskQuoted
  rw [hmask] at hchars
  have hletters := as_of_isLetter (hchars c (by simp)) (hchars d (by simp)) hc hd
  have hword : Lexeme.isWordStart c ∧ (∀ x ∈ [d], Lexeme.isWordPart x) ∧ keyword? [c, d] = none ∧
      [c, d].map Char.toLower = "as".toList := by
    obtain ⟨rfl | rfl, rfl | rfl⟩ := hletters <;> decide
  obtain ⟨hstart, hpart, hkeyword, hlower⟩ := hword
  have hend : ∀ x ∈ more.head?, Lexeme.isWordPart x = false := by
    intro x hx
    cases hp : Lexeme.isWordPart x with
    | false => rfl
    | true =>
      have hinner := isInner_of_isWordPart hp
      simp [isInner, hmore x hx] at hinner
  have hshown : maskFrom .outside cs = front ++ b :: c :: ([d] ++ more) := hmask
  obtain ⟨t, ht, hkind, htext⟩ := h.mem_word hshown hb hstart hpart hend hkeyword
  apply has t ht hkind
  rw [htext, String.toList_ofList]
  exact hlower

theorem ShowsNoAs.of_around (h : ShowsNoAs (lead ++ p ++ trail)) (htrail : Blanks trail) :
    ShowsNoAs p := by
  intro front more b c d hp hb hc hd hmore
  subst hp
  have hall : lead ++ (front ++ b :: c :: d :: more) ++ trail =
      (lead ++ front) ++ b :: c :: d :: (more ++ trail) := by simp
  refine h hall hb hc hd ?_
  intro x hx
  rcases more with _ | ⟨y, more⟩
  · exact htrail x (List.mem_of_mem_head? hx)
  · exact hmore x hx

end
end NoteQuery
