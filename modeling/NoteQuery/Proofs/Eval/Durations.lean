import Mathlib.Algebra.Ring.Int.Defs
import NoteQuery.Proofs.Eval.Calls
import NoteQuery.Proofs.Query.Keywords
import NoteQuery.Proofs.Text.Digits

/-! Durations put together from amounts. A unit is read as far as its letters go: a spelling that differs at
some letter is not read, and one that goes on where the letters end is not read either. So every amount is
found, and what stands between amounts is passed over. -/

namespace NoteQuery
set_option autoImplicit false
open Text

/-! ### Characters -/

namespace Text

variable {c : Char}

theorem isLatinLetter_of_isDigit (h : c.isDigit) : isLatinLetter c = false :=
  forall_isDigit (p := (isLatinLetter · = false)) (by decide +kernel) h

theorem isLatinLetter_of_isBlank (h : isBlank c) : isLatinLetter c = false := by
  rw [isLatinLetter, lowerChar_of_isBlank h]
  exact forall_isBlank (p := fun c => (alike c).any (·.isAlpha) = false) (by decide +kernel) h

/-- What counts as no ASCII letter is not read as one. -/
theorem isLetter_of_isLatinLetter {l : Char} (hl : l.isAlpha) (h : isLatinLetter c = false) :
    isLetter l c = false := by
  have hcodes : ∀ n < 128, (Char.ofNat n).isAlpha →
      ∀ d ∈ alike (Char.ofNat n), (alike d).any (·.isAlpha) := by decide +kernel
  have hbounds := toNat_of_isAlpha hl
  have halike := hcodes l.toNat (by omega)
  rw [Char.ofNat_toNat] at halike
  cases hletter : isLetter l c with
  | false => rfl
  | true =>
    have hmem : lowerChar c ∈ alike l := List.contains_iff_mem.mp hletter
    have hlatin : isLatinLetter c = true := halike hl _ hmem
    rw [h] at hlatin
    cases hlatin

end Text

/-! ### Units -/

/-- What follows is no letter. -/
def EndsWord (rest : List Char) : Prop := ∀ c ∈ rest.head?, isLatinLetter c = false

/-- A word is not read where it goes on after the letters end. -/
theorem readWord?_of_endsWord {word cs rest : List Char} (h : Spells word cs) {l : Char} (hl : l.isAlpha)
    (more : List Char) (hrest : EndsWord rest) :
    readWord? (word.map Char.toLower ++ l :: more) (cs ++ rest) = none := by
  rw [← h]
  clear h
  induction cs with
  | nil =>
    cases rest with
    | nil => rfl
    | cons c rest => exact if_neg (by rw [isLetter_of_isLatinLetter hl (hrest c rfl)]; decide)
  | cons c cs ih =>
    rw [List.map_cons, List.map_cons, List.cons_append, List.cons_append, readWord?, ih]
    split <;> rfl

namespace TimeUnit

/-- A spelling is not read where another one is written: they differ at some letter, or the first goes on. -/
def misses (tried written : List Char) : Bool :=
  clash tried written || match after? written tried with
    | some (l :: _) => l.isAlpha
    | _ => false

theorem spellings_misses : spellings.Pairwise fun s t => misses s.1.toList t.1.toList := by
  decide +kernel

theorem spellings_upper : ∀ s ∈ spellings, (∀ c ∈ s.1.toList.map Char.toUpper, c.isUpper) ∧
    (s.1.toList.map Char.toUpper).map Char.toLower = s.1.toList := by
  decide +kernel

/-- A spelling in any case of ASCII letters. -/
def IsWritten (spelling : String) (cs : List Char) : Prop := Spells (spelling.toList.map Char.toUpper) cs

section
variable {s : String × TimeUnit} {cs rest tried : List Char}

theorem readSpelling?_of_misses (hs : s ∈ spellings) (h : IsWritten s.1 cs) (hrest : EndsWord rest)
    (hmiss : misses tried s.1.toList) : readSpelling? tried (cs ++ rest) = none := by
  obtain ⟨hupper, hlower⟩ := spellings_upper s hs
  have hread : readWord? tried (cs ++ rest) = none := by
    rcases Bool.or_eq_true_iff.mp hmiss with hclash | hlonger
    · rw [← hlower] at hclash
      exact readWord?_of_clash h hupper hclash rest
    · split at hlonger
      · next l more hafter =>
        rw [eq_append_of_after? hafter, ← hlower]
        exact readWord?_of_endsWord h hlonger more hrest
      · cases hlonger
  rw [readSpelling?, hread]

theorem readSpelling?_self (hs : s ∈ spellings) (h : IsWritten s.1 cs) (hrest : EndsWord rest) :
    readSpelling? s.1.toList (cs ++ rest) = some (cs, rest) := by
  obtain ⟨hupper, hlower⟩ := spellings_upper s hs
  have hread := h.readWord? hupper rest
  rw [hlower] at hread
  have hend : rest.head?.any isLatinLetter = false := by
    cases rest with
    | nil => rfl
    | cons c rest => exact hrest c rfl
  rw [readSpelling?, hread]
  simp only [hend, Bool.false_eq_true, if_false]

/-- Where letters end, the unit they spell is read. -/
theorem read?_of_isWritten (hs : s ∈ spellings) (h : IsWritten s.1 cs) (hrest : EndsWord rest) :
    read? (cs ++ rest) = some (s.2, cs, rest) := by
  obtain ⟨before, after, hsplit⟩ := List.append_of_mem hs
  have hmisses : ∀ t ∈ before, misses t.1.toList s.1.toList := by
    intro t ht
    have hpairs := spellings_misses
    rw [hsplit, List.pairwise_append] at hpairs
    exact hpairs.2.2 t ht s List.mem_cons_self
  have hnone : before.findSome?
      (fun t => (readSpelling? t.1.toList (cs ++ rest)).map fun r => (t.2, r)) = none := by
    rw [List.findSome?_eq_none_iff]
    intro t ht
    rw [readSpelling?_of_misses hs h hrest (hmisses t ht)]
    rfl
  rw [read?, hsplit, List.findSome?_append, hnone, List.findSome?_cons, readSpelling?_self hs h hrest]
  rfl

end

end TimeUnit

/-! ### Amounts -/

namespace Duration

/-- Decimal digits that denote a number, with zeros in front or without. -/
def Writes (n : Nat) (digits : List Char) : Prop :=
  digits ≠ [] ∧ (∀ c ∈ digits, c.isDigit) ∧ naturalOfDigits digits = n

theorem writes_toDigits (n : Nat) : Writes n (Nat.toDigits 10 n) :=
  ⟨Nat.toDigits_ne_nil, fun _ hc => Nat.isDigit_of_mem_toDigits (by decide) (by decide) hc,
    naturalOfDigits_toDigits n⟩

/-- An amount of a unit, with what stands between it and the next one. -/
structure Part where
  number : Nat
  digits : List Char
  writes : Writes number digits
  gap : List Char
  isGap : Blanks gap
  unit : String × TimeUnit
  isUnit : unit ∈ TimeUnit.spellings
  letters : List Char
  isWritten : TimeUnit.IsWritten unit.1 letters
  separator : List Char
  separates : ∀ c ∈ separator, isBlank c ∨ c = ','

namespace Part

def text (p : Part) : List Char := p.digits ++ (p.gap ++ (p.letters ++ p.separator))

def seconds (p : Part) : Int := p.number * p.unit.2.seconds

/-- Any number of any unit, with nothing around its digits and letters. -/
def plain (n : Nat) {unit : String × TimeUnit} (h : unit ∈ TimeUnit.spellings) : Part :=
  ⟨n, _, writes_toDigits n, [], .nil, unit, h, _, spells_self unit.1.toList, [], List.forall_mem_nil _⟩

instance : Inhabited Part := ⟨plain 0 List.mem_cons_self⟩

end Part

section
variable {rest : List Char}

theorem total_skip {c : Char} (hc : isDecimal c = false) : total (c :: rest) = total rest := by
  rw [total, hc, if_neg (by decide)]

theorem total_separator {separator : List Char} (h : ∀ c ∈ separator, isBlank c ∨ c = ',') :
    total (separator ++ rest) = total rest := by
  induction separator with
  | nil => rfl
  | cons c cs ih =>
    have hc : isDecimal c = false := by
      rcases h c List.mem_cons_self with hblank | rfl
      · exact isDecimal_of_isBlank hblank
      · decide
    rw [List.cons_append, total_skip hc, ih fun d hd => h d (List.mem_cons_of_mem c hd)]

theorem exists_letters (p : Part) : ∃ c cs, p.letters = c :: cs ∧ Cased c := by
  have hnonempty : ∀ s ∈ TimeUnit.spellings, s.1.toList.map Char.toUpper ≠ [] := by decide
  obtain ⟨hupper, -⟩ := TimeUnit.spellings_upper p.unit p.isUnit
  have hcased := Spells.cased p.isWritten hupper
  cases hletters : p.letters with
  | nil =>
    have hempty := p.isWritten
    rw [hletters] at hempty
    exact absurd hempty.symm (hnonempty p.unit p.isUnit)
  | cons c cs => exact ⟨c, cs, rfl, hcased c (hletters ▸ List.mem_cons_self)⟩

theorem amount_letters (p : Part) : amount p.digits p.unit.2 p.letters = .ok p.seconds := by
  obtain ⟨c, cs, hletters, hc⟩ := exists_letters p
  obtain ⟨-, -, hnumber⟩ := p.writes
  rw [hletters]
  unfold amount
  split
  · next heq =>
    cases heq
    exact absurd hc.letter (by decide)
  · rw [hnumber]
    rfl

/-- An amount is found where it is written. -/
theorem total_amount (p : Part) (hrest : EndsWord rest) :
    total (p.digits ++ (p.gap ++ (p.letters ++ rest))) = total rest >>= fun n => .ok (p.seconds + n) := by
  obtain ⟨hne, hdigits, -⟩ := p.writes
  obtain ⟨c, cs, hletters, hc⟩ := exists_letters p
  obtain ⟨d, ds, hcons⟩ := List.exists_cons_of_ne_nil hne
  have hdecimal : ∀ e ∈ d :: ds, isDecimal e := fun e he => isDecimal_of_isDigit (hdigits e (hcons ▸ he))
  have hmore : ∀ e ∈ ds, isDecimal e := fun e he => hdecimal e (List.mem_cons_of_mem d he)
  have hend : ∀ e ∈ (p.gap ++ (p.letters ++ rest)).head?, isDecimal e = false := by
    cases hgap : p.gap with
    | nil =>
      rw [hletters]
      rintro e ⟨⟩
      exact isDecimal_of_isAlpha hc.letter
    | cons g gs =>
      rintro e ⟨⟩
      exact isDecimal_of_isBlank (p.isGap g (hgap ▸ List.mem_cons_self))
  have hskip : skipBlanks (p.gap ++ (p.letters ++ rest)) = p.letters ++ rest := by
    rw [skipBlanks_append p.isGap, hletters, List.cons_append, skipBlanks_of_head]
    rintro e ⟨⟩
    exact hc.notBlank
  have hread := TimeUnit.read?_of_isWritten p.isUnit p.isWritten hrest
  have hamount := amount_letters p
  rw [hcons] at hamount
  rw [hcons, List.cons_append, total, if_pos (hdecimal d List.mem_cons_self)]
  split
  · next unit written after heq =>
    rw [dropWhile_append hmore hend, hskip, hread] at heq
    cases heq
    rw [takeWhile_append hmore hend, hamount]
    rfl
  · next heq =>
    rw [dropWhile_append hmore hend, hskip, hread] at heq
    cases heq

theorem endsWord_append {front : List Char} (hfront : ∀ c ∈ front, isLatinLetter c = false)
    (hrest : EndsWord rest) : EndsWord (front ++ rest) := by
  cases front with
  | nil => exact hrest
  | cons c cs =>
    rintro d ⟨⟩
    exact hfront c List.mem_cons_self

theorem total_part (p : Part) (hrest : EndsWord rest) :
    total (p.text ++ rest) = total rest >>= fun n => .ok (p.seconds + n) := by
  have hseparator : ∀ c ∈ p.separator, isLatinLetter c = false := by
    intro c hc
    rcases p.separates c hc with hblank | rfl
    · exact isLatinLetter_of_isBlank hblank
    · decide
  have hamount := total_amount p (endsWord_append hseparator hrest)
  rw [total_separator p.separates] at hamount
  simpa only [Part.text, List.append_assoc] using hamount

/-- After a part comes nothing, or the digits of the next one. -/
theorem endsWord_flatMap (ps : List Part) : EndsWord (ps.flatMap Part.text) := by
  cases ps with
  | nil => exact fun _ hc => by cases hc
  | cons p ps =>
    obtain ⟨hne, hdigits, -⟩ := p.writes
    obtain ⟨d, ds, hcons⟩ := List.exists_cons_of_ne_nil hne
    rw [List.flatMap_cons, Part.text, hcons]
    rintro c ⟨⟩
    exact isLatinLetter_of_isDigit (hdigits d (hcons ▸ List.mem_cons_self))

theorem total_flatMap (ps : List Part) : total (ps.flatMap Part.text) = .ok (ps.map Part.seconds).sum := by
  induction ps with
  | nil => rw [List.flatMap_nil, total]; rfl
  | cons p ps ih =>
    rw [List.flatMap_cons, total_part p (endsWord_flatMap ps), ih, List.map_cons, List.sum_cons]
    rfl

end

end Duration

end NoteQuery
