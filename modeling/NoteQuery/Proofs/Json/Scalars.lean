import Mathlib.Data.List.TakeWhile
import NoteQuery.Proofs.Json.Grammar
import NoteQuery.Proofs.Text.Digits

/-! Numerals and texts inside interchange data are read as the grammar says. A numeral is read as far as it
goes, so what follows it must not go on with it; a text ends at its first quote that no backslash is before. -/

namespace NoteQuery.Json
set_option autoImplicit false
open Text

section
variable {cs part rest : List Char}

/-! ### Numerals -/

/-- What follows a numeral is no part of one. -/
def EndsNumeral (rest : List Char) : Prop :=
  ∀ c ∈ rest.head?, c.isDigit = false ∧ c ≠ '.' ∧ c ≠ 'e' ∧ c ≠ 'E'

theorem drop_takeWhile (p : Char → Bool) (cs : List Char) :
    cs.drop (cs.takeWhile p).length = cs.dropWhile p := by
  have hsplit := List.takeWhile_append_dropWhile (p := p) (l := cs)
  generalize cs.takeWhile p = front, cs.dropWhile p = back at hsplit ⊢
  rw [← hsplit, List.drop_left]

theorem sign_sound (cs : List Char) :
    ∃ part, cs = part ++ (Numeral.sign cs).2 ∧ SignPart part (Numeral.sign cs).1 := by
  unfold Numeral.sign
  split
  · exact ⟨_, rfl, .minus⟩
  · exact ⟨_, rfl, .plus⟩
  · exact ⟨_, rfl, .absent⟩

theorem SignPart.read {negative : Bool} (h : SignPart part negative)
    (hrest : ∀ c ∈ rest.head?, c.isDigit = true) :
    Numeral.sign (part ++ rest) = (negative, rest) := by
  cases h with
  | plus => rfl
  | minus => rfl
  | absent =>
    cases rest with
    | nil => rfl
    | cons c rest =>
      have hc := hrest c rfl
      unfold Numeral.sign
      split
      · next heq =>
        cases heq
        exact absurd hc (by decide)
      · next heq =>
        cases heq
        exact absurd hc (by decide)
      · rfl

theorem fraction_sound (cs : List Char) :
    ∃ part, cs = part ++ (fraction cs).2 ∧ FractionPart part (fraction cs).1 := by
  unfold fraction
  split
  · next tail =>
    dsimp only
    split
    · exact ⟨[], rfl, .absent⟩
    · next hne =>
      refine ⟨'.' :: tail.takeWhile Char.isDigit, ?_, .present (by simpa using hne) fun c hc => ?_⟩
      · rw [drop_takeWhile, List.cons_append, List.takeWhile_append_dropWhile]
      · exact List.mem_takeWhile_imp hc
  · exact ⟨[], rfl, .absent⟩

theorem FractionPart.read {ds : List Char} (h : FractionPart part ds)
    (hrest : ∀ c ∈ rest.head?, c.isDigit = false ∧ c ≠ '.') : fraction (part ++ rest) = (ds, rest) := by
  cases h with
  | absent =>
    unfold fraction
    split
    · next heq => exact absurd rfl (hrest '.' (by rw [← List.nil_append rest, heq]; rfl)).2
    · rfl
  | present hne hdigits =>
    have htake := takeWhile_append hdigits fun c hc => (hrest c hc).1
    simp only [fraction, List.cons_append, htake, List.drop_left]
    rw [if_neg (by simpa using hne)]

theorem FractionPart.nil_iff {ds : List Char} (h : FractionPart part ds) : part = [] ↔ ds = [] := by
  cases h with
  | absent => exact Iff.rfl
  | present hne => exact iff_of_false (List.cons_ne_nil _ _) hne

theorem ExponentPart.nil_iff {e : Option Int} (h : ExponentPart part e) : part = [] ↔ e = none := by
  cases h with
  | absent => exact iff_of_true rfl rfl
  | present => exact iff_of_false (List.cons_ne_nil _ _) (Option.some_ne_none _)

theorem exponent_sound (cs : List Char) :
    ∃ part, cs = part ++ (exponent cs).2 ∧ ExponentPart part (exponent cs).1 := by
  unfold exponent
  split
  · next c tail =>
    dsimp only
    split
    · next hmark =>
      obtain ⟨sign, htail, hsign⟩ := sign_sound tail
      simp only [Bool.and_eq_true, Bool.or_eq_true, beq_iff_eq, Bool.not_eq_true',
        List.isEmpty_eq_false_iff] at hmark
      refine ⟨c :: (sign ++ (Numeral.sign tail).2.takeWhile Char.isDigit), ?_,
        .present hmark.1 hsign hmark.2 fun c hc => List.mem_takeWhile_imp hc⟩
      rw [drop_takeWhile, List.cons_append, List.append_assoc, List.takeWhile_append_dropWhile, ← htail]
    · exact ⟨[], rfl, .absent⟩
  · exact ⟨[], rfl, .absent⟩

theorem head?_append_of_forall {p : Char → Prop} {ds : List Char} (hne : ds ≠ [])
    (h : ∀ c ∈ ds, p c) (rest : List Char) : ∀ c ∈ (ds ++ rest).head?, p c := by
  cases ds with
  | nil => exact absurd rfl hne
  | cons d ds =>
    intro c hc
    cases hc
    exact h d List.mem_cons_self

theorem ExponentPart.read {e : Option Int} (h : ExponentPart part e) (hrest : EndsNumeral rest) :
    exponent (part ++ rest) = (e, rest) := by
  cases h with
  | absent =>
    cases rest with
    | nil => rfl
    | cons c rest =>
      obtain ⟨-, -, hlower, hupper⟩ := hrest c rfl
      simp [exponent, hlower, hupper]
  | present hmark hsign hne hdigits =>
    have hread := hsign.read (head?_append_of_forall hne hdigits rest)
    have htake := takeWhile_append hdigits fun c hc => (hrest c hc).1
    simp only [exponent, List.cons_append, List.append_assoc, hread, htake, List.drop_left]
    rw [if_pos]
    simp only [Bool.and_eq_true, Bool.or_eq_true, beq_iff_eq, Bool.not_eq_true',
      List.isEmpty_eq_false_iff]
    exact ⟨hmark, hne⟩

theorem unsigned?_sound {negative : Bool} {n : Number} (h : unsigned? negative cs = some (n, rest)) :
    ∃ part, cs = part ++ rest ∧ IsNumeral (Binary64.signText negative ++ part) n := by
  obtain ⟨point, hpoint, hfraction⟩ := fraction_sound (cs.dropWhile Char.isDigit)
  obtain ⟨mark, hmark, hexponent⟩ := exponent_sound (fraction (cs.dropWhile Char.isDigit)).2
  have hcs : cs = cs.takeWhile Char.isDigit ++ (point ++ (mark ++ (exponent (fraction
      (cs.dropWhile Char.isDigit)).2).2)) := by
    rw [← hmark, ← hpoint, List.takeWhile_append_dropWhile]
  unfold unsigned? at h
  dsimp only at h
  split at h
  · cases h
  · next hwhole =>
    simp only [List.isEmpty_iff, not_or, not_and, not_not] at hwhole
    have hwhole : IsWhole (cs.takeWhile Char.isDigit) :=
      ⟨hwhole.1, fun c hc => List.mem_takeWhile_imp hc, hwhole.2⟩
    simp only [List.isEmpty_iff, Option.isNone_iff_eq_none, ← hfraction.nil_iff,
      ← hexponent.nil_iff] at h
    split at h
    · next hplain =>
      cases h
      rw [hplain.1, hplain.2] at hcs
      exact ⟨_, hcs, .int hwhole⟩
    · next hreal =>
      cases h
      refine ⟨_, by rw [List.append_assoc, List.append_assoc]; exact hcs,
        .real hwhole hfraction hexponent fun hnil => hreal ?_⟩
      exact List.append_eq_nil_iff.mp hnil

theorem number?_sound {n : Number} (h : number? cs = some (n, rest)) :
    ∃ part, cs = part ++ rest ∧ IsNumeral part n := by
  unfold number? at h
  split at h
  · obtain ⟨part, rfl, hpart⟩ := unsigned?_sound h
    exact ⟨'-' :: part, rfl, hpart⟩
  · exact unsigned?_sound h

theorem IsWhole.head_isDigit (h : IsWhole part) (rest : List Char) :
    ∀ c ∈ (part ++ rest).head?, c.isDigit = true :=
  head?_append_of_forall h.ne_nil h.isDigit rest

theorem IsWhole.unsigned? {negative : Bool} {whole point digits mark : List Char} {e : Option Int}
    (h : IsWhole whole) (hpoint : FractionPart point digits) (hmark : ExponentPart mark e)
    (hrest : EndsNumeral rest) :
    unsigned? negative (whole ++ (point ++ (mark ++ rest))) =
      if point = [] ∧ mark = [] then
        some (.int (Numeral.signed negative (naturalOfDigits whole)), rest)
      else some (.real (Numeral.realOf negative whole digits (e.getD 0)), rest) := by
  have hmarkHead : ∀ c ∈ (mark ++ rest).head?, c.isDigit = false ∧ c ≠ '.' := by
    cases hmark with
    | absent => exact fun c hc => ⟨(hrest c hc).1, (hrest c hc).2.1⟩
    | present hmark =>
      intro c hc
      cases hc
      obtain rfl | rfl := hmark <;> decide
  have hpointHead : ∀ c ∈ (point ++ (mark ++ rest)).head?, c.isDigit = false := by
    cases hpoint with
    | absent => exact fun c hc => (hmarkHead c hc).1
    | present =>
      intro c hc
      cases hc
      decide
  have hwhole : ¬(whole = [] ∨ (whole.head? = some '0' ∧ whole.length ≠ 1)) := by
    rintro (hnil | ⟨hzero, hlength⟩)
    · exact h.ne_nil hnil
    · exact hlength (h.noZero hzero)
  rw [Json.unsigned?]
  simp only [takeWhile_append h.isDigit hpointHead, dropWhile_append h.isDigit hpointHead,
    hpoint.read hmarkHead, hmark.read hrest, List.isEmpty_iff, Option.isNone_iff_eq_none, hwhole,
    if_false, hpoint.nil_iff, hmark.nil_iff]

theorem number?_signText {negative : Bool} (h : ∀ c ∈ cs.head?, c.isDigit = true) :
    number? (Binary64.signText negative ++ cs) = unsigned? negative cs := by
  cases negative with
  | true => rfl
  | false =>
    change number? cs = _
    unfold number?
    split
    · exact absurd (h '-' rfl) (by decide)
    · rfl

theorem IsNumeral.read {n : Number} (h : IsNumeral part n) (hrest : EndsNumeral rest) :
    number? (part ++ rest) = some (n, rest) := by
  cases h with
  | int hwhole =>
    rw [List.append_assoc, number?_signText (hwhole.head_isDigit rest)]
    exact (hwhole.unsigned? .absent .absent hrest).trans (if_pos ⟨rfl, rfl⟩)
  | real hwhole hpoint hmark hne =>
    rw [List.append_assoc, List.append_assoc, List.append_assoc,
      number?_signText (hwhole.head_isDigit _), hwhole.unsigned? hpoint hmark hrest, if_neg]
    rintro ⟨rfl, rfl⟩
    exact hne rfl

/-! ### Texts -/

theorem unit?_eq_some {n : Nat} : unit? cs = some (n, rest) ↔
    ∃ u, UnitEscape ('\\' :: 'u' :: u) n ∧ cs = u ++ rest := by
  constructor
  · intro h
    unfold unit? at h
    split at h
    · simp only [Option.bind_eq_bind, Option.bind_eq_some_iff, Option.pure_def, Option.some.injEq,
        Prod.mk.injEq] at h
      obtain ⟨i, hi, j, hj, k, hk, l, hl, rfl, rfl⟩ := h
      exact ⟨_, .digits hi hj hk hl, rfl⟩
    · cases h
  · rintro ⟨u, hu, rfl⟩
    cases hu with
    | digits ha hb hc hd => simp [unit?, ha, hb, hc, hd]

theorem startsLow_iff : StartsLow cs ↔
    ∃ tail k back, cs = '\\' :: 'u' :: tail ∧ unit? tail = some (k, back) ∧ isLowUnit k = true := by
  constructor
  · rintro ⟨v, k, hv, hlow, more, rfl⟩
    obtain ⟨u, rfl⟩ : ∃ u, v = '\\' :: 'u' :: u := by
      cases hv
      exact ⟨_, rfl⟩
    exact ⟨u ++ more, k, more, rfl, unit?_eq_some.mpr ⟨u, hv, rfl⟩, hlow⟩
  · rintro ⟨tail, k, back, rfl, hunit, hlow⟩
    obtain ⟨u, hu, rfl⟩ := unit?_eq_some.mp hunit
    exact ⟨_, k, hu, hlow, back, rfl⟩

theorem StartsLow.append (h : StartsLow cs) (more : List Char) : StartsLow (cs ++ more) := by
  obtain ⟨v, k, hv, hlow, hprefix⟩ := h
  exact ⟨v, k, hv, hlow, hprefix.trans (List.prefix_append cs more)⟩

/-- The characters of a unit, or of two, in a text whose rest is known. -/
theorem escaped?_sound {c : Char} {body ds more : List Char} (h : escaped? cs = some (c, rest))
    (hrest : rest = body ++ '"' :: more) (hbody : Body body ds) :
    ∃ u, '\\' :: 'u' :: cs = u ++ '"' :: more ∧ Body u (c :: ds) := by
  unfold escaped? at h
  simp only [Option.bind_eq_bind, Option.bind_eq_some_iff, Option.pure_def] at h
  obtain ⟨⟨n, tail⟩, hunit, h⟩ := h
  obtain ⟨u, hu, rfl⟩ := unit?_eq_some.mp hunit
  dsimp only at h
  split at h
  · next hhigh =>
    split at h
    · next tail =>
      split at h
      · next k back hsecond =>
        split at h
        · next hlow =>
          obtain ⟨v, hv, rfl⟩ := unit?_eq_some.mp hsecond
          simp only [Option.some.injEq, Prod.mk.injEq] at h
          obtain ⟨rfl, rfl⟩ := h
          subst hrest
          exact ⟨_, by simp, .pair hu hhigh hv hlow hbody⟩
        · next hlow =>
          simp only [Option.some.injEq, Prod.mk.injEq] at h
          obtain ⟨rfl, rfl⟩ := h
          refine ⟨_, by rw [hrest]; simp, .loneHigh hu hhigh (fun hstart => hlow ?_) hbody⟩
          obtain ⟨tail', k', back', htail, hunit', hlow'⟩ := startsLow_iff.mp (hstart.append _)
          rw [← hrest] at htail
          cases htail
          rw [hsecond] at hunit'
          cases hunit'
          exact hlow'
      · cases h
    · next hno =>
      simp only [Option.some.injEq, Prod.mk.injEq] at h
      obtain ⟨rfl, rfl⟩ := h
      refine ⟨_, by rw [hrest]; simp, .loneHigh hu hhigh (fun hstart => ?_) hbody⟩
      obtain ⟨tail', k', back', htail, -⟩ := startsLow_iff.mp (hstart.append _)
      exact hno tail' (hrest.trans htail)
  · next hhigh =>
    split at h
    · next hlow =>
      simp only [Option.some.injEq, Prod.mk.injEq] at h
      obtain ⟨rfl, rfl⟩ := h
      subst hrest
      exact ⟨_, by simp, .loneLow hu hlow hbody⟩
    · next hlow =>
      simp only [Option.some.injEq, Prod.mk.injEq] at h
      obtain ⟨rfl, rfl⟩ := h
      subst hrest
      exact ⟨_, by simp, .unit hu (by simpa using hhigh) (by simpa using hlow) hbody⟩

theorem reverse_cons_append (c : Char) (out ds : List Char) :
    (c :: out).reverse ++ ds = out.reverse ++ c :: ds := by
  rw [List.reverse_cons, List.append_assoc, List.singleton_append]

theorem text?_sound {fuel : Nat} {out : List Char} {s : String}
    (h : text? fuel out cs = some (s, rest)) :
    ∃ body ds, cs = body ++ '"' :: rest ∧ Body body ds ∧ s = String.ofList (out.reverse ++ ds) := by
  induction fuel generalizing out cs with
  | zero => cases h
  | succ fuel ih =>
    unfold text? at h
    split at h
    · cases h
    · cases h
      exact ⟨[], [], rfl, .nil, by rw [List.append_nil]⟩
    · simp only [Option.bind_eq_bind, Option.bind_eq_some_iff] at h
      obtain ⟨⟨c, tail⟩, hescaped, h⟩ := h
      obtain ⟨body, ds, htail, hbody, rfl⟩ := ih h
      obtain ⟨u, hu, hbody⟩ := escaped?_sound hescaped htail hbody
      exact ⟨u, c :: ds, hu, hbody, by rw [reverse_cons_append]⟩
    · simp only [Option.bind_eq_bind, Option.bind_eq_some_iff] at h
      obtain ⟨d, hsimple, h⟩ := h
      obtain ⟨body, ds, rfl, hbody, rfl⟩ := ih h
      exact ⟨_, d :: ds, rfl, .short hsimple hbody, by rw [reverse_cons_append]⟩
    · next c tail hquote hunit hshort =>
      split at h
      · cases h
      · next hplain =>
        simp only [Bool.or_eq_true, beq_iff_eq, decide_eq_true_eq, not_or, Nat.not_lt] at hplain
        obtain ⟨body, ds, rfl, hbody, rfl⟩ := ih h
        refine ⟨c :: body, c :: ds, rfl, .plain hplain.2 ?_ hplain.1 hbody,
          by rw [reverse_cons_append]⟩
        rintro rfl
        exact hquote rfl

theorem UnitEscape.read {u : List Char} {n : Nat} (h : UnitEscape u n) :
    ∃ ds, u = '\\' :: 'u' :: ds ∧ ∀ tail, unit? (ds ++ tail) = some (n, tail) := by
  cases h with
  | digits ha hb hc hd =>
    exact ⟨_, rfl, fun tail => unit?_eq_some.mpr ⟨_, .digits ha hb hc hd, rfl⟩⟩

theorem isHighUnit_of_isLowUnit {n : Nat} (h : isLowUnit n = true) : isHighUnit n = false := by
  simp only [isLowUnit, isHighUnit, Bool.and_eq_true, decide_eq_true_eq, Bool.and_eq_false_iff,
    decide_eq_false_iff_not] at h ⊢
  omega

/-- Where a body starts with a backslash and `u`, a unit stands there. -/
theorem Body.startsUnit {body ds tail more : List Char} (h : Body body ds)
    (hcs : body ++ '"' :: more = '\\' :: 'u' :: tail) : ∃ v k, UnitEscape v k ∧ v <+: body := by
  cases h with
  | nil => cases hcs
  | plain _ _ hne => exact absurd (List.cons.inj hcs).1 hne
  | short hsimple =>
    rw [(List.cons.inj (List.cons.inj hcs).2).1] at hsimple
    cases hsimple
  | unit hu => exact ⟨_, _, hu, List.prefix_append _ _⟩
  | pair hu => exact ⟨_, _, hu, List.prefix_append _ _⟩
  | loneLow hu => exact ⟨_, _, hu, List.prefix_append _ _⟩
  | loneHigh hu => exact ⟨_, _, hu, List.prefix_append _ _⟩

section
variable {fuel : Nat} {out : List Char} {c d : Char}

theorem text?_plain (hlow : 32 ≤ c.toNat) (hquote : c ≠ '"') (hslash : c ≠ '\\') :
    text? (fuel + 1) out (c :: cs) = text? fuel (c :: out) cs := by
  have hplain : ¬((c == '\\' || decide (c.toNat < 32)) = true) := by
    simp only [Bool.or_eq_true, beq_iff_eq, decide_eq_true_eq, not_or, Nat.not_lt]
    exact ⟨hslash, hlow⟩
  rw [text?.eq_def]
  dsimp only
  split
  · next heq => cases heq
  · next heq =>
    cases heq
    exact absurd rfl hquote
  · next heq =>
    cases heq
    exact absurd rfl hslash
  · next heq =>
    cases heq
    exact absurd rfl hslash
  · next heq =>
    cases heq
    rw [if_neg hplain]

theorem text?_escaped (h : escaped? cs = some (c, rest)) :
    text? (fuel + 1) out ('\\' :: 'u' :: cs) = text? fuel (c :: out) rest := by
  have hread : text? (fuel + 1) out ('\\' :: 'u' :: cs) =
      (escaped? cs).bind fun r => text? fuel (r.1 :: out) r.2 := rfl
  rw [hread, h, Option.bind_some]

theorem text?_short (h : simpleEscape? c = some d) :
    text? (fuel + 1) out ('\\' :: c :: cs) = text? fuel (d :: out) cs := by
  rw [text?.eq_def]
  dsimp only
  split
  · next heq => cases heq
  · next heq => cases heq
  · next heq =>
    cases heq
    cases h
  · next heq =>
    cases heq
    rw [h]
    rfl
  · next hno heq =>
    cases heq
    exact absurd rfl (hno c cs rfl)

end

/-- The high half of a pair that no low half follows is read alone. -/
theorem Body.escaped?_loneHigh {body ds us more : List Char} {n : Nat} (h : Body body ds)
    (hread : ∀ tail, unit? (us ++ tail) = some (n, tail)) (hhigh : isHighUnit n = true)
    (hno : ¬StartsLow body) : escaped? (us ++ (body ++ '"' :: more)) =
      some ('\ufffd', body ++ '"' :: more) := by
  simp only [escaped?, hread, hhigh, if_true, Option.bind_eq_bind, Option.bind_some]
  split
  · next tail heq =>
    obtain ⟨v, k, hv, hprefix⟩ := h.startsUnit heq
    have hlow : isLowUnit k = false := by
      by_contra hlow
      exact hno ⟨v, k, hv, by simpa using hlow, hprefix⟩
    obtain ⟨vs, rfl, hread'⟩ := hv.read
    obtain ⟨back, rfl⟩ := hprefix
    simp only [List.cons_append, List.append_assoc, List.cons.injEq, true_and] at heq
    simp [← heq, hread', hlow]
  · rfl

theorem Body.read {body ds : List Char} (h : Body body ds) {fuel : Nat} (hfuel : body.length < fuel)
    (out rest : List Char) :
    text? fuel out (body ++ '"' :: rest) = some (String.ofList (out.reverse ++ ds), rest) := by
  induction h generalizing fuel out with
  | nil =>
    obtain _ | fuel := fuel
    · cases hfuel
    · simp [text?]
  | @plain c cs ds hlow hquote hslash _ ih =>
    obtain _ | fuel := fuel
    · cases hfuel
    · simp only [List.length_cons, Nat.add_lt_add_iff_right] at hfuel
      rw [List.cons_append, text?_plain hlow hquote hslash, ih hfuel, reverse_cons_append]
  | @short c d cs ds hsimple _ ih =>
    obtain _ | fuel := fuel
    · cases hfuel
    · simp only [List.length_cons, Nat.add_lt_add_iff_right] at hfuel
      rw [List.cons_append, List.cons_append, text?_short hsimple, ih (by omega), reverse_cons_append]
  | unit hu hhigh hlow _ ih =>
    obtain ⟨us, rfl, hread⟩ := hu.read
    obtain _ | fuel := fuel
    · cases hfuel
    · simp only [List.length_cons, List.length_append] at hfuel
      simp only [List.cons_append, List.append_assoc]
      rw [text?_escaped, ih (by omega), reverse_cons_append]
      simp [escaped?, hread, hhigh, hlow]
  | pair hu hhigh hv hlow _ ih =>
    obtain ⟨us, rfl, hread⟩ := hu.read
    obtain ⟨vs, rfl, hread'⟩ := hv.read
    obtain _ | fuel := fuel
    · cases hfuel
    · simp only [List.length_cons, List.length_append] at hfuel
      simp only [List.cons_append, List.append_assoc]
      rw [text?_escaped, ih (by omega), reverse_cons_append]
      simp [escaped?, hread, hread', hhigh, hlow]
  | loneLow hu hlow _ ih =>
    obtain ⟨us, rfl, hread⟩ := hu.read
    obtain _ | fuel := fuel
    · cases hfuel
    · simp only [List.length_cons, List.length_append] at hfuel
      simp only [List.cons_append, List.append_assoc]
      rw [text?_escaped, ih (by omega), reverse_cons_append]
      simp [escaped?, hread, isHighUnit_of_isLowUnit hlow, hlow]
  | loneHigh hu hhigh hno hbody ih =>
    obtain ⟨us, rfl, hread⟩ := hu.read
    obtain _ | fuel := fuel
    · cases hfuel
    · simp only [List.length_cons, List.length_append] at hfuel
      simp only [List.cons_append, List.append_assoc]
      rw [text?_escaped (hbody.escaped?_loneHigh hread hhigh hno), ih (by omega), reverse_cons_append]

end

end NoteQuery.Json
