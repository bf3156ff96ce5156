import NoteQuery.Number.Numeral
import NoteQuery.Proofs.Number.Shortest
import NoteQuery.Proofs.Outcome.Yields

/-! Every computation with numbers, and every reader of numerals, rounds its result, so that floating-point
numbers have the canonical form all along. -/

namespace NoteQuery
set_option autoImplicit false

namespace Binary64

variable {x y : Binary64}

theorem canonical_zero (negative : Bool) : (zero negative).Canonical :=
  ⟨by decide, le_rfl, by decide, .inl rfl⟩

theorem canonical_nearestScaled (negative : Bool) (m : Nat) (e : Int) :
    (nearestScaled negative m e).Canonical := by
  unfold nearestScaled
  split
  · exact canonical_nearest _ _ one_pos
  · refine canonical_nearest _ _ ?_
    rw [Nat.shiftLeft_eq]
    positivity

theorem canonical_ofUnits (zeroSign : Bool) (u : Int) : (ofUnits zeroSign u).Canonical := by
  unfold ofUnits
  split
  · exact canonical_zero _
  · exact canonical_nearestScaled _ _ _

theorem canonical_ofInt (n : Int) : (ofInt n).Canonical := canonical_nearest _ _ one_pos

theorem canonical_neg (h : x.Canonical) : x.neg.Canonical := by
  cases x with
  | finite => exact h
  | _ => trivial

theorem canonical_add (x y : Binary64) : (x.add y).Canonical := by
  unfold add
  split
  · trivial
  · trivial
  · split <;> trivial
  · trivial
  · trivial
  · exact canonical_ofUnits _ _

theorem canonical_sub (x y : Binary64) : (x.sub y).Canonical := canonical_add x y.neg

theorem canonical_mul (x y : Binary64) : (x.mul y).Canonical := by
  unfold mul
  split
  · trivial
  · trivial
  · trivial
  · split <;> trivial
  · split <;> trivial
  · exact canonical_nearestScaled _ _ _

theorem canonical_div (x y : Binary64) : (x.div y).Canonical := by
  unfold div
  split
  · trivial
  · trivial
  · trivial
  · trivial
  · exact canonical_zero _
  · split
    · trivial
    · next hn =>
      split
      · exact canonical_nearest _ _ (Nat.pos_of_ne_zero hn)
      · refine canonical_nearest _ _ ?_
        rw [Nat.shiftLeft_eq]
        positivity

theorem canonical_rem? (hx : x.Canonical) : ∀ r ∈ x.rem? y, r.Canonical := by
  unfold rem?
  split
  · simp [Canonical]
  · simp [Canonical]
  · simp
  · simpa using hx
  · split
    · simp
    · rintro r hr
      cases hr
      split
      · exact canonical_zero _
      · exact canonical_nearestScaled _ _ _

end Binary64

theorem Decimal.canonical_toBinary64 (negative : Bool) (d : Decimal) :
    (d.toBinary64 negative).Canonical := by
  rw [toBinary64_eq]
  exact Binary64.canonical_ofRatio negative (by unfold value; positivity)

namespace Number

/-- A number as computations leave it. -/
def IsRounded : Number → Prop
  | int _ => True
  | real x => x.Canonical

/-- Neither an infinity nor what is no number. -/
def IsFinite : Number → Prop
  | int _ => True
  | real x => x.isFinite = true

variable {a b : Number} {ns : List Number}

theorem canonical_toBinary64 (h : a.IsRounded) : Ensures Binary64.Canonical a.toBinary64 := by
  cases a with
  | real x => exact h
  | int n =>
    rw [toBinary64]
    split
    · trivial
    · exact Binary64.canonical_ofInt n

theorem rounded_lift {onInt : Int → Int → Int} {onReal : Binary64 → Binary64 → Binary64}
    (h : ∀ x y, (onReal x y).Canonical) (a b : Number) : Ensures IsRounded (lift onInt onReal a b) := by
  unfold lift
  split
  · trivial
  · exact ensures_bind fun x _ => ensures_bind fun y _ => h x y

theorem rounded_add (a b : Number) : Ensures IsRounded (a.add b) :=
  rounded_lift Binary64.canonical_add a b

theorem rounded_sub (a b : Number) : Ensures IsRounded (a.sub b) :=
  rounded_lift Binary64.canonical_sub a b

theorem rounded_mul (a b : Number) : Ensures IsRounded (a.mul b) :=
  rounded_lift Binary64.canonical_mul a b

theorem rounded_div (a b : Number) : Ensures IsRounded (a.div b) := by
  unfold div
  split
  · next m n =>
    dsimp only
    split
    · trivial
    · next hn =>
      split
      · trivial
      · exact Binary64.canonical_nearest _ _ (Int.natAbs_pos.mpr hn)
  · refine ensures_bind fun x _ => ensures_bind fun y _ => ?_
    split
    · trivial
    · exact Binary64.canonical_div x y

theorem rounded_rem (ha : a.IsRounded) (b : Number) : Ensures IsRounded (a.rem b) := by
  unfold rem
  split
  · trivial
  · refine (canonical_toBinary64 ha).bind fun x hx => ensures_bind fun y _ => ?_
    split
    · next r hr => exact Binary64.canonical_rem? hx r hr
    · trivial

theorem rounded_neg (h : a.IsRounded) : a.neg.IsRounded := by
  cases a with
  | int n => trivial
  | real x => exact Binary64.canonical_neg h

theorem rounded_sum (ns : List Number) : Ensures IsRounded (sum ns) :=
  Yields.foldlM trivial fun total _ n _ => rounded_add total n

theorem rounded_average? (ns : List Number) :
    Ensures (fun n? => ∀ n ∈ n?, n.IsRounded) (average? ns) := by
  unfold average?
  split
  · simp [Yields]
  · refine ensures_bind fun total _ => ?_
    refine Yields.map ((rounded_div total _).imp (fun n hn => ?_) fun _ _ => trivial)
    simpa using hn

/-- An extreme is one of the numbers. -/
theorem rounded_foldl (better : Number → Number → Bool) (ha : a.IsRounded)
    (h : ∀ n ∈ ns, n.IsRounded) :
    (ns.foldl (fun best n => if better best n then n else best) a).IsRounded := by
  induction ns generalizing a with
  | nil => exact ha
  | cons n ns ih =>
    obtain ⟨hn, hns⟩ := List.forall_mem_cons.mp h
    refine ih ?_ hns
    dsimp only
    split
    · exact hn
    · exact ha

theorem rounded_least? (h : ∀ n ∈ ns, n.IsRounded) : ∀ n ∈ least? ns, n.IsRounded := by
  cases ns with
  | nil => simp [least?]
  | cons n ns =>
    obtain ⟨hn, hns⟩ := List.forall_mem_cons.mp h
    simpa [least?] using rounded_foldl (fun best m => m.lt best) hn hns

theorem rounded_greatest? (h : ∀ n ∈ ns, n.IsRounded) : ∀ n ∈ greatest? ns, n.IsRounded := by
  cases ns with
  | nil => simp [greatest?]
  | cons n ns =>
    obtain ⟨hn, hns⟩ := List.forall_mem_cons.mp h
    simpa [greatest?] using rounded_foldl lt hn hns

theorem rounded_roundTo (a : Number) (places : Int) : Ensures IsRounded (a.roundTo places) := by
  refine ensures_bind fun scaled _ => ensures_bind fun shifted _ => ensures_bind fun whole _ => ?_
  refine (rounded_div _ _).bind fun rounded hrounded => ?_
  split
  · split
    · trivial
    · exact hrounded
  · exact hrounded

end Number

/-! ### Numerals -/

namespace Numeral

theorem canonical_realOf (negative : Bool) (whole fraction : List Char) (e : Int) :
    (realOf negative whole fraction e).Canonical := Decimal.canonical_toBinary64 _ _

theorem canonical_leading? (cs : List Char) : ∀ x ∈ leading? cs, x.Canonical := by
  intro x hx
  simp only [leading?, Option.mem_def, Option.ite_none_left_eq_some, Option.some.injEq] at hx
  rw [← hx.2]
  exact canonical_realOf _ _ _ _

theorem canonical_real? (cs : List Char) : ∀ x ∈ real? cs, x.Canonical := by
  unfold real?
  dsimp only
  split
  · split
    · rintro x hx
      cases hx
      exact canonical_realOf _ _ _ _
    · simp
    · split
      · rintro x hx
        cases hx
        exact canonical_realOf _ _ _ _
      · simp
  · unfold word?
    dsimp only
    split
    · simp [Binary64.Canonical]
    · split <;> simp [Binary64.Canonical]

end Numeral
end NoteQuery
